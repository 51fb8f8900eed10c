import RelayBench.ThriftCpp.Rpc

/-! # A call over a connection is a call of the handler

Over an idle connection the handler gets what the client sent, the client gets what the handler
returned or the text of what it threw, and the connection is idle again.
-/
namespace RelayBench.ThriftWire
open Readers BinaryProtocol RemoteCall
variable {S α : Type} {T : TProtocol} {view : View T}

/-! ## Reading and writing through a view -/

theorem reads_through {f : Reader T.In α} {g : Reader Input α} {bytes rest : List UInt8} {a : α}
    {room : ℕ} (hf : Reading view f g) (hg : Reads room g bytes a) (hroom : room ≤ recursionLimit)
    {i : T.In} (hview : view.input i = ⟨bytes ++ rest,0⟩) (hsmall : Small T (view.input i)) :
    ∃ j, f.run i = some (a,j) ∧ view.input j = ⟨rest,0⟩ := by
  apply hf.some hsmall
  rw [hview]
  exact hg rest 0 (by omega)

/-- A message is sent as its header and its body. -/
theorem sendMessage_sends (hdoc : Documented T view) {header : MessageHeader}
    (hname : header.name.length < 2 ^ 31) {body : Reader T.Out Unit} {body' : Reader Output Unit}
    {p : List UInt8} {room : ℕ} (hbody : Writing view body body') (hp : Writes room body' p)
    (hroom : room ≤ recursionLimit) {o : T.Out} (hview : view.output o = ⟨[],0⟩) :
    ∃ o', (sendMessage T header body).run o = some (messageBegin header ++ p,o') ∧
      view.output o' = ⟨[],0⟩ := by
  have hwriting : Writing view (sendMessage T header body)
      (sendMessage (documentedProtocol T.maxMessageSize) header body') :=
    (hdoc.writeMessageBegin header hname).bind (fun _ => hbody.bind (fun _ =>
      hdoc.writeMessageEnd.bind (fun _ => hdoc.writeEnd.bind (fun _ => hdoc.flush))))
  apply hwriting.some trivial
  rw [hview]
  have hheader := @put_writes room (messageBegin header) [] 0 (by omega)
  have hrest := hp (messageBegin header) 0 (by omega)
  rw [List.nil_append] at hheader
  unfold sendMessage
  rw [run_bind_some hheader, run_bind_some hrest]
  rfl

theorem endMessage_reading (hdoc : Documented T view) :
    Reading view (endMessage T) (endMessage (documentedProtocol T.maxMessageSize)) :=
  hdoc.readMessageEnd.bind (fun _ => hdoc.readEnd)

theorem endMessage_reads {n room : ℕ} :
    Reads room (endMessage (documentedProtocol n)) [] () := fun _ _ _ => rfl

/-! ## The messages -/

theorem benchName_eq : benchName = [98,101,110,99,104] := by decide

theorem benchName_length : benchName.length < 2 ^ 31 := by
  rw [benchName_eq]
  norm_num

def callBytes (arg : WireTiming) : List UInt8 :=
  messageBegin ⟨benchName,.call,0⟩ ++ structBytes (argFields arg)

def replyBytes (seqid ack : ℤ) : List UInt8 :=
  messageBegin ⟨benchName,.reply,seqid⟩ ++ structBytes (BenchResult.fields ⟨ack,true⟩)

def exceptionBytes (fname : List UInt8) (seqid : ℤ) (x : TApplicationException) : List UInt8 :=
  messageBegin ⟨fname,.exception,seqid⟩ ++ structBytes (exceptionFields x)

theorem messageBegin_length (h : MessageHeader) :
    (messageBegin h).length = 12 + h.name.length := by
  simp only [messageBegin, List.length_append, List.length_cons, List.length_nil, writeInt_length]
  omega

theorem callBytes_length (arg : WireTiming) :
    (callBytes arg).length = 51 + arg.source.length := by
  rw [callBytes, List.length_append, messageBegin_length, benchName_eq]
  simp only [structBytes, argFields, WireTiming.fields, Field.bytes, fieldBegin, List.length_append,
    List.length_cons, List.length_nil, writeInt_length]
  omega

theorem replyBytes_length (seqid ack : ℤ) : (replyBytes seqid ack).length = 29 := by
  rw [replyBytes, List.length_append, messageBegin_length, benchName_eq]
  simp [structBytes, BenchResult.fields, Field.bytes, fieldBegin]

theorem sendBench_sends (hdoc : Documented T view) {arg : WireTiming}
    (h : arg.source.length < 2 ^ 31) {o : T.Out} (hview : view.output o = ⟨[],0⟩) :
    ∃ o', (sendBench T arg).run o = some (callBytes arg,o') ∧ view.output o' = ⟨[],0⟩ :=
  sendMessage_sends hdoc benchName_length (argsWrite_writing hdoc _ arg)
    (@argsWrite_writes 0 _ _ h _) (by decide) hview

theorem sendResult_sends (hdoc : Documented T view) (seqid ack : ℤ) {o : T.Out}
    (hview : view.output o = ⟨[],0⟩) :
    ∃ o', (sendResult T seqid ack).run o = some (replyBytes seqid ack,o') ∧
      view.output o' = ⟨[],0⟩ :=
  sendMessage_sends hdoc benchName_length (benchResultWrite_writing hdoc _)
    (@benchResultWrite_writes 0 _ _) (by decide) hview

theorem sendException_sends (hdoc : Documented T view) {fname : List UInt8}
    (hfname : fname.length < 2 ^ 31) (seqid : ℤ) {x : TApplicationException}
    (hx : x.message.length < 2 ^ 31) {o : T.Out} (hview : view.output o = ⟨[],0⟩) :
    ∃ o', (sendException T fname seqid x).run o = some (exceptionBytes fname seqid x,o') ∧
      view.output o' = ⟨[],0⟩ := by
  have hwrites : Writes 0 (writeException x) (structBytes (exceptionFields x)) := by
    unfold writeException
    rw [if_pos hx]
    exact put_writes _
  exact sendMessage_sends hdoc hfname (hdoc.writeException x) hwrites (by decide) hview

/-! ## Application exceptions -/

theorem exceptionField_reads {n : ℕ} {f : Field} {x y : TApplicationException}
    (hf : f ∈ exceptionFields y) (hmessage : y.message.length < 2 ^ 31) (htype : Fits 4 y.type) :
    Reads n (exceptionField x f.type f.id) f.value
      (if f.id = 1 then { x with message := y.message } else { x with type := y.type }) := by
  simp only [exceptionFields, List.mem_cons, List.not_mem_nil, or_false] at hf
  rcases hf with rfl | rfl
  · exact (readString_reads hmessage).map (fun message => { x with message := message })
  · exact (readInt_reads htype).map (fun code => { x with type := code })

/-- An application exception is read as it was written. -/
theorem readException_reads {n : ℕ} {x : TApplicationException}
    (hmessage : x.message.length < 2 ^ 31) (htype : Fits 4 x.type) :
    Reads n readException (structBytes (exceptionFields x)) x := by
  intro rest depth hdepth
  have hvalid : ∀ f ∈ exceptionFields x, f.Valid := by
    intro f hf
    simp only [exceptionFields, List.mem_cons, List.not_mem_nil, or_false] at hf
    rcases hf with rfl | rfl <;> exact ⟨trivial,by norm_num [Fits]⟩
  have hfuel : (exceptionFields x).length <
      (structBytes (exceptionFields x) ++ rest).length + 1 := by
    have := length_lt_structBytes (exceptionFields x)
    rw [List.length_append]
    omega
  exact readFields_reads hvalid (fun f hf y => exceptionField_reads hf hmessage htype) hfuel
    ⟨0,[]⟩ rest depth hdepth

/-! ## The client's end -/

theorem skipUnexpected_reading (hdoc : Documented T view) (unexpected : Bool) :
    Reading view (skipUnexpected T unexpected)
      (skipUnexpected (documentedProtocol T.maxMessageSize) unexpected) := by
  unfold skipUnexpected
  split
  · exact (hdoc.skip .struct).bind (fun _ => endMessage_reading hdoc)
  · exact .pure ()

theorem recvResult_reading (hdoc : Documented T view) (fuel : ℕ) :
    Reading view (recvResult T fuel)
      (recvResult (documentedProtocol T.maxMessageSize) fuel) :=
  (benchResultRead_reading hdoc fuel .new).bind (fun _ => (endMessage_reading hdoc).bind
    (fun _ => .pure _))

theorem recvBench_reading (hdoc : Documented T view) (fuel : ℕ) :
    Reading view (recvBench T fuel) (recvBench (documentedProtocol T.maxMessageSize) fuel) := by
  refine hdoc.readMessageBegin.bind (fun header => ?_)
  split
  · exact hdoc.readException.bind (fun x => (endMessage_reading hdoc).bind (fun _ => .pure _))
  · exact (skipUnexpected_reading hdoc _).bind (fun _ => (skipUnexpected_reading hdoc _).bind
      (fun _ => recvResult_reading hdoc fuel))

theorem recvResult_reads {n fuel : ℕ} (hfuel : 1 < fuel) {ack : ℤ} (hack : Fits 8 ack) :
    Reads 2 (recvResult (documentedProtocol n) fuel)
      (structBytes (BenchResult.fields ⟨ack,true⟩)) (.ok ack) := by
  have hlast : lastValue 0 .i64 (BenchResult.fields ⟨ack,true⟩) = some (writeInt 8 ack) := by
    simp [lastValue, BenchResult.fields]
  have hafter : BenchResult.new.after (BenchResult.fields ⟨ack,true⟩) = ⟨ack,true⟩ := by
    unfold BenchResult.after
    rw [elim_of_some hlast (toInt_writeInt hack), hlast]
    rfl
  have hread := @benchResultRead_reads 1 n _ (BenchResult.fields_valid ⟨ack,true⟩) fuel hfuel .new
  rw [hafter] at hread
  exact hread.bind_nil (endMessage_reads.bind_nil (.pure _))

theorem recvBench_reply {n fuel : ℕ} (hfuel : 1 < fuel) {seqid ack : ℤ} (hseqid : Fits 4 seqid)
    (hack : Fits 8 ack) :
    Reads 2 (recvBench (documentedProtocol n) fuel) (replyBytes seqid ack) (.ok ack) := by
  have hheader : Reads 2 readMessageBegin (messageBegin ⟨benchName,.reply,seqid⟩)
      ⟨benchName,.reply,seqid⟩ := readMessageBegin_reads trivial benchName_length hseqid
  refine hheader.bind ?_
  rw [if_neg (show ¬TMessageType.reply = .exception by decide)]
  have hskip : ∀ b : Bool, b = false → Reads 2 (skipUnexpected (documentedProtocol n) b) [] () := by
    rintro b rfl
    exact .pure ()
  exact (hskip _ (by simp)).nil_bind ((hskip _ (by simp)).nil_bind (recvResult_reads hfuel hack))

theorem recvBench_exception {n : ℕ} (fuel : ℕ) {seqid : ℤ} (hseqid : Fits 4 seqid)
    {fname : List UInt8} (hfname : fname.length < 2 ^ 31) {x : TApplicationException}
    (hmessage : x.message.length < 2 ^ 31) (htype : Fits 4 x.type) :
    Reads 2 (recvBench (documentedProtocol n) fuel) (exceptionBytes fname seqid x)
      (.error x) := by
  have hheader : Reads 2 readMessageBegin (messageBegin ⟨fname,.exception,seqid⟩)
      ⟨fname,.exception,seqid⟩ := readMessageBegin_reads trivial hfname hseqid
  refine hheader.bind ?_
  rw [if_pos rfl]
  exact (readException_reads hmessage htype).bind_nil (endMessage_reads.bind_nil (.pure _))

/-! ## The server's end -/

/-- What is read where this was written: the members that were set. -/
def WireTiming.received (t : WireTiming) : WireTiming := { t with isset := ⟨true,true,true⟩ }

theorem WireTiming.Writable.received {t : WireTiming} (h : t.Writable) : t.received.Writable :=
  ⟨h.msgid,h.nanosec,h.source⟩

theorem readArgs_reading (hdoc : Documented T view) (fuel : ℕ) :
    Reading view (readArgs T fuel) (readArgs (documentedProtocol T.maxMessageSize) fuel) :=
  (benchArgsRead_reading hdoc fuel .new).bind (fun _ => (endMessage_reading hdoc).bind
    (fun _ => .pure _))

theorem readArgs_reads {n fuel : ℕ} (hfuel : 3 < fuel) {arg : WireTiming} (h : arg.Writable) :
    Reads 3 (readArgs (documentedProtocol n) fuel) (structBytes (argFields arg)) arg.received := by
  have hfields : Fields 1 arg.fields := h.fields
  have hread := @benchArgsRead_reads 1 n _ hfields fuel (by omega) hfuel .new
  rw [h.after] at hread
  exact hread.bind_nil (endMessage_reads.bind_nil (.pure _))

theorem process_call (hdoc : Documented T view) {fuel : ℕ} (hfuel : 3 < fuel) {arg : WireTiming}
    (h : arg.Writable) (iface : Handler S) {s : Server T S}
    (hview : view.input s.input = ⟨callBytes arg,0⟩) (hsmall : Small T (view.input s.input)) :
    ∃ input, view.input input = ⟨[],0⟩ ∧
      process T fuel iface s = answer T 0 input s.output (iface arg.received s.memory) := by
  have hheader : Reads 3 readMessageBegin (messageBegin ⟨benchName,.call,0⟩)
      ⟨benchName,.call,0⟩ := readMessageBegin_reads trivial benchName_length (by norm_num [Fits])
  obtain ⟨i,hrun,hi⟩ := reads_through hdoc.readMessageBegin hheader (by decide) hview hsmall
  have hsmall' : Small T (view.input i) := by
    unfold Small at hsmall ⊢
    rw [hview, callBytes, List.length_append] at hsmall
    rw [hi]
    dsimp only at hsmall ⊢
    omega
  obtain ⟨j,hargs,hj⟩ := @reads_through _ _ _ _ _ _ [] _ _ (readArgs_reading hdoc fuel)
    (readArgs_reads hfuel h) (by decide) _ (by rw [hi, List.append_nil]) hsmall'
  refine ⟨j,hj,?_⟩
  unfold process
  rw [hrun]
  dsimp only
  rw [if_pos (.inl rfl), dispatchCall, if_pos rfl, processBench]
  dsimp only
  rw [hargs]

/-! ## A whole call -/

/-- Nothing is under way on the connection. -/
structure Quiet (view : View T) (c : Connection T) : Prop where
  clientIn : view.input c.clientIn = ⟨[],0⟩
  clientOut : view.output c.clientOut = ⟨[],0⟩
  serverIn : view.input c.serverIn = ⟨[],0⟩
  serverOut : view.output c.serverOut = ⟨[],0⟩

/-- The arguments fit in a message. -/
structure WireTiming.Sendable (T : TProtocol) (arg : WireTiming) : Prop where
  writable : arg.Writable
  small : (callBytes arg).length ≤ T.maxMessageSize

/-- What the handler returns is an `int64_t` and what it throws fits in a message. -/
def Answerable (T : TProtocol) : Reply (Except (List UInt8) ℤ) → Prop
  | .replied (.ok ack) => Fits 8 ack ∧ (replyBytes 0 ack).length ≤ T.maxMessageSize
  | .replied (.error what) => what.length < 2 ^ 31 ∧
      (exceptionBytes benchName 0 ⟨UNKNOWN,what⟩).length ≤ T.maxMessageSize
  | _ => True

/-- What the client sees of it. -/
def outcome : Reply (Except (List UInt8) ℤ) → Reply (Except TApplicationException ℤ)
  | .replied (.ok ack) => .replied (.ok ack)
  | .replied (.error what) => .replied (.error ⟨UNKNOWN,what⟩)
  | .failed => .failed
  | .exited => .exited

theorem received_quiet (hdoc : Documented T view) {i : T.In} (hview : view.input i = ⟨[],0⟩)
    (bytes : List UInt8) : view.input (T.receive bytes i) = ⟨bytes,0⟩ := by
  rw [hdoc.receive, hview]
  rfl

/-- The client takes the answer that has arrived. -/
theorem recvBench_answer (hdoc : Documented T view) {fuel : ℕ} {bytes : List UInt8}
    {o : Except TApplicationException ℤ}
    (h : Reads 2 (recvBench (documentedProtocol T.maxMessageSize) fuel) bytes o)
    (hsmall : bytes.length ≤ T.maxMessageSize) {i : T.In} (hview : view.input i = ⟨[],0⟩) :
    ∃ j, (recvBench T fuel).run (T.receive bytes i) = some (o,j) ∧ view.input j = ⟨[],0⟩ := by
  have harrived := received_quiet hdoc hview bytes
  refine @reads_through _ _ _ _ _ _ [] _ _ (recvBench_reading hdoc fuel) h (by decide) _
    (by rw [harrived, List.append_nil]) ?_
  rw [harrived]
  exact hsmall

theorem bench_outcome (hdoc : Documented T view) {fuel : ℕ} (hfuel : 3 < fuel) {arg : WireTiming}
    (harg : arg.Sendable T) {iface : Handler S} {memory : S}
    (hanswer : Answerable T (iface arg.received memory).2) {c : Connection T}
    (hquiet : Quiet view c) :
    ∃ d, Quiet view d ∧ bench T fuel iface arg (c,memory) =
      ((d,(iface arg.received memory).1),outcome (iface arg.received memory).2) := by
  obtain ⟨clientOut,hsend,hout⟩ := sendBench_sends hdoc harg.writable.source hquiet.clientOut
  have harrived := received_quiet hdoc hquiet.serverIn (callBytes arg)
  obtain ⟨serverIn,hin,hprocess⟩ := @process_call _ _ _ hdoc _ hfuel _ harg.writable iface
    ⟨T.receive (callBytes arg) c.serverIn,c.serverOut,memory⟩ harrived
    (by rw [harrived]; exact harg.small)
  have hone : 1 < fuel := by omega
  unfold bench
  rw [hsend]
  dsimp only
  rw [hprocess]
  dsimp only
  rcases hcall : iface arg.received memory with ⟨memory',r⟩
  rw [hcall] at hanswer
  rcases r with (what | ack) | _ | _
  · obtain ⟨hwhat,hsmall⟩ := hanswer
    obtain ⟨serverOut,hreply,hsent⟩ := @sendException_sends _ _ hdoc _ benchName_length 0
      ⟨UNKNOWN,what⟩ hwhat _ hquiet.serverOut
    obtain ⟨clientIn,hrecv,hread⟩ := recvBench_answer hdoc (@recvBench_exception _ fuel 0
      (by norm_num [Fits]) _ benchName_length ⟨UNKNOWN,what⟩ hwhat (by norm_num [Fits, UNKNOWN]))
      hsmall hquiet.clientIn
    refine ⟨⟨clientIn,clientOut,serverIn,serverOut⟩,⟨hread,hout,hin,hsent⟩,?_⟩
    simp only [answer, Server.send, hreply, hrecv, outcome]
  · obtain ⟨hack,hsmall⟩ := hanswer
    obtain ⟨serverOut,hreply,hsent⟩ := sendResult_sends hdoc 0 ack hquiet.serverOut
    obtain ⟨clientIn,hrecv,hread⟩ := recvBench_answer hdoc (@recvBench_reply _ fuel hone 0 ack
      (by norm_num [Fits]) hack) hsmall hquiet.clientIn
    refine ⟨⟨clientIn,clientOut,serverIn,serverOut⟩,⟨hread,hout,hin,hsent⟩,?_⟩
    simp only [answer, Server.send, hreply, hrecv, outcome]
  · exact ⟨⟨c.clientIn,clientOut,serverIn,c.serverOut⟩,
      ⟨hquiet.clientIn,hout,hin,hquiet.serverOut⟩,rfl⟩
  · exact ⟨⟨c.clientIn,clientOut,serverIn,c.serverOut⟩,
      ⟨hquiet.clientIn,hout,hin,hquiet.serverOut⟩,rfl⟩

/-- The same calls made of the handler itself. -/
def callAll (iface : Handler S) : S → List WireTiming → S × List (Reply (Except (List UInt8) ℤ))
  | memory, [] => (memory,[])
  | memory, arg :: args =>
    match iface arg.received memory with
    | (m,.replied r) => ((callAll iface m args).1,.replied r :: (callAll iface m args).2)
    | (m,r) => (m,[r])

/-- Every sequence of calls over one connection runs the handler on exactly the arguments that
were sent, hands each outcome to the call it belongs to, and keeps the connection in step,
also after calls that threw. -/
theorem benchAll_eq_callAll (hdoc : Documented T view) {fuel : ℕ} (hfuel : 3 < fuel)
    {iface : Handler S}
    (hiface : ∀ arg memory, arg.Writable → Answerable T (iface arg memory).2)
    {args : List WireTiming} (hargs : ∀ arg ∈ args, arg.Sendable T) {c : Connection T}
    (hquiet : Quiet view c) (memory : S) :
    ∃ d, Quiet view d ∧ benchAll T fuel iface (c,memory) args =
      ((d,(callAll iface memory args).1),(callAll iface memory args).2.map outcome) := by
  induction args generalizing c memory with
  | nil => exact ⟨c,hquiet,rfl⟩
  | cons arg args ih =>
    obtain ⟨d,hd,hbench⟩ := bench_outcome hdoc hfuel (hargs arg List.mem_cons_self)
      (hiface arg.received memory (hargs arg List.mem_cons_self).writable.received) hquiet
    rcases hcall : iface arg.received memory with ⟨m,r⟩
    rw [hcall] at hbench
    obtain ⟨e,he,hrest⟩ := ih (fun x hx => hargs x (List.mem_cons_of_mem arg hx)) hd m
    rcases r with (what | ack) | _ | _
    · refine ⟨e,he,?_⟩
      simp only [benchAll, callAll, hbench, hcall, outcome, hrest, List.map_cons]
    · refine ⟨e,he,?_⟩
      simp only [benchAll, callAll, hbench, hcall, outcome, hrest, List.map_cons]
    · refine ⟨d,hd,?_⟩
      simp only [benchAll, callAll, hbench, hcall, outcome, List.map_cons, List.map_nil]
    · refine ⟨d,hd,?_⟩
      simp only [benchAll, callAll, hbench, hcall, outcome, List.map_cons, List.map_nil]

/-- A handler that counts its calls and throws where the message id is negative. -/
def rejectNegative : Handler ℕ := fun arg count =>
  (count + 1,.replied (if arg.msgid < 0 then .error [110,111] else .ok arg.msgid))

theorem rejectNegative_answerable (arg : WireTiming) (count : ℕ) (h : arg.Writable) :
    Answerable (documentedProtocol 100) (rejectNegative arg count).2 := by
  unfold rejectNegative
  by_cases hneg : arg.msgid < 0
  · rw [if_pos hneg]
    exact ⟨by norm_num,by decide⟩
  · rw [if_neg hneg]
    exact ⟨h.msgid,by rw [replyBytes_length]; norm_num⟩

/-- Both ends of an idle connection. -/
def idle : Connection (documentedProtocol 100) := ⟨⟨[],0⟩,⟨[],0⟩,⟨[],0⟩,⟨[],0⟩⟩

theorem benchAll_eq_callAll_rejectNegative :
    ∃ d, Quiet (documentedView 100) d ∧
      benchAll (documentedProtocol 100) 4 rejectNegative (idle,0)
        [⟨-1,5,[99],⟨false,true,true⟩⟩,⟨7,6,[99],⟨false,true,true⟩⟩] =
      ((d,2),[.replied (.error ⟨0,[110,111]⟩),.replied (.ok 7)]) := by
  refine benchAll_eq_callAll (documentedProtocol_documented 100) (by norm_num)
    rejectNegative_answerable (fun arg harg => ?_) ⟨rfl,rfl,rfl,rfl⟩ 0
  simp only [List.mem_cons, List.not_mem_nil, or_false] at harg
  rcases harg with rfl | rfl
  · exact ⟨⟨by norm_num [Fits],by norm_num [Fits],by norm_num⟩,by decide⟩
  · exact ⟨⟨by norm_num [Fits],by norm_num [Fits],by norm_num⟩,by decide⟩

end RelayBench.ThriftWire
