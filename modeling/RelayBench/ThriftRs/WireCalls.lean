import RelayBench.ThriftRs.Rpc

/-! # A call over a connection of the Rust chain is a call of the handler

Over an idle connection the handler gets what the client sent, the client gets what the handler
returned, and the connection is idle again. The ends number the calls alike, also where the number
wraps.
-/
namespace RelayBench.ThriftRsWire
open Readers CompactMessages RemoteCall Varint
open CompactProtocol (utf8)
variable {S α : Type} {T : Crate} {view : View T} {c d : Context} {fuel : ℕ}

/-! ## Reading and writing through a view -/

theorem reads_through {f : Reader T.In α} {g : Reader Input α} {bytes rest : List UInt8} {a : α}
    (hf : Reading view f g) (hg : Reads g bytes c d a) {i : T.In}
    (hview : view.input i = ⟨bytes ++ rest,c⟩) :
    ∃ j, f.run i = some (a,j) ∧ view.input j = ⟨rest,d⟩ := by
  apply hf.some trivial
  rw [hview]
  exact hg rest

/-- Everything that was written is sent. -/
def Flushed (o : Output) : Prop := o.pending = []

/-- A message is sent as its header and its body. -/
theorem sendMessage_sends (hdoc : Documented T view) (header : MessageHeader)
    {body : Reader T.Out Unit} {body' : Reader Output Unit} {p : List UInt8}
    (hbody : Writing view body body') (hp : ∀ last, Writes body' p last last) {o : T.Out}
    (hout : Flushed (view.output o)) :
    ∃ o', (sendMessage T header body).run o = some (messageBegin header ++ p,o') ∧
      Flushed (view.output o') := by
  have hwriting : Writing view (sendMessage T header body)
      (sendMessage documentedCrate header body') :=
    (hdoc.writeMessageBegin header).bind (fun _ => hbody.bind (fun _ =>
      hdoc.writeMessageEnd.bind (fun _ => hdoc.flush)))
  rcases ho : view.output o with ⟨pending,last,saved⟩
  obtain rfl : pending = [] := by rwa [ho] at hout
  have hheader := @put_writes (messageBegin header) last [] saved
  have hrest := hp last ([] ++ messageBegin header) saved
  have hsent : (sendMessage documentedCrate header body').run (view.output o) =
      some (messageBegin header ++ p,⟨[],last,saved⟩) := by
    rw [ho]
    unfold sendMessage
    rw [run_bind_some hheader, run_bind_some hrest]
    rfl
  obtain ⟨o',hrun,hview⟩ := hwriting.some trivial hsent
  exact ⟨o',hrun,by rw [hview]; rfl⟩

/-! ## Application errors -/

/-- The fields of an application error. -/
def errorFields (e : ApplicationError) : List Field :=
  [fieldAt 0 .string 1 (stringBytes e.message),fieldAt 1 .i32 2 (encode (zigzag e.kind.code))]

theorem ofCode_kind (kind : ApplicationErrorKind) :
    ApplicationErrorKind.ofCode kind.code = kind := by
  cases kind <;> rfl

theorem kind_fits (kind : ApplicationErrorKind) : Fits 32 kind.code := by
  have hlt : kind.code < 11 := by cases kind <;> decide
  constructor
  · norm_num
  · norm_num
    omega

theorem writeError_writes (e : ApplicationError) {last : ℤ} :
    Writes (writeError e) (structBytes 0 (errorFields e)) last last := by
  have hmessage := (@fieldBegin_writes .string (by simp) 0 1 (stringBytes e.message)).bind
    (put_writes (stringBytes e.message))
  have hkind := (@fieldBegin_writes .i32 (by simp) 1 2 (encode (zigzag e.kind.code))).bind
    (put_writes (encode (zigzag e.kind.code)))
  have hall := @struct_writes _ _ last _ (hmessage.bind (hkind.bind (put_writes [0])))
  simp only [List.append_assoc, bind_assoc] at hall
  exact hall

theorem errorField_reads {e : ApplicationError} (hmessage : (utf8 e.message).length < 2 ^ 32)
    {f : Field} (hf : f ∈ errorFields e) (x : ApplicationError) :
    BodyReads errorField f x (.yield (if f.id = 1 then { x with message := e.message }
      else { x with kind := e.kind })) := by
  intro c _
  simp only [errorFields, List.mem_cons, List.not_mem_nil, or_false] at hf
  rcases hf with rfl | rfl
  · exact (readString_reads hmessage).map
      (fun message => ForInStep.yield { x with message := message })
  · have hread := (@readInt_reads { c with lastField := 2 } _ (by norm_num) _
      (kind_fits e.kind)).map (fun code => ForInStep.yield { x with kind := .ofCode code })
    rw [ofCode_kind] at hread
    exact hread

/-- An application error is read as it was written. -/
theorem readApplicationError_reads {e : ApplicationError}
    (hmessage : (utf8 e.message).length < 2 ^ 32) (hbool : c.bool = none) :
    Reads readApplicationError (structBytes 0 (errorFields e)) c c e := by
  have hvalid : ValidFrom 0 (errorFields e) :=
    ⟨fieldAt_valid (by simp) (by simp) (by norm_num [Fits]) _,
      fieldAt_valid (by simp) (by simp) (by norm_num [Fits]) _,trivial⟩
  intro rest
  have hfuel : (errorFields e).length < (structBytes 0 (errorFields e) ++ rest).length + 1 := by
    have hlength := length_lt_structBytes 0 (errorFields e)
    rw [List.length_append]
    omega
  obtain ⟨last,hloop⟩ := @untilStop_reads ApplicationError (inStruct c) _ _ _ _ hvalid hbool
    (fun f hf x => errorField_reads hmessage hf x) hfuel ⟨.unknown,"general remote error"⟩
  have hbegin : readStructBegin.run ⟨structBytes 0 (errorFields e) ++ rest,c⟩ =
      some ((),⟨structBytes 0 (errorFields e) ++ rest,inStruct c⟩) := @readStructBegin_reads c _
  have hfields : readErrorFields.run ⟨structBytes 0 (errorFields e) ++ rest,inStruct c⟩ =
      some (e,⟨rest,{ inStruct c with lastField := last }⟩) := hloop rest
  have hend : readStructEnd.run ⟨rest,{ inStruct c with lastField := last }⟩ =
      some ((),⟨rest,c⟩) := @readStructEnd_reads c last rest
  unfold readApplicationError
  rw [run_bind_some hbegin, run_bind_some hfields, run_bind_some hend]
  rfl

/-! ## The messages -/

def callBytes (seqid : ℤ) (arg : Timing) : List UInt8 :=
  messageBegin ⟨"bench",.call,seqid⟩ ++ structBytes 0 [argField (timingWritten arg)]

def replyBytes (seqid ack : ℤ) : List UInt8 :=
  messageBegin ⟨"bench",.reply,seqid⟩ ++ structBytes 0 (resultWritten (some ack))

def exceptionBytes (name : String) (seqid : ℤ) (e : ApplicationError) : List UInt8 :=
  messageBegin ⟨name,.exception,seqid⟩ ++ structBytes 0 (errorFields e)

theorem sendBench_sends (hdoc : Documented T view) (seqid : ℤ) (arg : Timing) {o : T.Out}
    (hout : Flushed (view.output o)) :
    ∃ o', (sendBench T seqid arg).run o = some (callBytes seqid arg,o') ∧
      Flushed (view.output o') :=
  sendMessage_sends hdoc _ (benchArgsWrite_writing hdoc arg)
    (fun _ => benchArgsWrite_writes arg) hout

theorem sendResult_sends (hdoc : Documented T view) (seqid ack : ℤ) {o : T.Out}
    (hout : Flushed (view.output o)) :
    ∃ o', (sendResult T seqid ack).run o = some (replyBytes seqid ack,o') ∧
      Flushed (view.output o') :=
  sendMessage_sends hdoc _ (benchResultWrite_writing hdoc _)
    (fun _ => benchResultWrite_writes _) hout

/-- The second flush has nothing to send. -/
theorem sendException_sends (hdoc : Documented T view) (name : String) (seqid : ℤ)
    (e : ApplicationError) {o : T.Out} (hout : Flushed (view.output o)) :
    ∃ o', (sendException T name seqid e).run o = some (exceptionBytes name seqid e,o') ∧
      Flushed (view.output o') := by
  have hwriting : Writing view (sendException T name seqid e)
      (sendException documentedCrate name seqid e) :=
    (hdoc.writeMessageBegin _).bind (fun _ => (hdoc.writeApplicationError e).bind (fun _ =>
      hdoc.writeMessageEnd.bind (fun _ => hdoc.flush.bind (fun _ => .pure _))))
  rcases ho : view.output o with ⟨pending,last,saved⟩
  obtain rfl : pending = [] := by rwa [ho] at hout
  have hheader := @put_writes (messageBegin ⟨name,.exception,seqid⟩) last [] saved
  have herror := @writeError_writes e last ([] ++ messageBegin ⟨name,.exception,seqid⟩) saved
  have hsent : (sendException documentedCrate name seqid e).run (view.output o) =
      some (exceptionBytes name seqid e,⟨[],last,saved⟩) := by
    rw [ho]
    unfold sendException
    rw [run_bind_some hheader]
    have hflushed : (writeApplicationError e).run
        ⟨[] ++ messageBegin ⟨name,.exception,seqid⟩,last,saved⟩ =
          some (exceptionBytes name seqid e,⟨[],last,saved⟩) := by
      unfold writeApplicationError
      rw [run_bind_some herror]
      rfl
    rw [run_bind_some hflushed]
    show some (exceptionBytes name seqid e ++ [],_) = _
    rw [List.append_nil]
  obtain ⟨o',hrun,hview⟩ := hwriting.some trivial hsent
  exact ⟨o',hrun,by rw [hview]; rfl⟩

/-! ## The client's end -/

theorem recvException_reading (hdoc : Documented T view) :
    Reading view (recvException T) (recvException documentedCrate) :=
  hdoc.readApplicationError.bind (fun _ => hdoc.readMessageEnd.bind (fun _ => .pure _))

theorem recvResult_reading (hdoc : Documented T view) (fuel : ℕ) :
    Reading view (recvResult T fuel) (recvResult documentedCrate fuel) :=
  (benchResultRead_reading hdoc fuel).bind (fun _ => hdoc.readMessageEnd.bind (fun _ => .pure _))

theorem recvBench_reading (hdoc : Documented T view) (fuel : ℕ) (seqid : ℤ) :
    Reading view (recvBench T fuel seqid) (recvBench documentedCrate fuel seqid) := by
  refine hdoc.readMessageBegin.bind (fun h => ?_)
  split
  · exact .pure _
  · split
    · exact .pure _
    · split
      · exact recvException_reading hdoc
      · split
        · exact .pure _
        · exact recvResult_reading hdoc fuel

theorem name_length : (utf8 "bench").length < 2 ^ 32 := by decide

theorem recvBench_reply (hfuel : 1 < fuel) (hbool : c.bool = none) {seqid ack : ℤ}
    (hseqid : Fits 32 seqid) (hack : Fits 64 ack) :
    Reads (recvBench documentedCrate fuel seqid) (replyBytes seqid ack) c { c with lastField := 0 }
      (.ok ack) := by
  have hheader : Reads readMessageBegin (messageBegin ⟨"bench",.reply,seqid⟩) c
      { c with lastField := 0 } ⟨"bench",.reply,seqid⟩ := readMessageBegin_reads name_length hseqid
  refine hheader.bind ?_
  rw [if_neg (not_not_intro rfl), if_neg (not_not_intro rfl),
    if_neg (show ¬TMessageType.reply = .exception by simp), if_neg (not_not_intro rfl)]
  have hfields : Fields resultType (resultWritten (some ack)) :=
    resultWritten_fields (fun v hv => by rwa [← Option.mem_some_iff.mp hv])
  have hresult := @benchResultRead_reads { c with lastField := 0 } fuel _ hfields hfuel hbool
  rw [resultValue_written] at hresult
  exact hresult.bind_nil ((Reads.pure ()).nil_bind (.pure _))

theorem recvBench_exception (fuel : ℕ) (hbool : c.bool = none) {seqid : ℤ}
    (hseqid : Fits 32 seqid) {e : ApplicationError} (hmessage : (utf8 e.message).length < 2 ^ 32) :
    Reads (recvBench documentedCrate fuel seqid) (exceptionBytes "bench" seqid e) c
      { c with lastField := 0 } (.error (.application e)) := by
  have hheader : Reads readMessageBegin (messageBegin ⟨"bench",.exception,seqid⟩) c
      { c with lastField := 0 } ⟨"bench",.exception,seqid⟩ :=
    readMessageBegin_reads name_length hseqid
  refine hheader.bind ?_
  rw [if_neg (not_not_intro rfl), if_neg (not_not_intro rfl), if_pos rfl]
  have herror := @readApplicationError_reads { c with lastField := 0 } _ hmessage hbool
  exact herror.bind_nil ((Reads.pure ()).nil_bind (.pure _))

/-! ## The server's end -/

/-- The processor takes a call from a struct whose fields may come in any order. -/
theorem process_call (hdoc : Documented T view) {fs : List Field} (h : Fields timingType fs)
    (hone : 1 < fuel) (hfuel : fs.length < fuel) {arg : Timing}
    (harg : (timingFields fs).timing = .ok arg) {mtype : TMessageType} {seqid : ℤ}
    (hseqid : Fits 32 seqid) (handler : Handler S) (hbool : c.bool = none) {s : Server T S}
    {rest : List UInt8} (hview : view.input s.input =
      ⟨messageBegin ⟨"bench",mtype,seqid⟩ ++ (structBytes 0 [argField fs] ++ rest),c⟩) :
    ∃ input, view.input input = ⟨rest,{ c with lastField := 0 }⟩ ∧
      process T fuel handler s = answer T seqid input s.output (handler arg s.memory) := by
  obtain ⟨i,hheader,hi⟩ := reads_through hdoc.readMessageBegin
    (readMessageBegin_reads name_length hseqid) hview
  have hreads := @benchArgsRead_ok { c with lastField := 0 } fuel _ h hone hfuel hbool _ harg
  obtain ⟨j,hargs,hj⟩ := reads_through (benchArgsRead_reading hdoc fuel) hreads hi
  refine ⟨j,hj,?_⟩
  unfold process
  rw [hheader]
  dsimp only
  rw [if_pos rfl, processBench]
  dsimp only
  rw [hargs]
  rfl

/-! ## A whole call -/

/-- Everything that has arrived was read. -/
structure Idle (i : Input) : Prop where
  unread : i.unread = []
  bool : i.context.bool = none

/-- Nothing is under way on the connection. -/
structure Quiet (view : View T) (c : Connection T) : Prop where
  clientIn : Idle (view.input c.clientIn)
  clientOut : Flushed (view.output c.clientOut)
  serverIn : Idle (view.input c.serverIn)
  serverOut : Flushed (view.output c.serverOut)

/-- What the handler returns can be written: an `i64`, or an error whose text has a length. -/
def Answerable : Reply (Except HandlerError ℤ) → Prop
  | .replied (.ok ack) => Fits 64 ack
  | .replied (.error e) => (utf8 e.sent.message).length < 2 ^ 32
  | _ => True

/-- What the client sees of it. -/
def outcome : Reply (Except HandlerError ℤ) → Reply (Except ClientError ℤ)
  | .replied (.ok ack) => .replied (.ok ack)
  | .replied (.error e) => .replied (.error (.application e.sent))
  | .failed => .failed
  | .exited => .exited

theorem receive_idle (hdoc : Documented T view) {i : T.In} (hidle : Idle (view.input i))
    (bytes : List UInt8) : view.input (T.receive bytes i) = ⟨bytes,(view.input i).context⟩ := by
  rw [hdoc.receive, Input.extend, hidle.unread, List.nil_append]

theorem asI32_fits (x : ℤ) : Fits 32 (asI32 x) := by
  have hle : -((2 ^ 32 : ℕ) / 2 : ℤ) ≤ x.bmod (2 ^ 32) := Int.le_bmod (by norm_num)
  have hlt : x.bmod (2 ^ 32) < ((2 ^ 32 : ℕ) + 1) / 2 := Int.bmod_lt (by norm_num)
  exact ⟨by simpa [asI32] using hle,by simpa [asI32] using hlt⟩

/-- The client takes the answer that has arrived. -/
theorem recvBench_answer (hdoc : Documented T view) {seqid : ℤ} {bytes : List UInt8}
    {o : Except ClientError ℤ}
    (h : ∀ c : Context, c.bool = none →
      Reads (recvBench documentedCrate fuel seqid) bytes c { c with lastField := 0 } o)
    {i : T.In} (hidle : Idle (view.input i)) :
    ∃ j, (recvBench T fuel seqid).run (T.receive bytes i) = some (o,j) ∧ Idle (view.input j) := by
  obtain ⟨j,hrun,hj⟩ := @reads_through _ _ _ _ _ _ _ _ [] _ (recvBench_reading hdoc fuel seqid)
    (h (view.input i).context hidle.bool) (T.receive bytes i)
    (by rw [receive_idle hdoc hidle, List.append_nil])
  refine ⟨j,hrun,?_⟩
  rw [hj]
  exact ⟨rfl,hidle.bool⟩

theorem bench_outcome (hdoc : Documented T view) (hfuel : 3 < fuel) {arg : Timing}
    (harg : Sendable arg) {handler : Handler S} {memory : S}
    (hanswer : Answerable (handler arg memory).2) {c : Connection T} (hquiet : Quiet view c)
    (last : ℤ) :
    ∃ d, Quiet view d ∧ bench T fuel handler last arg (c,memory) =
      ((d,(handler arg memory).1),outcome (handler arg memory).2) := by
  have hone : 1 < fuel := by omega
  have hseqid := asI32_fits (last + 1)
  obtain ⟨clientOut,hsend,hout⟩ := sendBench_sends hdoc (asI32 (last + 1)) arg hquiet.clientOut
  have harrived : view.input (T.receive (callBytes (asI32 (last + 1)) arg) c.serverIn) =
      ⟨messageBegin ⟨"bench",.call,asI32 (last + 1)⟩ ++
        (structBytes 0 [argField (timingWritten arg)] ++ []),(view.input c.serverIn).context⟩ := by
    rw [receive_idle hdoc hquiet.serverIn, List.append_nil]
    rfl
  obtain ⟨serverIn,hin,hprocess⟩ := process_call hdoc harg.fields hone hfuel
    (timingFields_written arg) hseqid handler hquiet.serverIn.bool
    (s := ⟨T.receive (callBytes (asI32 (last + 1)) arg) c.serverIn,c.serverOut,memory⟩) harrived
  have hserver : Idle (view.input serverIn) := by
    rw [hin]
    exact ⟨rfl,hquiet.serverIn.bool⟩
  unfold bench
  dsimp only
  rw [hsend]
  dsimp only
  rw [hprocess]
  dsimp only
  rcases hcall : handler arg memory with ⟨memory',r⟩
  rw [hcall] at hanswer
  rcases r with (e | ack) | _ | _
  · obtain ⟨serverOut,hreply,hsent⟩ := sendException_sends hdoc "bench" (asI32 (last + 1)) e.sent
      hquiet.serverOut
    obtain ⟨clientIn,hrecv,hread⟩ := recvBench_answer hdoc (fun c hc =>
      recvBench_exception fuel hc hseqid hanswer) hquiet.clientIn
    refine ⟨⟨clientIn,clientOut,serverIn,serverOut⟩,⟨hread,hout,hserver,hsent⟩,?_⟩
    simp only [answer, Server.send, hreply, hrecv, outcome]
  · obtain ⟨serverOut,hreply,hsent⟩ := sendResult_sends hdoc (asI32 (last + 1)) ack
      hquiet.serverOut
    obtain ⟨clientIn,hrecv,hread⟩ := recvBench_answer hdoc (fun c hc =>
      recvBench_reply hone hc hseqid hanswer) hquiet.clientIn
    refine ⟨⟨clientIn,clientOut,serverIn,serverOut⟩,⟨hread,hout,hserver,hsent⟩,?_⟩
    simp only [answer, Server.send, hreply, hrecv, outcome]
  · exact ⟨⟨c.clientIn,clientOut,serverIn,c.serverOut⟩,
      ⟨hquiet.clientIn,hout,hserver,hquiet.serverOut⟩,rfl⟩
  · exact ⟨⟨c.clientIn,clientOut,serverIn,c.serverOut⟩,
      ⟨hquiet.clientIn,hout,hserver,hquiet.serverOut⟩,rfl⟩

/-- The same calls made of the handler itself. -/
def callAll (handler : Handler S) : S → List Timing → S × List (Reply (Except HandlerError ℤ))
  | memory, [] => (memory,[])
  | memory, arg :: args =>
    match handler arg memory with
    | (m,.replied r) => ((callAll handler m args).1,.replied r :: (callAll handler m args).2)
    | (m,r) => (m,[r])

/-- Every sequence of calls over one connection, from any sequence number on, runs the handler on
exactly the arguments that were sent and hands each outcome to the call it belongs to; calls that
returned an error leave the connection in step. -/
theorem calls_answered (hdoc : Documented T view) (hfuel : 3 < fuel) {handler : Handler S}
    (hhandler : ∀ arg memory, Sendable arg → Answerable (handler arg memory).2)
    {args : List Timing} (hargs : ∀ arg ∈ args, Sendable arg) {c : Connection T}
    (hquiet : Quiet view c) (last : ℤ) (memory : S) :
    ∃ d, Quiet view d ∧ benchAll T fuel handler last (c,memory) args =
      ((d,(callAll handler memory args).1),(callAll handler memory args).2.map outcome) := by
  induction args generalizing c last memory with
  | nil => exact ⟨c,hquiet,rfl⟩
  | cons arg args ih =>
    have harg := hargs arg List.mem_cons_self
    obtain ⟨d,hd,hbench⟩ := bench_outcome hdoc hfuel harg (hhandler arg memory harg) hquiet last
    rcases hcall : handler arg memory with ⟨m,r⟩
    rw [hcall] at hbench
    obtain ⟨e,he,hrest⟩ := ih (fun x hx => hargs x (List.mem_cons_of_mem arg hx)) hd
      (asI32 (last + 1)) m
    rcases r with (x | ack) | _ | _
    · refine ⟨e,he,?_⟩
      simp only [benchAll, callAll, hbench, hcall, outcome, hrest, List.map_cons]
    · refine ⟨e,he,?_⟩
      simp only [benchAll, callAll, hbench, hcall, outcome, hrest, List.map_cons]
    · refine ⟨d,hd,?_⟩
      simp only [benchAll, callAll, hbench, hcall, outcome, List.map_cons, List.map_nil]
    · refine ⟨d,hd,?_⟩
      simp only [benchAll, callAll, hbench, hcall, outcome, List.map_cons, List.map_nil]

/-- A handler that counts its calls and returns an error where the message id is negative. -/
def refuseNegative : Handler ℕ := fun arg count =>
  (count + 1,.replied (if arg.msgid < 0 then .error (.other "no") else .ok arg.msgid))

theorem refuseNegative_answerable (arg : Timing) (count : ℕ) (h : Sendable arg) :
    Answerable (refuseNegative arg count).2 := by
  unfold refuseNegative
  by_cases hneg : arg.msgid < 0
  · rw [if_pos hneg]
    show (utf8 "no").length < 2 ^ 32
    decide
  · rw [if_neg hneg]
    exact h.msgid

def quietInput : Input := ⟨[],⟨0,[],none⟩⟩

/-- Both ends of an idle connection. -/
def idle : Connection documentedCrate := ⟨quietInput,⟨[],0,[]⟩,quietInput,⟨[],0,[]⟩⟩

theorem idle_quiet : Quiet documentedView idle where
  clientIn := ⟨rfl,rfl⟩
  clientOut := rfl
  serverIn := ⟨rfl,rfl⟩
  serverOut := rfl

/-- The number of the first call wraps. -/
theorem calls_answered_wrapped :
    ∃ d, Quiet documentedView d ∧
      benchAll documentedCrate 4 refuseNegative (2 ^ 31 - 1) (idle,0) [⟨-1,5,"c"⟩,⟨7,6,"c"⟩] =
        ((d,2),[.replied (.error (.application ⟨.unknown,"no"⟩)),.replied (.ok 7)]) := by
  refine calls_answered documentedCrate_documented (by norm_num) refuseNegative_answerable
    (fun arg harg => ?_) idle_quiet (2 ^ 31 - 1) 0
  have hsource : (utf8 "c").length < 2 ^ 32 := by decide
  simp only [List.mem_cons, List.not_mem_nil, or_false] at harg
  rcases harg with rfl | rfl
  · exact ⟨by norm_num [Fits],by norm_num [Fits],hsource⟩
  · exact ⟨by norm_num [Fits],by norm_num [Fits],hsource⟩

end RelayBench.ThriftRsWire
