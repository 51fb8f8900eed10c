import RelayBench.ThriftCpp.Transparency

/-! # Messages that are cut off or not expected

A message that is cut off never reaches the handler or the caller. A call of an unknown method is
answered with an exception. After a reply that is not the expected one `recv_bench` skips its body
and reads on as if a result followed; what follows is the next message or nothing, and neither
passes for a result.
-/
namespace RelayBench.ThriftWire
open Readers BinaryProtocol RemoteCall
variable {S α : Type} {T : TProtocol} {view : View T} {n fuel : ℕ}

/-! ## What follows a skipped body -/

/-- Nothing has arrived, or the next message. -/
inductive Next : List UInt8 → Prop
  | nothing : Next []
  | message (h : MessageHeader) (more : List UInt8) : Next (messageBegin h ++ more)

/-- The first bytes of a message, read as the header of a field. -/
theorem readFieldBegin_version : Reads 0 readFieldBegin [0x80,0x01,0] (.unknown 0x80,256) := by
  have htype := (@readByte_reads 0 0x80).map TType.ofCode
  rw [show TType.ofCode 0x80 = .unknown 0x80 by decide] at htype
  refine Reads.bind (p := [0x80]) htype ?_
  rw [if_neg (by decide)]
  have htake : Reads 0 (take 2) [0x01,0] [0x01,0] := take_reads rfl
  have hid := htake.map toInt
  rw [show toInt [0x01,0] = 256 by decide] at hid
  exact hid.bind_nil (.pure _)

theorem readFieldBegin_next {rest : List UInt8} (h : Next rest) {depth : ℕ}
    (hdepth : depth ≤ recursionLimit) :
    readFieldBegin.run ⟨rest,depth⟩ = none ∨
      ∃ s, readFieldBegin.run ⟨rest,depth⟩ = some ((.unknown 0x80,256),s) := by
  cases h with
  | nothing => exact .inl rfl
  | message h more => exact .inr ⟨_,readFieldBegin_version _ depth hdepth⟩

/-- The loop of a struct fails where its fields of unknown types fail. -/
theorem readFields_next {rest : List UInt8} (h : Next rest)
    {field : α → TType → ℤ → Reader Input α}
    (hfield : ∀ a s, (field a (.unknown 0x80) 256).run s = none) (a : α) {depth : ℕ}
    (hdepth : depth ≤ recursionLimit) :
    (readFields readFieldBegin (pure ()) field fuel a).run ⟨rest,depth⟩ = none := by
  cases fuel with
  | zero => rfl
  | succ fuel =>
    rw [readFields]
    rcases readFieldBegin_next h hdepth with hnone | ⟨s,hsome⟩
    · exact run_bind_none hnone
    · rw [untilStop, run_bind_some hsome, if_neg (by decide)]
      exact run_bind_none (run_bind_none (hfield a s))

theorem skip_unknown (room : ℕ) (code : UInt8) (s : Input) :
    (skip room (.unknown code)).run s = none := by
  cases room <;> rfl

theorem skipStruct_next {rest : List UInt8} (h : Next rest) :
    (skipValue .struct).run ⟨rest,0⟩ = none :=
  @readFields_next Unit (rest.length + 1) rest h (fun _ type _ => skip 63 type)
    (fun _ s => skip_unknown 63 0x80 s) () 0 (Nat.zero_le _)

theorem recvResult_next {rest : List UInt8} (h : Next rest) :
    (recvResult (documentedProtocol n) fuel).run ⟨rest,0⟩ = none := by
  have hfield : ∀ result s,
      (benchResultField (documentedProtocol n) result (.unknown 0x80) 256).run s = none := by
    intro result s
    unfold benchResultField
    rw [if_neg (by decide)]
    exact run_bind_none (skip_unknown _ 0x80 s)
  have henter : enter.run ⟨rest,0⟩ = some ((),⟨rest,1⟩) := rfl
  have hbody : (readBody (documentedProtocol n) (benchResultField (documentedProtocol n)) fuel
      BenchResult.new).run ⟨rest,1⟩ = none := by
    rw [readBody, run_bind_some (show (pure () : Reader Input Unit).run ⟨rest,1⟩ = _ from rfl)]
    exact run_bind_none (readFields_next h hfield _ (by decide))
  apply run_bind_none
  rw [benchResultRead, readStruct, run_bind_some henter]
  exact run_bind_none hbody

/-! ## Unexpected replies -/

/-- The header of a message that is no exception and no reply to `bench`. -/
structure UnexpectedHeader (h : MessageHeader) : Prop where
  type : h.type.Known
  name : h.name.length < 2 ^ 31
  seqid : Fits 4 h.seqid
  not_exception : h.type ≠ .exception
  unexpected : h.type ≠ .reply ∨ h.name ≠ benchName

theorem skipUnexpected_body {body rest : List UInt8} (h : Encodes recursionLimit .struct body) :
    (skipUnexpected (documentedProtocol n) true).run ⟨body ++ rest,0⟩ = some ((),⟨rest,0⟩) :=
  (skipValue_reads h).bind_nil endMessage_reads rest 0 le_rfl

theorem skipUnexpected_next {rest : List UInt8} (h : Next rest) :
    (skipUnexpected (documentedProtocol n) true).run ⟨rest,0⟩ = none :=
  run_bind_none (skipStruct_next h)

/-- `recv_bench` returns nothing for a message that it does not expect, whatever comes behind it:
it reads on into the next message and throws, if there is one, and at the end otherwise. -/
theorem recvBench_unexpected (hdoc : Documented T view) (fuel : ℕ) {h : MessageHeader}
    (hheader : UnexpectedHeader h) {body rest : List UInt8}
    (hbody : Encodes recursionLimit .struct body) (hrest : Next rest) {i : T.In}
    (hview : view.input i = ⟨messageBegin h ++ (body ++ rest),0⟩)
    (hsmall : Small T (view.input i)) : (recvBench T fuel).run i = none := by
  apply (recvBench_reading hdoc fuel).none hsmall
  rw [hview]
  have hread : Reads recursionLimit readMessageBegin (messageBegin h) h :=
    readMessageBegin_reads hheader.type hheader.name hheader.seqid
  rw [recvBench, run_bind_some (hread _ 0 le_rfl), if_neg hheader.not_exception]
  by_cases htype : h.type = .reply
  · have hname : h.name ≠ benchName := hheader.unexpected.resolve_left (not_not_intro htype)
    have hfirst : (skipUnexpected (documentedProtocol T.maxMessageSize) (h.type ≠ .reply)).run
        ⟨body ++ rest,0⟩ = some ((),⟨body ++ rest,0⟩) := by
      rw [decide_eq_false (not_not_intro htype)]
      rfl
    rw [run_bind_some hfirst, decide_eq_true hname, run_bind_some (skipUnexpected_body hbody)]
    exact recvResult_next hrest
  · rw [decide_eq_true htype, run_bind_some (skipUnexpected_body hbody)]
    by_cases hname : h.name = benchName
    · have hsecond : (skipUnexpected (documentedProtocol T.maxMessageSize)
          (h.name ≠ benchName)).run ⟨rest,0⟩ = some ((),⟨rest,0⟩) := by
        rw [decide_eq_false (not_not_intro hname)]
        rfl
      rw [run_bind_some hsecond]
      exact recvResult_next hrest
    · rw [decide_eq_true hname]
      exact run_bind_none (skipUnexpected_next hrest)

/-- The reply to a call of another method, before the reply to `bench`. -/
def otherReply : List UInt8 :=
  messageBegin ⟨[112],.reply,0⟩ ++ (structBytes (BenchResult.fields ⟨5,true⟩) ++
    (messageBegin ⟨benchName,.reply,0⟩ ++ structBytes (BenchResult.fields ⟨6,true⟩)))

theorem recvBench_unexpected_otherReply :
    (recvBench (documentedProtocol 100) 4).run ⟨otherReply,0⟩ = none := by
  have hheader : UnexpectedHeader ⟨[112],.reply,0⟩ :=
    ⟨trivial,by norm_num,by norm_num [Fits],by simp,.inr (by decide)⟩
  exact recvBench_unexpected (documentedProtocol_documented 100) 4 hheader
    (@Encodes.struct 63 _ (@BenchResult.fields_valid 0 ⟨5,true⟩).valid
      (fun f hf => ((BenchResult.fields_valid ⟨5,true⟩).encodes f hf)))
    (.message ⟨benchName,.reply,0⟩ (structBytes (BenchResult.fields ⟨6,true⟩)))
    (i := ⟨otherReply,0⟩) rfl (by unfold Small; decide)

/-! ## Unknown methods -/

/-- A call of an unknown method is answered with an exception that carries its name and its
sequence number; the handler is not called, and the server is ready for the next call. -/
theorem process_unknown (hdoc : Documented T view) (fuel : ℕ) (iface : Handler S)
    {fname : List UInt8} (hname : fname ≠ benchName) {mtype : TMessageType}
    (htype : mtype = .call ∨ mtype = .oneway) {seqid : ℤ} (hseqid : Fits 4 seqid)
    (hlength : (unknownMethod fname).message.length < 2 ^ 31) {body : List UInt8}
    (hbody : Encodes recursionLimit .struct body) {s : Server T S}
    (hin : view.input s.input = ⟨messageBegin ⟨fname,mtype,seqid⟩ ++ body,0⟩)
    (hsmall : Small T (view.input s.input)) (hout : view.output s.output = ⟨[],0⟩) :
    ∃ input output, process T fuel iface s = (⟨input,output,s.memory⟩,
        .replied (exceptionBytes fname seqid (unknownMethod fname))) ∧
      view.input input = ⟨[],0⟩ ∧ view.output output = ⟨[],0⟩ := by
  have hfname : fname.length < 2 ^ 31 := by
    simp only [unknownMethod, List.length_append] at hlength
    omega
  have hknown : mtype.Known := by rcases htype with rfl | rfl <;> trivial
  have hread : Reads recursionLimit readMessageBegin (messageBegin ⟨fname,mtype,seqid⟩)
      ⟨fname,mtype,seqid⟩ := readMessageBegin_reads hknown hfname hseqid
  obtain ⟨i,hrun,hi⟩ := reads_through hdoc.readMessageBegin hread le_rfl hin hsmall
  have hsmall' : Small T (view.input i) := by
    unfold Small at hsmall ⊢
    rw [hin, List.length_append] at hsmall
    rw [hi]
    dsimp only at hsmall ⊢
    omega
  have hskip : Reads recursionLimit (skipUnexpected (documentedProtocol T.maxMessageSize) true)
      body () := (skipValue_reads hbody).bind_nil endMessage_reads
  obtain ⟨j,hskipped,hj⟩ := @reads_through _ _ _ _ _ _ [] _ _ (skipUnexpected_reading hdoc true)
    hskip le_rfl _ (by rw [hi, List.append_nil]) hsmall'
  obtain ⟨o,hsend,ho⟩ := sendException_sends hdoc hfname seqid hlength hout
  refine ⟨j,o,?_,hj,ho⟩
  have hcall : mtype = .call ∨ mtype = .oneway := htype
  unfold process
  rw [hrun]
  dsimp only
  rw [if_pos hcall, dispatchCall, if_neg hname]
  dsimp only
  rw [hskipped]
  dsimp only
  rw [Server.send, hsend]

theorem process_unknown_ping : ∃ input output,
    process (documentedProtocol 200) 4 rejectNegative ⟨⟨messageBegin ⟨[112],.call,9⟩ ++ [0],0⟩,
      ⟨[],0⟩,3⟩ = (⟨input,output,3⟩,.replied (exceptionBytes [112] 9 (unknownMethod [112]))) ∧
      (documentedView 200).input input = ⟨[],0⟩ ∧ (documentedView 200).output output = ⟨[],0⟩ :=
  process_unknown (documentedProtocol_documented 200) 4 rejectNegative (by decide) (.inl rfl)
    (by norm_num [Fits]) (by decide) (@Encodes.struct 63 [] (by simp) (by simp))
    (s := ⟨⟨messageBegin ⟨[112],.call,9⟩ ++ [0],0⟩,⟨[],0⟩,3⟩) rfl (by unfold Small; decide) rfl

/-! ## Messages that are cut off -/

theorem endMessage_local : Local Input.extend (endMessage (documentedProtocol n)) :=
  (Local.pure ()).bind (fun _ => .pure ())

theorem benchArgsRead_local (fuel : ℕ) (args : BenchArgs) :
    Local Input.extend (benchArgsRead (documentedProtocol n) fuel args) := by
  refine readStruct_local (fun args ftype fid => ?_) fuel args
  unfold benchArgsField
  split
  · exact member_local (timingRead_local fuel args.arg) ftype .struct _ args
  · exact (skipValue_local ftype).bind (fun _ => .pure args)

theorem readArgs_local (fuel : ℕ) :
    Local Input.extend (readArgs (documentedProtocol n) fuel) :=
  (benchArgsRead_local fuel .new).bind (fun _ => endMessage_local.bind (fun _ => .pure _))

theorem readException_local : Local Input.extend readException := by
  intro i x t h more
  have hfields := readFields_local readFieldBegin_local (.pure ()) exceptionField_local
    (i.unread.length + 1) ⟨0,[]⟩ i x t h more
  refine untilStop_mono ?_ hfields
  simp only [Input.extend, List.length_append]
  omega

theorem benchResultRead_local (fuel : ℕ) (result : BenchResult) :
    Local Input.extend (benchResultRead (documentedProtocol n) fuel result) := by
  refine readStruct_local (fun result ftype fid => ?_) fuel result
  unfold benchResultField
  split
  · exact member_local (readInt_local 8) ftype .i64 (fun v => (⟨v,true⟩ : BenchResult)) result
  · exact (skipValue_local ftype).bind (fun _ => .pure result)

theorem recvResult_local (fuel : ℕ) :
    Local Input.extend (recvResult (documentedProtocol n) fuel) :=
  (benchResultRead_local fuel .new).bind (fun _ => endMessage_local.bind (fun _ => .pure _))

theorem recvBench_local (fuel : ℕ) :
    Local Input.extend (recvBench (documentedProtocol n) fuel) := by
  have hskip : ∀ b, Local Input.extend (skipUnexpected (documentedProtocol n) b) := by
    intro b
    unfold skipUnexpected
    split
    · exact (skipValue_local .struct).bind (fun _ => endMessage_local)
    · exact .pure ()
  refine readMessageBegin_local.bind (fun header => ?_)
  split
  · exact readException_local.bind (fun x => endMessage_local.bind (fun _ => .pure _))
  · exact (hskip _).bind (fun _ => (hskip _).bind (fun _ => recvResult_local fuel))

/-- The answers of a server to `bench`. -/
inductive AnswerBytes : List UInt8 → Prop
  | reply {seqid ack : ℤ} (hseqid : Fits 4 seqid) (hack : Fits 8 ack) :
      AnswerBytes (replyBytes seqid ack)
  | exception {seqid : ℤ} {x : TApplicationException} (hseqid : Fits 4 seqid)
      (hmessage : x.message.length < 2 ^ 31) (htype : Fits 4 x.type) :
      AnswerBytes (exceptionBytes benchName seqid x)

theorem process_cut (hdoc : Documented T view) {fuel : ℕ} (hfuel : 3 < fuel) (iface : Handler S)
    {arg : WireTiming} (harg : arg.Writable) {part : List UInt8} (hpart : part <+: callBytes arg)
    (hne : part ≠ callBytes arg) {s : Server T S} (hview : view.input s.input = ⟨part,0⟩)
    (hsmall : Small T (view.input s.input)) :
    ∃ t, process T fuel iface s = (t,.failed) ∧ t.memory = s.memory ∧ t.output = s.output := by
  have hheader : Reads 3 readMessageBegin (messageBegin ⟨benchName,.call,0⟩)
      ⟨benchName,.call,0⟩ := readMessageBegin_reads trivial benchName_length (by norm_num [Fits])
  unfold process
  rcases prefix_append_cases hpart hne with ⟨hp,hp'⟩ | ⟨q,rfl,hq,hq'⟩
  · have hnone : T.readMessageBegin.run s.input = none := by
      apply hdoc.readMessageBegin.none hsmall
      rw [hview]
      exact hheader.none_of_short readMessageBegin_local hp hp' (by decide)
    rw [hnone]
    exact ⟨s,rfl,rfl,rfl⟩
  · obtain ⟨i,hrun,hi⟩ := reads_through hdoc.readMessageBegin hheader (by decide) hview hsmall
    have hnone : (readArgs T fuel).run i = none := by
      apply (readArgs_reading hdoc fuel).none
      · unfold Small at hsmall ⊢
        rw [hview, List.length_append] at hsmall
        rw [hi]
        dsimp only at hsmall ⊢
        omega
      · rw [hi]
        exact (readArgs_reads hfuel harg).none_of_short (readArgs_local fuel) hq hq' (by decide)
    rw [hrun]
    dsimp only
    rw [if_pos (.inl rfl), dispatchCall, if_pos rfl, processBench]
    dsimp only
    rw [hnone]
    exact ⟨_,rfl,rfl,rfl⟩

theorem recvBench_cut (hdoc : Documented T view) {fuel : ℕ} (hfuel : 1 < fuel)
    {answer part : List UInt8} (hanswer : AnswerBytes answer) (hpart : part <+: answer)
    (hne : part ≠ answer) {i : T.In} (hview : view.input i = ⟨part,0⟩)
    (hsmall : Small T (view.input i)) : (recvBench T fuel).run i = none := by
  apply (recvBench_reading hdoc fuel).none hsmall
  rw [hview]
  cases hanswer with
  | reply hseqid hack =>
    exact (recvBench_reply hfuel hseqid hack).none_of_short (recvBench_local fuel) hpart hne
      (by decide)
  | exception hseqid hmessage htype =>
    exact (recvBench_exception fuel hseqid benchName_length hmessage htype).none_of_short
      (recvBench_local fuel) hpart hne (by decide)

/-- A call that is cut off anywhere does not reach the handler and is not answered. Of an answer
that is cut off anywhere the client gets neither a value nor the handler's exception. -/
theorem messages_cut (hdoc : Documented T view) {fuel : ℕ} (hfuel : 3 < fuel) :
    (∀ (iface : Handler S) (arg : WireTiming) (part : List UInt8) (s : Server T S),
      arg.Writable → part <+: callBytes arg → part ≠ callBytes arg →
      view.input s.input = ⟨part,0⟩ → Small T (view.input s.input) →
      ∃ t, process T fuel iface s = (t,.failed) ∧ t.memory = s.memory ∧ t.output = s.output) ∧
    (∀ (answer part : List UInt8) (i : T.In), AnswerBytes answer → part <+: answer →
      part ≠ answer → view.input i = ⟨part,0⟩ → Small T (view.input i) →
      (recvBench T fuel).run i = none) :=
  ⟨fun iface _ _ _ harg hpart hne hview hsmall =>
      process_cut hdoc hfuel iface harg hpart hne hview hsmall,
    fun _ _ _ hanswer hpart hne hview hsmall =>
      recvBench_cut hdoc (by omega) hanswer hpart hne hview hsmall⟩

/-- A call without its last byte, and a reply without its last. -/
theorem messages_cut_last :
    (∃ t, process (documentedProtocol 100) 4 rejectNegative
        ⟨⟨(callBytes ⟨7,6,[99],⟨true,true,true⟩⟩).dropLast,0⟩,⟨[],0⟩,3⟩ = (t,.failed) ∧
      t.memory = 3 ∧ t.output = ⟨[],0⟩) ∧
    (recvBench (documentedProtocol 100) 4).run ⟨(replyBytes 0 7).dropLast,0⟩ = none := by
  obtain ⟨hcall,hreply⟩ := @messages_cut ℕ _ _ (documentedProtocol_documented 100) 4 (by norm_num)
  constructor
  · exact hcall rejectNegative ⟨7,6,[99],⟨true,true,true⟩⟩ _
      ⟨⟨(callBytes ⟨7,6,[99],⟨true,true,true⟩⟩).dropLast,0⟩,⟨[],0⟩,3⟩
      ⟨by norm_num [Fits],by norm_num [Fits],by norm_num⟩ (List.dropLast_prefix _) (by decide) rfl
      (by unfold Small; decide)
  · exact hreply _ _ ⟨(replyBytes 0 7).dropLast,0⟩ (.reply (by norm_num [Fits])
      (by norm_num [Fits])) (List.dropLast_prefix _) (by decide) rfl (by unfold Small; decide)

end RelayBench.ThriftWire
