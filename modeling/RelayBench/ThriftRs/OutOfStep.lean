import RelayBench.ThriftRs.WireCalls

/-! # Calls and answers that end the Rust chain's connections

The processor answers a call of an unknown method, or one that lacks a member, with an exception and
goes on where it stopped reading, in the middle of the arguments: it is out of step, and the next
call ends the connection. A client that has refused an answer is out of step in the same way.
-/
namespace RelayBench.ThriftRsWire
open Readers CompactMessages RemoteCall Varint
open CompactProtocol (utf8)
variable {S α : Type} {T : Crate} {view : View T} {c : Context} {fuel : ℕ}

/-! ## Out of step -/

/-- The next bytes are no header of a message. -/
def Garbage (i : Input) : Prop := ∃ b bs, i.unread = b :: bs ∧ b ≠ 0x82

theorem Garbage.extend {i : Input} (h : Garbage i) (bytes : List UInt8) :
    Garbage (i.extend bytes) := by
  obtain ⟨b,bs,hunread,hb⟩ := h
  exact ⟨b,bs ++ bytes,by rw [Input.extend, hunread, List.cons_append],hb⟩

theorem readMessageBegin_garbage (hdoc : Documented T view) {i : T.In}
    (h : Garbage (view.input i)) : T.readMessageBegin.run i = none := by
  obtain ⟨b,bs,hunread,hb⟩ := h
  apply hdoc.readMessageBegin.none trivial
  rcases hi : view.input i with ⟨unread,context⟩
  rw [hi] at hunread
  obtain rfl : unread = b :: bs := hunread
  have hbyte : readByte.run ⟨b :: bs,context⟩ = some (b,⟨bs,context⟩) := readByte_reads b bs
  unfold CompactMessages.readMessageBegin
  rw [run_bind_some hbyte, if_pos hb]
  rfl

/-- Whatever arrives next ends the connection and does not get to the handler. -/
def OutOfStep (s : Server T S) : Prop :=
  ∀ fuel (handler : Handler S) bytes, ∃ t,
    process T fuel handler { s with input := T.receive bytes s.input } = (t,.failed) ∧
      t.memory = s.memory ∧ t.output = s.output

theorem process_garbage (hdoc : Documented T view) (fuel : ℕ) (handler : Handler S) {s : Server T S}
    (h : Garbage (view.input s.input)) : process T fuel handler s = (s,.failed) := by
  unfold process
  rw [readMessageBegin_garbage hdoc h]

theorem outOfStep_of_garbage (hdoc : Documented T view) {s : Server T S}
    (h : Garbage (view.input s.input)) : OutOfStep s := by
  intro fuel handler bytes
  refine ⟨{ s with input := T.receive bytes s.input },process_garbage hdoc fuel handler ?_,rfl,rfl⟩
  rw [hdoc.receive]
  exact h.extend bytes

/-- The one kind of struct whose first byte is that of a message. -/
def LikeMessage (fs : List Field) : Prop :=
  ∃ f ∈ fs.head?, f.type = .bool ∧ f.bool = false ∧ f.short = true ∧ f.id = 8

theorem code_eq_two {f : Field} (h : f.code = 2) : f.type = .bool ∧ f.bool = false := by
  unfold Field.code at h
  split at h
  case isTrue ht =>
    refine ⟨ht,?_⟩
    cases hb : f.bool with
    | false => rfl
    | true => simp [hb] at h
  case isFalse ht =>
    cases hf : f.type <;> simp_all [TType.code]

theorem structBytes_garbage {fs : List Field} (hvalid : ValidFrom 0 fs) (h : ¬LikeMessage fs)
    (rest : List UInt8) (c : Context) : Garbage ⟨structBytes 0 fs ++ rest,c⟩ := by
  cases fs with
  | nil => exact ⟨0,rest,rfl,by decide⟩
  | cons f fs =>
    have hcode := f.code_lt
    have hfield := hvalid.1.short
    rw [structBytes, Field.begin]
    cases hs : f.short with
    | true =>
      obtain ⟨hlow,hhigh⟩ := hfield hs
      refine ⟨_,_,rfl,fun heq => h ⟨f,rfl,?_⟩⟩
      have hbyte := toNat_header (show (f.id - 0).toNat ≤ 15 by omega) hcode
      rw [heq, show (0x82 : UInt8).toNat = 130 by rfl] at hbyte
      obtain ⟨htype,hbool⟩ := code_eq_two (show f.code = 2 by omega)
      exact ⟨htype,hbool,hs,by omega⟩
    | false =>
      refine ⟨_,_,rfl,fun heq => ?_⟩
      have hbyte := toNat_header (Nat.zero_le 15) hcode
      rw [Nat.zero_mul, Nat.zero_add, heq, show (0x82 : UInt8).toNat = 130 by rfl] at hbyte
      omega

/-! ## Calls that are not handled -/

/-- An `Err` of the processor is sent as an exception. -/
theorem handleProcessResult_error (hdoc : Documented T view) (h : MessageHeader) {s : Server T S}
    (hout : Flushed (view.output s.output)) (e : ApplicationError) :
    ∃ output, handleProcessResult T h (.error (s,e)) = ({ s with output := output },
        .replied (exceptionBytes h.name h.seqid e)) ∧ Flushed (view.output output) := by
  obtain ⟨output,hsend,hsent⟩ := sendException_sends hdoc h.name h.seqid e hout
  refine ⟨output,?_,hsent⟩
  rw [handleProcessResult, Server.send, hsend]

/-- A call of an unknown method is answered, but its arguments are left, and taken for the next
call. -/
theorem unknown_breaks (hdoc : Documented T view) (fuel : ℕ) (handler : Handler S) {h : MessageHeader}
    (hname : h.name ≠ "bench") (hlength : (utf8 h.name).length < 2 ^ 32) (hseqid : Fits 32 h.seqid)
    {fs : List Field} (hvalid : ValidFrom 0 fs) (hfields : ¬LikeMessage fs) {s : Server T S}
    (hin : view.input s.input = ⟨messageBegin h ++ structBytes 0 fs,c⟩)
    (hout : Flushed (view.output s.output)) :
    ∃ t, process T fuel handler s =
        (t,.replied (exceptionBytes h.name h.seqid (unknownMethod h.name))) ∧
      t.memory = s.memory ∧ OutOfStep t := by
  obtain ⟨i,hheader,hi⟩ := reads_through hdoc.readMessageBegin
    (readMessageBegin_reads hlength hseqid) hin
  obtain ⟨output,hanswer,_⟩ := @handleProcessResult_error S _ _ hdoc h { s with input := i } hout
    (unknownMethod h.name)
  refine ⟨⟨i,output,s.memory⟩,?_,rfl,?_⟩
  · unfold process
    rw [hheader]
    dsimp only
    rw [if_neg hname]
    exact hanswer
  · apply outOfStep_of_garbage hdoc
    rw [hi]
    have hgarbage := structBytes_garbage hvalid hfields [] { c with lastField := 0 }
    rwa [List.append_nil] at hgarbage

/-- A call of a method without arguments. -/
def pingCall : Server documentedCrate ℕ :=
  ⟨⟨messageBegin ⟨"ping",.call,9⟩ ++ structBytes 0 [],⟨0,[],none⟩⟩,⟨[],0,[]⟩,3⟩

theorem unknown_breaks_ping : ∃ t, process documentedCrate 4 refuseNegative pingCall =
      (t,.replied (exceptionBytes "ping" 9 ⟨.unknownMethod,"unknown method ping"⟩)) ∧
    t.memory = 3 ∧ OutOfStep t := by
  have hfields : ¬LikeMessage [] := by simp [LikeMessage]
  have hvalid : ValidFrom 0 [] := trivial
  exact unknown_breaks documentedCrate_documented 4 refuseNegative (h := ⟨"ping",.call,9⟩)
    (by decide) (by decide) (by norm_num [Fits]) hvalid hfields (s := pingCall) rfl rfl

/-- A call whose arguments end in an error of their reader. -/
theorem process_error (hdoc : Documented T view) (handler : Handler S) {mtype : TMessageType}
    {seqid : ℤ} (hseqid : Fits 32 seqid) {name : String} {args rest : List UInt8} {d : Context}
    (hargs : Reads (benchArgsRead documentedCrate fuel) args { c with lastField := 0 } d
      (.error name)) {s : Server T S}
    (hin : view.input s.input = ⟨messageBegin ⟨"bench",mtype,seqid⟩ ++ (args ++ rest),c⟩)
    (hout : Flushed (view.output s.output)) :
    ∃ t, process T fuel handler s =
        (t,.replied (exceptionBytes "bench" seqid ⟨.unknown,T.missingText name⟩)) ∧
      t.memory = s.memory ∧ view.input t.input = ⟨rest,d⟩ := by
  obtain ⟨i,hheader,hi⟩ := reads_through hdoc.readMessageBegin
    (readMessageBegin_reads name_length hseqid) hin
  obtain ⟨j,hread,hj⟩ := reads_through (benchArgsRead_reading hdoc fuel) hargs hi
  obtain ⟨output,hanswer,_⟩ := @handleProcessResult_error S _ _ hdoc ⟨"bench",mtype,seqid⟩
    { s with input := j } hout ⟨.unknown,T.missingText name⟩
  refine ⟨⟨j,output,s.memory⟩,?_,rfl,hj⟩
  unfold process
  rw [hheader]
  dsimp only
  rw [if_pos rfl, processBench]
  dsimp only
  rw [hread]
  exact hanswer

/-- A call whose `Timing` lacks a member is answered with the first one's name, and the connection
breaks with the next call; a call without any argument is answered as well, and the server stays in
step. The handler runs in neither case. -/
theorem missing_answered (hdoc : Documented T view) (hone : 1 < fuel) (handler : Handler S)
    {mtype : TMessageType} {seqid : ℤ} (hseqid : Fits 32 seqid) (hbool : c.bool = none)
    {s : Server T S} (hout : Flushed (view.output s.output)) :
    (∀ fs name, Fields timingType fs → fs.length < fuel →
      (timingFields fs).timing = .error name →
      view.input s.input =
        ⟨messageBegin ⟨"bench",mtype,seqid⟩ ++ structBytes 0 [argField fs],c⟩ →
      ∃ t, process T fuel handler s =
          (t,.replied (exceptionBytes "bench" seqid ⟨.unknown,T.missingText name⟩)) ∧
        t.memory = s.memory ∧ OutOfStep t) ∧
    (view.input s.input = ⟨messageBegin ⟨"bench",mtype,seqid⟩ ++ structBytes 0 [],c⟩ →
      ∃ t, process T fuel handler s =
          (t,.replied (exceptionBytes "bench" seqid
            ⟨.unknown,T.missingText "BenchBenchArgs.arg"⟩)) ∧
        t.memory = s.memory ∧ Idle (view.input t.input)) := by
  constructor
  · intro fs name h hfuel hname hin
    have hargs := @benchArgsRead_missing { c with lastField := 0 } fuel _ h hone hfuel hbool _ hname
    have hsplit : structBytes 0 [argField fs] =
        ((argField fs).begin 0 ++ structBytes 0 fs) ++ [0] := (List.append_assoc _ _ _).symm
    rw [hsplit] at hin
    obtain ⟨t,hprocess,hmemory,hleft⟩ := process_error hdoc handler hseqid hargs hin hout
    refine ⟨t,hprocess,hmemory,outOfStep_of_garbage hdoc ?_⟩
    rw [hleft]
    exact ⟨0,[],rfl,by decide⟩
  · intro hin
    have hargs := @benchArgsRead_none { c with lastField := 0 } fuel (by omega) hbool
    rw [← List.append_nil (structBytes 0 [])] at hin
    obtain ⟨t,hprocess,hmemory,hleft⟩ := process_error hdoc handler hseqid hargs hin hout
    refine ⟨t,hprocess,hmemory,?_⟩
    rw [hleft]
    exact ⟨rfl,hbool⟩

/-- A call with `unorderedFields`. -/
def unorderedCall : Server documentedCrate ℕ :=
  ⟨⟨messageBegin ⟨"bench",.call,9⟩ ++ structBytes 0 [argField unorderedFields],⟨0,[],none⟩⟩,
    ⟨[],0,[]⟩,3⟩

theorem missing_answered_unordered : ∃ t,
    process documentedCrate 6 refuseNegative unorderedCall =
        (t,.replied (exceptionBytes "bench" 9
          ⟨.unknown,documentedCrate.missingText "Timing.nanosec"⟩)) ∧
      t.memory = 3 ∧ OutOfStep t := by
  have hmissing : (timingFields unorderedFields).timing = .error "Timing.nanosec" := rfl
  obtain ⟨hanswered,_⟩ := @missing_answered ℕ _ _ ⟨0,[],none⟩ 6 documentedCrate_documented
    (by norm_num) refuseNegative .call 9 (by norm_num [Fits]) rfl unorderedCall rfl
  exact hanswered unorderedFields _ unorderedFields_fields (by decide) hmissing rfl

/-! ## Answers that are refused -/

theorem benchArgsTurn_local (fuel : ℕ) (a : ArgsFields) (h : FieldHeader) :
    Local Input.extend (benchArgsTurn documentedCrate fuel a h) := by
  unfold benchArgsTurn
  split
  · exact .failure
  · split
    · refine (timingRead_local fuel).bind (fun r => ?_)
      cases r with
      | error name => exact .pure _
      | ok v => exact (Local.pure ()).bind (fun _ => .pure _)
    · exact (skip_local skipLimit h.type).bind (fun _ => (Local.pure ()).bind (fun _ => .pure _))

theorem benchArgsRead_local (fuel : ℕ) :
    Local Input.extend (benchArgsRead documentedCrate fuel) := by
  refine readStructBegin_local.bind (fun _ => (untilStop_local readFieldBegin_local
    (benchArgsTurn_local fuel) fuel _).bind (fun a => ?_))
  cases a with
  | error name => exact .pure _
  | ok f1 =>
    refine readStructEnd_local.bind (fun _ => ?_)
    cases f1 with
    | none => exact .pure _
    | some arg => exact .pure _

theorem benchResultRead_local (fuel : ℕ) :
    Local Input.extend (benchResultRead documentedCrate fuel) := by
  refine readStructBegin_local.bind (fun _ => Local.bind ?_ (fun f0 =>
    readStructEnd_local.bind (fun _ => .pure _)))
  refine untilStop_local readFieldBegin_local (fieldTurn_local (fun f0 type id => ?_)) fuel _
  unfold benchResultValue
  split
  · exact (readInt_local 64).map _
  · exact (skip_local skipLimit type).map _

theorem errorField_local (e : ApplicationError) (h : FieldHeader) :
    Local Input.extend (errorField e h) := by
  unfold errorField
  split
  · exact readString_local.map _
  · split
    · exact (readInt_local 32).map _
    · exact (skip_local skipLimit h.type).map _

theorem readErrorFields_local : Local Input.extend readErrorFields := by
  intro i e t h more
  have hfields := untilStop_local readFieldBegin_local errorField_local (i.unread.length + 1)
    ⟨.unknown,"general remote error"⟩ i e t h more
  refine untilStop_mono ?_ hfields
  simp only [Input.extend, List.length_append]
  omega

theorem recvBench_local (fuel : ℕ) (seqid : ℤ) :
    Local Input.extend (recvBench documentedCrate fuel seqid) := by
  refine readMessageBegin_local.bind (fun h => ?_)
  split
  · exact .pure _
  · split
    · exact .pure _
    · split
      · exact (readStructBegin_local.bind (fun _ => readErrorFields_local.bind (fun _ =>
          readStructEnd_local.bind (fun _ => .pure _)))).bind (fun _ =>
          (Local.pure ()).bind (fun _ => .pure _))
      · split
        · exact .pure _
        · exact (benchResultRead_local fuel).bind (fun _ => (Local.pure ()).bind (fun _ => .pure _))

/-- The answers of a server to the call with this sequence number. -/
inductive AnswerBytes (seqid : ℤ) : List UInt8 → Prop
  | reply {ack : ℤ} (hack : Fits 64 ack) : AnswerBytes seqid (replyBytes seqid ack)
  | exception {e : ApplicationError} (hmessage : (utf8 e.message).length < 2 ^ 32) :
      AnswerBytes seqid (exceptionBytes "bench" seqid e)

/-- What is answered to a call of which this much arrives: nothing within the header, an exception
with a text of the crate within the arguments. -/
def CutAnswer (seqid : ℤ) (part : List UInt8) (r : Reply (List UInt8)) : Prop :=
  if part.length < (messageBegin ⟨"bench",.call,seqid⟩).length then r = .failed
  else ∃ text, r = .replied (exceptionBytes "bench" seqid ⟨.unknown,text⟩)

theorem process_cut (hdoc : Documented T view) (hfuel : 3 < fuel) (handler : Handler S)
    {arg : Timing} (harg : Sendable arg) {seqid : ℤ} (hseqid : Fits 32 seqid)
    {part : List UInt8} (hpart : part <+: callBytes seqid arg) (hne : part ≠ callBytes seqid arg)
    (hbool : c.bool = none) {s : Server T S} (hin : view.input s.input = ⟨part,c⟩)
    (hout : Flushed (view.output s.output)) :
    ∃ t r, process T fuel handler s = (t,r) ∧ t.memory = s.memory ∧ CutAnswer seqid part r := by
  have hheader := @readMessageBegin_reads c ⟨"bench",.call,seqid⟩ name_length hseqid
  unfold process
  rcases prefix_append_cases hpart hne with ⟨hp,hp'⟩ | ⟨q,rfl,hq,hq'⟩
  · have hnone : T.readMessageBegin.run s.input = none := by
      apply hdoc.readMessageBegin.none trivial
      rw [hin]
      exact hheader.none_of_short readMessageBegin_local hp hp'
    have hlength := lt_of_le_of_ne hp.length_le (fun h => hp' (hp.eq_of_length h))
    rw [hnone]
    exact ⟨s,.failed,rfl,rfl,by rw [CutAnswer, if_pos hlength]⟩
  · obtain ⟨i,hrun,hi⟩ := reads_through hdoc.readMessageBegin hheader hin
    have hargs := @benchArgsRead_ok { c with lastField := 0 } fuel _ harg.fields (by omega) hfuel
      hbool _ (timingFields_written arg)
    have hnone : (benchArgsRead T fuel).run i = none := by
      apply (benchArgsRead_reading hdoc fuel).none trivial
      rw [hi]
      exact hargs.none_of_short (benchArgsRead_local fuel) hq hq'
    obtain ⟨output,hanswer,_⟩ := @handleProcessResult_error S _ _ hdoc ⟨"bench",.call,seqid⟩
      { s with input := T.afterError i } hout ⟨.unknown,T.errorText i⟩
    have hwhole : ¬(messageBegin ⟨"bench",.call,seqid⟩ ++ q).length <
        (messageBegin ⟨"bench",.call,seqid⟩).length := by
      rw [List.length_append]
      omega
    rw [hrun]
    dsimp only
    rw [if_pos rfl, processBench]
    dsimp only
    rw [hnone]
    refine ⟨_,_,hanswer,rfl,?_⟩
    rw [CutAnswer, if_neg hwhole]
    exact ⟨T.errorText i,rfl⟩

/-- A call that is cut off anywhere does not reach the handler; it is answered with an exception
if its header is whole. Of an answer that is cut off anywhere the client gets nothing. -/
theorem bytes_cut (hdoc : Documented T view) (hfuel : 3 < fuel) {seqid : ℤ}
    (hseqid : Fits 32 seqid) (hbool : c.bool = none) :
    (∀ (handler : Handler S) (arg : Timing) (part : List UInt8) (s : Server T S), Sendable arg →
      part <+: callBytes seqid arg → part ≠ callBytes seqid arg →
      view.input s.input = ⟨part,c⟩ → Flushed (view.output s.output) →
      ∃ t r, process T fuel handler s = (t,r) ∧ t.memory = s.memory ∧ CutAnswer seqid part r) ∧
    (∀ (answer part : List UInt8) (i : T.In), AnswerBytes seqid answer → part <+: answer →
      part ≠ answer → view.input i = ⟨part,c⟩ → (recvBench T fuel seqid).run i = none) := by
  constructor
  · intro handler arg part s harg hpart hne hin hout
    exact process_cut hdoc hfuel handler harg hseqid hpart hne hbool hin hout
  · intro answer part i hanswer hpart hne hview
    apply (recvBench_reading hdoc fuel seqid).none trivial
    rw [hview]
    cases hanswer with
    | reply hack =>
      exact (recvBench_reply (by omega) hbool hseqid hack).none_of_short
        (recvBench_local fuel seqid) hpart hne
    | exception hmessage =>
      exact (recvBench_exception fuel hbool hseqid hmessage).none_of_short
        (recvBench_local fuel seqid) hpart hne

/-- A call of which only the first byte of the arguments is there, and a reply without its last. -/
theorem bytes_cut_last :
    (∃ t r, process documentedCrate 4 refuseNegative ⟨⟨messageBegin ⟨"bench",.call,9⟩ ++ [0x1c],
        ⟨0,[],none⟩⟩,⟨[],0,[]⟩,3⟩ = (t,r) ∧ t.memory = 3 ∧
      CutAnswer 9 (messageBegin ⟨"bench",.call,9⟩ ++ [0x1c]) r) ∧
    (recvBench documentedCrate 4 9).run ⟨(replyBytes 9 7).dropLast,⟨0,[],none⟩⟩ = none := by
  obtain ⟨hcall,hreply⟩ := @bytes_cut ℕ _ _ ⟨0,[],none⟩ 4 documentedCrate_documented (by norm_num) 9
    (by norm_num [Fits]) rfl
  have hsource : (utf8 "c").length < 2 ^ 32 := by decide
  constructor
  · refine hcall refuseNegative ⟨7,6,"c"⟩ _ ⟨⟨messageBegin ⟨"bench",.call,9⟩ ++ [0x1c],
      ⟨0,[],none⟩⟩,⟨[],0,[]⟩,3⟩ ⟨by norm_num [Fits],by norm_num [Fits],hsource⟩ ?_ ?_ rfl rfl
    · exact (List.prefix_append_right_inj _).mpr ⟨_,rfl⟩
    · intro h
      have hlength := congrArg List.length (List.append_cancel_left h)
      simp [structBytes, argField, fieldAt, timingWritten, Field.begin] at hlength
  · refine hreply _ _ ⟨(replyBytes 9 7).dropLast,⟨0,[],none⟩⟩ (.reply (by norm_num [Fits]))
      (List.dropLast_prefix _) ?_ rfl
    intro h
    have hlength := congrArg List.length h
    simp [replyBytes, messageBegin] at hlength

end RelayBench.ThriftRsWire
