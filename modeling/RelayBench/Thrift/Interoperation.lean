import RelayBench.ThriftCpp.Transparency
import RelayBench.ThriftRs.OutOfStep

/-! # One chain's client at the other chain's server

The two thrift chains serve the same method on the same ports, but the C++ chain speaks the binary
protocol and the Rust chain the compact one. The first bytes of every message tell them apart, so
that no call of the one is taken for a call of the other.
-/
namespace RelayBench.ThriftPair
open Readers RemoteCall
variable {P : ThriftWire.TProtocol} {pview : ThriftWire.View P} {T : ThriftRsWire.Crate}
    {view : ThriftRsWire.View T} {S : Type} {fuel : ℕ}

/-! ## The first bytes -/

theorem binary_garbage (h : BinaryProtocol.MessageHeader) (rest : List UInt8)
    (c : CompactMessages.Context) :
    ThriftRsWire.Garbage ⟨BinaryProtocol.messageBegin h ++ rest,c⟩ :=
  ⟨0x80,_,rfl,by decide⟩

/-- A word that begins with the id of the compact protocol is negative. -/
theorem toInt_compact (a b c : UInt8) : BinaryProtocol.toInt [0x82,a,b,c] < 0 := by
  have ha := a.toNat_lt
  have hb := b.toNat_lt
  have hc := c.toNat_lt
  have hword : BinaryProtocol.ofBigEndian [0x82,a,b,c] =
      ((0x82 * 256 + a.toNat) * 256 + b.toNat) * 256 + c.toNat := rfl
  rw [BinaryProtocol.toInt, hword, Int.bmod_def]
  norm_num
  split <;> omega

theorem readMessageBegin_compact (bytes : List UInt8) :
    BinaryProtocol.readMessageBegin.run ⟨0x82 :: bytes,0⟩ = none := by
  by_cases hlength : 4 ≤ (0x82 :: bytes).length
  · obtain ⟨a,b,c,rest,rfl⟩ : ∃ a b c rest, bytes = a :: b :: c :: rest := by
      match bytes, hlength with
      | a :: b :: c :: rest, _ => exact ⟨a,b,c,rest,rfl⟩
    have htake : (BinaryProtocol.take 4).run ⟨0x82 :: a :: b :: c :: rest,0⟩ =
        some ([0x82,a,b,c],⟨rest,0⟩) :=
      @BinaryProtocol.take_reads 0 [0x82,a,b,c] 4 rfl rest 0 (Nat.zero_le _)
    unfold BinaryProtocol.readMessageBegin
    rw [run_bind_some htake, if_pos (toInt_compact a b c), if_neg (by simp)]
    rfl
  · have htake : (BinaryProtocol.take 4).run ⟨0x82 :: bytes,0⟩ = none := if_neg hlength
    exact run_bind_none htake

/-! ## Calls -/

theorem cppCall_unheard (hcpp : ThriftWire.Documented P pview) (hrs : ThriftRsWire.Documented T view)
    {arg : ThriftWire.WireTiming} (harg : arg.source.length < 2 ^ 31) {o o' : P.Out}
    (hout : pview.output o = ⟨[],0⟩) {bytes : List UInt8}
    (hsend : (ThriftWire.sendBench P arg).run o = some (bytes,o')) (fuel : ℕ)
    (handler : ThriftRsWire.Handler S) {s : ThriftRsWire.Server T S}
    (hidle : ThriftRsWire.Idle (view.input s.input)) :
    ∃ t, ThriftRsWire.process T fuel handler { s with input := T.receive bytes s.input } =
        (t,.failed) ∧ t.memory = s.memory ∧ t.output = s.output := by
  obtain ⟨sent,hsent,_⟩ := ThriftWire.sendBench_sends hcpp harg hout
  rw [hsend] at hsent
  obtain rfl : bytes = ThriftWire.callBytes arg := congrArg Prod.fst (Option.some.inj hsent)
  refine ⟨_,ThriftRsWire.process_garbage hrs fuel handler ?_,rfl,rfl⟩
  rw [ThriftRsWire.receive_idle hrs hidle]
  exact binary_garbage _ _ _

theorem rsCall_unheard (hcpp : ThriftWire.Documented P pview) (hrs : ThriftRsWire.Documented T view)
    {seqid : ℤ} {arg : Timing} {o o' : T.Out} (hout : ThriftRsWire.Flushed (view.output o))
    {bytes : List UInt8} (hsend : (ThriftRsWire.sendBench T seqid arg).run o = some (bytes,o'))
    (hsmall : bytes.length ≤ P.maxMessageSize) (fuel : ℕ) (iface : ThriftWire.Handler S)
    {s : ThriftWire.Server P S} (hidle : pview.input s.input = ⟨[],0⟩) :
    ∃ t, ThriftWire.process P fuel iface { s with input := P.receive bytes s.input } =
        (t,.failed) ∧ t.memory = s.memory ∧ t.output = s.output := by
  obtain ⟨sent,hsent,_⟩ := ThriftRsWire.sendBench_sends hrs seqid arg hout
  rw [hsend] at hsent
  obtain rfl : bytes = ThriftRsWire.callBytes seqid arg :=
    congrArg Prod.fst (Option.some.inj hsent)
  have harrived := ThriftWire.received_quiet hcpp hidle (ThriftRsWire.callBytes seqid arg)
  have hnone : P.readMessageBegin.run
      (P.receive (ThriftRsWire.callBytes seqid arg) s.input) = none := by
    apply hcpp.readMessageBegin.none
    · rw [harrived]
      exact hsmall
    · rw [harrived]
      exact readMessageBegin_compact _
  refine ⟨{ s with input := P.receive (ThriftRsWire.callBytes seqid arg) s.input },?_,rfl,rfl⟩
  unfold ThriftWire.process
  rw [hnone]

/-- No call that the client of one chain sends reaches the handler of the other chain's server: the
server ends the connection without an answer. -/
theorem calls_unheard (hcpp : ThriftWire.Documented P pview)
    (hrs : ThriftRsWire.Documented T view) :
    (∀ (arg : ThriftWire.WireTiming) (o o' : P.Out) bytes, arg.source.length < 2 ^ 31 →
      pview.output o = ⟨[],0⟩ → (ThriftWire.sendBench P arg).run o = some (bytes,o') →
      ∀ fuel (handler : ThriftRsWire.Handler S) (s : ThriftRsWire.Server T S),
        ThriftRsWire.Idle (view.input s.input) →
        ∃ t, ThriftRsWire.process T fuel handler { s with input := T.receive bytes s.input } =
            (t,.failed) ∧ t.memory = s.memory ∧ t.output = s.output) ∧
    (∀ seqid arg (o o' : T.Out) bytes, ThriftRsWire.Flushed (view.output o) →
      (ThriftRsWire.sendBench T seqid arg).run o = some (bytes,o') →
      bytes.length ≤ P.maxMessageSize →
      ∀ fuel (iface : ThriftWire.Handler S) (s : ThriftWire.Server P S),
        pview.input s.input = ⟨[],0⟩ →
        ∃ t, ThriftWire.process P fuel iface { s with input := P.receive bytes s.input } =
            (t,.failed) ∧ t.memory = s.memory ∧ t.output = s.output) := by
  constructor
  · intro arg o o' bytes harg hout hsend fuel handler s hidle
    exact cppCall_unheard hcpp hrs harg hout hsend fuel handler hidle
  · intro seqid arg o o' bytes hout hsend hsmall fuel iface s hidle
    exact rsCall_unheard hcpp hrs hout hsend hsmall fuel iface hidle

/-- A call of the C++ client at the Rust server. -/
theorem calls_unheard_count : ∃ t,
    ThriftRsWire.process ThriftRsWire.documentedCrate 4 ThriftRsWire.refuseNegative
      ⟨ThriftRsWire.quietInput.extend
        (ThriftWire.callBytes ⟨7,6,[99],⟨false,false,false⟩⟩),⟨[],0,[]⟩,3⟩ = (t,.failed) ∧
      t.memory = 3 ∧ t.output = ⟨[],0,[]⟩ := by
  have hsend : (ThriftWire.sendBench (ThriftWire.documentedProtocol 100)
      ⟨7,6,[99],⟨false,false,false⟩⟩).run ⟨[],0⟩ =
        some (ThriftWire.callBytes ⟨7,6,[99],⟨false,false,false⟩⟩,⟨[],0⟩) := by decide
  exact (calls_unheard (ThriftWire.documentedProtocol_documented 100)
    ThriftRsWire.documentedCrate_documented).1 _ ⟨[],0⟩ ⟨[],0⟩ _ (by norm_num) rfl hsend 4
    ThriftRsWire.refuseNegative ⟨ThriftRsWire.quietInput,⟨[],0,[]⟩,3⟩ ⟨rfl,rfl⟩

end RelayBench.ThriftPair
