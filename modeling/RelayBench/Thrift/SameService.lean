import RelayBench.ThriftCpp.Acknowledgement
import RelayBench.ThriftRs.Faultless

/-! # The C++ and the Rust thrift chains side by side

Both chains are freshly started, no hop fails, and the sinks' clocks show the same readings.
The C++ sink answers with the message's id and the Rust handlers with 0; the samples agree
as long as the Rust difference does not wrap.
-/
namespace RelayBench.ThriftPair
open RemoteCall Ports Function
variable {numRelays numMessages : ℕ} {S : Type*}

/-- A message and the reading of the sink's clock when it gets there. -/
structure SinkCall where
  msg : Timing
  clock : ℕ
deriving DecidableEq, Repr

/-- What comes back to a sequence of calls, and the last state. -/
def run (call : SinkCall → S → S × Reply ℤ) : S → List SinkCall → List (Reply ℤ) × S
  | s, [] => ([],s)
  | s, c :: cs =>
    let r := call c s
    let rest := run call r.1 cs
    (r.2 :: rest.1,rest.2)

def cppCall (numRelays numMessages : ℕ) (c : SinkCall) (s : ThriftCpp.State) :
    ThriftCpp.State × Reply ℤ :=
  ThriftCpp.clientBench numRelays numMessages ⟨c.msg,c.clock,fun _ => .none⟩ s

def rsCall (numRelays numMessages : ℕ) (c : SinkCall) (s : ThriftRs.State) :
    ThriftRs.State × Reply ℤ :=
  ThriftRs.clientBench numRelays numMessages ⟨0,c.clock,fun _ => .none⟩ c.msg s

def cppSample (numRelays : ℕ) (c : SinkCall) : ℤ := nanosecPerHop numRelays c.clock c.msg.nanosec

def rsSample (numRelays : ℕ) (c : SinkCall) : ℤ :=
  (asI64 (asI64 c.clock - c.msg.nanosec)).tdiv (numRelays + 1)

/-- A run in which every call changes what is observed and answers by what was called. -/
theorem run_eq {call : SinkCall → S → S × Reply ℤ} {samples : S → List ℤ} {Ready : S → Prop}
    {answer sample : SinkCall → ℤ}
    (hcall : ∀ c s, Ready s → (samples s).length + 1 < numMessages →
      Ready (call c s).1 ∧ samples (call c s).1 = samples s ++ [sample c] ∧
        (call c s).2 = .replied (answer c))
    {cs : List SinkCall} {s : S} (hs : Ready s)
    (hlow : (samples s).length + cs.length < numMessages) :
    (run call s cs).1 = cs.map (fun c => .replied (answer c)) ∧
      samples (run call s cs).2 = samples s ++ cs.map sample := by
  induction cs generalizing s with
  | nil => simp [run]
  | cons c cs ih =>
    rw [List.length_cons] at hlow
    obtain ⟨hready,hsamples,hreply⟩ := hcall c s hs (by omega)
    have hrest := ih hready (by rw [hsamples, List.length_append, List.length_singleton]; omega)
    simp only [run, hreply, hrest.1, hrest.2, hsamples, List.map_cons, List.append_assoc,
      List.singleton_append, and_self]

/-! ## The C++ chain -/

theorem sinkEffect_low {now nanosec : ℤ} {s : ThriftCpp.State}
    (h : s.data.length + 1 < numMessages) :
    ThriftCpp.sinkEffect numRelays numMessages now nanosec s.sink =
      (s.data ++ [nanosecPerHop numRelays now nanosec],s.reports,s.exited) :=
  if_neg (by simp only [List.length_append, List.length_singleton]; omega)

theorem cpp_chain_replied {now : ℤ} (arg : Timing) (s : ThriftCpp.State)
    (hlow : s.data.length + 1 < numMessages) :
    (chain ThriftCpp.relayBench (ThriftCpp.sinkBench numRelays numMessages now) (fun _ => .none)
      numRelays 0 arg s).2 = .replied arg.msgid := by
  refine @chain_rule _ _ _ _ _ _ _ (fun _ f => ∀ (arg : Timing) (s : ThriftCpp.State),
    s.data.length + 1 < numMessages → (f arg s).2 = .replied arg.msgid) ?_ ?_ arg s hlow
  · intro arg s hlow
    have hsum : ¬ numMessages ≤ ((s.enter .sink).data ++
        [nanosecPerHop numRelays now arg.nanosec]).length := by
      rw [List.length_append, List.length_singleton]
      exact not_le.mpr hlow
    rw [remote_none]
    unfold ThriftCpp.sinkBench
    dsimp only
    rw [if_neg hsum]
  · intro i hi next hnext arg s hlow
    rw [remote_none, ThriftCpp.relayBench, ThriftCpp.noteThrow_reply]
    exact hnext (ThriftCpp.relayCopy i arg) (s.enter (.relay i)) hlow

theorem cppCall_eq (c : SinkCall) (s : ThriftCpp.State) (hs : s.exited = false)
    (hlow : s.data.length + 1 < numMessages) :
    let r := cppCall numRelays numMessages c s
    r.1.exited = false ∧ r.1.data = s.data ++ [cppSample numRelays c] ∧
      r.2 = .replied c.msg.msgid := by
  intro r
  have hchain := @ThriftCpp.client_chain numRelays numMessages (fun _ => .none) c.clock
  have hreply : r.2 = .replied c.msg.msgid := by
    simp only [r, cppCall, ThriftCpp.clientBench, hs, Bool.false_eq_true, if_false, hchain,
      ThriftCpp.noteThrow_reply]
    exact cpp_chain_replied c.msg s hlow
  have hsink := (@ThriftCpp.clientBench_sink numRelays numMessages
    ⟨c.msg,c.clock,fun _ => .none⟩ s hs).1 (fun _ _ => by simp)
  rw [sinkEffect_low hlow] at hsink
  simp only [ThriftCpp.State.sink, Prod.mk.injEq] at hsink
  exact ⟨hsink.2.2.trans hs,hsink.1,hreply⟩

/-! ## The Rust chain -/

theorem push_low {v : ℤ} {sink : List ℤ × List Report × List ℤ}
    (hlow : sink.1.length + 1 < numMessages) :
    (ThriftRs.push numMessages v sink).1 = sink.1 ++ [v] := by
  have hne : (sink.1 ++ [v]).length ≠ numMessages := by
    rw [List.length_append, List.length_singleton]
    omega
  unfold ThriftRs.push
  dsimp only
  rw [if_neg hne]

/-- A call to a vector that it does not fill. -/
theorem pushes_low {v : ℤ} {s t : ThriftRs.State} {reply : Reply ℤ}
    (h : ThriftRs.Pushes numMessages v s t reply) (hlow : s.latencyVec.length + 1 < numMessages) :
    ThriftRs.Unpoisoned t ∧ t.latencyVec = s.latencyVec ++ [v] ∧ reply = .replied 0 := by
  have hvec := congrArg Prod.fst h.sink
  exact ⟨h.unpoisoned,hvec.trans (push_low hlow),h.reply_eq⟩

theorem rsCall_eq (hN : numRelays + 1 < 2 ^ 31) (c : SinkCall) (s : ThriftRs.State)
    (hs : ThriftRs.Unpoisoned s) (hlow : s.latencyVec.length + 1 < numMessages) :
    let r := rsCall numRelays numMessages c s
    ThriftRs.Unpoisoned r.1 ∧ r.1.latencyVec = s.latencyVec ++ [rsSample numRelays c] ∧
      r.2 = .replied 0 := by
  have hv := latency_eq hN (asI64 c.clock) c.msg.nanosec
  exact pushes_low (ThriftRs.clientBench_pushes hv hs) hlow

/-! ## Same answers and samples -/

/-- The same acks come back and the same samples are recorded. -/
def SameService (numRelays numMessages : ℕ) (cs : List SinkCall) : Prop :=
  let cpp := run (cppCall numRelays numMessages) ThriftCpp.init cs
  let rs := run (rsCall numRelays numMessages) ThriftRs.init cs
  cpp.1 = rs.1 ∧ cpp.2.data = rs.2.latencyVec

theorem cpp_run {cs : List SinkCall} (hlow : cs.length < numMessages) :
    let cpp := run (cppCall numRelays numMessages) ThriftCpp.init cs
    cpp.1 = cs.map (fun c => .replied c.msg.msgid) ∧ cpp.2.data = cs.map (cppSample numRelays) := by
  have hrun := @run_eq numMessages _ _ ThriftCpp.State.data (fun s => s.exited = false)
    (fun c => c.msg.msgid) _ (@cppCall_eq numRelays numMessages) cs ThriftCpp.init rfl
    (by simpa [ThriftCpp.init] using hlow)
  exact ⟨hrun.1,hrun.2⟩

theorem rs_run (hN : numRelays + 1 < 2 ^ 31) {cs : List SinkCall} (hlow : cs.length < numMessages) :
    let rs := run (rsCall numRelays numMessages) ThriftRs.init cs
    rs.1 = cs.map (fun _ => .replied 0) ∧ rs.2.latencyVec = cs.map (rsSample numRelays) := by
  have hrun := @run_eq numMessages _ _ ThriftRs.State.latencyVec ThriftRs.Unpoisoned (fun _ => 0) _
    (@rsCall_eq numRelays numMessages hN) cs ThriftRs.init ⟨fun _ => rfl,rfl⟩
    (by simpa [ThriftRs.init] using hlow)
  exact ⟨hrun.1,hrun.2⟩

theorem asI64_sub_asI64 (x y : ℤ) : asI64 (asI64 x - y) = asI64 (x - y) := Int.bmod_sub_bmod

theorem sample_eq_iff (hN : numRelays + 1 < 2 ^ 31) (c : SinkCall) :
    cppSample numRelays c = rsSample numRelays c ↔ InI64 (c.clock - c.msg.nanosec) := by
  unfold cppSample rsSample nanosecPerHop
  rw [asI64_sub_asI64]
  constructor
  · intro h
    exact inI64_of_tdiv_asI64 (by omega) (by omega) h.symm
  · intro h
    rw [asI64_of_inI64 h]

/-- The chains implement the same service on the messages with id 0, which is all that the
C++ client sends, as long as no difference of clocks overflows. -/
theorem sameService_iff (hN : numRelays + 1 < 2 ^ 31) (cs : List SinkCall)
    (hlow : cs.length < numMessages) :
    SameService numRelays numMessages cs ↔
      ∀ c ∈ cs, c.msg.msgid = 0 ∧ InI64 (c.clock - c.msg.nanosec) := by
  obtain ⟨hcppAcks,hcppData⟩ := @cpp_run numRelays numMessages cs hlow
  obtain ⟨hrsAcks,hrsData⟩ := @rs_run numRelays numMessages hN cs hlow
  simp only [SameService, hcppAcks, hcppData, hrsAcks, hrsData, List.map_inj_left,
    Reply.replied.injEq, sample_eq_iff hN]
  exact ⟨fun h c hc => ⟨h.1 c hc,h.2 c hc⟩,fun h => ⟨fun c hc => (h c hc).1,fun c hc => (h c hc).2⟩⟩

theorem sameService_iff_twoMessages :
    SameService 20 1000 [⟨⟨0,5,"client"⟩,26⟩,⟨⟨1,6,"client"⟩,27⟩] ↔
      ∀ c ∈ ([⟨⟨0,5,"client"⟩,26⟩,⟨⟨1,6,"client"⟩,27⟩] : List SinkCall),
        c.msg.msgid = 0 ∧ InI64 (c.clock - c.msg.nanosec) :=
  sameService_iff (by norm_num) _ (by simp)

/-- Message 7 is acknowledged with 7 by the one chain and with 0 by the other. -/
theorem acks_differ : ¬ SameService 20 1000 [⟨⟨7,5,"client"⟩,26⟩] := by
  rintro ⟨hacks,_⟩
  obtain ⟨hcpp,_⟩ := @cpp_run 20 1000 [⟨⟨7,5,"client"⟩,26⟩] (by simp)
  obtain ⟨hrs,_⟩ := @rs_run 20 1000 (by norm_num) [⟨⟨7,5,"client"⟩,26⟩] (by simp)
  rw [hcpp, hrs] at hacks
  simp at hacks

end RelayBench.ThriftPair
