import RelayBench.Zenoh.Delivery

/-! # The process ends when `main` returns

`main` awaits neither the relays nor the sink. Its last sleep is all that keeps the process
alive for them, so the report is printed exactly if the sleep outlasts what is on the way.
-/
namespace RelayBench.Zenoh
open Execution LossyHops Function
variable {T : ThriftCrate} {view : View T} {numRelays numMessages : ℕ} {s t : State}

/-- Nothing is queued on a hop or in the hand of a task. -/
def Drained (numRelays : ℕ) (s : State) : Prop :=
  ∀ k ≤ numRelays, s.hand numRelays k = [] ∧ s.queue (topic k) = []

/-- The sink has received all messages and printed its report. -/
def Reported (numMessages : ℕ) (s : State) : Prop :=
  s.received.length = numMessages ∧ ∃ r, s.reports = [r]

/-! ## What a run of the process preserves -/

theorem put_frame (s : State) (name : String) (m : Message) :
    (s.put name m).main = s.main ∧ (s.put name m).lost = s.lost ∧
      (s.put name m).reports = s.reports := by
  unfold State.put
  split <;> exact ⟨rfl,rfl,rfl⟩

theorem handle_frame (numRelays numMessages elapsed : ℕ) (m : Timing) (s : State) :
    (s.handle numRelays numMessages elapsed m).main = s.main ∧
      (s.handle numRelays numMessages elapsed m).lost = s.lost := by
  unfold State.handle
  generalize latency numRelays (asI64 elapsed) m.nanosec = v
  cases v with
  | none => exact ⟨rfl,rfl⟩
  | some v =>
    simp only [Option.elim_some, State.pushLatency]
    split
    · split <;> exact ⟨rfl,rfl⟩
    · exact ⟨rfl,rfl⟩

theorem eq_frame {u : State} {handled : ℕ → List Timing}
    (h : some { u with handled := handled } = some t) : t.main = u.main ∧ t.lost = u.lost := by
  cases h
  exact ⟨rfl,rfl⟩

theorem handleStep_frame {elapsed : ℕ}
    (h : step T numRelays numMessages s (.handle elapsed) = some t) :
    t.main = s.main ∧ t.lost = s.lost := by
  cases hsink : s.sink with
  | handling m =>
    simp only [step, hsink] at h
    cases hread : sinkTiming T PAYLOAD_SIZE m.payload with
    | none =>
      simp only [hread, Option.some.injEq] at h
      subst h
      exact ⟨rfl,rfl⟩
    | some read =>
      simp only [hread] at h
      have hframe := handle_frame numRelays numMessages elapsed read s
      have hsame := eq_frame h
      rwa [hframe.1, hframe.2] at hsame
  | _ => simp [step, hsink] at h

/-- How many steps of its own `main` is away from returning. -/
def remaining (numRelays numMessages : ℕ) : MainPc → ℕ
  | .declareSubscriber i => 3 * (numRelays - i) + numMessages + 6
  | .declarePublisher i => 3 * (numRelays - i) + numMessages + 5
  | .spawnRelay i => 3 * (numRelays - i) + numMessages + 4
  | .declareSinkSubscriber => numMessages + 5
  | .spawnSink => numMessages + 4
  | .declareClientPublisher => numMessages + 3
  | .client i => numMessages - i + 2
  | .sleep => 1
  | .returned => 0
  | .panicked => 0

/-- What a step of `main` keeps, and where it returns. -/
structure MainStep (numRelays numMessages : ℕ) (s t : State) : Prop where
  lost : t.lost = s.lost
  reports : t.reports = s.reports
  remaining : s.main.Valid numRelays numMessages → t.main ≠ .panicked →
    remaining numRelays numMessages t.main < remaining numRelays numMessages s.main
  returned : t.main = .returned → s.main = .sleep ∧ t = { s with main := .returned }

theorem mainStep_frame {elapsed : ℕ} (h : mainStep T numRelays numMessages elapsed s = some t) :
    MainStep numRelays numMessages s t := by
  unfold mainStep at h
  cases hmain : s.main with
  | declareSubscriber i =>
    simp only [hmain] at h
    split at h
    · cases h
      exact ⟨rfl,rfl,fun _ _ => by simp only [hmain, remaining]; omega,by simp⟩
    · cases h
      exact ⟨rfl,rfl,fun _ _ => by simp only [hmain, remaining]; omega,by simp⟩
  | declarePublisher i =>
    simp only [hmain, Option.some.injEq] at h
    subst h
    exact ⟨rfl,rfl,fun _ _ => by simp only [hmain, remaining]; omega,by simp⟩
  | spawnRelay i =>
    simp only [hmain, Option.some.injEq] at h
    subst h
    refine ⟨rfl,rfl,fun hvalid _ => ?_,by simp⟩
    simp only [hmain, MainPc.Valid, remaining] at hvalid ⊢
    omega
  | declareSinkSubscriber =>
    simp only [hmain, Option.some.injEq] at h
    subst h
    exact ⟨rfl,rfl,fun _ _ => by simp only [hmain, remaining]; omega,by simp⟩
  | spawnSink =>
    simp only [hmain, Option.some.injEq] at h
    subst h
    exact ⟨rfl,rfl,fun _ _ => by simp only [hmain, remaining]; omega,by simp⟩
  | declareClientPublisher =>
    simp only [hmain, Option.some.injEq] at h
    subst h
    exact ⟨rfl,rfl,fun _ _ => by simp only [hmain, remaining]; omega,by simp⟩
  | client i =>
    simp only [hmain] at h
    split at h
    · split at h
      · cases h
        exact ⟨rfl,rfl,fun _ hne => absurd rfl hne,by simp⟩
      · cases h
        have hput := put_frame s (topic 0)
        exact ⟨(hput _).2.1,(hput _).2.2,fun _ _ => by simp only [hmain, remaining]; omega,by simp⟩
    · cases h
      exact ⟨rfl,rfl,fun _ _ => by simp only [hmain, remaining]; omega,by simp⟩
  | sleep =>
    simp only [hmain, Option.some.injEq] at h
    subst h
    exact ⟨rfl,rfl,fun _ _ => by simp [hmain, remaining],fun _ => ⟨hmain,rfl⟩⟩
  | returned => simp [hmain] at h
  | panicked => simp [hmain] at h

/-- The tasks leave `main` alone, and only a loss loses a message. -/
theorem step_frame {l : Label} (h : step T numRelays numMessages s l = some t) :
    ((∃ elapsed, l = .main elapsed) ∨ t.main = s.main) ∧
      ((∃ i j, l = .lose i j) ∨ t.lost = s.lost) := by
  cases l with
  | main elapsed => exact ⟨.inl ⟨elapsed,rfl⟩,.inr (mainStep_frame h).lost⟩
  | recv i =>
    simp only [step] at h
    split at h
    · cases h
      exact ⟨.inr rfl,.inr rfl⟩
    · cases h
  | forward i =>
    simp only [step] at h
    split at h
    · split at h
      · cases h
        exact ⟨.inr rfl,.inr rfl⟩
      · cases h
        have hput := put_frame s (topic (i + 1))
        exact ⟨.inr (hput _).1,.inr (hput _).2.1⟩
    · cases h
  | recvSink =>
    simp only [step] at h
    split at h
    · cases h
      exact ⟨.inr rfl,.inr rfl⟩
    · cases h
  | handle elapsed => exact ⟨.inr (handleStep_frame h).1,.inr (handleStep_frame h).2⟩
  | lose i j =>
    simp only [step] at h
    split at h
    · cases h
    · cases h
      exact ⟨.inr rfl,.inl ⟨i,j,rfl⟩⟩

theorem Drained.pending (h : Drained numRelays s) {k : ℕ} (hk : k ≤ numRelays) :
    (hop numRelays s k).pending = [] := by
  obtain ⟨hhand,hqueue⟩ := h k hk
  simp [Hop.pending, hop, hhand, hqueue]

theorem drained_of_pending (h : ∀ k ≤ numRelays, (hop numRelays s k).pending = []) :
    Drained numRelays s := by
  intro k hk
  simpa [Hop.pending, hop] using h k hk

end RelayBench.Zenoh
