import RelayBench.Zenoh.Flow

/-! # Delivery and the report of the single-process bench

When no task can step, `main` has returned, nothing is on the way and every task that was
not cut short by a loss has returned. The sink has reported exactly when nothing was lost.
-/
namespace RelayBench.Zenoh
open Execution LossyHops Function
variable {T : ThriftCrate} {view : View T} {numRelays numMessages : ℕ} {s : State}

/-- No task can take another step. -/
def Stuck (T : ThriftCrate) (numRelays numMessages : ℕ) (s : State) : Prop :=
  ∀ l : Label, l.IsTask → step T numRelays numMessages s l = none

/-! ## Where the tasks stand at the end -/

theorem mainStep_ne_none (elapsed : ℕ) (hreturned : s.main ≠ .returned)
    (hpanicked : s.main ≠ .panicked) : mainStep T numRelays numMessages elapsed s ≠ none := by
  unfold mainStep
  cases hmain : s.main with
  | declareSubscriber i =>
    dsimp only
    split <;> simp
  | client i =>
    dsimp only
    split
    · split <;> simp
    · simp
  | returned => exact absurd hmain hreturned
  | panicked => exact absurd hmain hpanicked
  | _ => simp

theorem Stuck.main (hstuck : Stuck T numRelays numMessages s)
    (hinv : Inv numRelays numMessages s) : s.main = .returned := by
  by_contra hreturned
  have hpanicked : s.main ≠ .panicked := by
    intro hmain
    have hvalid := hinv.wired.valid
    rw [hmain] at hvalid
    exact hvalid
  exact mainStep_ne_none 0 hreturned hpanicked (hstuck (.main 0) trivial)

theorem Stuck.published (hstuck : Stuck T numRelays numMessages s)
    (hinv : Inv numRelays numMessages s) : s.published.length = numMessages := by
  have hw := hinv.wired
  rw [hstuck.main hinv] at hw
  exact hw.published

theorem Stuck.relay (hstuck : Stuck T numRelays numMessages s)
    (hinv : Inv numRelays numMessages s) {i : ℕ} (hi : i < numRelays) :
    s.relay i = .returned ∨ (∃ count, s.relay i = .receiving count) ∧ s.queue (topic i) = [] := by
  have hw := hinv.wired
  rw [hstuck.main hinv] at hw
  have hcounts := hinv.relay i hi
  cases hrelay : s.relay i with
  | unspawned => exact absurd ((hw.relay i).mp hrelay) (not_le.mpr hi)
  | receiving count =>
    right
    have hrecv := hstuck (.recv i) trivial
    cases hqueue : s.queue (topic i) with
    | nil => exact ⟨⟨count,rfl⟩,rfl⟩
    | cons m rest => simp [step, hrelay, hqueue] at hrecv
  | forwarding count m =>
    have hforward := hstuck (.forward i) trivial
    simp only [step, hrelay] at hforward
    split at hforward <;> cases hforward
  | returned => exact .inl rfl
  | panicked =>
    rw [hrelay] at hcounts
    exact hcounts.elim

theorem Stuck.sink (hstuck : Stuck T numRelays numMessages s)
    (hinv : Inv numRelays numMessages s) :
    s.sink = .returned ∨ s.sink = .receiving ∧ s.queue (topic numRelays) = [] := by
  have hw := hinv.wired
  rw [hstuck.main hinv] at hw
  have hcounts := hinv.sink
  cases hsink : s.sink with
  | unspawned => exact absurd trivial (hw.sink.mp hsink)
  | receiving =>
    right
    have hrecv := hstuck .recvSink trivial
    cases hqueue : s.queue (topic numRelays) with
    | nil => exact ⟨rfl,rfl⟩
    | cons m rest => simp [step, hsink, hqueue] at hrecv
  | handling m =>
    have hhandle := hstuck (.handle 0) trivial
    simp only [step, hsink] at hhandle
    split at hhandle <;> cases hhandle
  | returned => exact .inl rfl
  | panicked =>
    rw [hsink] at hcounts
    exact hcounts.elim

/-- Nothing is on the way: a task that has returned has handled all that was published. -/
theorem Stuck.pending (hstuck : Stuck T numRelays numMessages s)
    (hinv : Inv numRelays numMessages s) {k : ℕ} (hk : k ≤ numRelays) :
    (hop numRelays s k).pending = [] := by
  have hpublished := hstuck.published hinv
  have hdrained (hfull : (s.handled k).length = numMessages) :
      (hop numRelays s k).pending = [] :=
    (hinv.chain.nothing_left hk (hpublished.trans hfull.symm).le le_rfl).1
  rcases Nat.lt_or_eq_of_le hk with hlt | rfl
  · have hcounts := hinv.relay k hlt
    rcases hstuck.relay hinv hlt with hrelay | ⟨⟨count,hrelay⟩,hqueue⟩
    · rw [hrelay] at hcounts
      exact hdrained hcounts
    · simp [Hop.pending, hop, hand_relay hlt.ne, hrelay, RelayTask.hand, hqueue]
  · have hcounts := hinv.sink
    rcases hstuck.sink hinv with hsink | ⟨hsink,hqueue⟩
    · rw [hsink] at hcounts
      exact hdrained hcounts.1
    · simp [Hop.pending, hop, hand_sink, hsink, SinkTask.hand, hqueue]

/-! ## The report -/

/-- No hop has lost a message. -/
def Lossless (numRelays : ℕ) (s : State) : Prop := ∀ k ≤ numRelays, s.lost k = []

/-- How a run ends. -/
structure Finished (numRelays numMessages : ℕ) (s : State) : Prop where
  main : s.main = .returned
  published : s.published.length = numMessages
  reported : Lossless numRelays s → ∃ r, s.reports = [r] ∧ r.array.length = numMessages
  silent : ¬ Lossless numRelays s → s.reports = []
  /-- Without losses every task has handled all messages and returned. -/
  relays : Lossless numRelays s →
    ∀ i < numRelays, s.relay i = .returned ∧ s.handled i = s.published
  sink : Lossless numRelays s →
    s.sink = .returned ∧ s.received.map Message.timing = s.published

theorem Stuck.handled (hstuck : Stuck T numRelays numMessages s)
    (hinv : Inv numRelays numMessages s) (hlossless : Lossless numRelays s) {k : ℕ}
    (hk : k ≤ numRelays) : s.handled k = s.published :=
  hinv.chain.handled_eq (fun j hj => ⟨hstuck.pending hinv hj,hlossless j hj⟩) hk

theorem Stuck.relay_returned (hstuck : Stuck T numRelays numMessages s)
    (hinv : Inv numRelays numMessages s) (hlossless : Lossless numRelays s) {i : ℕ}
    (hi : i < numRelays) : s.relay i = .returned := by
  have hcounts := hinv.relay i hi
  have hpublished := hstuck.published hinv
  rw [hstuck.handled hinv hlossless hi.le] at hcounts
  rcases hstuck.relay hinv hi with hrelay | ⟨⟨count,hrelay⟩,_⟩
  · exact hrelay
  · rw [hrelay] at hcounts
    obtain ⟨hcount,hlow⟩ := hcounts
    omega

theorem Stuck.sink_returned (hstuck : Stuck T numRelays numMessages s)
    (hinv : Inv numRelays numMessages s) (hlossless : Lossless numRelays s) :
    s.sink = .returned := by
  have hcounts := hinv.sink
  have hpublished := hstuck.published hinv
  rw [hstuck.handled hinv hlossless le_rfl] at hcounts
  rcases hstuck.sink hinv with hsink | ⟨hsink,_⟩
  · exact hsink
  · rw [hsink] at hcounts
    obtain ⟨hcount,hlow,_⟩ := hcounts
    omega

/-- A loss leaves the sink waiting: it has handled fewer messages than were published. -/
theorem Stuck.sink_receiving (hstuck : Stuck T numRelays numMessages s)
    (hinv : Inv numRelays numMessages s) (hloss : ¬ Lossless numRelays s) :
    s.sink = .receiving := by
  have hcounts := hinv.sink
  rcases hstuck.sink hinv with hsink | ⟨hsink,_⟩
  · rw [hsink] at hcounts
    have hfull : s.published.length ≤ (s.handled numRelays).length :=
      ((hstuck.published hinv).trans hcounts.1.symm).le
    exact absurd (fun k hk => (hinv.chain.nothing_left le_rfl hfull hk).2) hloss
  · exact hsink

theorem Stuck.finished (hstuck : Stuck T numRelays numMessages s)
    (hinv : Inv numRelays numMessages s) : Finished numRelays numMessages s where
  main := hstuck.main hinv
  published := hstuck.published hinv
  reported hlossless := by
    have hcounts := hinv.sink
    rw [hstuck.sink_returned hinv hlossless] at hcounts
    exact hcounts.2
  silent hloss := by
    have hcounts := hinv.sink
    rw [hstuck.sink_receiving hinv hloss] at hcounts
    exact hcounts.2.2
  relays hlossless i hi :=
    ⟨hstuck.relay_returned hinv hlossless hi,hstuck.handled hinv hlossless hi.le⟩
  sink hlossless := by
    have hsink := hstuck.sink_returned hinv hlossless
    have hreceived := hinv.received
    simp only [hop, hand_sink, hsink, SinkTask.hand, List.map_nil, List.append_nil] at hreceived
    exact ⟨hsink,hreceived.trans (hstuck.handled hinv hlossless le_rfl)⟩

/-! ## The bench -/

end RelayBench.Zenoh
