import RelayBench.Library.Work
import RelayBench.Zenoh.Exit

/-! # The tasks of the single-process bench come to an end

Every message makes two steps at every relay and at the sink, those from the hop on at which it
is lost excepted. So the tasks do not go on for ever, and without losses all runs take as many
steps and end with the report.
-/
namespace RelayBench.Zenoh
open Execution LossyHops Function Work
variable {T : ThriftCrate} {view : View T} {numRelays numMessages : ℕ} {s t : State} {l : Label}
variable {ls : List Label} {i k : ℕ}

/-! ## The steps that are left -/

/-- The steps that a message on topic `k` still makes. -/
def messageSteps (numRelays k : ℕ) : ℕ := 2 * (numRelays - k) + 2

def queueSteps (numRelays : ℕ) (queue : String → List Message) : ℕ :=
  ∑ k ∈ Finset.range (numRelays + 1), (queue (topic k)).length * messageSteps numRelays k

/-- A message in the hand of a relay has been taken. -/
def relaySteps (numRelays : ℕ) (relay : ℕ → RelayTask) : ℕ :=
  ∑ i ∈ Finset.range numRelays, (relay i).hand.length * (messageSteps numRelays i - 1)

def State.left (numRelays numMessages : ℕ) (s : State) : ℕ :=
  remaining numRelays numMessages s.main +
    (numMessages - s.published.length) * messageSteps numRelays 0 +
    queueSteps numRelays s.queue + relaySteps numRelays s.relay + s.sink.hand.length

/-- `main` sets up every relay in three steps and publishes every message in one. -/
def allSteps (numRelays numMessages : ℕ) : ℕ :=
  3 * numRelays + numMessages + 6 + numMessages * messageSteps numRelays 0

theorem queueSteps_update (hk : k ≤ numRelays) (queue : String → List Message)
    (ms : List Message) :
    queueSteps numRelays (update queue (topic k) ms) +
        (queue (topic k)).length * messageSteps numRelays k =
      queueSteps numRelays queue + ms.length * messageSteps numRelays k := by
  have hreplace := @sum_replace _ _ (Finset.range (numRelays + 1))
    (fun j => (queue (topic j)).length * messageSteps numRelays j)
    (fun j => (update queue (topic k) ms (topic j)).length * messageSteps numRelays j) k
    (Finset.mem_range.mpr (Nat.lt_succ_of_le hk))
    (fun j hj => by rw [update_of_ne (fun h => hj (topic_injective h))])
  simpa only [update_self, queueSteps] using hreplace

theorem relaySteps_update (hi : i < numRelays) (relay : ℕ → RelayTask) (task : RelayTask) :
    relaySteps numRelays (update relay i task) +
        (relay i).hand.length * (messageSteps numRelays i - 1) =
      relaySteps numRelays relay + task.hand.length * (messageSteps numRelays i - 1) := by
  have hreplace := @sum_replace _ _ (Finset.range numRelays)
    (fun j => (relay j).hand.length * (messageSteps numRelays j - 1))
    (fun j => (update relay i task j).hand.length * (messageSteps numRelays j - 1)) i
    (Finset.mem_range.mpr hi) (fun j hj => by rw [update_of_ne hj])
  simpa only [update_self, relaySteps] using hreplace

/-! ## Steps -/

theorem setup_left (hw : Wired numRelays numMessages s.main s)
    (h : Setup numRelays numMessages s t) :
    t.left numRelays numMessages + 1 = s.left numRelays numMessages := by
  have hvalid := hw.valid
  cases h with
  | declareSubscriber i hmain hi =>
    simp only [State.left, hmain, remaining]
    omega
  | relaysReady i hmain hi =>
    simp only [State.left, hmain, remaining]
    omega
  | declarePublisher i hmain =>
    simp only [State.left, hmain, remaining]
    omega
  | spawnRelay i hmain =>
    rw [hmain] at hvalid
    have hi : i < numRelays := hvalid
    have hunspawned : s.relay i = .unspawned := (hw.relay i).mpr (by simp [hmain, MainPc.spawned])
    have hrelay := relaySteps_update hi s.relay (.receiving 0)
    rw [hunspawned] at hrelay
    simp only [RelayTask.hand, List.length_nil] at hrelay
    simp only [State.left, hmain, remaining]
    omega
  | declareSinkSubscriber hmain =>
    simp only [State.left, hmain, remaining]
    omega
  | spawnSink hmain =>
    have hunspawned : s.sink = .unspawned := hw.sink.mpr (by simp [hmain, MainPc.SinkSpawned])
    simp only [State.left, hmain, hunspawned, remaining, SinkTask.hand]
    omega
  | declareClientPublisher hmain =>
    simp only [State.left, hmain, remaining]
    omega
  | clientDone i hmain hi =>
    simp only [State.left, hmain, remaining]
    omega
  | finish hmain => simp only [State.left, hmain, remaining]; omega

/-- A step that loses nothing is one of those that were left. -/
theorem move_left (hw : Wired numRelays numMessages s.main s) (h : Move numRelays numMessages s t)
    (hlost : t.lost = s.lost) :
    t.left numRelays numMessages + 1 = s.left numRelays numMessages := by
  cases h with
  | setup t h => exact setup_left hw h
  | publish i m hm hmain hi =>
    have hpublished := hw.published
    rw [hmain] at hpublished
    simp only [MainPc.published] at hpublished
    obtain ⟨d,hd⟩ : ∃ d, numMessages - i = d + 1 := ⟨numMessages - i - 1,by omega⟩
    have hd' : numMessages - (i + 1) = d := by omega
    have hqueue := queueSteps_update (Nat.zero_le numRelays) s.queue
      (s.queue (topic 0) ++ [message 0 m])
    rw [List.length_append, List.length_singleton, Nat.add_mul] at hqueue
    simp only [State.left, State.push, hmain, remaining, List.length_append,
      List.length_singleton, hpublished, hd, hd', Nat.add_mul]
    omega
  | recv i count m rest hrelay hqueue =>
    have hi := hw.relay_lt (i := i) (by simp [hrelay])
    have hqueueSteps := queueSteps_update hi.le s.queue rest
    have hrelaySteps := relaySteps_update hi s.relay (.forwarding count m)
    rw [hqueue, List.length_cons, Nat.add_mul] at hqueueSteps
    simp only [hrelay, RelayTask.hand, List.length_nil, List.length_singleton] at hrelaySteps
    simp only [State.left]
    unfold messageSteps at *
    omega
  | forward i count m hrelay hm =>
    have hi := hw.relay_lt (i := i) (by simp [hrelay])
    have hnone : (if count + 1 = numMessages then RelayTask.returned
        else .receiving (count + 1)).hand = [] := by
      split <;> rfl
    have hqueueSteps := queueSteps_update (show i + 1 ≤ numRelays from hi) s.queue
      (s.queue (topic (i + 1)) ++ [message (i + 1) m])
    have hrelaySteps := relaySteps_update hi s.relay
      (if count + 1 = numMessages then .returned else .receiving (count + 1))
    rw [List.length_append, List.length_singleton, Nat.add_mul] at hqueueSteps
    rw [hnone, hrelay] at hrelaySteps
    simp only [RelayTask.hand, List.length_nil, List.length_singleton] at hrelaySteps
    simp only [State.left, State.push]
    unfold messageSteps at *
    omega
  | recvSink m rest hsink hqueue =>
    have hqueueSteps := queueSteps_update (le_refl numRelays) s.queue rest
    rw [hqueue, List.length_cons, Nat.add_mul] at hqueueSteps
    simp only [State.left, hsink, SinkTask.hand, List.length_nil, List.length_singleton]
    unfold messageSteps at *
    omega
  | handle m sink latencyVec reports hsink hlatency =>
    have hnone := hlatency.hand
    simp only [State.left, hnone, hsink]
    rfl
  | lose i j m hm =>
    have hsame := congrFun hlost i
    simp at hsame

/-- What the steps that are left depend on: no topic beyond the sink's is used. -/
structure Working (numRelays numMessages : ℕ) (s : State) : Prop where
  inv : Inv numRelays numMessages s
  queue : ∀ i, numRelays < i → s.queue (topic i) = []

/-- What a step does of the work: a loss spares all steps its message would have made. -/
def Label.steps (numRelays : ℕ) : Label → ℕ
  | .lose i _ => messageSteps numRelays i
  | _ => 1

theorem update_queue {queue : String → List Message} {ms : List Message} (hk : k ≤ numRelays)
    (hi : numRelays < i) : update queue (topic k) ms (topic i) = queue (topic i) := by
  apply update_of_ne
  intro h
  have heq := topic_injective h
  omega

theorem move_queue (hw : Working numRelays numMessages s) (h : Move numRelays numMessages s t)
    (hi : numRelays < i) : t.queue (topic i) = [] := by
  have hempty := hw.queue i hi
  have hwired := hw.inv.wired
  cases h with
  | setup t h => rw [setup_queue h, hempty]
  | publish i' m hm hmain hi' => exact (update_queue (Nat.zero_le _) hi).trans hempty
  | recv i' count m rest hrelay hqueue =>
    have hi' := hwired.relay_lt (i := i') (by simp [hrelay])
    exact (update_queue hi'.le hi).trans hempty
  | forward i' count m hrelay hm =>
    have hi' := hwired.relay_lt (i := i') (by simp [hrelay])
    exact (update_queue (Nat.succ_le_of_lt hi') hi).trans hempty
  | recvSink m rest hsink hqueue => exact (update_queue le_rfl hi).trans hempty
  | handle m sink latencyVec reports hsink hlatency => exact hempty
  | lose i' j m hm =>
    have hi' : i' ≤ numRelays := by
      by_contra hout
      rw [hw.queue i' (not_le.mp hout)] at hm
      simp at hm
    exact (update_queue hi' hi).trans hempty

theorem lose_left (hw : Working numRelays numMessages s) {j : ℕ}
    (h : step T numRelays numMessages s (.lose i j) = some t) :
    t.left numRelays numMessages + messageSteps numRelays i = s.left numRelays numMessages := by
  simp only [step] at h
  cases hm : (s.queue (topic i))[j]? with
  | none => simp [hm] at h
  | some m =>
    simp only [hm, Option.some.injEq] at h
    subst h
    have hi : i ≤ numRelays := by
      by_contra hout
      rw [hw.queue i (not_le.mp hout)] at hm
      simp at hm
    obtain ⟨hj,_⟩ := List.getElem?_eq_some_iff.mp hm
    have hqueue := queueSteps_update hi s.queue ((s.queue (topic i)).eraseIdx j)
    have herase : ((s.queue (topic i)).eraseIdx j).length + 1 = (s.queue (topic i)).length := by
      rw [List.length_eraseIdx_of_lt hj]
      omega
    rw [← herase, Nat.add_mul] at hqueue
    simp only [State.left]
    omega

theorem balanced (hdoc : Documented T view) (hN : numRelays < 2 ^ 31) (hM : 0 < numMessages) :
    Balanced (step T numRelays numMessages) (Working numRelays numMessages)
      (State.left numRelays numMessages) (Label.steps numRelays) (fun _ => 0) where
  inv s l t hw hs := by
    have hmove := step_move hdoc hN hw.inv hs
    exact ⟨move_inv hM hw.inv hmove,fun i hi => move_queue hw hmove hi⟩
  balance s l t hw hs := by
    rcases (step_frame hs).2 with ⟨i,j,rfl⟩ | hlost
    · exact lose_left hw hs
    · cases l with
      | lose i j => exact lose_left hw hs
      | _ => exact move_left hw.inv.wired (step_move hdoc hN hw.inv hs) hlost

/-! ## Where a run ends -/

theorem init_working : Working numRelays numMessages init := ⟨init_inv,fun _ _ => rfl⟩

theorem init_left : init.left numRelays numMessages = allSteps numRelays numMessages := by
  have hqueue : queueSteps numRelays init.queue = 0 := Finset.sum_eq_zero (fun k _ => by simp [init])
  have hrelay : relaySteps numRelays init.relay = 0 :=
    Finset.sum_eq_zero (fun i _ => by simp [init, RelayTask.hand])
  rw [State.left, hqueue, hrelay]
  simp [init, remaining, allSteps, SinkTask.hand]

/-- Where no task can step, none is left. -/
theorem Stuck.left (hstuck : Stuck T numRelays numMessages s)
    (hinv : Inv numRelays numMessages s) : s.left numRelays numMessages = 0 := by
  have hdrained : Drained numRelays s :=
    drained_of_pending (fun k hk => hstuck.pending hinv hk)
  have hqueue : queueSteps numRelays s.queue = 0 := by
    apply Finset.sum_eq_zero
    intro k hk
    rw [(hdrained k (Nat.lt_succ_iff.mp (Finset.mem_range.mp hk))).2, List.length_nil, Nat.zero_mul]
  have hrelay : relaySteps numRelays s.relay = 0 := by
    apply Finset.sum_eq_zero
    intro i hi
    have hlt := Finset.mem_range.mp hi
    have hhand := (hdrained i hlt.le).1
    rw [hand_relay hlt.ne] at hhand
    rw [hhand, List.length_nil, Nat.zero_mul]
  have hsink := (hdrained numRelays le_rfl).1
  rw [hand_sink] at hsink
  simp [State.left, hstuck.main hinv, remaining, hstuck.published hinv, hqueue, hrelay, hsink]

instance : DecidablePred Label.IsTask
  | .lose _ _ => .isFalse id
  | .main _ | .recv _ | .forward _ | .recvSink | .handle _ => .isTrue trivial

theorem steps_of_task (hl : l.IsTask) : l.steps numRelays = 1 := by
  cases l with
  | lose i j => exact hl.elim
  | _ => rfl

/-- How the runs of the bench end that have come to this state. -/
structure Ends (T : ThriftCrate) (numRelays numMessages : ℕ) (ls : List Label) (s : State) :
    Prop where
  /-- No run goes on for ever. -/
  bounded : ls.countP (fun l => l.IsTask) ≤ allSteps numRelays numMessages
  /-- The tasks can go on until none of them can. -/
  halts : ∃ ks t, (∀ l ∈ ks, l.IsTask) ∧ exec (step T numRelays numMessages) s ks = some t ∧
    Stuck T numRelays numMessages t
  /-- Where none can, every step has been made but those that the losses have spared. -/
  steps : Stuck T numRelays numMessages s →
    (ls.map (Label.steps numRelays)).sum = allSteps numRelays numMessages
  /-- All runs without losses are of the same length, and end with the report. -/
  lossless : Stuck T numRelays numMessages s → (∀ l ∈ ls, l.IsTask) →
    ls.length = allSteps numRelays numMessages ∧
      ∃ r, s.reports = [r] ∧ r.array.length = numMessages

end RelayBench.Zenoh
