import RelayBench.Zenoh.Moves

/-! # What every run of the single-process bench preserves

Every move takes each hop by one step of a lossy hop; what `main` has set up, what the
tasks have counted and what the messages carry are kept besides.
-/
namespace RelayBench.Zenoh
open Execution LossyHops Function
variable {T : ThriftCrate} {view : View T} {numRelays numMessages : ℕ} {s t : State}

/-! ## What `main` has set up -/

theorem setup_wired (hw : Wired numRelays numMessages s.main s)
    (h : Setup numRelays numMessages s t) : Wired numRelays numMessages t.main t := by
  cases h with
  | declareSubscriber i hmain hi =>
    rw [hmain] at hw
    refine ⟨hi,?_,hw.published,hw.relay,hw.sink⟩
    simp [hw.subscribers, MainPc.declared, List.range_succ]
  | relaysReady i hmain hi =>
    rw [hmain] at hw
    obtain rfl : i = numRelays := le_antisymm hw.valid (not_lt.mp hi)
    exact ⟨trivial,hw.subscribers,hw.published,hw.relay,hw.sink⟩
  | declarePublisher i hmain =>
    rw [hmain] at hw
    exact ⟨hw.valid,hw.subscribers,hw.published,hw.relay,hw.sink⟩
  | spawnRelay i hmain =>
    rw [hmain] at hw
    refine ⟨hw.valid,hw.subscribers,hw.published,fun j => ?_,hw.sink⟩
    have hj := hw.relay j
    simp only [MainPc.spawned, update_apply] at hj ⊢
    split
    · simp only [reduceCtorEq, false_iff]
      omega
    · rw [hj]
      omega
  | declareSinkSubscriber hmain =>
    rw [hmain] at hw
    refine ⟨trivial,?_,hw.published,hw.relay,hw.sink⟩
    simp [hw.subscribers, MainPc.declared, List.range_succ]
  | spawnSink hmain =>
    rw [hmain] at hw
    exact ⟨trivial,hw.subscribers,hw.published,hw.relay,by simp [MainPc.SinkSpawned]⟩
  | declareClientPublisher hmain =>
    rw [hmain] at hw
    exact ⟨Nat.zero_le _,hw.subscribers,hw.published,hw.relay,hw.sink⟩
  | clientDone i hmain hi =>
    rw [hmain] at hw
    obtain rfl : i = numMessages := le_antisymm hw.valid (not_lt.mp hi)
    exact ⟨trivial,hw.subscribers,hw.published,hw.relay,hw.sink⟩
  | finish hmain =>
    rw [hmain] at hw
    exact ⟨trivial,hw.subscribers,hw.published,hw.relay,hw.sink⟩

/-- A relay that runs goes on running. -/
theorem update_unspawned {relay : ℕ → RelayTask} {i : ℕ} {task : RelayTask}
    (hrelay : relay i ≠ .unspawned) (htask : task ≠ .unspawned) (j : ℕ) :
    update relay i task j = .unspawned ↔ relay j = .unspawned := by
  by_cases hj : j = i
  · subst hj
    simp [hrelay, htask]
  · rw [update_of_ne hj]

theorem move_wired (hw : Wired numRelays numMessages s.main s)
    (h : Move numRelays numMessages s t) : Wired numRelays numMessages t.main t := by
  cases h with
  | setup t h => exact setup_wired hw h
  | publish i m hm hmain hi =>
    rw [hmain] at hw
    refine ⟨hi,hw.subscribers,?_,hw.relay,hw.sink⟩
    simp [hw.published, MainPc.published]
  | recv i count m rest hrelay hqueue =>
    refine ⟨hw.valid,hw.subscribers,hw.published,fun j => ?_,hw.sink⟩
    exact (update_unspawned (by simp [hrelay]) (by simp) j).trans (hw.relay j)
  | forward i count m hrelay hm =>
    refine ⟨hw.valid,hw.subscribers,hw.published,fun j => ?_,hw.sink⟩
    exact (update_unspawned (by simp [hrelay]) (by split <;> simp) j).trans (hw.relay j)
  | recvSink m rest hsink hqueue =>
    have hspawned := hw.sink
    simp only [hsink, reduceCtorEq, false_iff] at hspawned
    exact ⟨hw.valid,hw.subscribers,hw.published,hw.relay,by simpa using hspawned⟩
  | handle m sink latencyVec reports hsink hlatency =>
    have hspawned := hw.sink
    have hrunning := hlatency.running
    simp only [hsink, reduceCtorEq, false_iff] at hspawned
    exact ⟨hw.valid,hw.subscribers,hw.published,hw.relay,by simpa [hrunning] using hspawned⟩
  | lose i j m hm => exact ⟨hw.valid,hw.subscribers,hw.published,hw.relay,hw.sink⟩

/-! ## Moves are steps of the hops -/

theorem hand_relay {k : ℕ} (hk : k ≠ numRelays) : s.hand numRelays k = (s.relay k).hand :=
  if_neg hk

theorem hand_sink : s.hand numRelays numRelays = s.sink.hand := if_pos rfl

theorem setup_hand (hw : Wired numRelays numMessages s.main s)
    (h : Setup numRelays numMessages s t) : t.hand numRelays = s.hand numRelays := by
  funext k
  cases h with
  | spawnRelay i hmain =>
    rw [hmain] at hw
    have hi : s.relay i = .unspawned := (hw.relay i).mpr le_rfl
    by_cases hk : k = i
    · subst hk
      simp [State.hand, hi, RelayTask.hand]
    · simp [State.hand, hk]
  | spawnSink hmain =>
    rw [hmain] at hw
    have hsink : s.sink = .unspawned := hw.sink.mpr id
    simp [State.hand, hsink, SinkTask.hand]
  | _ => rfl

theorem setup_queue (h : Setup numRelays numMessages s t) : t.queue = s.queue := by
  cases h <;> rfl

theorem setup_hop (hw : Wired numRelays numMessages s.main s)
    (h : Setup numRelays numMessages s t) (k : ℕ) : hop numRelays t k = hop numRelays s k := by
  have hhand := setup_hand hw h
  have hsent : t.sent k = s.sent k := by
    cases h <;> cases k <;> rfl
  unfold hop
  rw [hhand, hsent]
  cases h <;> rfl

theorem move_hop (hw : Wired numRelays numMessages s.main s)
    (h : Move numRelays numMessages s t) {k : ℕ} (hle : k ≤ numRelays) :
    (hop numRelays s k).Step (hop numRelays t k) := by
  cases h with
  | setup t h =>
    rw [setup_hop hw h]
    exact .stay
  | publish i m hm hmain hi =>
    cases k with
    | zero =>
      convert Hop.Step.send m using 1
      simp [hop, State.push, State.sent, message, State.hand]
    | succ k =>
      convert Hop.Step.stay using 1
      simp [hop, State.push, State.sent, State.hand]
  | recv i count m rest hrelay hqueue =>
    have hi : i ≠ numRelays := (hw.relay_lt (by simp [hrelay])).ne
    by_cases hk : k = i
    · subst hk
      convert Hop.Step.take m.timing (rest.map Message.timing) ?_ ?_ using 1
      · cases k <;> simp [hop, State.sent, State.hand, hi, RelayTask.hand]
      · simp [hop, State.hand, hi, hrelay, RelayTask.hand]
      · simp [hop, hqueue]
    · convert Hop.Step.stay using 1
      cases k <;> simp [hop, State.sent, State.hand, hk]
  | forward i count m hrelay hm =>
    have hi : i ≠ numRelays := (hw.relay_lt (by simp [hrelay])).ne
    by_cases hki : k = i
    · subst hki
      convert Hop.Step.handle m ?_ using 1
      · cases k <;> split <;>
          simp [hop, State.push, State.sent, State.hand, hi, RelayTask.hand]
      · simp [hop, State.hand, hi, hrelay, RelayTask.hand, message]
    · by_cases hnext : k = i + 1
      · subst hnext
        convert Hop.Step.send m using 1
        simp [hop, State.push, State.sent, State.hand, message]
      · convert Hop.Step.stay using 1
        cases k with
        | zero => simp [hop, State.push, State.sent, State.hand, hki]
        | succ k =>
          have hk : k ≠ i := fun h => hnext (congrArg Nat.succ h)
          simp [hop, State.push, State.sent, State.hand, hki, hk]
  | recvSink m rest hsink hqueue =>
    by_cases hk : k = numRelays
    · subst hk
      convert Hop.Step.take m.timing (rest.map Message.timing) ?_ ?_ using 1
      · cases k <;> simp [hop, State.sent, State.hand, SinkTask.hand]
      · simp [hop, State.hand, hsink, SinkTask.hand]
      · simp [hop, hqueue]
    · convert Hop.Step.stay using 1
      cases k <;> simp [hop, State.sent, State.hand, hk]
  | handle m sink latencyVec reports hsink hlatency =>
    by_cases hk : k = numRelays
    · subst hk
      convert Hop.Step.handle m.timing ?_ using 1
      · cases k <;> simp [hop, State.sent, State.hand, hlatency.hand]
      · simp [hop, State.hand, hsink, SinkTask.hand]
    · convert Hop.Step.stay using 1
      cases k with
      | zero => simp [hop, State.sent, State.hand, hk]
      | succ k =>
        have hprev : k ≠ numRelays := by omega
        simp [hop, State.sent, State.hand, hk, hprev]
  | lose i j m hm =>
    by_cases hk : k = i
    · subst hk
      convert Hop.Step.lose j m.timing ?_ using 1
      · cases k <;> simp [hop, State.sent, State.hand, List.eraseIdx_map]
      · simp [hop, hm]
    · convert Hop.Step.stay using 1
      cases k <;> simp [hop, State.sent, State.hand, hk]

theorem message_carries {m : Timing} (hm : Sendable PAYLOAD_SIZE m) (k : ℕ) :
    Carries k (message k m) := ⟨rfl,hm⟩

/-- What a topic carries after a move it carried before, unless it was just published. -/
theorem move_cargo (hw : Wired numRelays numMessages s.main s)
    (h : Move numRelays numMessages s t) {k : ℕ} {m : Message}
    (hm : m ∈ cargo numRelays t k) : m ∈ cargo numRelays s k ∨ Carries k m := by
  cases h with
  | setup t h =>
    left
    rwa [cargo, setup_hand hw h, setup_queue h] at hm
  | publish i new hnew hmain hi =>
    by_cases hk : k = 0
    · subst hk
      simp only [cargo, State.push, State.hand, update_self, List.mem_append,
        List.mem_singleton] at hm ⊢
      rcases hm with hm | hm | rfl
      · exact .inl (.inl hm)
      · exact .inl (.inr hm)
      · exact .inr (message_carries hnew 0)
    · left
      simpa [cargo, State.push, State.hand, hk] using hm
  | recv i count first rest hrelay hqueue =>
    left
    have hi : i ≠ numRelays := (hw.relay_lt (by simp [hrelay])).ne
    by_cases hk : k = i
    · subst hk
      simpa [cargo, State.hand, hi, hrelay, hqueue, RelayTask.hand] using hm
    · simpa [cargo, State.hand, hk] using hm
  | forward i count new hrelay hnew =>
    have hi : i ≠ numRelays := (hw.relay_lt (by simp [hrelay])).ne
    by_cases hki : k = i
    · left
      subst hki
      have hempty : (if count + 1 = numMessages then RelayTask.returned
          else .receiving (count + 1)).hand = [] := by
        split <;> rfl
      simp only [cargo, State.push, State.hand, hi, if_false, update_self, hempty] at hm
      exact List.mem_append_right _ (by simpa using hm)
    · by_cases hnext : k = i + 1
      · subst hnext
        simp only [cargo, State.push, State.hand, update_self, List.mem_append, hki,
          update_of_ne, List.mem_singleton, ne_eq, not_false_eq_true] at hm ⊢
        rcases hm with hm | hm | rfl
        · exact .inl (.inl hm)
        · exact .inl (.inr hm)
        · exact .inr (message_carries hnew (i + 1))
      · left
        simpa [cargo, State.push, State.hand, hki, hnext] using hm
  | recvSink first rest hsink hqueue =>
    left
    by_cases hk : k = numRelays
    · subst hk
      simpa [cargo, State.hand, hsink, hqueue, SinkTask.hand] using hm
    · simpa [cargo, State.hand, hk] using hm
  | handle first sink latencyVec reports hsink hlatency =>
    left
    by_cases hk : k = numRelays
    · subst hk
      simp only [cargo, State.hand, if_true, hlatency.hand] at hm
      exact List.mem_append_right _ hm
    · simpa [cargo, State.hand, hk] using hm
  | lose i j first hfirst =>
    left
    by_cases hk : k = i
    · subst hk
      simp only [cargo, State.hand, update_self, List.mem_append] at hm ⊢
      exact hm.imp id List.mem_of_mem_eraseIdx
    · simpa [cargo, State.hand, hk] using hm

theorem setup_relay (hM : 0 < numMessages) (hw : Wired numRelays numMessages s.main s)
    (h : Setup numRelays numMessages s t)
    (hi : ∀ i < numRelays, (s.relay i).Counts numMessages (s.handled i)) :
    ∀ i < numRelays, (t.relay i).Counts numMessages (t.handled i) := by
  cases h with
  | spawnRelay i hmain =>
    rw [hmain] at hw
    intro j hj
    by_cases hji : j = i
    · subst hji
      have hnone := hi j hj
      rw [(hw.relay j).mpr le_rfl] at hnone
      have hhandled : s.handled j = [] := hnone
      simpa [RelayTask.Counts, hhandled] using hM
    · simpa [hji] using hi j hj
  | _ => exact hi

theorem move_relay (hM : 0 < numMessages) (hinv : Inv numRelays numMessages s)
    (h : Move numRelays numMessages s t) :
    ∀ i < numRelays, (t.relay i).Counts numMessages (t.handled i) := by
  have hi := hinv.relay
  cases h with
  | setup t h => exact setup_relay hM hinv.wired h hi
  | recv i count m rest hrelay hqueue =>
    intro j hj
    by_cases hji : j = i
    · subst hji
      have hcount := hi j hj
      rw [hrelay] at hcount
      simpa [RelayTask.Counts] using hcount
    · simpa [hji] using hi j hj
  | forward i count m hrelay hm =>
    intro j hj
    by_cases hji : j = i
    · subst hji
      have hcount := hi j hj
      rw [hrelay] at hcount
      obtain ⟨hlength,hlow⟩ := hcount
      by_cases hfull : count + 1 = numMessages
      · simp [RelayTask.Counts, hfull, hlength]
      · simp only [if_neg hfull, update_self, RelayTask.Counts, List.length_append, hlength,
          List.length_singleton, true_and]
        omega
    · simpa [hji] using hi j hj
  | handle m sink latencyVec reports hsink hlatency =>
    intro j hj
    simpa [hj.ne] using hi j hj
  | _ => exact hi

theorem latency_counts {handled : List Timing} {latencyVec latencyVec' : List ℤ}
    {reports reports' : List Report} {sink : SinkTask} {m : Message}
    (hcounts : (SinkTask.handling m).Counts numMessages handled latencyVec reports)
    (h : Latency numMessages latencyVec reports sink latencyVec' reports') :
    sink.Counts numMessages (handled ++ [m.timing]) latencyVec' reports' := by
  obtain ⟨hlength,hlow,rfl⟩ := hcounts
  cases h with
  | sample v hne =>
    refine ⟨by simp [hlength],?_,rfl⟩
    rw [List.length_append, List.length_singleton]
    omega
  | report r hfull hr => exact ⟨by simp [hlength, hfull],r,rfl,hr⟩

theorem move_sink (hM : 0 < numMessages) (hinv : Inv numRelays numMessages s)
    (h : Move numRelays numMessages s t) :
    t.sink.Counts numMessages (t.handled numRelays) t.latencyVec t.reports := by
  have hcounts := hinv.sink
  have hw := hinv.wired
  cases h with
  | setup t h =>
    cases h with
    | spawnSink hmain =>
      rw [hmain] at hw
      have hsink : s.sink = .unspawned := hw.sink.mpr id
      rw [hsink] at hcounts
      obtain ⟨hhandled,hvec,hreports⟩ := hcounts
      simpa [SinkTask.Counts, hhandled, hvec, hreports] using hM
    | _ => exact hcounts
  | forward i count m hrelay hm =>
    have hi : i ≠ numRelays := (hw.relay_lt (by simp [hrelay])).ne
    simpa [State.push, hi.symm] using hcounts
  | recvSink m rest hsink hqueue =>
    rw [hsink] at hcounts
    exact hcounts
  | handle m sink latencyVec reports hsink hlatency =>
    rw [hsink] at hcounts
    simpa using latency_counts hcounts hlatency
  | _ => exact hcounts

theorem move_received (hinv : Inv numRelays numMessages s) (h : Move numRelays numMessages s t) :
    t.received.map Message.timing =
      (hop numRelays t numRelays).handled ++ (hop numRelays t numRelays).hand := by
  have hr := hinv.received
  have hw := hinv.wired
  cases h with
  | setup t h =>
    rw [setup_hop hw h]
    cases h <;> exact hr
  | forward i count m hrelay hm =>
    have hi : i ≠ numRelays := (hw.relay_lt (by simp [hrelay])).ne
    simpa [hop, State.push, State.hand, hi.symm] using hr
  | recvSink m rest hsink hqueue =>
    simp only [hop, hand_sink, hsink, SinkTask.hand, List.map_nil, List.append_nil] at hr
    simp [hop, hand_sink, SinkTask.hand, hr]
  | handle m sink latencyVec reports hsink hlatency =>
    have hhand : (SinkTask.handling m).hand = [m] := rfl
    simpa [hop, hand_sink, hsink, hlatency.hand, hhand] using hr
  | publish i m hm hmain hi => exact hr
  | recv i count m rest hrelay hqueue =>
    simpa [hop, hand_sink] using hr
  | lose i j m hm => exact hr

theorem move_arrived (hinv : Inv numRelays numMessages s) (h : Move numRelays numMessages s t) :
    ∀ m ∈ t.received, Carries numRelays m := by
  have ha := hinv.arrived
  cases h with
  | setup t h => cases h <;> exact ha
  | recvSink m rest hsink hqueue =>
    intro m' hm'
    rcases List.mem_append.mp hm' with hold | hnew
    · exact ha m' hold
    · obtain rfl := List.mem_singleton.mp hnew
      exact hinv.carries numRelays le_rfl m' (by simp [cargo, hqueue])
  | _ => exact ha

theorem move_stray (hinv : Inv numRelays numMessages s) (h : Move numRelays numMessages s t) :
    t.stray = [] := by
  have hstray := hinv.stray
  cases h with
  | setup t h => cases h <;> exact hstray
  | _ => exact hstray

theorem move_inv (hM : 0 < numMessages) (hinv : Inv numRelays numMessages s)
    (h : Move numRelays numMessages s t) : Inv numRelays numMessages t where
  wired := move_wired hinv.wired h
  stray := move_stray hinv h
  kept k hk := (move_hop hinv.wired h hk).kept (hinv.kept k hk)
  carries k hk m hm := (move_cargo hinv.wired h hm).elim (hinv.carries k hk m) id
  relay := move_relay hM hinv h
  sink := move_sink hM hinv h
  received := move_received hinv h
  arrived := move_arrived hinv h

theorem init_inv : Inv numRelays numMessages init where
  wired := ⟨Nat.zero_le _,rfl,rfl,by simp [init, MainPc.spawned],by simp [init, MainPc.SinkSpawned]⟩
  stray := rfl
  kept k _ := by
    have hempty : hop numRelays init k = ⟨[],[],[],[],[]⟩ := by
      cases k <;> simp [hop, init, State.sent, State.hand, SinkTask.hand, RelayTask.hand]
    rw [hempty]
    exact kept_empty
  carries k _ m hm := by
    simp [cargo, init, State.hand, SinkTask.hand, RelayTask.hand] at hm
  relay _ _ := rfl
  sink := ⟨rfl,rfl,rfl⟩
  received := by simp [hop, init, State.hand, SinkTask.hand]
  arrived _ hm := by simp [init] at hm

theorem exec_inv (hdoc : Documented T view) (hN : numRelays < 2 ^ 31) (hM : 0 < numMessages)
    {ls : List Label} (h : exec (step T numRelays numMessages) init ls = some s) :
    Inv numRelays numMessages s :=
  exec_invariant init_inv (fun _ _ _ hinv hs => move_inv hM hinv (step_move hdoc hN hinv hs)) h

end RelayBench.Zenoh
