import RelayBench.Pnode.Overwriting

/-! # Runs that carry messages to the sink, and one that hides a loss

From a chain whose nodes are idle the oldest message of topic 0 can be carried to the
sink, with every topic keeping its last ten messages. Repeated, this reaches a report
whatever was overwritten before.
-/
namespace RelayBench.Pnode
open Execution HopQueues Function
variable {kNumRelays numMessages : ℕ} {s t u : State} {l : Label} {ls ks : List Label}

/-- A run in which every topic keeps its last messages up to the depth of `get_qos`. -/
structure KeptRun (kNumRelays numMessages : ℕ) (s : State) (ls : List Label) (t : State) :
    Prop where
  run : exec (step kNumRelays numMessages) s ls = some t
  kept : StepsMeet (KeepsLast kNumRelays) (step kNumRelays numMessages) s ls

theorem KeptRun.trans (h : KeptRun kNumRelays numMessages s ls t)
    (hk : KeptRun kNumRelays numMessages t ks u) :
    KeptRun kNumRelays numMessages s (ls ++ ks) u :=
  ⟨exec_trans h.run hk.run,(stepsMeet_append h.run).mpr ⟨h.kept,hk.kept⟩⟩

theorem KeptRun.snoc (h : KeptRun kNumRelays numMessages s ls t)
    (hm : Move kNumRelays numMessages t l u) (hk : KeepsLast kNumRelays t l) :
    KeptRun kNumRelays numMessages s (ls ++ [l]) u :=
  h.trans ⟨by simp [move_step hm],hk,fun _ _ => trivial⟩

theorem KeptRun.nil (kNumRelays numMessages : ℕ) (s : State) :
    KeptRun kNumRelays numMessages s [] s := ⟨rfl,trivial⟩

/-- All nodes are idle, one message is first on topic `i`, `waiting` is behind it on topic 0
and nothing is on the other topics. -/
structure Carrying (kNumRelays i : ℕ) (first waiting : List Timing) (s : State) : Prop where
  queue : ∀ j ≤ kNumRelays, hop s.queue j =
    (if j = i then first else []) ++ (if j = 0 then waiting else [])
  relays : ∀ j < kNumRelays, s.relayHand j = none
  source : s.sourceHand = none
  sink : s.sinkHand = none
  running : s.exited = false

/-- The sink and the source's counter have not changed. -/
def SameSink (s t : State) : Prop :=
  t.data = s.data ∧ t.sampled = s.sampled ∧ t.reports = s.reports ∧ t.msgid = s.msgid

theorem hop_eq_cons {queue : String → List Message} {i : ℕ} {m : Timing} {rest : List Timing}
    (h : hop queue i = m :: rest) : ∃ m' rest', queue (topic i) = m' :: rest' ∧
      m'.timing = m ∧ rest'.map Message.timing = rest := by
  cases hq : queue (topic i) with
  | nil => simp [hop, hq] at h
  | cons m' rest' => exact ⟨m',rest',rfl,by simpa [hop, hq] using h⟩

/-- One relay takes the message and publishes it on the next topic, which is empty. -/
theorem carry_one {i : ℕ} {m : Timing} {waiting : List Timing} (hi : i < kNumRelays)
    (hc : Carrying kNumRelays i [m] waiting s) :
    ∃ ls t, KeptRun kNumRelays numMessages s ls t ∧
      Carrying kNumRelays (i + 1) [m] waiting t ∧ SameSink s t := by
  have hhead : hop s.queue i = m :: (if i = 0 then waiting else []) := by
    simpa using hc.queue i hi.le
  have hnext : hop s.queue (i + 1) = [] := by simpa using hc.queue (i + 1) hi
  obtain ⟨m',rest',hq,hm,hrest⟩ := hop_eq_cons hhead
  let t : State := { s.deliver (topic i) m' rest' with
    relayHand := update s.relayHand i (some m') }
  have htake : Move kNumRelays numMessages s (.take i) t :=
    .take i m' rest' hi (hc.relays i hi) hq
  have hlisten : Move kNumRelays numMessages t (.listen i 0) _ :=
    .listen i 0 m' hi (by simp [t])
  have hqueue : hop t.queue = update (hop s.queue) i (if i = 0 then waiting else []) := by
    rw [← hrest]
    exact hop_deliver s i m' rest'
  have hempty : hop t.queue (i + 1) = [] := by
    rw [hqueue, update_of_ne (by omega), hnext]
  refine ⟨_,_,((KeptRun.nil _ _ s).snoc htake trivial).snoc hlisten ?_,
    ⟨?_,?_,hc.source,hc.sink,hc.running⟩,rfl,rfl,rfl,rfl⟩
  · intro r hr
    obtain ⟨_,rfl⟩ := relayAt_eq.mp hr
    have hnil : t.queue (topic (i + 1 : ℕ)) = [] := List.map_eq_nil_iff.mp hempty
    simp only [PnodeRelay.publisher, ← Nat.cast_succ, hnil]
    rfl
  · intro j hj
    change hop (t.push (topic (i + 1 : ℕ)) 0 _).queue j = _
    rw [hop_push, hempty, hqueue, hm]
    have hjq := hc.queue j hj
    simp only [update_apply]
    grind
  · intro j hj
    by_cases hji : j = i
    · simp [hji]
    · simp [hji, t, hc.relays j hj]

theorem SameSink.trans (h : SameSink s t) (hk : SameSink t u) : SameSink s u :=
  ⟨hk.1.trans h.1,hk.2.1.trans h.2.1,hk.2.2.1.trans h.2.2.1,hk.2.2.2.trans h.2.2.2⟩

/-- The message is carried to the sink's topic. -/
theorem carry_all {i : ℕ} {m : Timing} {waiting : List Timing} (hi : i ≤ kNumRelays)
    (hc : Carrying kNumRelays i [m] waiting s) :
    ∃ ls t, KeptRun kNumRelays numMessages s ls t ∧
      Carrying kNumRelays kNumRelays [m] waiting t ∧ SameSink s t := by
  induction hn : kNumRelays - i generalizing i s with
  | zero =>
    obtain rfl : i = kNumRelays := by omega
    exact ⟨[],s,KeptRun.nil _ _ s,hc,rfl,rfl,rfl,rfl⟩
  | succ n ih =>
    obtain ⟨ls,t,hrun,hct,hsame⟩ := @carry_one kNumRelays numMessages s i m waiting (by omega) hc
    obtain ⟨ks,u,hrun',hcu,hsame'⟩ := ih (by omega) hct (by omega)
    exact ⟨_,u,hrun.trans hrun',hcu,hsame.trans hsame'⟩

/-- The sink takes and samples the message on its topic, and reports when it is the last. -/
theorem sample_one {m : Timing} {waiting : List Timing} (hreports : s.reports = [])
    (hc : Carrying kNumRelays kNumRelays [m] waiting s) :
    ∃ ls t, KeptRun kNumRelays numMessages s ls t ∧ sampledIds t = sampledIds s ++ [m.msgid] ∧
      t.data.length = s.data.length + 1 ∧ t.msgid = s.msgid ∧
      (s.data.length + 1 < numMessages →
        Carrying kNumRelays 0 [] waiting t ∧ t.reports = []) ∧
      (numMessages ≤ s.data.length + 1 → t.reports ≠ []) := by
  have hhead : hop s.queue kNumRelays = m :: (if kNumRelays = 0 then waiting else []) := by
    simpa using hc.queue kNumRelays le_rfl
  obtain ⟨m',rest',hq,hm,hrest⟩ := hop_eq_cons hhead
  let t : State := { s.deliver (topic kNumRelays) m' rest' with sinkHand := some m' }
  have htake : Move kNumRelays numMessages s .takeSink t :=
    .takeSink m' rest' hc.sink hc.running hq
  have hids : sampledIds t = sampledIds s := rfl
  have hqueue : hop t.queue =
      update (hop s.queue) kNumRelays (if kNumRelays = 0 then waiting else []) := by
    rw [← hrest]
    exact hop_deliver s kNumRelays m' rest'
  have hrun := (KeptRun.nil kNumRelays numMessages s).snoc htake trivial
  by_cases hlow : s.data.length + 1 < numMessages
  · have hsample : Move kNumRelays numMessages t (.sample 0) _ := .sample 0 m' rfl hlow
    refine ⟨_,_,hrun.snoc hsample trivial,by simp [sampledIds, t, State.deliver, hm],
      by simp [t, State.deliver],rfl,fun _ => ⟨⟨?_,hc.relays,hc.source,rfl,hc.running⟩,hreports⟩,
      fun hle => absurd hle (by omega)⟩
    intro j hj
    change hop t.queue j = _
    have hjq := hc.queue j hj
    rw [hqueue, update_apply]
    grind
  · have hne : t.data ++ [nanosecPerHop kNumRelays 0 m'.timing.nanosec] ≠ [] := by simp
    obtain ⟨r,hr,_⟩ := printStats_of_ne_nil hne
    have hreport : Move kNumRelays numMessages t (.sample 0) _ :=
      .report 0 m' r rfl (by simpa [t, State.deliver] using hlow) hr
    exact ⟨_,_,hrun.snoc hreport trivial,by simp [sampledIds, t, State.deliver, hm],
      by simp [t, State.deliver],rfl,fun h => absurd h hlow,fun _ => by simp⟩

/-- A tick and its publish add a message to topic 0, over the oldest if it holds ten. -/
theorem tick_publish {waiting : List Timing} (hc : Carrying kNumRelays 0 [] waiting s) :
    ∃ ls t, KeptRun kNumRelays numMessages s ls t ∧
      Carrying kNumRelays 0 [] (waiting.drop (waiting.length + 1 - getQos.depth) ++
        [sourceTiming (s.msgid + 1) 0]) t ∧
      t.data = s.data ∧ t.sampled = s.sampled ∧ t.reports = s.reports ∧
      t.msgid = s.msgid + 1 := by
  have hzero : hop s.queue 0 = waiting := by simpa using hc.queue 0 (Nat.zero_le _)
  let k := waiting.length + 1 - getQos.depth
  have htick : Move kNumRelays numMessages s (.tick 0) _ := .tick 0 hc.source
  have hpublish : Move kNumRelays numMessages _ (.publish k) _ :=
    .publish (s := { s with
      msgid := s.msgid + 1
      sourceHand := some (sourceTiming (s.msgid + 1) 0) }) k (sourceTiming (s.msgid + 1) 0) rfl
  refine ⟨_,_,((KeptRun.nil _ _ s).snoc htick trivial).snoc hpublish ?_,
    ⟨?_,hc.relays,rfl,hc.sink,hc.running⟩,rfl,rfl,rfl,rfl⟩
  · have hlen : (s.queue "msg_0").length = waiting.length := by
      rw [← hzero, topic_zero]
      simp [hop]
    simp only [KeepsLast, hlen, k]
  · intro j hj
    change hop (s.push (topic (0 : ℕ)) k ⟨sourceTiming (s.msgid + 1) 0,["source"]⟩).queue j = _
    rw [hop_push, update_apply, hzero]
    have hjq := hc.queue j hj
    by_cases hj0 : j = 0
    · simp [hj0, k]
    · simpa [hj0] using hjq

theorem carrying_cons {m : Timing} {waiting : List Timing}
    (hc : Carrying kNumRelays 0 [] (m :: waiting) s) : Carrying kNumRelays 0 [m] waiting s :=
  ⟨fun j hj => by rw [hc.queue j hj]; by_cases h : j = 0 <;> simp [h],
    hc.relays,hc.source,hc.sink,hc.running⟩

/-- One more sample, of the next waiting message or of a new one. -/
theorem next_sample {waiting : List Timing} (hreports : s.reports = [])
    (hc : Carrying kNumRelays 0 [] waiting s) (hnew : 1 ≤ s.msgid)
    (hids : 1 ∉ sampledIds s) (hwaiting : ∀ m ∈ waiting, m.msgid ≠ 1) :
    ∃ ls t, KeptRun kNumRelays numMessages s ls t ∧ 1 ∉ sampledIds t ∧
      t.data.length = s.data.length + 1 ∧ 1 ≤ t.msgid ∧
      (s.data.length + 1 < numMessages → t.reports = [] ∧
        ∃ rest, Carrying kNumRelays 0 [] rest t ∧ ∀ m ∈ rest, m.msgid ≠ 1) ∧
      (numMessages ≤ s.data.length + 1 → t.reports ≠ []) := by
  obtain ⟨ls,t,m,rest,hrun,hct,hdata,hsampled,hrep,hid,hm⟩ : ∃ ls t m rest,
      KeptRun kNumRelays numMessages s ls t ∧ Carrying kNumRelays 0 [m] rest t ∧
      t.data = s.data ∧ t.sampled = s.sampled ∧ t.reports = s.reports ∧ 1 ≤ t.msgid ∧
      ∀ m' ∈ m :: rest, m'.msgid ≠ 1 := by
    cases waiting with
    | cons m rest =>
      exact ⟨[],s,m,rest,.nil _ _ s,carrying_cons hc,rfl,rfl,rfl,hnew,hwaiting⟩
    | nil =>
      obtain ⟨ls,t,hrun,hct,hdata,hsampled,hrep,hid⟩ := @tick_publish kNumRelays numMessages s _ hc
      refine ⟨ls,t,_,[],hrun,carrying_cons hct,hdata,hsampled,hrep,by omega,?_⟩
      simp only [List.mem_singleton, forall_eq, sourceTiming]
      omega
  obtain ⟨ks,u,hrun',hcu,hdata',hsampled',hrep',hid'⟩ :=
    @carry_all kNumRelays numMessages t 0 m rest (Nat.zero_le _) hct
  have hnone : u.reports = [] := by rw [hrep', hrep, hreports]
  obtain ⟨js,v,hrun'',hidsv,hlen,hidv,hlow,hfull⟩ :=
    @sample_one kNumRelays numMessages u m rest hnone hcu
  rw [hdata', hdata] at hlen hlow hfull
  have hsame : sampledIds u = sampledIds s := by simp [sampledIds, hsampled', hsampled]
  refine ⟨_,v,(hrun.trans hrun').trans hrun'',?_,hlen,by omega,fun h => ?_,hfull⟩
  · rw [hidsv, hsame, List.mem_append, List.mem_singleton]
    rintro (h1 | h1)
    · exact hids h1
    · exact hm m List.mem_cons_self h1.symm
  · exact ⟨(hlow h).2,rest,(hlow h).1,fun m' hm' => hm m' (List.mem_cons_of_mem m hm')⟩

theorem report_reached {waiting : List Timing} (hreports : s.reports = [])
    (hc : Carrying kNumRelays 0 [] waiting s) (hnew : 1 ≤ s.msgid)
    (hids : 1 ∉ sampledIds s) (hwaiting : ∀ m ∈ waiting, m.msgid ≠ 1) :
    ∃ ls t, KeptRun kNumRelays numMessages s ls t ∧ 1 ∉ sampledIds t ∧ t.reports ≠ [] := by
  induction hn : numMessages - s.data.length generalizing s waiting with
  | zero =>
    obtain ⟨ls,t,hrun,hidst,_,_,_,hfull⟩ :=
      @next_sample kNumRelays numMessages s _ hreports hc hnew hids hwaiting
    exact ⟨ls,t,hrun,hidst,hfull (by omega)⟩
  | succ n ih =>
    obtain ⟨ls,t,hrun,hidst,hlen,hid,hlow,hfull⟩ :=
      @next_sample kNumRelays numMessages s _ hreports hc hnew hids hwaiting
    by_cases h : s.data.length + 1 < numMessages
    · obtain ⟨hrep,rest,hct,hrest⟩ := hlow h
      obtain ⟨ks,u,hrun',hidsu,hu⟩ := ih hrep hct hid hidst hrest (by omega)
      exact ⟨_,u,hrun.trans hrun',hidsu,hu⟩
    · exact ⟨ls,t,hrun,hidst,hfull (by omega)⟩

/-- Ten ticks before any relay runs fill topic 0. -/
theorem fill_topic {n : ℕ} (hn : n ≤ getQos.depth) :
    ∃ ls t, KeptRun kNumRelays numMessages init ls t ∧
      Carrying kNumRelays 0 [] ((List.range n).map (fun j : ℕ => sourceTiming ((j : ℤ) + 1) 0)) t ∧
      t.sampled = [] ∧ t.reports = [] ∧ t.msgid = n := by
  induction n with
  | zero =>
    refine ⟨[],init,.nil _ _ _,⟨fun j hj => ?_,fun _ _ => rfl,rfl,rfl,rfl⟩,rfl,rfl,rfl⟩
    simp [hop, init]
  | succ n ih =>
    obtain ⟨ls,t,hrun,hct,hsampled,hrep,hid⟩ := ih (by omega)
    obtain ⟨ks,u,hrun',hcu,_,hsampled',hrep',hid'⟩ := @tick_publish kNumRelays numMessages t _ hct
    have hroom : (List.map (fun j : ℕ => sourceTiming ((j : ℤ) + 1) 0) (List.range n)).length + 1 -
        getQos.depth = 0 := by
      rw [List.length_map, List.length_range]
      omega
    rw [hroom, hid, List.drop_zero] at hcu
    refine ⟨_,u,hrun.trans hrun',by simpa [List.range_succ] using hcu,?_,?_,?_⟩
    · rw [hsampled', hsampled]
    · rw [hrep', hrep]
    · rw [hid', hid, Nat.cast_succ]

/-- Eleven ticks before relay 0 runs overwrite message 1 of the 20-relay chain, and the run
goes on to report 1000 samples without it. -/
theorem report_hides_loss : ∃ ls s, KeptRun 20 1000 init ls s ∧ s.reports ≠ [] ∧
    ¬Complete 1000 s := by
  obtain ⟨ls,s,hrun,hcs,hsampled,hrep,hid⟩ := @fill_topic 20 1000 10 le_rfl
  obtain ⟨ks,t,hrun',hct,_,hsampled',hrep',hid'⟩ := @tick_publish 20 1000 s _ hcs
  have hids : 1 ∉ sampledIds t := by simp [sampledIds, hsampled', hsampled]
  obtain ⟨js,u,hrun'',hidsu,hu⟩ := @report_reached 20 1000 t _ (by rw [hrep', hrep]) hct
    (by omega) hids (by rw [hid]; decide)
  refine ⟨_,u,(hrun.trans hrun').trans hrun'',hu,fun hcomplete => hidsu ?_⟩
  exact hcomplete.mem_iff.mpr (mem_firstIds.mpr (by omega))

end RelayBench.Pnode
