import RelayBench.Pnode.Flow

/-! # Integrity of the samples of the publish/subscribe chain

The route of a message is fixed by the topic it is on, and the sink's samples are those of
the messages it was passed, each read with the clock of its own tick.
-/
namespace RelayBench.Pnode
open Execution HopQueues Function
variable {kNumRelays numMessages : ℕ} {s t : State} {l : Label} {ls : List Label}

/-! ## Every topic has one publisher and one subscriber -/

/-- The topics published on, in the order `main` creates their publishers. -/
theorem nodes_publishers (kNumRelays : ℕ) : (nodes kNumRelays).filterMap Node.publisher =
    (List.range (kNumRelays + 1)).map (fun i : ℕ => topic i) := by
  have htail : (nodes kNumRelays).filterMap Node.publisher =
      topic (0 : ℕ) :: (List.range kNumRelays).map (fun i : ℕ => topic ((i : ℤ) + 1)) := by
    simp [nodes, relays_eq, PnodeRelay.publisher, topic_zero, Function.comp_def,
      List.filterMap_map]
  simp [htail, List.range_succ_eq_map, Function.comp_def]

theorem nodes_subscribers (kNumRelays : ℕ) : (nodes kNumRelays).filterMap Node.subscriber =
    (List.range (kNumRelays + 1)).map (fun i : ℕ => topic i) := by
  simp [nodes, relays_eq, PnodeRelay.subscriber, sinkTopic, Function.comp_def,
    List.filterMap_map, List.range_succ]

theorem topics_count {i : ℕ} (hi : i ≤ kNumRelays) :
    ((List.range (kNumRelays + 1)).map (fun j : ℕ => topic j)).count (topic i) = 1 := by
  have hinj : Injective (fun j : ℕ => topic j) :=
    topic_injective.comp Nat.cast_injective
  refine List.count_eq_one_of_mem (List.nodup_range.map hinj) ?_
  exact List.mem_map_of_mem (f := fun j : ℕ => topic j) (List.mem_range.mpr (by omega))

/-! ## Routes -/

/-- The nodes that published a message on its way to topic `i`. -/
def route (i : ℕ) : List String :=
  "source" :: (List.range i).map (fun j => "relay_" ++ toString j)

theorem route_succ (i : ℕ) : route (i + 1) = route i ++ ["relay_" ++ toString i] := by
  simp [route, List.range_succ]

theorem exec_routed (h : exec (step kNumRelays numMessages) init ls = some s) :
    AtTopics (fun i m => m.hops = route i) s := by
  refine exec_atTopics (fun _ _ => rfl) (fun i m hm => ?_) h
  rw [route_succ, ← hm]

/-! ## The samples -/

/-- The clock reading of a sample. -/
def Label.sampleNow : Label → Option ℤ
  | .sample now => some now
  | _ => none

/-- The clock reading of a tick or of a sample. -/
def Label.reading : Label → Option ℤ
  | .tick now => some now
  | .sample now => some now
  | _ => none

/-- The sink has sampled what it was passed, in order, except what it has in hand. -/
structure SinkLog (kNumRelays : ℕ) (ls : List Label) (s : State) : Prop where
  delivered : s.delivered (sinkTopic kNumRelays) =
    s.sampled.map Prod.fst ++ s.sinkHand.toList
  data : s.data = s.sampled.map (fun p => nanosecPerHop kNumRelays p.2 p.1.timing.nanosec)
  clocks : s.sampled.map Prod.snd = ls.filterMap Label.sampleNow

theorem sampleNow_snoc {l : Label} (hl : l.sampleNow = none) (ls : List Label) :
    (ls ++ [l]).filterMap Label.sampleNow = ls.filterMap Label.sampleNow := by
  simp [List.filterMap_append, hl]

theorem move_sinkLog (h : Move kNumRelays numMessages s l t) (hs : SinkLog kNumRelays ls s) :
    SinkLog kNumRelays (ls ++ [l]) t := by
  obtain ⟨hdel,hdata,hclock⟩ := hs
  cases h with
  | tick | publish | listen =>
    exact ⟨hdel,hdata,by rw [sampleNow_snoc rfl]; exact hclock⟩
  | take i m rest hi hhand hqueue =>
    refine ⟨?_,hdata,by rw [sampleNow_snoc rfl]; exact hclock⟩
    change (s.deliver (topic i) m rest).delivered (topic kNumRelays) = _
    rw [State.deliver_delivered, update_topic, if_neg (by omega)]
    exact hdel
  | takeSink m rest hhand hexited hqueue =>
    refine ⟨?_,hdata,by rw [sampleNow_snoc rfl]; exact hclock⟩
    change (s.deliver (topic kNumRelays) m rest).delivered (topic kNumRelays) = _
    rw [State.deliver_delivered, update_self, ← sinkTopic, hdel]
    simp [hhand, State.deliver]
  | sample now m hhand hlow | report now m r hhand hfull hprint =>
    refine ⟨by simpa [hhand] using hdel,by simp [hdata],?_⟩
    simp [List.filterMap_append, Label.sampleNow, hclock]

theorem exec_sinkLog (h : exec (step kNumRelays numMessages) init ls = some s) :
    SinkLog kNumRelays ls s :=
  exec_history ⟨rfl,rfl,rfl⟩ (fun _ _ _ _ _ hs hstep => move_sinkLog (step_move hstep) hs) h

/-- Everything the sink was passed is a message of some tick. -/
theorem exec_delivered_ticked (h : exec (step kNumRelays numMessages) init ls = some s) :
    ((s.delivered (sinkTopic kNumRelays)).map Message.timing).Sublist (ticked ls) := by
  have harrived : (s.delivered (sinkTopic kNumRelays)).map Message.timing = arrived s := by
    simp [(exec_sinkLog h).delivered, arrived]
  rw [harrived]
  exact ((List.sublist_append_left _ _).trans (exec_inTransit h).order).trans
    (exec_published_ticked h).sublist

theorem ticked_increasing (ls : List Label) :
    ((ticked ls).map Timing.msgid).Pairwise (· < ·) := by
  rw [ticked_msgids, List.pairwise_map]
  exact List.pairwise_lt_range.imp (fun hab => by omega)

theorem ticked_reading {m : Timing} (hm : m ∈ ticked ls) :
    m.nanosec ∈ ls.filterMap Label.reading := by
  obtain ⟨j,hj,rfl⟩ := List.mem_iff_getElem.mp hm
  simp only [ticked, List.getElem_mapIdx, sourceTiming]
  obtain ⟨l,hl,hnow⟩ := List.mem_filterMap.mp (List.getElem_mem
    (l := ls.filterMap Label.tickNow) (by simpa [ticked] using hj))
  refine List.mem_filterMap.mpr ⟨l,hl,?_⟩
  cases l <;> simp_all [Label.tickNow, Label.reading]

/-- Under a monotone clock no sample is read before its message's tick. -/
def SampledLater (ls : List Label) (s : State) : Prop :=
  (ls.filterMap Label.reading).Pairwise (· ≤ ·) → ∀ p ∈ s.sampled, p.1.timing.nanosec ≤ p.2

theorem exec_sampledLater (h : exec (step kNumRelays numMessages) init ls = some s) :
    SampledLater ls s := by
  have h0 : SampledLater [] init := fun _ p hp => by simp [init] at hp
  refine exec_history h0 ?_ h
  intro ls t l u hexec hs hstep hmono p hp
  rw [List.filterMap_append, List.pairwise_append] at hmono
  cases step_move hstep with
  | tick | publish | take | listen | takeSink => exact hs hmono.1 p hp
  | sample now m hhand | report now m r hhand =>
    rcases List.mem_append.mp hp with hp | hp
    · exact hs hmono.1 p hp
    · obtain rfl := List.mem_singleton.mp hp
      have hmem : m.timing ∈ ticked ls := (exec_delivered_ticked hexec).subset
        (List.mem_map_of_mem (by simp [(exec_sinkLog hexec).delivered, hhand]))
      exact hmono.2.2 _ (ticked_reading hmem) now (by simp [Label.reading])

/-! ## Sample integrity -/

/-- What a run of the chain guarantees about the sink's samples. -/
structure Integrity (kNumRelays : ℕ) (ls : List Label) (s : State) : Prop where
  /-- Each of the topics `msg_0`, …, `msg_N` has one publisher and one subscriber. -/
  wired : ∀ i : ℕ, i ≤ kNumRelays →
    ((nodes kNumRelays).filterMap Node.publisher).count (topic i) = 1 ∧
    ((nodes kNumRelays).filterMap Node.subscriber).count (topic i) = 1
  /-- What the sink handles was published by the source and then by relays `0`, …, `N-1`. -/
  hops : ∀ m ∈ s.delivered (sinkTopic kNumRelays),
    m.hops = route kNumRelays ∧ m.hops.length = kNumRelays + 1
  /-- It is what the source built at one of its ticks, with that tick's clock. -/
  unchanged : ∀ m ∈ s.delivered (sinkTopic kNumRelays), m.timing ∈ ticked ls
  /-- No message is handled twice or out of order. -/
  increasing : ((s.delivered (sinkTopic kNumRelays)).map (fun m => m.timing.msgid)).Pairwise (· < ·)
  /-- The sampled messages are the handled ones, each with the clock at its receipt. -/
  sampled : s.sampled.map Prod.fst <+: s.delivered (sinkTopic kNumRelays) ∧
    s.sampled.map Prod.snd = ls.filterMap Label.sampleNow
  data : s.data =
    s.sampled.map (fun p => (p.2 - p.1.timing.nanosec).tdiv (kNumRelays + 1))
  nonneg : (ls.filterMap Label.reading).Pairwise (· ≤ ·) → ∀ x ∈ s.data, 0 ≤ x

/-- Sample integrity, for every number of relays and every interleaving and overwriting. -/
theorem sample_integrity (kNumRelays numMessages : ℕ) {ls : List Label} {s : State}
    (h : exec (step kNumRelays numMessages) init ls = some s) : Integrity kNumRelays ls s where
  wired i hi := by
    rw [nodes_publishers, nodes_subscribers]
    exact ⟨topics_count hi,topics_count hi⟩
  hops m hm := by
    have hroute := (exec_routed h).delivered kNumRelays m hm
    exact ⟨hroute,by simp [hroute, route]⟩
  unchanged m hm := (exec_delivered_ticked h).subset (List.mem_map_of_mem hm)
  increasing := by
    have hsub := (exec_delivered_ticked h).map Timing.msgid
    rw [List.map_map] at hsub
    exact (ticked_increasing ls).sublist hsub
  sampled := ⟨⟨_,(exec_sinkLog h).delivered.symm⟩,(exec_sinkLog h).clocks⟩
  data := (exec_sinkLog h).data
  nonneg hmono x hx := by
    rw [(exec_sinkLog h).data] at hx
    obtain ⟨p,hp,rfl⟩ := List.mem_map.mp hx
    exact nanosecPerHop_nonneg kNumRelays (exec_sampledLater h hmono p hp)

/-- One message through one relay, ticked at 5 and sampled at 25. -/
def oneMessage : List Label := [.tick 5,.publish 0,.take 0,.listen 0 0,.takeSink,.sample 25]

theorem sample_integrity_oneMessage :
    ∃ s, exec (step 1 1000) init oneMessage = some s ∧ s.data = [10] ∧
      Integrity 1 oneMessage s := by
  have hrun : (exec (step 1 1000) init oneMessage).map State.data = some [10] := by
    simp [oneMessage, step, init, relayAt, relays_eq, State.push, State.deliver,
      PnodeRelay.publisher, PnodeRelay.subscriber, sinkTopic, State.listenSink, nanosecPerHop,
      sourceTiming, PnodeRelay.listen, topic_zero]
  obtain ⟨s,hs,hdata⟩ := Option.map_eq_some_iff.mp hrun
  exact ⟨s,hs,hdata,sample_integrity 1 1000 hs⟩

end RelayBench.Pnode
