import RelayBench.Pnode.Flow

/-! # The label a relay builds for what it forwards

`listen` relabels a copy and publishes the message it was given, so every message keeps
the source's label and the relays stamp nothing that is ever delivered.
-/
namespace RelayBench.Pnode
open Execution Function
variable {kNumRelays numMessages : ℕ} {s t : State} {l : Label} {ls : List Label}

/-- Whatever is delivered from relay `i` carries the ids of a message relay `i` received
and the label relay `i` builds, and what the sink is passed the label of the last relay. -/
structure Stamped (kNumRelays : ℕ) (s : State) : Prop where
  relabelled : ∀ (i : ℕ) (r : PnodeRelay), relayAt kNumRelays i = some r →
    ∀ m ∈ s.delivered r.publisher, ∃ received ∈ s.delivered r.subscriber,
      m.timing.msgid = received.timing.msgid ∧ m.timing.nanosec = received.timing.nanosec ∧
      m.timing.source = (r.copy received.timing).source
  last : 1 ≤ kNumRelays → ∀ m ∈ s.delivered (sinkTopic kNumRelays),
    m.timing.source = "pnode relay " ++ toString (kNumRelays - 1) ∧
    m.timing.source ≠ "pnode publisher"

/-- The topic whose oldest message the step delivers. -/
def Label.takesFrom (kNumRelays : ℕ) : Label → Option ℕ
  | .take i => some i
  | .takeSink => some kNumRelays
  | _ => none

/-- The step delivers nothing that a relay published. -/
def Label.NotRelayed (kNumRelays : ℕ) (l : Label) : Prop :=
  ∀ i, l.takesFrom kNumRelays = some i → i = 0

theorem label_ne (i : ℤ) : "pnode relay " ++ toString i ≠ "pnode publisher" := by
  intro h
  have hlist := congrArg String.toList h
  rw [String.toList_append] at hlist
  have h6 : ("pnode relay ".toList ++ (toString i).toList)[6]? = some 'r' := rfl
  rw [hlist] at h6
  exact absurd h6 (by decide)

theorem exec_unlabelled (h : exec (step kNumRelays numMessages) init ls = some s) :
    AtTopics (fun _ m => m.timing.source = "pnode publisher") s :=
  exec_atTopics (fun _ _ => rfl) (fun _ _ hm => hm) h

theorem deliver_delivered_nil (s : State) (i j : ℕ) (m : Message) (rest : List Message) :
    (s.deliver (topic i) m rest).delivered (topic j) = [] ↔
      s.delivered (topic j) = [] ∧ j ≠ i := by
  rw [State.deliver_delivered, update_topic]
  by_cases hj : j = i <;> simp [hj]

/-- Nothing has been delivered on a topic exactly when no step took from it. -/
def DeliveredBy (kNumRelays : ℕ) (ls : List Label) (s : State) : Prop :=
  ∀ i : ℕ, s.delivered (topic i) = [] ↔ ∀ l ∈ ls, l.takesFrom kNumRelays ≠ some i

theorem move_deliveredBy (h : Move kNumRelays numMessages s l t)
    (hs : DeliveredBy kNumRelays ls s) : DeliveredBy kNumRelays (ls ++ [l]) t := by
  intro j
  simp only [List.forall_mem_append, List.forall_mem_singleton, ← hs j]
  cases h with
  | tick | publish | listen | sample | report => simp [Label.takesFrom, State.push]
  | take i m rest =>
    change (s.deliver (topic i) m rest).delivered (topic j) = [] ↔ _
    rw [deliver_delivered_nil]
    simp [Label.takesFrom, @eq_comm _ j]
  | takeSink m rest =>
    change (s.deliver (topic kNumRelays) m rest).delivered (topic j) = [] ↔ _
    rw [deliver_delivered_nil]
    simp [Label.takesFrom, @eq_comm _ j]

theorem exec_deliveredBy (h : exec (step kNumRelays numMessages) init ls = some s) :
    DeliveredBy kNumRelays ls s := by
  have h0 : DeliveredBy kNumRelays [] init := fun i => by simp [init]
  exact exec_history h0 (fun _ _ _ _ _ hs hstep => move_deliveredBy (step_move hstep) hs) h

theorem exec_take_le (h : exec (step kNumRelays numMessages) init ls = some s) :
    ∀ l ∈ ls, ∀ i, l.takesFrom kNumRelays = some i → i ≤ kNumRelays := by
  refine @exec_history _ _ _ (fun ls _ => ∀ l ∈ ls, ∀ i, l.takesFrom kNumRelays = some i →
    i ≤ kNumRelays) init (by simp) ?_ ls s h
  intro ls t l u _ hs hstep k hk i hi
  rcases List.mem_append.mp hk with hk | hk
  · exact hs k hk i hi
  · obtain rfl := List.mem_singleton.mp hk
    cases step_move hstep <;> simp only [Label.takesFrom, Option.some.injEq, reduceCtorEq] at hi <;>
      omega

/-- In every run the relays stamp what is delivered exactly as long as nothing that a relay
published has been delivered. -/
theorem stamped_iff_not_relayed (kNumRelays numMessages : ℕ) {ls : List Label} {s : State}
    (h : exec (step kNumRelays numMessages) init ls = some s) :
    Stamped kNumRelays s ↔ ∀ l ∈ ls, l.NotRelayed kNumRelays := by
  have hlabel := (exec_unlabelled h).delivered
  have hby := exec_deliveredBy h
  constructor
  · intro hs l hl i htake
    by_contra hne
    obtain ⟨j,rfl⟩ := Nat.exists_eq_succ_of_ne_zero hne
    have hj := exec_take_le h l hl (j + 1) htake
    have hnil : s.delivered (topic (j + 1 : ℕ)) ≠ [] := fun hnil =>
      (hby (j + 1)).mp hnil l hl htake
    obtain ⟨m,hm⟩ := List.exists_mem_of_ne_nil _ hnil
    have hrelay := relayAt_eq.mpr ⟨Nat.lt_of_succ_le hj,rfl⟩
    obtain ⟨received,_,_,_,hsource⟩ := hs.relabelled j _ hrelay m hm
    rw [hlabel (j + 1) m hm] at hsource
    exact label_ne j hsource.symm
  · intro hnot
    have hnil (i : ℕ) (hi : i ≠ 0) : s.delivered (topic i) = [] :=
      (hby i).mpr (fun l hl htake => hi (hnot l hl i htake))
    constructor
    · intro i r hr m hm
      obtain ⟨_,rfl⟩ := relayAt_eq.mp hr
      have hi := hnil (i + 1) (by omega)
      simp only [PnodeRelay.publisher, ← Nat.cast_succ, hi, List.not_mem_nil] at hm
    · intro hpos m hm
      rw [sinkTopic, hnil kNumRelays (by omega)] at hm
      simp at hm

/-- Relay 0 forwards the first message and relay 1 takes it. -/
def relayedOnce : List Label := [.tick 5,.publish 0,.take 0,.listen 0 0,.take 1]

theorem stamped_iff_not_relayed_relayedOnce :
    ∃ s, exec (step 20 1000) init relayedOnce = some s ∧
      (Stamped 20 s ↔ ∀ l ∈ relayedOnce, l.NotRelayed 20) := by
  have hrun : (exec (step 20 1000) init relayedOnce).isSome = true := by
    simp [relayedOnce, step, init, relayAt, relays_eq, State.push, State.deliver,
      PnodeRelay.publisher, PnodeRelay.subscriber, topic_zero]
  obtain ⟨s,hs⟩ := Option.isSome_iff_exists.mp hrun
  exact ⟨s,hs,stamped_iff_not_relayed 20 1000 hs⟩

/-- Relay 1 is passed the publisher's label where relay 0 built its own. -/
theorem not_stamped_relayedOnce :
    ∃ s, exec (step 20 1000) init relayedOnce = some s ∧ ¬Stamped 20 s := by
  have hrun : (exec (step 20 1000) init relayedOnce).map
      (fun s => (s.delivered (topic 1)).map (fun m => m.timing.source)) =
        some ["pnode publisher"] := by
    simp [relayedOnce, step, init, relayAt, relays_eq, State.push, State.deliver,
      PnodeRelay.publisher, PnodeRelay.subscriber, PnodeRelay.listen, sourceTiming, topic_zero,
      topic_injective.eq_iff]
  obtain ⟨s,hs,hsource⟩ := Option.map_eq_some_iff.mp hrun
  refine ⟨s,hs,fun hstamped => ?_⟩
  obtain ⟨m,hm,hlabel⟩ : ∃ m ∈ s.delivered (topic 1), m.timing.source = "pnode publisher" :=
    List.mem_map.mp (hsource ▸ List.mem_singleton_self _)
  have hrelay : relayAt 20 0 = some ⟨"relay_" ++ toString 0,0⟩ := relayAt_eq.mpr ⟨by omega,rfl⟩
  obtain ⟨received,_,_,_,hbuilt⟩ := hstamped.relabelled 0 _ hrelay m hm
  exact label_ne 0 (hbuilt.symm.trans hlabel)

end RelayBench.Pnode
