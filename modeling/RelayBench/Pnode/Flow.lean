import RelayBench.Pnode.Model

/-! # What every run of the publish/subscribe chain preserves

`Move` lists what a step can do, with topics by number. The messages on the way are read
off as one list, the sink's end first; the published messages are those of the ticks.
-/
namespace RelayBench.Pnode
open Execution HopQueues Function
variable {kNumRelays numMessages : ℕ} {s t : State} {l : Label} {ls : List Label}

/-- The timings on topic `i`, oldest first. -/
def hop (queue : String → List Message) (i : ℕ) : List Timing :=
  (queue (topic i)).map Message.timing

/-- The timing relay `i` has in hand. -/
def hands (relayHand : ℕ → Option Message) (i : ℕ) : List Timing :=
  (relayHand i).toList.map Message.timing

theorem hop_update (queue : String → List Message) (i : ℕ) (ms : List Message) :
    hop (update queue (topic i) ms) = update (hop queue) i (ms.map Message.timing) := by
  funext j
  by_cases hj : j = i
  · simp [hop, hj]
  · have hne : topic j ≠ topic i := fun h => hj (by simpa using topic_injective h)
    simp [hop, hj, hne]

theorem hop_push (s : State) (i k : ℕ) (m : Message) :
    hop (s.push (topic i) k m).queue =
      update (hop s.queue) i ((hop s.queue i).drop k ++ [m.timing]) := by
  rw [State.push_queue, hop_update]
  simp [hop, List.map_drop]

theorem hop_deliver (s : State) (i : ℕ) (m : Message) (rest : List Message) :
    hop (s.deliver (topic i) m rest).queue =
      update (hop s.queue) i (rest.map Message.timing) := hop_update _ _ _

theorem hands_update (relayHand : ℕ → Option Message) (i : ℕ) (m : Option Message) :
    hands (update relayHand i m) = update (hands relayHand) i (m.toList.map Message.timing) := by
  funext j
  by_cases hj : j = i
  · simp [hands, hj]
  · simp [hands, hj]

/-- A step of the chain, its topics by number and its guards explicit. -/
inductive Move (kNumRelays numMessages : ℕ) (s : State) : Label → State → Prop
  | tick (now : ℤ) (hsource : s.sourceHand = none) :
      Move kNumRelays numMessages s (.tick now)
        { s with
          msgid := s.msgid + 1
          sourceHand := some (sourceTiming (s.msgid + 1) now) }
  | publish (k : ℕ) (m : Timing) (hsource : s.sourceHand = some m) :
      Move kNumRelays numMessages s (.publish k)
        { s.push (topic (0 : ℕ)) k ⟨m,["source"]⟩ with
          sourceHand := none
          published := s.published ++ [⟨m,["source"]⟩] }
  | take (i : ℕ) (m : Message) (rest : List Message) (hi : i < kNumRelays)
      (hhand : s.relayHand i = none) (hqueue : s.queue (topic i) = m :: rest) :
      Move kNumRelays numMessages s (.take i)
        { s.deliver (topic i) m rest with relayHand := update s.relayHand i (some m) }
  | listen (i k : ℕ) (m : Message) (hi : i < kNumRelays) (hhand : s.relayHand i = some m) :
      Move kNumRelays numMessages s (.listen i k)
        { s.push (topic (i + 1 : ℕ)) k ⟨m.timing,m.hops ++ ["relay_" ++ toString i]⟩ with
          relayHand := update s.relayHand i none }
  | takeSink (m : Message) (rest : List Message) (hhand : s.sinkHand = none)
      (hexited : s.exited = false) (hqueue : s.queue (topic kNumRelays) = m :: rest) :
      Move kNumRelays numMessages s .takeSink
        { s.deliver (topic kNumRelays) m rest with sinkHand := some m }
  | sample (now : ℤ) (m : Message) (hhand : s.sinkHand = some m)
      (hlow : s.data.length + 1 < numMessages) :
      Move kNumRelays numMessages s (.sample now)
        { s with
          data := s.data ++ [nanosecPerHop kNumRelays now m.timing.nanosec]
          sinkHand := none
          sampled := s.sampled ++ [(m,now)] }
  | report (now : ℤ) (m : Message) (r : Report) (hhand : s.sinkHand = some m)
      (hfull : numMessages ≤ s.data.length + 1)
      (hprint : printStats (s.data ++ [nanosecPerHop kNumRelays now m.timing.nanosec]) = some r) :
      Move kNumRelays numMessages s (.sample now)
        { s with
          data := s.data ++ [nanosecPerHop kNumRelays now m.timing.nanosec]
          sinkHand := none
          reports := s.reports ++ [r]
          exited := true
          sampled := s.sampled ++ [(m,now)] }

theorem step_move (h : step kNumRelays numMessages s l = some t) :
    Move kNumRelays numMessages s l t := by
  cases l with
  | tick now =>
    cases hsource : s.sourceHand with
    | some m => simp [step, hsource] at h
    | none =>
      simp only [step, hsource, Option.some.injEq] at h
      exact h ▸ .tick now hsource
  | publish k =>
    cases hsource : s.sourceHand with
    | none => simp [step, hsource] at h
    | some m =>
      simp only [step, hsource, Option.some.injEq] at h
      exact h ▸ .publish k m hsource
  | take i =>
    cases hrelay : relayAt kNumRelays i with
    | none => simp [step, hrelay] at h
    | some r =>
      obtain ⟨hi,rfl⟩ := relayAt_eq.mp hrelay
      cases hhand : s.relayHand i with
      | some m => simp [step, hrelay, hhand] at h
      | none =>
        cases hqueue : s.queue (topic i) with
        | nil => simp [step, hrelay, hhand, PnodeRelay.subscriber, hqueue] at h
        | cons m rest =>
          simp only [step, hrelay, hhand, PnodeRelay.subscriber, hqueue, Option.some.injEq] at h
          exact h ▸ .take i m rest hi hhand hqueue
  | listen i k =>
    cases hrelay : relayAt kNumRelays i with
    | none => simp [step, hrelay] at h
    | some r =>
      obtain ⟨hi,rfl⟩ := relayAt_eq.mp hrelay
      cases hhand : s.relayHand i with
      | none => simp [step, hrelay, hhand] at h
      | some m =>
        simp only [step, hrelay, hhand, Option.some.injEq] at h
        exact h ▸ .listen i k m hi hhand
  | takeSink =>
    cases hhand : s.sinkHand with
    | some m => simp [step, hhand] at h
    | none =>
      cases hqueue : s.queue (topic kNumRelays) with
      | nil => simp [step, hhand, sinkTopic, hqueue] at h
      | cons m rest =>
        cases hexited : s.exited with
        | true => simp [step, hhand, sinkTopic, hqueue, hexited] at h
        | false =>
          simp only [step, hhand, sinkTopic, hqueue, hexited, Bool.false_eq_true, if_false,
            Option.some.injEq] at h
          exact h ▸ .takeSink m rest hhand hexited hqueue
  | sample now =>
    cases hhand : s.sinkHand with
    | none => simp [step, hhand] at h
    | some m =>
      simp only [step, hhand, State.listenSink, List.length_append, List.length_singleton] at h
      by_cases hfull : numMessages ≤ s.data.length + 1
      · rw [if_pos hfull] at h
        obtain ⟨r,hr,rfl⟩ := Option.map_eq_some_iff.mp h
        exact .report now m r hhand hfull hr
      · rw [if_neg hfull] at h
        cases h
        exact .sample now m hhand (by omega)

theorem move_step (h : Move kNumRelays numMessages s l t) :
    step kNumRelays numMessages s l = some t := by
  cases h with
  | tick now hsource => simp [step, hsource]
  | publish k m hsource => simp [step, hsource, topic_zero]
  | take i m rest hi hhand hqueue =>
    have hrelay : relayAt kNumRelays i = some ⟨"relay_" ++ toString i,i⟩ := relayAt_eq.mpr ⟨hi,rfl⟩
    simp only [step, hrelay, hhand, PnodeRelay.subscriber, hqueue]
  | listen i k m hi hhand =>
    have hrelay : relayAt kNumRelays i = some ⟨"relay_" ++ toString i,i⟩ := relayAt_eq.mpr ⟨hi,rfl⟩
    simp only [step, hrelay, hhand, PnodeRelay.publisher, PnodeRelay.listen, Nat.cast_succ]
  | takeSink m rest hhand hexited hqueue => simp [step, hhand, sinkTopic, hqueue, hexited]
  | sample now m hhand hlow =>
    simp [step, hhand, State.listenSink, Nat.not_le.mpr hlow]
  | report now m r hhand hfull hprint =>
    simp [step, hhand, State.listenSink, hfull, hprint]

/-! ## The source -/

/-- The clock reading of a tick. -/
def Label.tickNow : Label → Option ℤ
  | .tick now => some now
  | _ => none

/-- The messages the ticks of a run build: the `j`-th has msgid `j` and its reading. -/
def ticked (ls : List Label) : List Timing :=
  (ls.filterMap Label.tickNow).mapIdx (fun j now => sourceTiming ((j : ℤ) + 1) now)

theorem ticked_snoc_tick (ls : List Label) (now : ℤ) :
    ticked (ls ++ [.tick now]) = ticked ls ++ [sourceTiming ((ticked ls).length + 1) now] := by
  simp [ticked, List.filterMap_append, Label.tickNow, List.mapIdx_append]

theorem ticked_snoc {l : Label} (hl : l.tickNow = none) (ls : List Label) :
    ticked (ls ++ [l]) = ticked ls := by
  simp [ticked, List.filterMap_append, hl]

theorem ticked_msgids (ls : List Label) :
    (ticked ls).map Timing.msgid = (List.range (ticked ls).length).map (fun j : ℕ => (j : ℤ) + 1) := by
  apply List.ext_getElem <;> simp [ticked, sourceTiming]

/-- The source has published or holds exactly the messages of the ticks so far. -/
def SourceInv (ls : List Label) (s : State) : Prop :=
  s.published.map Message.timing ++ s.sourceHand.toList = ticked ls ∧
  s.msgid = (ticked ls).length

theorem exec_source (h : exec (step kNumRelays numMessages) init ls = some s) :
    SourceInv ls s := by
  refine exec_history ⟨rfl,rfl⟩ ?_ h
  intro ls t l u _ ⟨hpub,hid⟩ hstep
  cases step_move hstep with
  | tick now hsource =>
    rw [SourceInv, ticked_snoc_tick, ← hpub]
    simp [hsource, hid, ← hpub]
  | publish k m hsource =>
    rw [SourceInv, ticked_snoc rfl]
    exact ⟨by simpa [hsource, State.push] using hpub,hid⟩
  | take | listen | takeSink | sample | report =>
    rw [SourceInv, ticked_snoc rfl]
    exact ⟨hpub,hid⟩

theorem exec_published_ticked (h : exec (step kNumRelays numMessages) init ls = some s) :
    s.published.map Message.timing <+: ticked ls :=
  ⟨_,(exec_source h).1⟩

/-! ## The messages on the way -/

/-- What the sink has taken, sampled or not yet. -/
def arrived (s : State) : List Timing :=
  s.sampled.map (fun p => p.1.timing) ++ s.sinkHand.toList.map Message.timing

/-- What the topics and the relays hold, the sink's end first. -/
def onTheWay (kNumRelays : ℕ) (s : State) : List Timing :=
  flow (hop s.queue) (hands s.relayHand) kNumRelays

/-- A step that publishes `sent` and overwrites `lost` moves no message past another. -/
structure Transit (kNumRelays : ℕ) (s t : State) (sent lost : List Timing) : Prop where
  published : t.published.map Message.timing = s.published.map Message.timing ++ sent
  overwritten : t.overwritten.map Message.timing = s.overwritten.map Message.timing ++ lost
  order : (arrived t ++ onTheWay kNumRelays t).Sublist
    (arrived s ++ onTheWay kNumRelays s ++ sent)
  conserved : (arrived t ++ onTheWay kNumRelays t ++ lost).Perm
    (arrived s ++ onTheWay kNumRelays s ++ sent)

theorem Transit.of_eq (hpub : t.published = s.published) (hover : t.overwritten = s.overwritten)
    (h : arrived t ++ onTheWay kNumRelays t = arrived s ++ onTheWay kNumRelays s) :
    Transit kNumRelays s t [] [] :=
  ⟨by simp [hpub],by simp [hover],by rw [h, List.append_nil],
    by rw [h, List.append_nil]⟩

theorem move_transit (h : Move kNumRelays numMessages s l t) :
    ∃ sent lost, Transit kNumRelays s t sent lost := by
  cases h with
  | tick now hsource => exact ⟨[],[],.of_eq rfl rfl rfl⟩
  | publish k m hsource =>
    refine ⟨[m],(hop s.queue 0).take k,by simp,by simp [State.push, hop, List.map_take],?_,?_⟩
    · change (arrived s ++ flow (hop (s.push (topic (0 : ℕ)) k _).queue) _ _).Sublist _
      rw [hop_push, List.append_assoc]
      exact (flow_send_over (hop s.queue) (hands s.relayHand) m k kNumRelays).append_left _
    · change (arrived s ++ flow (hop (s.push (topic (0 : ℕ)) k _).queue) _ _ ++ _).Perm _
      rw [hop_push, List.append_assoc, List.append_assoc]
      exact (flow_send_over_perm (hop s.queue) (hands s.relayHand) m k kNumRelays).append_left _
  | take i m rest hi hhand hqueue =>
    refine ⟨[],[],.of_eq rfl rfl ?_⟩
    change arrived s ++ flow (hop (s.deliver (topic i) m rest).queue)
      (hands (update s.relayHand i (some m))) _ = _
    rw [hop_deliver, hands_update]
    have hq : hop s.queue i = m.timing :: rest.map Message.timing := by simp [hop, hqueue]
    have hh : hands s.relayHand i = [] := by simp [hands, hhand]
    exact congrArg (arrived s ++ ·) (flow_take hi hq hh)
  | listen i k m hi hhand =>
    have hh : hands s.relayHand i = [m.timing] := by simp [hands, hhand]
    refine ⟨[],(hop s.queue (i + 1)).take k,by simp [State.push],
      by simp [State.push, hop, List.map_take],?_,?_⟩
    · change (arrived s ++ flow (hop (s.push (topic (i + 1 : ℕ)) k _).queue)
        (hands (update s.relayHand i none)) _).Sublist _
      rw [hop_push, hands_update, List.append_nil]
      exact (flow_handOn_over k hi hh).append_left _
    · change (arrived s ++ flow (hop (s.push (topic (i + 1 : ℕ)) k _).queue)
        (hands (update s.relayHand i none)) _ ++ _).Perm _
      rw [hop_push, hands_update, List.append_nil, List.append_assoc]
      exact (flow_handOn_over_perm k hi hh).append_left _
  | takeSink m rest hhand hexited hqueue =>
    refine ⟨[],[],.of_eq rfl rfl ?_⟩
    have hq : hop s.queue kNumRelays = m.timing :: rest.map Message.timing := by
      simp [hop, hqueue]
    have hleave : m.timing :: flow (update (hop s.queue) kNumRelays (rest.map Message.timing))
        (hands s.relayHand) kNumRelays = onTheWay kNumRelays s := flow_leave hq
    change _ ++ flow (hop (s.deliver (topic kNumRelays) m rest).queue) _ _ = _
    rw [hop_deliver, ← hleave]
    simp [arrived, State.deliver, hhand]
  | sample now m hhand hlow | report now m r hhand hfull hprint =>
    exact ⟨[],[],.of_eq rfl rfl (by simp [arrived, onTheWay, hhand])⟩

theorem onTheWay_init (kNumRelays : ℕ) : onTheWay kNumRelays init = [] := by
  refine List.eq_nil_iff_forall_not_mem.mpr (fun m hm => ?_)
  simp [onTheWay, mem_flow, init, hop, hands] at hm

/-- The messages taken and on the way are published ones, in the order of publication,
and with the overwritten ones they are all of them. -/
structure InTransit (kNumRelays : ℕ) (s : State) : Prop where
  order : (arrived s ++ onTheWay kNumRelays s).Sublist (s.published.map Message.timing)
  conserved : (arrived s ++ onTheWay kNumRelays s ++ s.overwritten.map Message.timing).Perm
    (s.published.map Message.timing)

theorem exec_inTransit (h : exec (step kNumRelays numMessages) init ls = some s) :
    InTransit kNumRelays s := by
  have h0 : InTransit kNumRelays init := by
    constructor <;> rw [onTheWay_init] <;> exact .refl _
  refine exec_invariant h0 (fun t l u hs hstep => ?_) h
  obtain ⟨sent,lost,htr⟩ := move_transit (step_move hstep)
  constructor
  · rw [htr.published]
    exact htr.order.trans (hs.order.append_right sent)
  · rw [htr.published, htr.overwritten, List.perm_iff_count]
    intro a
    have hc := htr.conserved.count_eq a
    have hi := hs.conserved.count_eq a
    simp only [List.count_append] at hc hi ⊢
    omega

/-! ## Assertions on the messages of each topic -/

/-- `P i` holds of whatever is on topic `i`, is in the hand of relay `i` or was delivered
to the subscriber of topic `i`. -/
structure AtTopics (P : ℕ → Message → Prop) (s : State) : Prop where
  queue : ∀ i : ℕ, ∀ m ∈ s.queue (topic i), P i m
  relayHand : ∀ i m, s.relayHand i = some m → P i m
  delivered : ∀ i : ℕ, ∀ m ∈ s.delivered (topic i), P i m

theorem update_topic {β : Type*} (f : String → β) (i j : ℕ) (x : β) :
    update f (topic i) x (topic j) = if j = i then x else f (topic j) := by
  by_cases h : j = i
  · simp [h]
  · have hne : topic j ≠ topic i := fun he => h (by simpa using topic_injective he)
    rw [update_of_ne hne, if_neg h]

section AtTopics
variable {P : ℕ → Message → Prop}

theorem AtTopics.push (hs : AtTopics P s) {i : ℕ} (k : ℕ) {m : Message} (hm : P i m) (j : ℕ) :
    ∀ m' ∈ (s.push (topic i) k m).queue (topic j), P j m' := by
  intro m' hm'
  rw [State.push_queue, update_topic] at hm'
  split at hm'
  · subst j
    rcases List.mem_append.mp hm' with h | h
    · exact hs.queue i m' (List.mem_of_mem_drop h)
    · rwa [List.mem_singleton.mp h]
  · exact hs.queue j m' hm'

theorem AtTopics.deliver (hs : AtTopics P s) {i : ℕ} {m : Message} {rest : List Message}
    (hq : s.queue (topic i) = m :: rest) (j : ℕ) :
    (∀ m' ∈ (s.deliver (topic i) m rest).queue (topic j), P j m') ∧
    ∀ m' ∈ (s.deliver (topic i) m rest).delivered (topic j), P j m' := by
  have hqi := hs.queue i
  rw [hq] at hqi
  constructor
  · intro m' hm'
    rw [State.deliver_queue, update_topic] at hm'
    split at hm'
    · subst j
      exact hqi m' (List.mem_cons_of_mem m hm')
    · exact hs.queue j m' hm'
  · intro m' hm'
    rw [State.deliver_delivered, update_topic] at hm'
    split at hm'
    · subst j
      rcases List.mem_append.mp hm' with h | h
      · exact hs.delivered i m' h
      · exact hqi m' (by simp [List.mem_singleton.mp h])
    · exact hs.delivered j m' hm'

/-- It is enough that `P 0` holds of what the source publishes and that relay `i` takes
`P i` to `P (i+1)`. -/
theorem move_atTopics (hsource : ∀ m, s.sourceHand = some m → P 0 ⟨m,["source"]⟩)
    (hrelay : ∀ i m, P i m → P (i + 1) ⟨m.timing,m.hops ++ ["relay_" ++ toString i]⟩)
    (h : Move kNumRelays numMessages s l t) (hs : AtTopics P s) : AtTopics P t := by
  cases h with
  | tick | sample | report => exact ⟨hs.queue,hs.relayHand,hs.delivered⟩
  | publish k m hhand => exact ⟨hs.push k (hsource m hhand),hs.relayHand,hs.delivered⟩
  | take i m rest hi hhand hqueue =>
    refine ⟨fun j => (hs.deliver hqueue j).1,?_,fun j => (hs.deliver hqueue j).2⟩
    intro j m' hm'
    by_cases hj : j = i
    · subst j
      obtain rfl : m = m' := by simpa using hm'
      exact hs.queue i m (by simp [hqueue])
    · exact hs.relayHand j m' (by simpa [hj] using hm')
  | listen i k m hi hhand =>
    refine ⟨hs.push k (hrelay i m (hs.relayHand i m hhand)),?_,hs.delivered⟩
    intro j m' hm'
    by_cases hj : j = i
    · simp [hj] at hm'
    · exact hs.relayHand j m' (by simpa [hj] using hm')
  | takeSink m rest hhand hexited hqueue =>
    exact ⟨fun j => (hs.deliver hqueue j).1,hs.relayHand,fun j => (hs.deliver hqueue j).2⟩

theorem exec_atTopics (hsource : ∀ msgid now, P 0 ⟨sourceTiming msgid now,["source"]⟩)
    (hrelay : ∀ i m, P i m → P (i + 1) ⟨m.timing,m.hops ++ ["relay_" ++ toString i]⟩)
    (h : exec (step kNumRelays numMessages) init ls = some s) : AtTopics P s := by
  have h0 : AtTopics P init := by constructor <;> simp [init]
  refine @exec_history _ _ _ (fun _ => AtTopics P) init h0 ?_ ls s h
  intro ls t l u hexec hs hstep
  refine move_atTopics (fun m hm => ?_) hrelay (step_move hstep) hs
  have hmem : m ∈ ticked ls := by simp [← (exec_source hexec).1, hm]
  obtain ⟨j,hj,rfl⟩ := List.mem_iff_getElem.mp hmem
  simpa [ticked] using hsource _ _

end AtTopics

end RelayBench.Pnode
