import RelayBench.Pnode.SampleIntegrity

/-! # When a printed report hides no loss

The source never stops, so a message overwritten on the way is replaced by a later one.
A report is over the messages `1`, …, `M` exactly when no step of the run overwrites one
of them.
-/
namespace RelayBench.Pnode
open Execution HopQueues Function
variable {kNumRelays numMessages : ℕ} {s t : State} {l : Label} {ls : List Label}

/-- The messages `1`, …, `n` of a run, by msgid. -/
def firstIds (n : ℕ) : List ℤ := (List.range n).map (fun j : ℕ => (j : ℤ) + 1)

theorem mem_firstIds {n : ℕ} {x : ℤ} : x ∈ firstIds n ↔ 1 ≤ x ∧ x ≤ n := by
  simp only [firstIds, List.mem_map, List.mem_range]
  constructor
  · rintro ⟨j,hj,rfl⟩
    omega
  · rintro ⟨h1,hn⟩
    exact ⟨(x - 1).toNat,by omega,by omega⟩

theorem nodup_firstIds (n : ℕ) : (firstIds n).Nodup :=
  List.nodup_range.map (fun a b h => by simpa using h)

@[simp] theorem length_firstIds (n : ℕ) : (firstIds n).length = n := by simp [firstIds]

/-- The step overwrites no message with a msgid up to the number of samples. -/
def SparesEarly (kNumRelays numMessages : ℕ) (s : State) : Label → Prop
  | .publish k => ∀ m ∈ (s.queue "msg_0").take k, (numMessages : ℤ) < m.timing.msgid
  | .listen i k => ∀ r, relayAt kNumRelays i = some r →
      ∀ m ∈ (s.queue r.publisher).take k, (numMessages : ℤ) < m.timing.msgid
  | _ => True

/-- The msgids of the sampled messages. -/
def sampledIds (s : State) : List ℤ := s.sampled.map (fun p => p.1.timing.msgid)

/-- The samples are those of the messages `1`, …, `M`, each exactly once. -/
def Complete (numMessages : ℕ) (s : State) : Prop :=
  (sampledIds s).Perm (firstIds numMessages)

theorem exec_overwritten (h : exec (step kNumRelays numMessages) init ls = some s) :
    (∀ m ∈ s.overwritten, (numMessages : ℤ) < m.timing.msgid) ↔
      StepsMeet (SparesEarly kNumRelays numMessages) (step kNumRelays numMessages) init ls := by
  refine @exec_history _ _ _ (fun ls s => (∀ m ∈ s.overwritten, (numMessages : ℤ) < m.timing.msgid) ↔
    StepsMeet (SparesEarly kNumRelays numMessages) (step kNumRelays numMessages) init ls)
    init (by simp [init, StepsMeet]) ?_ ls s h
  intro ls t l u hexec hs hstep
  rw [stepsMeet_snoc hexec, ← hs]
  cases step_move hstep with
  | tick | take | takeSink | sample | report => simp [SparesEarly, State.deliver]
  | publish k m => simp only [SparesEarly, State.push, List.forall_mem_append, topic_zero]
  | listen i k m hi hhand =>
    have hrelay : relayAt kNumRelays i = some ⟨"relay_" ++ toString i,i⟩ := relayAt_eq.mpr ⟨hi,rfl⟩
    simp only [SparesEarly, hrelay, Option.some.injEq, forall_eq', State.push,
      List.forall_mem_append, PnodeRelay.publisher, Nat.cast_succ]

/-! ## The sink stops at its first report -/

/-- Up to the report the sink is short of samples, afterwards it has taken its last one. -/
structure SinkCount (numMessages : ℕ) (s : State) : Prop where
  running : s.exited = false → s.reports = [] ∧ s.sampled.length < numMessages
  stopped : s.exited = true → s.sinkHand = none ∧ s.sampled.length = numMessages ∧
    ∃ r, s.reports = [r] ∧ r.array.Perm s.data

theorem exec_sinkCount (hpos : 0 < numMessages)
    (h : exec (step kNumRelays numMessages) init ls = some s) : SinkCount numMessages s := by
  have h0 : SinkCount numMessages init := ⟨fun _ => ⟨rfl,hpos⟩,fun h => by simp [init] at h⟩
  refine @exec_history _ _ _ (fun _ => SinkCount numMessages) init h0 ?_ ls s h
  intro ls t l u hexec hs hstep
  have hlen : t.data.length = t.sampled.length := by simp [(exec_sinkLog hexec).data]
  cases step_move hstep with
  | tick | publish | take | listen => exact ⟨hs.running,hs.stopped⟩
  | takeSink m rest hhand hexited =>
    exact ⟨hs.running,fun he => by simp [State.deliver, hexited] at he⟩
  | sample now m hhand hlow =>
    refine ⟨fun he => ⟨(hs.running he).1,by simp; omega⟩,fun he => ?_⟩
    simp [(hs.stopped he).1] at hhand
  | report now m r hhand hfull hprint =>
    have hrun : t.exited = false := by
      by_contra he
      simp [(hs.stopped (by simpa using he)).1] at hhand
    obtain ⟨hnone,hlow⟩ := hs.running hrun
    refine ⟨fun he => by simp at he,fun _ => ⟨rfl,by simp; omega,r,by simp [hnone],?_⟩⟩
    exact printStats_array hprint

/-! ## The report -/

theorem exec_published_ids (h : exec (step kNumRelays numMessages) init ls = some s) :
    (s.published.map Message.timing).map Timing.msgid = firstIds s.published.length := by
  have hpre := (exec_published_ticked h).map Timing.msgid
  have hids : (ticked ls).map Timing.msgid = firstIds (ticked ls).length := ticked_msgids ls
  have hle := (exec_published_ticked h).length_le
  rw [List.length_map] at hle
  rw [hids, List.prefix_iff_eq_take] at hpre
  rw [hpre, firstIds, List.length_map, List.length_map, ← List.map_take, List.take_range,
    Nat.min_eq_left hle]
  rfl

theorem firstIds_increasing (n : ℕ) : (firstIds n).Pairwise (· < ·) := by
  rw [firstIds, List.pairwise_map]
  exact List.pairwise_lt_range.imp (fun hab => by omega)

/-- The msgids of the messages taken and not sampled, or on the way. -/
def pendingIds (kNumRelays : ℕ) (s : State) : List ℤ :=
  (s.sinkHand.toList.map Message.timing ++ onTheWay kNumRelays s).map Timing.msgid

theorem ids_eq (s : State) : (arrived s ++ onTheWay kNumRelays s).map Timing.msgid =
    sampledIds s ++ pendingIds kNumRelays s := by
  simp [arrived, sampledIds, pendingIds, Function.comp_def]

theorem exec_ids_sublist (h : exec (step kNumRelays numMessages) init ls = some s) :
    (sampledIds s ++ pendingIds kNumRelays s).Sublist (firstIds s.published.length) := by
  rw [← ids_eq, ← exec_published_ids h]
  exact (exec_inTransit h).order.map Timing.msgid

theorem exec_ids_perm (h : exec (step kNumRelays numMessages) init ls = some s) :
    (sampledIds s ++ pendingIds kNumRelays s ++
      s.overwritten.map (fun m => m.timing.msgid)).Perm (firstIds s.published.length) := by
  have hperm := (exec_inTransit h).conserved.map Timing.msgid
  rw [List.map_append, ids_eq, exec_published_ids h, List.map_map] at hperm
  exact hperm

/-- Unless a message up to `M` is overwritten, the first `M` samples are of `1`, …, `M`:
a missing one would be behind every sample, which leaves too few ids for the samples. -/
theorem complete_of_spared (h : exec (step kNumRelays numMessages) init ls = some s)
    (hfull : s.sampled.length = numMessages)
    (hspared : ∀ m ∈ s.overwritten, (numMessages : ℤ) < m.timing.msgid) :
    Complete numMessages s := by
  have hsub := exec_ids_sublist h
  have hlen : (sampledIds s).length = numMessages := by simp [sampledIds, hfull]
  have hsampled := (List.sublist_append_left _ _).trans hsub
  have hincr := (firstIds_increasing s.published.length).sublist hsub
  have hnodup := (nodup_firstIds s.published.length).sublist hsampled
  have hmany : numMessages ≤ s.published.length := by simpa [hlen] using hsampled.length_le
  have hall : ∀ j ∈ firstIds numMessages, j ∈ sampledIds s := by
    intro j hj
    obtain ⟨h1,hj⟩ := mem_firstIds.mp hj
    by_contra hnot
    have hpublished : j ∈ firstIds s.published.length := mem_firstIds.mpr ⟨h1,by omega⟩
    have hpending : j ∈ pendingIds kNumRelays s := by
      have hmem := (exec_ids_perm h).mem_iff.mpr hpublished
      simp only [List.mem_append, hnot, false_or] at hmem
      rcases hmem with hmem | hmem
      · exact hmem
      · obtain ⟨m,hm,rfl⟩ := List.mem_map.mp hmem
        have := hspared m hm
        omega
    have hbelow : sampledIds s ⊆ firstIds (j - 1).toNat := by
      intro x hx
      have hx1 := mem_firstIds.mp (hsampled.subset hx)
      have hxj := (List.pairwise_append.mp hincr).2.2 x hx j hpending
      exact mem_firstIds.mpr ⟨hx1.1,by omega⟩
    have hcount := (List.subperm_of_subset hnodup hbelow).length_le
    rw [hlen, length_firstIds] at hcount
    omega
  have hsubperm := List.subperm_of_subset (nodup_firstIds numMessages) hall
  exact (hsubperm.perm_of_length_le (by simp [hlen])).symm

/-- A complete report leaves no overwritten message up to `M`, as ids do not repeat. -/
theorem spared_of_complete (h : exec (step kNumRelays numMessages) init ls = some s)
    (hc : Complete numMessages s) :
    ∀ m ∈ s.overwritten, (numMessages : ℤ) < m.timing.msgid := by
  intro m hm
  by_contra hle
  have hperm := exec_ids_perm h
  have hmem : m.timing.msgid ∈ s.overwritten.map (fun m => m.timing.msgid) :=
    List.mem_map_of_mem hm
  have hid := mem_firstIds.mp (hperm.subset (List.mem_append_right _ hmem))
  have hsampled : m.timing.msgid ∈ sampledIds s :=
    hc.mem_iff.mpr (mem_firstIds.mpr ⟨hid.1,by omega⟩)
  have hnodup := hperm.nodup_iff.mpr (nodup_firstIds _)
  exact (List.nodup_append.mp hnodup).2.2 _ (List.mem_append_left _ hsampled) _ hmem rfl

/-- A printed report is over the sink's samples, and these are of the messages `1`, …, `M`
exactly when no step of the run overwrote one of them. -/
theorem report_complete_iff (kNumRelays : ℕ) {numMessages : ℕ} (hpos : 0 < numMessages)
    {ls : List Label} {s : State} (h : exec (step kNumRelays numMessages) init ls = some s)
    (hreport : s.reports ≠ []) :
    (∃ r, s.reports = [r] ∧ r.array.Perm
      (s.sampled.map (fun p => nanosecPerHop kNumRelays p.2 p.1.timing.nanosec))) ∧
    (Complete numMessages s ↔
      StepsMeet (SparesEarly kNumRelays numMessages) (step kNumRelays numMessages) init ls) := by
  have hcount := exec_sinkCount hpos h
  have hexited : s.exited = true := by
    by_contra he
    exact hreport (hcount.running (by simpa using he)).1
  obtain ⟨_,hfull,r,hr,hperm⟩ := hcount.stopped hexited
  refine ⟨⟨r,hr,(exec_sinkLog h).data ▸ hperm⟩,?_⟩
  rw [← exec_overwritten h]
  exact ⟨spared_of_complete h,complete_of_spared h hfull⟩

theorem report_complete_iff_oneMessage :
    ∃ s, exec (step 1 1) init oneMessage = some s ∧
      (∃ r, s.reports = [r] ∧ r.array.Perm
        (s.sampled.map (fun p => nanosecPerHop 1 p.2 p.1.timing.nanosec))) ∧
      (Complete 1 s ↔ StepsMeet (SparesEarly 1 1) (step 1 1) init oneMessage) := by
  have hrun : (exec (step 1 1) init oneMessage).map State.reports = some [⟨[10],0,0⟩] := by
    simp [oneMessage, step, init, relayAt, relays_eq, State.push, State.deliver,
      PnodeRelay.publisher, PnodeRelay.subscriber, sinkTopic, State.listenSink, nanosecPerHop,
      sourceTiming, PnodeRelay.listen, topic_zero, printStats]
  obtain ⟨s,hs,hreports⟩ := Option.map_eq_some_iff.mp hrun
  exact ⟨s,hs,report_complete_iff 1 (by decide) hs (by simp [hreports])⟩

end RelayBench.Pnode
