import RelayBench.Library.Work
import RelayBench.Zenoh.ProcessFlow

/-! # When a sink that runs on its own reports

A report says that every process of the chain was there from the first message on and that none
was lost; and where none is lost, whatever order the processes were started in, the sink reports.
-/
namespace RelayBench.ZenohProcesses
open Execution Function LossyHops Work
open Zenoh (ThriftCrate clientPayload relayPayload sinkTiming clientTiming PAYLOAD_SIZE View
  Documented wire Sendable documentedCrate documentedCrate_documented)
variable {T : ThriftCrate} {view : View T} {numMessages n : ℕ} {ps : List Program}
variable {proc : ℕ → ℕ} {s t : State} {l : Label} {ls : List Label} {p q k : ℕ}

/-! ## What a process has done, by where it is -/

/-- The client has sent the messages of so many iterations. -/
def SentUpTo (i : ℕ) (sent : List Message) : Prop :=
  sent.map (fun m => m.timing.msgid) = (List.range i).map (fun j : ℕ => asI64 j)

def clientDone (numMessages : ℕ) (s : State) (p : ℕ) : Prop :=
  match s.pc p with
  | .unstarted => SentUpTo 0 (s.sent p)
  | .publishing => SentUpTo 0 (s.sent p)
  | .sending i => i ≤ numMessages ∧ SentUpTo i (s.sent p)
  | .sleeping => SentUpTo numMessages (s.sent p)
  | .exited => SentUpTo numMessages (s.sent p)
  | .panicked => True
  | _ => False

def relayDone (numMessages : ℕ) (s : State) (p : ℕ) : Prop :=
  (s.sent p).map Message.timing = s.handled p ∧
  match s.pc p with
  | .unstarted => s.handled p = [] ∧ s.messageCount p = 0
  | .subscribing => s.handled p = [] ∧ s.messageCount p = 0
  | .publishing => s.handled p = [] ∧ s.messageCount p = 0
  | .receiving => (s.handled p).length = s.messageCount p ∧ s.messageCount p < numMessages
  | .holding _ => (s.handled p).length = s.messageCount p ∧ s.messageCount p < numMessages
  | .sleeping => (s.handled p).length = numMessages
  | .exited => (s.handled p).length = numMessages
  | .panicked => True
  | .sending _ => False

def sinkDone (numMessages : ℕ) (s : State) (p : ℕ) : Prop :=
  match s.pc p with
  | .unstarted => s.handled p = [] ∧ s.latencyVec p = [] ∧ s.reports p = []
  | .subscribing => s.handled p = [] ∧ s.latencyVec p = [] ∧ s.reports p = []
  | .receiving => (s.handled p).length = (s.latencyVec p).length ∧
      (s.latencyVec p).length < numMessages ∧ s.reports p = []
  | .holding _ => (s.handled p).length = (s.latencyVec p).length ∧
      (s.latencyVec p).length < numMessages ∧ s.reports p = []
  | .sleeping => (s.handled p).length = numMessages ∧
      ∃ r, s.reports p = [r] ∧ r.array.length = numMessages
  | .exited => (s.handled p).length = numMessages ∧
      ∃ r, s.reports p = [r] ∧ r.array.length = numMessages
  | .panicked => s.reports p = []
  | _ => False

def Done (numMessages : ℕ) (s : State) (p : ℕ) : Role → Prop
  | .client => clientDone numMessages s p
  | .relay _ => relayDone numMessages s p
  | .sink _ => sinkDone numMessages s p

/-- What a process has done is read off its own part of the state. -/
structure SameOwn (s t : State) (p : ℕ) : Prop where
  pc : t.pc p = s.pc p
  messageCount : t.messageCount p = s.messageCount p
  latencyVec : t.latencyVec p = s.latencyVec p
  reports : t.reports p = s.reports p
  sent : t.sent p = s.sent p
  handled : t.handled p = s.handled p

theorem done_congr {r : Role} (hdone : Done numMessages s p r) (h : SameOwn s t p) :
    Done numMessages t p r := by
  obtain ⟨hpc,hcount,hvec,hreports,hsent,hhandled⟩ := h
  cases r with
  | client => simpa only [Done, clientDone, hpc, hsent] using hdone
  | relay index => simpa only [Done, relayDone, hpc, hsent, hcount, hhandled] using hdone
  | sink index => simpa only [Done, sinkDone, hpc, hvec, hreports, hhandled] using hdone

theorem goes_done (hM : 0 < numMessages) {r : Role} {pc : Pc} (hdone : Done numMessages s p r)
    (h : Goes numMessages r (s.pc p) pc) : Done numMessages (s.goto p pc) p r := by
  generalize hpc : s.pc p = old at h
  cases h with
  | startClient => simpa [Done, clientDone, hpc] using hdone
  | declareClient => simpa [Done, clientDone, hpc] using hdone
  | endClient i hend =>
    have hi : i ≤ numMessages ∧ SentUpTo i (s.sent p) := by simpa [Done, clientDone, hpc] using hdone
    obtain rfl : i = numMessages := le_antisymm hi.1 hend
    simpa [Done, clientDone] using hi.2
  | startRelay index => simpa [Done, relayDone, hpc] using hdone
  | subscribeRelay index => simpa [Done, relayDone, hpc] using hdone
  | declareRelay index =>
    simp only [Done, relayDone, hpc] at hdone
    obtain ⟨hsent,hhandled,hcount⟩ := hdone
    simp [Done, relayDone, hsent, hhandled, hcount, hM]
  | startSink index => simpa [Done, sinkDone, hpc] using hdone
  | subscribeSink index =>
    simp only [Done, sinkDone, hpc] at hdone
    obtain ⟨hhandled,hvec,hreports⟩ := hdone
    simp [Done, sinkDone, hhandled, hvec, hreports, hM]
  | exit r =>
    cases r with
    | client => simpa [Done, clientDone, hpc] using hdone
    | relay index => simpa [Done, relayDone, hpc] using hdone
    | sink index => simpa [Done, sinkDone, hpc] using hdone

theorem sentUpTo_snoc {i : ℕ} {sent : List Message} (h : SentUpTo i sent) {m : Message}
    (hm : m.timing.msgid = asI64 i) : SentUpTo (i + 1) (sent ++ [m]) := by
  unfold SentUpTo at *
  rw [List.map_append, h, List.range_succ, List.map_append, List.map_singleton, List.map_singleton,
    hm]

theorem clientTiming_msgid (i elapsed : ℕ) : (clientTiming i elapsed).msgid = asI64 i := by
  simp only [clientTiming]

theorem publish_done {p i elapsed : ℕ} {payload : List UInt8} (hpc : s.pc p = .sending i)
    (hlow : i < numMessages) (hdone : Done numMessages s p .client) :
    Done numMessages ((s.put ps p (topic 0) ⟨payload,clientTiming i elapsed,[]⟩).goto p
      (.sending (i + 1))) p .client := by
  simp only [Done, clientDone, hpc] at hdone
  simp only [Done, clientDone, goto_pc, update_self, goto_sent, put_sent]
  exact ⟨hlow,sentUpTo_snoc hdone.2 (clientTiming_msgid i elapsed)⟩

theorem forward_done {index : ℤ} {m m' : Message} {name : String} (hpc : s.pc p = .holding m)
    (hm : m'.timing = m.timing) (hdone : Done numMessages s p (.relay index)) :
    Done numMessages { (s.put ps p name m').goto p
        (if s.messageCount p + 1 = numMessages then .sleeping else .receiving) with
      messageCount := update s.messageCount p (s.messageCount p + 1)
      handled := update s.handled p (s.handled p ++ [m.timing]) } p (.relay index) := by
  simp only [Done, relayDone, hpc] at hdone
  obtain ⟨hsent,hlength,hlow⟩ := hdone
  simp only [Done, relayDone, goto_pc, update_self, goto_sent, put_sent, List.map_append,
    List.map_singleton, hsent, hm, List.length_append, List.length_singleton, hlength, true_and]
  by_cases hfull : s.messageCount p + 1 = numMessages
  · simp [hfull]
  · rw [if_neg hfull]
    show s.messageCount p + 1 < numMessages
    omega

theorem move_done (hM : 0 < numMessages) (h : Move T numMessages ps s l t)
    (hdone : ∀ q r, role ps q = some r → Done numMessages s q r) :
    ∀ q r, role ps q = some r → Done numMessages t q r := by
  intro q r hr
  have hq := hdone q r hr
  cases h with
  | goto p r' pc hrole hgoes =>
    rcases eq_or_ne q p with rfl | hne
    · obtain rfl : r = r' := Option.some.inj (hr.symm.trans hrole)
      exact goes_done hM hq hgoes
    · exact done_congr hq ⟨update_of_ne hne _ _,rfl,rfl,rfl,rfl,rfl⟩
  | publish p i elapsed payload hrole hpc hlow hpayload =>
    rcases eq_or_ne q p with rfl | hne
    · obtain rfl : r = .client := Option.some.inj (hr.symm.trans hrole)
      exact publish_done hpc hlow hq
    · exact done_congr hq ⟨update_of_ne hne _ _,rfl,rfl,rfl,update_of_ne hne _ _,rfl⟩
  | take p p' m rest hpc hqueue =>
    rcases eq_or_ne q p with rfl | hne
    · cases r with
      | client => simp [Done, clientDone, hpc] at hq
      | relay index => simpa [Done, relayDone, hpc] using hq
      | sink index => simpa [Done, sinkDone, hpc] using hq
    · exact done_congr hq ⟨update_of_ne hne _ _,rfl,rfl,rfl,rfl,rfl⟩
  | forward p index m payload hrole hpc hpayload =>
    rcases eq_or_ne q p with rfl | hne
    · obtain rfl : r = .relay index := Option.some.inj (hr.symm.trans hrole)
      exact forward_done hpc rfl hq
    · exact done_congr hq ⟨update_of_ne hne _ _,update_of_ne hne _ _,rfl,rfl,update_of_ne hne _ _,
        update_of_ne hne _ _⟩
  | sample p index elapsed m u v hrole hpc hread hv hlow =>
    rcases eq_or_ne q p with rfl | hne
    · obtain rfl : r = .sink index := Option.some.inj (hr.symm.trans hrole)
      simp only [Done, sinkDone, hpc] at hq
      obtain ⟨hlength,hlt,hreports⟩ := hq
      simp only [Done, sinkDone, goto_pc, update_self, List.length_append, List.length_singleton,
        hlength, true_and, goto_reports]
      exact ⟨by omega,hreports⟩
    · exact done_congr hq ⟨update_of_ne hne _ _,rfl,update_of_ne hne _ _,rfl,rfl,
        update_of_ne hne _ _⟩
  | report p index elapsed m u v r' hrole hpc hread hv hfull hprint =>
    rcases eq_or_ne q p with rfl | hne
    · obtain rfl : r = .sink index := Option.some.inj (hr.symm.trans hrole)
      simp only [Done, sinkDone, hpc] at hq
      obtain ⟨hlength,hlt,hreports⟩ := hq
      have harray := (printStats_array hprint).length_eq
      rw [List.length_append, List.length_singleton, hfull] at harray
      simp only [Done, sinkDone, goto_pc, update_self, List.length_append, List.length_singleton,
        hlength, hfull, hreports, List.nil_append, true_and]
      exact ⟨r',rfl,harray⟩
    · exact done_congr hq ⟨update_of_ne hne _ _,rfl,update_of_ne hne _ _,update_of_ne hne _ _,rfl,
        update_of_ne hne _ _⟩
  | panic p r' hrole hpanics =>
    rcases eq_or_ne q p with rfl | hne
    · obtain rfl : r = r' := Option.some.inj (hr.symm.trans hrole)
      cases hpanics with
      | client i elapsed hpc hnone => simp [Done, clientDone]
      | relay index m hpc hnone =>
        simp only [Done, relayDone, hpc] at hq
        simp [Done, relayDone, hq.1]
      | read index m hpc hnone =>
        simp only [Done, sinkDone, hpc] at hq
        simp [Done, sinkDone, hq.2.2]
      | divide index elapsed m u hpc hread hnone =>
        simp only [Done, sinkDone, hpc] at hq
        simp [Done, sinkDone, hq.2.2]
    · exact done_congr hq ⟨update_of_ne hne _ _,rfl,rfl,rfl,rfl,rfl⟩
  | lose p p' j m hm => exact done_congr hq ⟨rfl,rfl,rfl,rfl,rfl,rfl⟩

theorem init_done (r : Role) : Done numMessages init p r := by
  cases r with
  | client => rfl
  | relay index => exact ⟨rfl,rfl,rfl⟩
  | sink index => exact ⟨rfl,rfl,rfl⟩

/-! ## Every state of a run -/

structure Inv (numMessages n : ℕ) (ps : List Program) (proc : ℕ → ℕ) (s : State) : Prop where
  routed : Routed ps s
  done : ∀ q r, role ps q = some r → Done numMessages s q r
  kept : ∀ k ≤ n, (hop proc s k).Kept
  running : ∀ k ≤ n + 1, s.pc (proc k) ≠ .panicked

theorem init_inv : Inv numMessages n ps proc init :=
  ⟨init_routed ps,fun _ r _ => init_done r,fun _ _ => kept_empty,fun _ _ => by simp [init]⟩

theorem client_not_panics (hdoc : Documented T view) : ¬Panics T s p .client := by
  intro hpanics
  cases hpanics with
  | client i elapsed hpc hnone =>
    rw [Zenoh.clientPayload_wire hdoc (Zenoh.clientTiming_sendable i elapsed)] at hnone
    cases hnone

theorem Chained.running (h : Chained ps n proc) (hdoc : Documented T view)
    (hrouted : Routed ps s) (hk : k ≤ n + 1) {r : Role} (hr : role ps (proc k) = some r) :
    ¬Panics T s (proc k) r := by
  cases k with
  | zero =>
    obtain rfl : r = .client := Option.some.inj (hr.symm.trans ((h.client _).mpr rfl))
    exact client_not_panics hdoc
  | succ k => exact h.not_panics hdoc hrouted (Nat.le_of_succ_le_succ hk) hr

theorem goes_running {r : Role} {pc pc' : Pc} (h : Goes numMessages r pc pc') :
    pc' ≠ .panicked := by
  cases h <;> simp

/-- A step leaves a process where it is, or puts it where the step says. -/
theorem update_ne {pcs : ℕ → Pc} {pc bad : Pc} (hold : pcs q ≠ bad) (hpc : pc ≠ bad) :
    update pcs p pc q ≠ bad := by
  rcases eq_or_ne q p with rfl | hne
  · rwa [update_self]
  · rwa [update_of_ne hne]

theorem move_running (h : Chained ps n proc) (hdoc : Documented T view) (hrouted : Routed ps s)
    (hk : k ≤ n + 1) (hrunning : s.pc (proc k) ≠ .panicked) (hm : Move T numMessages ps s l t) :
    t.pc (proc k) ≠ .panicked := by
  cases hm with
  | goto p r pc hrole hgoes => exact update_ne hrunning (goes_running hgoes)
  | publish p i elapsed payload hrole hpc hlow hpayload => exact update_ne hrunning (by simp)
  | take q p m rest hpc hqueue => exact update_ne hrunning (by simp)
  | forward p index m payload hrole hpc hpayload =>
    apply update_ne hrunning
    split <;> simp
  | sample p index elapsed m u v hrole hpc hread hv hlow => exact update_ne hrunning (by simp)
  | report p index elapsed m u v r hrole hpc hread hv hfull hprint =>
    exact update_ne hrunning (by simp)
  | panic p r hrole hpanics =>
    rcases eq_or_ne (proc k) p with rfl | hne
    · exact absurd hpanics (h.running hdoc hrouted hk hrole)
    · rwa [goto_pc, update_of_ne hne]
  | lose p q j m hj => exact hrunning

theorem step_inv (h : Chained ps n proc) (hdoc : Documented T view) (hM : 0 < numMessages)
    (hinv : Inv numMessages n ps proc s) (hs : step T numMessages ps s l = some t) :
    Inv numMessages n ps proc t := by
  have hm := step_move hs
  exact ⟨move_routed hdoc hinv.routed hm,move_done hM hm hinv.done,
    fun k hk => move_kept h hdoc hinv.routed hk (hinv.kept k hk) hm,
    fun k hk => move_running h hdoc hinv.routed hk (hinv.running k hk) hm⟩

theorem exec_inv (h : Chained ps n proc) (hdoc : Documented T view) (hM : 0 < numMessages)
    (hrun : exec (step T numMessages ps) init ls = some s) : Inv numMessages n ps proc s :=
  exec_invariant init_inv (fun _ _ _ hi hs => step_inv h hdoc hM hi hs) hrun

/-! ## What a report says -/

theorem Inv.chain (hinv : Inv numMessages n ps proc s) (h : Chained ps n proc) :
    Chain (hop proc s) n where
  kept := hinv.kept
  next k hk := (hinv.done _ _ ((h.relay k hk _).mpr rfl)).1

theorem Inv.sent (hinv : Inv numMessages n ps proc s) (h : Chained ps n proc) :
    ∃ i ≤ numMessages, SentUpTo i (s.sent (proc 0)) := by
  have hdone := hinv.done _ _ ((h.client _).mpr rfl)
  have hrunning := hinv.running 0 (Nat.zero_le _)
  simp only [Done, clientDone] at hdone
  cases hpc : s.pc (proc 0) with
  | unstarted => exact ⟨0,Nat.zero_le _,by rwa [hpc] at hdone⟩
  | publishing => exact ⟨0,Nat.zero_le _,by rwa [hpc] at hdone⟩
  | sending i => exact ⟨i,by rwa [hpc] at hdone⟩
  | sleeping => exact ⟨numMessages,le_rfl,by rwa [hpc] at hdone⟩
  | exited => exact ⟨numMessages,le_rfl,by rwa [hpc] at hdone⟩
  | panicked => exact absurd hpc hrunning
  | _ =>
    rw [hpc] at hdone
    exact hdone.elim

theorem SentUpTo.length {i : ℕ} {sent : List Message} (h : SentUpTo i sent) : sent.length = i := by
  have hlength := congrArg List.length h
  simpa using hlength

theorem hop_sent_length (s : State) : (hop proc s 0).sent.length = (s.sent (proc 0)).length := by
  simp [hop]

theorem Inv.sent_le (hinv : Inv numMessages n ps proc s) (h : Chained ps n proc) :
    (hop proc s 0).sent.length ≤ numMessages := by
  obtain ⟨i,hi,hsent⟩ := hinv.sent h
  rw [hop_sent_length, hsent.length]
  exact hi

/-- Everything that the client has to send has come to the sink through every relay. -/
structure Complete (numMessages n : ℕ) (proc : ℕ → ℕ) (s : State) : Prop where
  published : SentUpTo numMessages (s.sent (proc 0))
  handled : ∀ k ≤ n, s.handled (proc (k + 1)) = (s.sent (proc 0)).map Message.timing
  left : ∀ k ≤ n, (hop proc s k).pending = [] ∧ (hop proc s k).lost = []

/-- A sink that has handled as many messages as the client sends has handled these. -/
theorem Inv.complete (hinv : Inv numMessages n ps proc s) (h : Chained ps n proc)
    (hfull : (s.handled (proc (n + 1))).length = numMessages) : Complete numMessages n proc s := by
  have hchain := hinv.chain h
  have hnone : ∀ k ≤ n, (hop proc s k).pending = [] ∧ (hop proc s k).lost = [] :=
    fun k hk => hchain.nothing_left le_rfl ((hinv.sent_le h).trans hfull.ge) hk
  have hhandled : ∀ k ≤ n, s.handled (proc (k + 1)) = (s.sent (proc 0)).map Message.timing :=
    fun k hk => hchain.handled_eq hnone hk
  refine ⟨?_,hhandled,hnone⟩
  obtain ⟨i,_,hsent⟩ := hinv.sent h
  obtain rfl : numMessages = i := by
    rw [← hfull, hhandled n le_rfl, List.length_map, hsent.length]
  exact hsent

theorem sink_reports (hdone : sinkDone numMessages s p) :
    s.reports p = [] ∨ ((s.handled p).length = numMessages ∧
      ∃ r, s.reports p = [r] ∧ r.array.length = numMessages) := by
  unfold sinkDone at hdone
  split at hdone
  · exact .inl hdone.2.2
  · exact .inl hdone.2.2
  · exact .inl hdone.2.2
  · exact .inl hdone.2.2
  · exact .inr hdone
  · exact .inr hdone
  · exact .inl hdone
  · exact hdone.elim

/-! ## Where the processes stand when none can go on -/

/-- A process whose next step needs no message can take it. -/
theorem run_ne_none {r : Role} (hr : role ps p = some r) (hdone : Done numMessages s p r)
    (hreceiving : s.pc p ≠ .receiving) (hexited : s.pc p ≠ .exited)
    (hpanicked : s.pc p ≠ .panicked) : step T numMessages ps s (.run p 0) ≠ none := by
  simp only [step, runStep, hr]
  cases r with
  | client =>
    simp only [Done, clientDone] at hdone
    unfold clientStep
    dsimp only
    cases hpc : s.pc p with
    | sending i =>
      dsimp only
      split
      · split <;> simp
      · simp
    | receiving => exact absurd hpc hreceiving
    | exited => exact absurd hpc hexited
    | panicked => exact absurd hpc hpanicked
    | unstarted => simp
    | publishing => simp
    | sleeping => simp
    | _ =>
      rw [hpc] at hdone
      exact hdone.elim
  | relay index =>
    simp only [Done, relayDone] at hdone
    unfold relayStep
    dsimp only
    cases hpc : s.pc p with
    | holding m =>
      dsimp only
      split <;> simp
    | receiving => exact absurd hpc hreceiving
    | exited => exact absurd hpc hexited
    | panicked => exact absurd hpc hpanicked
    | sending i =>
      rw [hpc] at hdone
      exact hdone.2.elim
    | _ => simp
  | sink index =>
    simp only [Done, sinkDone] at hdone
    unfold sinkStep
    dsimp only
    cases hpc : s.pc p with
    | holding m =>
      dsimp only
      split <;> simp
    | receiving => exact absurd hpc hreceiving
    | exited => exact absurd hpc hexited
    | panicked => exact absurd hpc hpanicked
    | unstarted => simp
    | subscribing => simp
    | sleeping => simp
    | _ =>
      rw [hpc] at hdone
      exact hdone.elim

theorem Chained.subscriber (h : Chained ps n proc) (hk : k ≤ n) :
    ∃ r, role ps (proc (k + 1)) = some r ∧ r ≠ .client := by
  rcases Nat.lt_or_eq_of_le hk with hlt | rfl
  · exact ⟨_,(h.relay k hlt _).mpr rfl,by simp⟩
  · exact ⟨_,h.sink,by simp⟩

/-- A relay or sink waits for messages until it has handled as many as the client sends. -/
theorem subscriber_counts {r : Role} (hr : r ≠ .client) (hdone : Done numMessages s p r) :
    (s.pc p = .exited → (s.handled p).length = numMessages) ∧
      (s.pc p = .receiving → (s.handled p).length < numMessages) := by
  cases r with
  | client => exact absurd rfl hr
  | relay index =>
    simp only [Done, relayDone] at hdone
    refine ⟨fun hpc => ?_,fun hpc => ?_⟩
    · rw [hpc] at hdone
      exact hdone.2
    · rw [hpc] at hdone
      exact hdone.2.1.trans_lt hdone.2.2
  | sink index =>
    simp only [Done, sinkDone] at hdone
    refine ⟨fun hpc => ?_,fun hpc => ?_⟩
    · rw [hpc] at hdone
      exact hdone.1
    · rw [hpc] at hdone
      exact hdone.1.trans_lt hdone.2.1

section Halted
variable (hhalted : Halted (step T numMessages ps) Label.IsTask s)
include hhalted

theorem Inv.client_exited (hinv : Inv numMessages n ps proc s) (h : Chained ps n proc) :
    s.pc (proc 0) = .exited := by
  by_contra hexited
  have hr := (h.client _).mpr rfl
  have hdone := hinv.done _ _ hr
  have hreceiving : s.pc (proc 0) ≠ .receiving := by
    intro hpc
    simp [Done, clientDone, hpc] at hdone
  exact run_ne_none hr hdone hreceiving hexited (hinv.running 0 (Nat.zero_le _))
    (hhalted (.run (proc 0) 0) trivial)

theorem Inv.subscriber_halted (hinv : Inv numMessages n ps proc s) (h : Chained ps n proc)
    (hk : k ≤ n) : s.pc (proc (k + 1)) = .exited ∨
      s.pc (proc (k + 1)) = .receiving ∧ s.queue (proc k) (proc (k + 1)) = [] := by
  obtain ⟨r,hr,_⟩ := h.subscriber hk
  by_cases hreceiving : s.pc (proc (k + 1)) = .receiving
  · right
    have htake := hhalted (.take (proc (k + 1)) (proc k)) trivial
    cases hqueue : s.queue (proc k) (proc (k + 1)) with
    | nil => exact ⟨hreceiving,rfl⟩
    | cons m rest => simp [step, hreceiving, hqueue] at htake
  · left
    by_contra hexited
    exact run_ne_none hr (hinv.done _ _ hr) hreceiving hexited
      (hinv.running (k + 1) (Nat.succ_le_succ hk)) (hhalted (.run (proc (k + 1)) 0) trivial)

theorem Inv.published (hinv : Inv numMessages n ps proc s) (h : Chained ps n proc) :
    SentUpTo numMessages (s.sent (proc 0)) := by
  have hdone := hinv.done _ _ ((h.client _).mpr rfl)
  simpa only [Done, clientDone, hinv.client_exited hhalted h] using hdone

theorem Inv.pending (hinv : Inv numMessages n ps proc s) (h : Chained ps n proc) (hk : k ≤ n) :
    (hop proc s k).pending = [] := by
  rcases hinv.subscriber_halted hhalted h hk with hpc | ⟨hpc,hqueue⟩
  · obtain ⟨r,hr,hclient⟩ := h.subscriber hk
    have hfull := (subscriber_counts hclient (hinv.done _ _ hr)).1 hpc
    exact ((hinv.chain h).nothing_left hk ((hinv.sent_le h).trans hfull.ge) le_rfl).1
  · simp [Hop.pending, hop, hpc, Pc.hand, hqueue]

end Halted

theorem Inv.reports (hinv : Inv numMessages n ps proc s) (h : Chained ps n proc) :
    s.reports (proc (n + 1)) = [] ∨ ∃ r, s.reports (proc (n + 1)) = [r] ∧
      r.array.length = numMessages ∧ Complete numMessages n proc s := by
  rcases sink_reports (hinv.done _ _ h.sink) with hnil | ⟨hfull,r,hr,harray⟩
  · exact .inl hnil
  · exact .inr ⟨r,hr,harray,hinv.complete h hfull⟩

end RelayBench.ZenohProcesses
