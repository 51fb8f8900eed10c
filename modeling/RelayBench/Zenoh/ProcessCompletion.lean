import RelayBench.Zenoh.ProcessReports

/-! # From the start of the processes to the report

No process goes on for ever. Once the relays and the sink have subscribed, as they have when
`run_mp_bench.sh` starts the client, nothing but a loss on the way keeps the sink from reporting.
-/
namespace RelayBench.ZenohProcesses
open Execution Function LossyHops Work
open Zenoh (ThriftCrate View Documented documentedCrate documentedCrate_documented)
variable {T : ThriftCrate} {view : View T} {numMessages n : ℕ} {ps : List Program}
variable {proc : ℕ → ℕ} {s t : State} {l : Label} {ls : List Label} {p q k : ℕ}

/-! ## The steps that are left -/

/-- What a relay or sink still does, with so many messages handled. -/
def Pc.messagesLeft (numMessages count : ℕ) : Pc → ℕ
  | .receiving => 2 * (numMessages - count) + 1
  | .holding _ => 2 * (numMessages - count)
  | .sleeping => 1
  | .panicked => 2 * (numMessages - count) - 1
  | _ => 0

/-- The steps that a process has left, also those that a panic kept it from. -/
def stepsLeft (numMessages : ℕ) (s : State) (p : ℕ) : Role → ℕ
  | .client =>
    match s.pc p with
    | .unstarted => numMessages + 4
    | .publishing => numMessages + 3
    | .sending i => numMessages - i + 2
    | .sleeping => 1
    | _ => 0
  | .relay _ =>
    match s.pc p with
    | .unstarted => 2 * numMessages + 4
    | .subscribing => 2 * numMessages + 3
    | .publishing => 2 * numMessages + 2
    | pc => pc.messagesLeft numMessages (s.messageCount p)
  | .sink _ =>
    match s.pc p with
    | .unstarted => 2 * numMessages + 3
    | .subscribing => 2 * numMessages + 2
    | pc => pc.messagesLeft numMessages (s.latencyVec p).length

def processLeft (numMessages : ℕ) (ps : List Program) (s : State) (p : ℕ) : ℕ :=
  match role ps p with
  | none => 0
  | some r => stepsLeft numMessages s p r

def allLeft (numMessages : ℕ) (ps : List Program) (s : State) : ℕ :=
  ∑ p ∈ Finset.range ps.length, processLeft numMessages ps s p

theorem role_lt {r : Role} (hr : role ps p = some r) : p < ps.length := by
  by_contra hge
  rw [role, List.getElem?_eq_none (not_lt.mp hge)] at hr
  cases hr

theorem stepsLeft_congr (h : SameOwn s t p) (r : Role) :
    stepsLeft numMessages t p r = stepsLeft numMessages s p r := by
  cases r <;> simp only [stepsLeft, h.pc, h.messageCount, h.latencyVec]

/-- One process takes a step, the others are left as they were. -/
theorem allLeft_step {r : Role} (hr : role ps p = some r) (hother : ∀ q ≠ p, SameOwn s t q)
    (hstep : stepsLeft numMessages t p r + 1 = stepsLeft numMessages s p r) :
    allLeft numMessages ps t + 1 = allLeft numMessages ps s := by
  have hsame : ∀ q ≠ p, processLeft numMessages ps t q = processLeft numMessages ps s q := by
    intro q hq
    unfold processLeft
    cases role ps q with
    | none => rfl
    | some r' => exact stepsLeft_congr (hother q hq) r'
  have hreplace := sum_replace (Finset.mem_range.mpr (role_lt hr)) hsame
  simp only [processLeft, hr] at hreplace
  unfold allLeft processLeft
  omega

/-- What the steps that are left depend on. -/
structure Working (numMessages : ℕ) (ps : List Program) (s : State) : Prop where
  done : ∀ q r, role ps q = some r → Done numMessages s q r
  refused : ∀ q, role ps q = none → s.pc q = .unstarted

theorem goes_left {r : Role} {pc : Pc} (hdone : Done numMessages s p r)
    (h : Goes numMessages r (s.pc p) pc) :
    stepsLeft numMessages (s.goto p pc) p r + 1 = stepsLeft numMessages s p r := by
  generalize hpc : s.pc p = old at h
  cases h with
  | startClient => simp [stepsLeft, hpc]
  | declareClient => simp [stepsLeft, hpc]
  | endClient i hend => simp [stepsLeft, hpc, Nat.sub_eq_zero_of_le hend]
  | startRelay index => simp [stepsLeft, hpc]
  | subscribeRelay index => simp [stepsLeft, hpc]
  | declareRelay index =>
    simp only [Done, relayDone, hpc] at hdone
    simp [stepsLeft, hpc, Pc.messagesLeft, hdone.2.2]
  | startSink index => simp [stepsLeft, hpc]
  | subscribeSink index =>
    simp only [Done, sinkDone, hpc] at hdone
    simp [stepsLeft, hpc, Pc.messagesLeft, hdone.2.1]
  | exit r => cases r <;> simp [stepsLeft, hpc, Pc.messagesLeft]

theorem panics_left {r : Role} (hdoc : Documented T view) (hdone : Done numMessages s p r)
    (h : Panics T s p r) :
    stepsLeft numMessages (s.goto p .panicked) p r + 1 = stepsLeft numMessages s p r := by
  cases h with
  | client i elapsed hpc hnone => exact absurd (.client i elapsed hpc hnone) (client_not_panics hdoc)
  | relay index m hpc hnone =>
    simp only [Done, relayDone, hpc] at hdone
    simp only [stepsLeft, goto_pc, update_self, hpc, Pc.messagesLeft, goto_messageCount]
    omega
  | read index m hpc hnone =>
    simp only [Done, sinkDone, hpc] at hdone
    simp only [stepsLeft, goto_pc, update_self, hpc, Pc.messagesLeft, goto_latencyVec]
    omega
  | divide index elapsed m u hpc hread hnone =>
    simp only [Done, sinkDone, hpc] at hdone
    simp only [stepsLeft, goto_pc, update_self, hpc, Pc.messagesLeft, goto_latencyVec]
    omega

theorem Working.receiver (h : Working numMessages ps s) (hpc : s.pc p = .receiving) :
    ∃ r, role ps p = some r ∧ r ≠ .client := by
  obtain ⟨r,hr⟩ : ∃ r, role ps p = some r := by
    by_contra hnone
    have hunstarted := h.refused p (Option.eq_none_iff_forall_ne_some.mpr (not_exists.mp hnone))
    rw [hpc] at hunstarted
    cases hunstarted
  refine ⟨r,hr,?_⟩
  rintro rfl
  have hdone := h.done p _ hr
  simp [Done, clientDone, hpc] at hdone

/-- A step of the processes is one of those that are left; a loss is none of them. -/
def Label.steps : Label → ℕ
  | .lose _ _ _ => 0
  | _ => 1

theorem move_left (hdoc : Documented T view) (hw : Working numMessages ps s)
    (hm : Move T numMessages ps s l t) :
    allLeft numMessages ps t + l.steps = allLeft numMessages ps s := by
  cases hm with
  | goto p r pc hrole hgoes =>
    exact allLeft_step hrole (fun q hq => ⟨update_of_ne hq _ _,rfl,rfl,rfl,rfl,rfl⟩)
      (goes_left (hw.done p r hrole) hgoes)
  | publish p i elapsed payload hrole hpc hlow hpayload =>
    refine allLeft_step hrole (fun q hq => ⟨update_of_ne hq _ _,rfl,rfl,rfl,update_of_ne hq _ _,rfl⟩) ?_
    simp only [stepsLeft, goto_pc, update_self, hpc]
    omega
  | take q p m rest hpc hqueue =>
    obtain ⟨r,hr,hclient⟩ := hw.receiver hpc
    refine allLeft_step hr (fun q' hq => ⟨update_of_ne hq _ _,rfl,rfl,rfl,rfl,rfl⟩) ?_
    cases r with
    | client => exact absurd rfl hclient
    | relay index => simp [stepsLeft, hpc, Pc.messagesLeft]
    | sink index => simp [stepsLeft, hpc, Pc.messagesLeft]
  | forward p index m payload hrole hpc hpayload =>
    have hdone := hw.done p _ hrole
    simp only [Done, relayDone, hpc] at hdone
    obtain ⟨_,_,hlow⟩ := hdone
    refine allLeft_step hrole (fun q hq => ⟨update_of_ne hq _ _,update_of_ne hq _ _,rfl,rfl,
      update_of_ne hq _ _,update_of_ne hq _ _⟩) ?_
    simp only [stepsLeft, goto_pc, update_self, hpc, Pc.messagesLeft]
    by_cases hfull : s.messageCount p + 1 = numMessages
    · rw [if_pos hfull]
      show 1 + 1 = 2 * (numMessages - s.messageCount p)
      omega
    · rw [if_neg hfull]
      show 2 * (numMessages - (s.messageCount p + 1)) + 1 + 1 = 2 * (numMessages - s.messageCount p)
      omega
  | sample p index elapsed m u v hrole hpc hread hv hfull =>
    have hdone := hw.done p _ hrole
    simp only [Done, sinkDone, hpc] at hdone
    obtain ⟨_,hlow,_⟩ := hdone
    refine allLeft_step hrole (fun q hq => ⟨update_of_ne hq _ _,rfl,update_of_ne hq _ _,rfl,rfl,
      update_of_ne hq _ _⟩) ?_
    simp only [stepsLeft, goto_pc, update_self, hpc, Pc.messagesLeft, List.length_append,
      List.length_singleton]
    omega
  | report p index elapsed m u v r hrole hpc hread hv hfull hprint =>
    refine allLeft_step hrole (fun q hq => ⟨update_of_ne hq _ _,rfl,update_of_ne hq _ _,
      update_of_ne hq _ _,rfl,update_of_ne hq _ _⟩) ?_
    simp only [stepsLeft, goto_pc, update_self, hpc, Pc.messagesLeft]
    omega
  | panic p r hrole hpanics =>
    exact allLeft_step hrole (fun q hq => ⟨update_of_ne hq _ _,rfl,rfl,rfl,rfl,rfl⟩)
      (panics_left hdoc (hw.done p r hrole) hpanics)
  | lose p q j m hj => rfl

theorem move_refused (hw : Working numMessages ps s) (hm : Move T numMessages ps s l t) (q : ℕ)
    (hq : role ps q = none) : t.pc q = .unstarted := by
  have hold := hw.refused q hq
  have hother {p : ℕ} {r : Role} (hrole : role ps p = some r) (pc : Pc) :
      update s.pc p pc q = .unstarted := by
    have hne : q ≠ p := by
      rintro rfl
      rw [hq] at hrole
      cases hrole
    rwa [update_of_ne hne]
  cases hm with
  | goto p r pc hrole hgoes => exact hother hrole _
  | publish p i elapsed payload hrole hpc hlow hpayload => exact hother hrole _
  | take p p' m rest hpc hqueue =>
    obtain ⟨r,hr,_⟩ := hw.receiver hpc
    exact hother hr _
  | forward p index m payload hrole hpc hpayload => exact hother hrole _
  | sample p index elapsed m u v hrole hpc hread hv hfull => exact hother hrole _
  | report p index elapsed m u v r hrole hpc hread hv hfull hprint => exact hother hrole _
  | panic p r hrole hpanics => exact hother hrole _
  | lose p p' j m hj => exact hold

theorem balanced (hdoc : Documented T view) (hM : 0 < numMessages) (ps : List Program) :
    Balanced (step T numMessages ps) (Working numMessages ps) (allLeft numMessages ps)
      Label.steps (fun _ => 0) where
  inv _ _ _ hw hs :=
    ⟨move_done hM (step_move hs) hw.done,fun q hq => move_refused hw (step_move hs) q hq⟩
  balance _ _ _ hw hs := move_left hdoc hw (step_move hs)

theorem init_working (ps : List Program) : Working numMessages ps init :=
  ⟨fun _ r _ => init_done r,fun _ _ => rfl⟩

/-- The relays and the sink have subscribed, and no hop has lost a message. -/
structure Ready (n : ℕ) (proc : ℕ → ℕ) (s : State) : Prop where
  started : ∀ k ≤ n, s.pc (proc (k + 1)) ≠ .unstarted ∧ s.pc (proc (k + 1)) ≠ .subscribing
  lossless : ∀ k ≤ n, s.lost (proc k) (proc (k + 1)) = []

instance : DecidablePred Label.IsTask
  | .run _ _ => .isTrue trivial
  | .take _ _ => .isTrue trivial
  | .lose _ _ _ => .isFalse id

end RelayBench.ZenohProcesses
