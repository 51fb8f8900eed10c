import RelayBench.Library.Work
import RelayBench.Psrv.Pending

/-! # The service chain ends with its report unless a request is dropped

Every request makes the same work at every service, which a drop spares it, and the exit spares
the sink its last response. So no run goes on for ever, and where one ends tells what was dropped.
-/
namespace RelayBench.Psrv
open Execution Conservation Function Work
variable {kNumRelays numMessages : ℕ} {s t : State} {l : Label} {ls : List Label} {i : ℕ}

/-! ## The work of the requests -/

/-- The steps that a request to service `i` still makes. -/
def requestSteps (kNumRelays i : ℕ) : ℕ := 3 * (kNumRelays - i) + 3

def callbackSteps (kNumRelays i : ℕ) : Option Callback → ℕ
  | none => 0
  | some (.called _) => 3 * (kNumRelays - i) + 2
  | some (.returned _) => 1

/-- The steps that are left at the services. -/
def serviceSteps (kNumRelays : ℕ) (requests : String → List Timing)
    (callback : ℕ → Option Callback) : ℕ :=
  ∑ i ∈ Finset.range (kNumRelays + 1),
    ((requests (serviceName i)).length * requestSteps kNumRelays i +
      callbackSteps kNumRelays i (callback i))

/-- All steps that are left, with the response that the exit has prevented. -/
def State.left (kNumRelays numMessages : ℕ) (s : State) : ℕ :=
  (numMessages - s.next) * (requestSteps kNumRelays 0 + 1) +
    serviceSteps kNumRelays s.requests s.callback + s.exited.toNat

theorem serviceSteps_requests (requests : String → List Timing) (callback : ℕ → Option Callback)
    (hi : i ≤ kNumRelays) (rs : List Timing) :
    serviceSteps kNumRelays (update requests (serviceName i) rs) callback +
        (requests (serviceName i)).length * requestSteps kNumRelays i =
      serviceSteps kNumRelays requests callback + rs.length * requestSteps kNumRelays i := by
  have hreplace := @sum_replace _ _ (Finset.range (kNumRelays + 1))
    (fun j => (requests (serviceName j)).length * requestSteps kNumRelays j +
      callbackSteps kNumRelays j (callback j))
    (fun j => (update requests (serviceName i) rs (serviceName j)).length *
      requestSteps kNumRelays j + callbackSteps kNumRelays j (callback j)) i
    (Finset.mem_range.mpr (Nat.lt_succ_of_le hi))
    (fun j hj => by rw [update_of_ne (fun h => hj (serviceName_injective h))])
  simp only [update_self] at hreplace
  unfold serviceSteps
  omega

theorem serviceSteps_callback (requests : String → List Timing) (callback : ℕ → Option Callback)
    (hi : i ≤ kNumRelays) (cb : Option Callback) :
    serviceSteps kNumRelays requests (update callback i cb) +
        callbackSteps kNumRelays i (callback i) =
      serviceSteps kNumRelays requests callback + callbackSteps kNumRelays i cb := by
  have hreplace := @sum_replace _ _ (Finset.range (kNumRelays + 1))
    (fun j => (requests (serviceName j)).length * requestSteps kNumRelays j +
      callbackSteps kNumRelays j (callback j))
    (fun j => (requests (serviceName j)).length * requestSteps kNumRelays j +
      callbackSteps kNumRelays j (update callback i cb j)) i
    (Finset.mem_range.mpr (Nat.lt_succ_of_le hi))
    (fun j hj => by rw [update_of_ne hj])
  simp only [update_self] at hreplace
  unfold serviceSteps
  omega

/-! ## Steps -/

/-- What the steps that are left depend on: no service beyond the sink is used, and the sink is
not running once it has reported. -/
structure Working (kNumRelays numMessages : ℕ) (s : State) : Prop where
  requests : ∀ i, kNumRelays < i → s.requests (serviceName i) = []
  callback : ∀ i, kNumRelays < i → s.callback i = none
  running : s.exited = false → s.data.length < numMessages
  exited : s.exited = true → s.callback kNumRelays = none

/-- The steps of the processes; a drop is none. -/
def Label.IsTask : Label → Prop
  | .drop _ _ => False
  | _ => True

/-- What a step does of the work: a drop spares all that its request would have made. -/
def Label.steps (kNumRelays : ℕ) : Label → ℕ
  | .drop i _ => requestSteps kNumRelays i
  | _ => 1

theorem init_working (hM : 0 < numMessages) : Working kNumRelays numMessages init :=
  ⟨fun _ _ => rfl,fun _ _ => rfl,fun _ => hM,fun he => by simp [init] at he⟩

theorem Working.service_le (hw : Working kNumRelays numMessages s) {j : ℕ} {request : Timing}
    (h : (s.requests (serviceName i))[j]? = some request) : i ≤ kNumRelays := by
  by_contra hi
  rw [hw.requests i (not_le.mp hi)] at h
  simp at h

theorem Working.callback_le (hw : Working kNumRelays numMessages s) {cb : Callback}
    (h : s.callback i = some cb) : i ≤ kNumRelays := by
  by_contra hi
  rw [hw.callback i (not_le.mp hi)] at h
  cases h

theorem Working.exited_of_called (hw : Working kNumRelays numMessages s) {cb : Callback}
    (h : s.callback kNumRelays = some cb) : s.exited = false := by
  by_contra he
  rw [hw.exited (by simpa using he)] at h
  cases h

theorem update_requests {requests : String → List Timing} {rs : List Timing} {k : ℕ}
    (hk : k ≤ kNumRelays) (hi : kNumRelays < i) :
    update requests (serviceName k) rs (serviceName i) = requests (serviceName i) := by
  rw [update_of_ne]
  intro h
  have heq := serviceName_injective h
  omega

theorem move_working (hw : Working kNumRelays numMessages s)
    (h : Move kNumRelays numMessages s l t) : Working kNumRelays numMessages t := by
  obtain ⟨hrequests,hcallback,hrunning,hexited⟩ := hw
  cases h with
  | send now hnext =>
    refine ⟨fun i hi => ?_,hcallback,hrunning,hexited⟩
    exact (update_requests (Nat.zero_le _) hi).trans (hrequests i hi)
  | take k j request hidle hrun hrequest =>
    have hk := Working.service_le ⟨hrequests,hcallback,hrunning,hexited⟩ hrequest
    refine ⟨fun i hi => (update_requests hk hi).trans (hrequests i hi),fun i hi => ?_,hrunning,
      fun he => ?_⟩
    · dsimp only
      rw [update_of_ne (by omega)]
      exact hcallback i hi
    · have hne : kNumRelays ≠ k := by
        intro heq
        simp [hrun heq.symm] at he
      dsimp only
      rw [update_of_ne hne]
      exact hexited he
  | forward k request hk hcalled =>
    refine ⟨fun i hi => (update_requests hk hi).trans (hrequests i hi),fun i hi => ?_,hrunning,
      fun he => ?_⟩
    · dsimp only
      rw [update_of_ne (by omega)]
      exact hcallback i hi
    · dsimp only
      rw [update_of_ne hk.ne']
      exact hexited he
  | sample now request hcalled hlow =>
    have hout := Working.exited_of_called ⟨hrequests,hcallback,hrunning,hexited⟩ hcalled
    refine ⟨hrequests,fun i hi => ?_,fun _ => ?_,fun he => ?_⟩
    · dsimp only
      rw [update_of_ne hi.ne']
      exact hcallback i hi
    · simpa using hlow
    · simp [hout] at he
  | report now request r hcalled hfull hprint =>
    refine ⟨hrequests,fun i hi => ?_,fun he => by simp at he,fun _ => update_self _ _ _⟩
    dsimp only
    rw [update_of_ne hi.ne']
    exact hcallback i hi
  | respond k ack hreturned =>
    refine ⟨hrequests,fun i hi => ?_,hrunning,fun he => ?_⟩
    · rcases eq_or_ne i k with rfl | hne
      · exact update_self _ _ _
      · exact (update_of_ne hne _ _).trans (hcallback i hi)
    · rcases eq_or_ne kNumRelays k with rfl | hne
      · exact update_self _ _ _
      · exact (update_of_ne hne _ _).trans (hexited he)
  | takeResponse k rest => exact ⟨hrequests,hcallback,hrunning,hexited⟩
  | drop k j request hrequest =>
    have hk := Working.service_le ⟨hrequests,hcallback,hrunning,hexited⟩ hrequest
    exact ⟨fun i hi => (update_requests hk hi).trans (hrequests i hi),hcallback,hrunning,hexited⟩

theorem eraseIdx_length {j : ℕ} {requests : List Timing} {request : Timing}
    (h : requests[j]? = some request) : (requests.eraseIdx j).length + 1 = requests.length := by
  obtain ⟨hj,_⟩ := List.getElem?_eq_some_iff.mp h
  rw [List.length_eraseIdx_of_lt hj]
  omega

theorem move_left (hw : Working kNumRelays numMessages s)
    (h : Move kNumRelays numMessages s l t) (hl : ∀ k, l ≠ .takeResponse k) :
    t.left kNumRelays numMessages + l.steps kNumRelays = s.left kNumRelays numMessages := by
  cases h with
  | send now hnext =>
    have hsum := serviceSteps_requests s.requests s.callback (Nat.zero_le kNumRelays)
      (s.requests (serviceName 0) ++ [clientRequest s.next now])
    obtain ⟨d,hd⟩ : ∃ d, numMessages - s.next = d + 1 := ⟨numMessages - s.next - 1,by omega⟩
    have hd' : numMessages - (s.next + 1) = d := by omega
    rw [List.length_append, List.length_singleton, Nat.add_mul] at hsum
    simp only [State.left, State.asyncSend, Label.steps, hd, hd', Nat.add_mul]
    omega
  | take k j request hidle hrun hrequest =>
    have hk := hw.service_le hrequest
    have herase := eraseIdx_length hrequest
    have hsum := serviceSteps_requests s.requests s.callback hk
      ((s.requests (serviceName k)).eraseIdx j)
    have hcb := serviceSteps_callback (update s.requests (serviceName k)
      ((s.requests (serviceName k)).eraseIdx j)) s.callback hk (some (.called request))
    rw [← herase, Nat.add_mul] at hsum
    simp only [hidle, callbackSteps] at hcb
    simp only [State.left, Label.steps]
    unfold requestSteps at hsum ⊢
    omega
  | forward k request hk hcalled =>
    have hsum := serviceSteps_requests s.requests (update s.callback k
      (some (.returned request.msgid))) (show k + 1 ≤ kNumRelays from hk)
      (s.requests (serviceName (k + 1)) ++ [relayCopy k request])
    have hcb := serviceSteps_callback s.requests s.callback hk.le
      (some (.returned request.msgid))
    rw [List.length_append, List.length_singleton, Nat.add_mul] at hsum
    simp only [hcalled, callbackSteps] at hcb
    simp only [State.left, State.asyncSend, Label.steps]
    unfold requestSteps at hsum ⊢
    omega
  | sample now request hcalled hlow =>
    have hcb := serviceSteps_callback s.requests s.callback (le_refl kNumRelays)
      (some (.returned request.msgid))
    simp only [hcalled, callbackSteps] at hcb
    simp only [State.left, Label.steps]
    omega
  | report now request r hcalled hfull hprint =>
    have hout := hw.exited_of_called hcalled
    have hcb := serviceSteps_callback s.requests s.callback (le_refl kNumRelays) none
    simp only [hcalled, callbackSteps] at hcb
    simp only [State.left, Label.steps, hout, Bool.toNat_true, Bool.toNat_false]
    omega
  | respond k ack hreturned =>
    have hk := hw.callback_le hreturned
    have hcb := serviceSteps_callback s.requests s.callback hk none
    simp only [hreturned, callbackSteps] at hcb
    simp only [State.left, Label.steps]
    omega
  | takeResponse k rest => exact absurd rfl (hl k)
  | drop k j request hrequest =>
    have hk := hw.service_le hrequest
    have herase := eraseIdx_length hrequest
    have hsum := serviceSteps_requests s.requests s.callback hk
      ((s.requests (serviceName k)).eraseIdx j)
    rw [← herase, Nat.add_mul] at hsum
    simp only [State.left, Label.steps]
    omega

theorem balanced (kNumRelays numMessages : ℕ) :
    Balanced (step kNumRelays numMessages) (Working kNumRelays numMessages)
      (State.left kNumRelays numMessages) (Label.steps kNumRelays) (fun _ => 0) where
  inv _ _ _ hw hs := move_working hw (step_move hs)
  balance s l t hw hs := by
    refine move_left hw (step_move hs) (fun k hl => ?_)
    rw [hl, takeResponse_disabled] at hs
    cases hs

/-! ## Where a run ends -/

theorem init_left : init.left kNumRelays numMessages = numMessages * (3 * kNumRelays + 4) := by
  have hservices : serviceSteps kNumRelays init.requests init.callback = 0 :=
    Finset.sum_eq_zero (fun i _ => by simp [init, callbackSteps])
  rw [State.left, hservices]
  simp [init, requestSteps]

section Halted
variable (hhalted : Halted (step kNumRelays numMessages) Label.IsTask s)
include hhalted

theorem halted_next (hnext : s.next ≤ numMessages) : s.next = numMessages := by
  by_contra hne
  have hsend := hhalted (.send 0) trivial
  rw [step_send 0 (lt_of_le_of_ne hnext hne)] at hsend
  cases hsend

theorem halted_callback (hw : Working kNumRelays numMessages s) (i : ℕ) : s.callback i = none := by
  cases hcb : s.callback i with
  | none => rfl
  | some cb =>
    have hi := hw.callback_le hcb
    cases cb with
    | returned ack =>
      have hrespond := hhalted (.respond i) trivial
      rw [step_respond hcb] at hrespond
      cases hrespond
    | called request =>
      rcases Nat.lt_or_eq_of_le hi with hlt | rfl
      · have hforward := hhalted (.forward i) trivial
        rw [step_forward hlt hcb] at hforward
        cases hforward
      · have hrecord := hhalted (.record 0) trivial
        obtain ⟨r,hr,_⟩ := printStats_of_ne_nil (List.append_ne_nil_of_right_ne_nil s.data
          (List.cons_ne_nil (nanosecPerHop i 0 request.nanosec) []))
        by_cases hfull : numMessages ≤ s.data.length + 1 <;>
          simp [step, hcb, State.sinkCallback, hfull, hr] at hrecord

theorem halted_requests (hw : Working kNumRelays numMessages s) (hi : i ≤ kNumRelays)
    (hrunning : s.exited = false) : s.requests (serviceName i) = [] := by
  cases hrequests : s.requests (serviceName i) with
  | nil => rfl
  | cons request rest =>
    have htake := hhalted (.take i 0) trivial
    rw [step_take hi (halted_callback hhalted hw i) hrunning hrequests] at htake
    cases htake

end Halted

theorem exec_working (hM : 0 < numMessages)
    (h : exec (step kNumRelays numMessages) init ls = some s) :
    Working kNumRelays numMessages s :=
  (balanced kNumRelays numMessages).exec_inv (init_working hM) h

/-- An exit tells that nothing is left at any service. -/
theorem unhandled_of_exited (h : exec (step kNumRelays numMessages) init ls = some s)
    (hexited : s.exited = true) (hi : i ≤ kNumRelays) : unhandled s i = [] := by
  obtain ⟨_,hfull,_⟩ := (exec_sinkRecorded h).exited hexited
  obtain ⟨hsent,hnext,hle⟩ := exec_clientSent h
  have hcount := congrArg List.length hsent
  rw [List.length_mapIdx] at hcount
  refine List.map_eq_nil_iff.mp ((stages h).rest_eq_nil ?_ hi)
  rw [List.length_map, List.length_map, ← data_length h]
  omega

/-- Where no process can go on and nothing was dropped, the sink has reported. -/
theorem exited_of_undropped (hM : 0 < numMessages)
    (h : exec (step kNumRelays numMessages) init ls = some s)
    (hhalted : Halted (step kNumRelays numMessages) Label.IsTask s)
    (hdropped : ∀ i ≤ kNumRelays, s.dropped i = []) : s.exited = true := by
  by_contra hout
  have hrunning : s.exited = false := by simpa using hout
  have hw := exec_working hM h
  obtain ⟨hsent,hnext,hle⟩ := exec_clientSent h
  have hnone : ∀ i ≤ kNumRelays, (unhandled s i).map stamp = [] := by
    intro i hi
    rw [unhandled, halted_requests hhalted hw hi hrunning, halted_callback hhalted hw i,
      hdropped i hi]
    rfl
  have hall := ((stages h).handled_perm hnone).length_eq
  have hcount := congrArg List.length hsent
  rw [List.length_mapIdx] at hcount
  rw [List.length_map, List.length_map, ← data_length h] at hall
  have hlow := hw.running hrunning
  have hend := halted_next hhalted hle
  omega

/-- Every step of a run that ends is counted, but for the response of the sink's last callback. -/
theorem left_of_exited (hM : 0 < numMessages)
    (h : exec (step kNumRelays numMessages) init ls = some s)
    (hhalted : Halted (step kNumRelays numMessages) Label.IsTask s) (hexited : s.exited = true) :
    s.left kNumRelays numMessages = 1 := by
  have hw := exec_working hM h
  have hservices : serviceSteps kNumRelays s.requests s.callback = 0 := by
    refine Finset.sum_eq_zero (fun i hi => ?_)
    have hnone := unhandled_of_exited h hexited (Nat.lt_succ_iff.mp (Finset.mem_range.mp hi))
    rw [unhandled, List.append_eq_nil_iff] at hnone
    rw [hnone.1, halted_callback hhalted hw i]
    simp [callbackSteps]
  have hend := halted_next hhalted (exec_clientSent h).2.2
  simp [State.left, hservices, hend, hexited]

instance : DecidablePred Label.IsTask
  | .drop _ _ => .isFalse id
  | .send _ | .take _ _ | .forward _ | .record _ | .respond _ | .takeResponse _ => .isTrue trivial

theorem steps_of_task (hl : l.IsTask) : l.steps kNumRelays = 1 := by
  cases l with
  | drop i j => exact hl.elim
  | _ => rfl

theorem exec_undropped (h : exec (step kNumRelays numMessages) init ls = some s)
    (hls : ∀ l ∈ ls, l.IsTask) (i : ℕ) : s.dropped i = [] := by
  have hall := @exec_history _ _ _ (fun ls s => (∀ l ∈ ls, l.IsTask) → ∀ i, s.dropped i = []) init
    (fun _ _ => rfl) ?_ ls s h
  · exact hall hls i
  · intro ls t l u _ hold hs hls i
    have hprev := hold (fun x hx => hls x (List.mem_append_left _ hx)) i
    have hl := hls l (List.mem_append_right _ (List.mem_singleton_self l))
    cases step_move hs with
    | drop k j request hrequest => exact hl.elim
    | _ => exact hprev

/-- How the runs end that have come to this state. -/
structure Ends (kNumRelays numMessages : ℕ) (ls : List Label) (s : State) : Prop where
  /-- No run goes on for ever. -/
  bounded : ls.countP (fun l => l.IsTask) ≤ numMessages * (3 * kNumRelays + 4)
  /-- The processes can go on until none of them can. -/
  halts : ∃ ks t, (∀ l ∈ ks, l.IsTask) ∧ exec (step kNumRelays numMessages) s ks = some t ∧
    Halted (step kNumRelays numMessages) Label.IsTask t
  /-- Where none can, there is one report if nothing was dropped, and none otherwise. -/
  reports : Halted (step kNumRelays numMessages) Label.IsTask s →
    s.next = numMessages ∧
    ((∀ i ≤ kNumRelays, s.dropped i = []) →
      ∃ r, s.reports = [r] ∧ r.array.length = numMessages) ∧
    ((∃ i ≤ kNumRelays, s.dropped i ≠ []) → s.reports = [])
  /-- All runs without a drop are of the same length. -/
  steps : Halted (step kNumRelays numMessages) Label.IsTask s → (∀ l ∈ ls, l.IsTask) →
    ls.length + 1 = numMessages * (3 * kNumRelays + 4)

theorem chain_ends (kNumRelays : ℕ) (hM : 0 < numMessages)
    (h : exec (step kNumRelays numMessages) init ls = some s) :
    Ends kNumRelays numMessages ls s := by
  have hb := balanced kNumRelays numMessages
  have hinit := @init_working kNumRelays _ hM
  have hbalance := hb.exec_done hinit h
  rw [init_left] at hbalance
  have hsink := exec_sinkRecorded h
  refine ⟨?_,?_,fun hhalted => ⟨halted_next hhalted (exec_clientSent h).2.2,fun hdropped => ?_,?_⟩,
    fun hhalted hls => ?_⟩
  · have hle := countP_le_done (fun l hl => (@steps_of_task kNumRelays l hl).symm ▸ Nat.one_pos) ls
    omega
  · refine hb.exists_halted (fun l hl => ?_) (hb.exec_inv hinit h)
    rw [steps_of_task hl]
    exact ⟨Nat.one_pos,rfl⟩
  · obtain ⟨_,hfull,r,hr,hperm⟩ := hsink.exited (exited_of_undropped hM h hhalted hdropped)
    have hle := data_length_le h
    obtain ⟨_,hnext,hsends⟩ := exec_clientSent h
    refine ⟨r,hr,?_⟩
    rw [hperm.length_eq]
    omega
  · rintro ⟨i,hi,hne⟩
    apply hsink.running
    by_contra hout
    have hnone := unhandled_of_exited h (by simpa using hout) hi
    rw [unhandled, List.append_eq_nil_iff, List.append_eq_nil_iff] at hnone
    exact hne hnone.2.2
  · have hdropped := exec_undropped h hls
    have hexited := exited_of_undropped hM h hhalted (fun i _ => hdropped i)
    rw [left_of_exited hM h hhalted hexited, done_eq_length (fun l hl => steps_of_task (hls l hl))] at hbalance
    omega

/-- One request through one relay; all but the sink's response. -/
def oneRequestRun : List Label :=
  [.send 5,.take 0 0,.forward 0,.take 1 0,.respond 0,.record 25]

theorem chain_ends_oneRequest :
    ∃ s, exec (step 1 1) init oneRequestRun = some s ∧ s.reports = [⟨[10],0,0⟩] ∧
      oneRequestRun.length + 1 = 1 * (3 * 1 + 4) ∧ Ends 1 1 oneRequestRun s := by
  have hrun : (exec (step 1 1) init oneRequestRun).map State.reports = some [⟨[10],0,0⟩] := by
    simp [oneRequestRun, step, init, clients, serviceNode, executorNodes, State.asyncSend,
      State.sinkCallback, nanosecPerHop, clientRequest, relayCopy, serviceName, printStats]
  obtain ⟨s,hs,hreports⟩ := Option.map_eq_some_iff.mp hrun
  exact ⟨s,hs,hreports,rfl,chain_ends 1 Nat.one_pos hs⟩

end RelayBench.Psrv
