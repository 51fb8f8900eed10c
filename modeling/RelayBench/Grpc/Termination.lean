import RelayBench.Library.Work
import RelayBench.Grpc.Serialisation

/-! # Every run of the gRPC chain ends with its report

The place of the token says how many steps were taken. No step is ever missing before the
report is printed, and all runs take as many.
-/
namespace RelayBench.GrpcThreads
open Execution RemoteCall Ports Grpc Work
variable {kNumRelays numMessages : ℕ} {s t : State} {l : Label} {ls : List Label}
variable {sent : ℤ} {k : ℕ}

/-! ## The steps of one request -/

/-- The steps for the current request when the handler of hop `k` is here. -/
def Pc.progress (kNumRelays k : ℕ) : Pc → ℕ
  | .entered => 2 * k + 2
  | .waiting _ => 0
  | .answered => 4 * kNumRelays + 3 - 2 * k
  | .inserted => 2 * kNumRelays + 3
  | .reporting => 2 * kNumRelays + 3
  | .exiting => 2 * kNumRelays + 4

/-- The steps for the current request with the token at hop `k`. -/
def Front.progress (kNumRelays k : ℕ) : Front → ℕ
  | .idle => 0
  | .requested => 2 * k + 1
  | .running pc => pc.progress kNumRelays k
  | .replied => 4 * kNumRelays + 4 - 2 * k

/-- The steps of a request that comes back. -/
def requestSteps (kNumRelays : ℕ) : ℕ := 4 * kNumRelays + 5

/-- All steps up to the exit, of which the last request's are not all taken. -/
def allSteps (kNumRelays numMessages : ℕ) : ℕ :=
  (numMessages - 1) * requestSteps kNumRelays + (2 * kNumRelays + 4)

/-- The steps taken, read off the state. -/
def State.progress (kNumRelays : ℕ) (s : State) : ℕ :=
  s.finished * requestSteps kNumRelays +
    match s.client, s.requests, s.replies, s.activations.getLast? with
    | none, _, _, _ => 0
    | some _, _ :: _, _, _ => 2 * s.activations.length + 1
    | some _, [], _ :: _, _ => 4 * kNumRelays + 4 - 2 * s.activations.length
    | some _, [], [], some act => act.pc.progress kNumRelays (s.activations.length - 1)
    | some _, [], [], none => 0

theorem Represents.progress {front : Front} (h : Represents kNumRelays s sent k front) :
    s.progress kNumRelays = s.finished * requestSteps kNumRelays + front.progress kNumRelays k := by
  unfold State.progress
  rw [h.client, h.requests, h.replies, h.activations]
  cases front with
  | idle => simp [Front.progress]
  | requested => simp [Front.progress, Front.pc, blocked_length]
  | running pc => simp [Front.progress, Front.pc, blocked_length, handler]
  | replied => simp [Front.progress, Front.pc, blocked_length]

/-- Every step is one more. -/
theorem move_progress (hs : Serial kNumRelays numMessages s)
    (h : Move kNumRelays numMessages s l t) :
    t.progress kNumRelays = s.progress kNumRelays + 1 := by
  obtain ⟨sent,k,front,hr,hd⟩ := hs
  have hrequests := hr.requests
  have hreplies := hr.replies
  have hacts := hr.activations
  have hclient := hr.client
  have hfits := hr.fits
  rw [hr.progress]
  cases h with
  | send now hidle hlow =>
    have hfront : front = .idle := by
      by_contra hne
      simp [hclient, hne] at hidle
    subst hfront
    obtain rfl : k = 0 := hfits
    simp [State.progress, State.call, hrequests, hacts, Front.progress, Front.pc, blocked]
  | dispatch j m server hrequest hport =>
    rw [hrequests] at hrequest
    obtain ⟨rfl,rfl,rfl⟩ := single_getElem? hrequest
    simp [State.progress, hclient, hrequests, hreplies, hacts, Front.progress, Front.pc,
      blocked_length, Pc.progress]
    ring
  | forward a id act hact hserver hpc =>
    obtain ⟨rfl,rfl,rfl⟩ := hr.top hact hpc (by simp)
    simp [State.progress, State.call, hclient, hrequests, hacts, Front.progress, Front.pc,
      blocked_length, Pc.progress]
    ring
  | insert a now act hact hserver hpc =>
    obtain ⟨rfl,rfl,rfl⟩ := hr.top hact hpc (by simp)
    have hlast : a = kNumRelays := by
      by_contra hne
      have hlt : a < kNumRelays := lt_of_le_of_ne hfits hne
      simp [handler, hopServer, hlt] at hserver
    subst hlast
    by_cases hfull : numMessages ≤ s.data.length + 1 <;>
    · simp [State.progress, hclient, hrequests, hreplies, hacts, Front.progress, Front.pc,
        blocked_length, Pc.progress, hfull]
      ring
  | report a act r hact hpc hprint =>
    obtain ⟨rfl,rfl,rfl⟩ := hr.top hact hpc (by simp)
    simp [State.progress, hclient, hrequests, hreplies, hacts, Front.progress, Front.pc,
      blocked_length, Pc.progress]
    ring
  | ret a act hact hpc =>
    obtain ⟨pc,hpc',hpc⟩ : ∃ pc, (pc = .answered ∨ pc = .inserted) ∧ act.pc = pc := ⟨_,hpc,rfl⟩
    obtain ⟨rfl,rfl,rfl⟩ := hr.top hact hpc (by rintro c rfl; simp at hpc')
    rcases hpc' with rfl | rfl
    · have hlt : a < kNumRelays := hfits
      simp [State.progress, hclient, hrequests, hreplies, hacts, Front.progress, Front.pc,
        blocked_length, stack_eraseIdx, Pc.progress]
      omega
    · obtain rfl : a = kNumRelays := hfits
      simp [State.progress, hclient, hrequests, hreplies, hacts, Front.progress, Front.pc,
        blocked_length, stack_eraseIdx, Pc.progress]
      omega
  | receive a j c act response hact hpc hreply =>
    rw [hreplies] at hreply
    obtain ⟨rfl,rfl,hc⟩ := single_getElem? hreply
    rw [hacts] at hact
    rcases stack_getElem? hact with ⟨ha,rfl⟩ | ⟨_,htop⟩
    · obtain rfl : k = a + 1 := by
        simp only [handler, Pc.waiting.injEq] at hpc
        simp only [Prod.mk.injEq] at hc
        omega
      have hle : a + 1 ≤ kNumRelays := hfits
      simp [State.progress, hclient, hrequests, hreplies, hacts, Front.progress, Front.pc,
        blocked_length, blocked_succ, Pc.progress]
      omega
    · simp [Front.pc] at htop
  | receiveClient j c response hc hreply =>
    rw [hreplies] at hreply
    obtain ⟨rfl,rfl,hpair⟩ := single_getElem? hreply
    rw [hclient] at hc
    obtain rfl : k = 0 := by
      simp only [Prod.mk.injEq] at hpair
      simp only [reduceCtorEq, if_false, Option.some.injEq] at hc
      omega
    simp [State.progress, Front.progress, requestSteps]
    ring

/-! ## Where a run is -/

/-- The request under way is not one too many. -/
def Serving (kNumRelays numMessages : ℕ) (s : State) : Prop :=
  Serial kNumRelays numMessages s ∧ s.finished < numMessages

theorem move_serving (hs : Serving kNumRelays numMessages s)
    (h : Move kNumRelays numMessages s l t) : Serving kNumRelays numMessages t := by
  obtain ⟨hserial,hlow⟩ := hs
  refine ⟨move_serial hserial h,?_⟩
  cases h with
  | receiveClient j c response hc hreply =>
    obtain ⟨sent,k,front,hr,hd⟩ := hserial
    rw [hr.replies] at hreply
    obtain ⟨rfl,_,_⟩ := single_getElem? hreply
    have hcount : s.data.length = s.finished + 1 := hd.count
    rcases hd.low rfl with hnil | hlt
    · simp [hnil] at hcount
    · rw [hcount] at hlt
      exact hlt
  | _ => exact hlow

theorem init_serving (hM : 0 < numMessages) : Serving kNumRelays numMessages init := by
  have hserial : Serial kNumRelays numMessages init := exec_serial (exec_nil init)
  exact ⟨hserial,hM⟩

theorem Represents.exiting_progress (hr : Represents kNumRelays s sent k (.running .exiting))
    (hd : Recorded numMessages s (.running .exiting)) (hlow : s.finished < numMessages) :
    s.progress kNumRelays = allSteps kNumRelays numMessages := by
  have hcount : s.data.length = s.finished + 1 := hd.count
  have hfull := hd.full rfl
  rw [hr.progress, allSteps, show numMessages - 1 = s.finished by omega]
  rfl

/-- Before the exit there are steps to come. -/
theorem Represents.progress_lt {front : Front} (hr : Represents kNumRelays s sent k front)
    (hd : Recorded numMessages s front) (hlow : s.finished < numMessages)
    (hrunning : front ≠ .running .exiting) :
    s.progress kNumRelays < allSteps kNumRelays numMessages := by
  have hfits := hr.fits
  have hcount := hd.count
  rw [hr.progress, allSteps]
  rcases Nat.lt_or_ge (s.finished + 1) numMessages with hlt | hge
  · have hle : (s.finished + 1) * requestSteps kNumRelays ≤
        (numMessages - 1) * requestSteps kNumRelays := Nat.mul_le_mul_right _ (by omega)
    have hfront : front.progress kNumRelays k < requestSteps kNumRelays := by
      rcases front with _ | _ | (_ | _ | _ | _ | _ | _) | _ <;>
        simp only [Front.Fits, Front.progress, Pc.progress, requestSteps] at * <;> omega
    rw [Nat.succ_mul] at hle
    omega
  · have hlast : numMessages - 1 = s.finished := by omega
    have hfront : front.progress kNumRelays k < 2 * kNumRelays + 4 := by
      have hpassed : front.full = true ∨ front.passed = false := by
        by_contra hnot
        obtain ⟨hnotFull,hpassed⟩ := not_or.mp hnot
        rw [Bool.not_eq_true] at hnotFull
        rw [Bool.not_eq_false] at hpassed
        rw [hpassed, Bool.toNat_true] at hcount
        rcases hd.low hnotFull with hnil | hlt
        · simp [hnil] at hcount
        · omega
      rcases front with _ | _ | (_ | _ | _ | _ | _ | _) | _ <;>
        simp_all [Front.Fits, Front.progress, Pc.progress, Front.full, Front.passed] <;> omega
    rw [hlast]
    omega

/-! ## The next step -/

theorem Represents.running_getElem? {pc : Pc}
    (hr : Represents kNumRelays s sent k (.running pc)) : s.activations[k]? =
      some (handler kNumRelays sent s.finished (s.finished * (kNumRelays + 1)) k pc) := by
  rw [hr.activations, List.getElem?_append_right (by rw [blocked_length]), blocked_length]
  simp [Front.pc]

/-- The token can move on. -/
theorem Represents.moves {front : Front} (hr : Represents kNumRelays s sent k front)
    (hd : Recorded numMessages s front) (hlow : s.finished < numMessages)
    (hrunning : front ≠ .running .exiting) :
    ∃ l, step kNumRelays numMessages s l ≠ none := by
  have hfits := hr.fits
  cases front with
  | idle => exact ⟨.send 0,by simp [step, hr.client, hlow]⟩
  | requested => exact ⟨.dispatch 0,by simp [step, hr.requests, hopServer_listening hfits]⟩
  | running pc =>
    have htop := hr.running_getElem?
    cases pc with
    | entered =>
      rcases Nat.lt_or_eq_of_le (show k ≤ kNumRelays from hfits) with hlt | rfl
      · exact ⟨.forward k,by simp [step, htop, handler, hopServer, hlt]⟩
      · exact ⟨.insert k 0,by simp [step, htop, handler, hopServer]⟩
    | waiting call => exact hfits.elim
    | answered => exact ⟨.ret k,by simp [step, htop, handler]⟩
    | inserted => exact ⟨.ret k,by simp [step, htop, handler]⟩
    | reporting =>
      obtain rfl : k = kNumRelays := hfits
      have hcount : s.data.length = s.finished + 1 := hd.count
      have hne : s.data ≠ [] := by
        intro hnil
        simp [hnil] at hcount
      obtain ⟨r,hprint,_⟩ := printStats_of_ne_nil hne
      exact ⟨.report k,by simp [step, htop, handler, hopServer, hprint]⟩
    | exiting => exact absurd rfl hrunning
  | replied =>
    cases k with
    | zero => exact ⟨.receiveClient 0,by simp [step, hr.client, hr.replies]⟩
    | succ k =>
      have hwaiting : s.activations[k]? = some (handler kNumRelays sent s.finished
          (s.finished * (kNumRelays + 1)) k (.waiting (s.finished * (kNumRelays + 1) + k + 1))) := by
        rw [hr.activations, blocked_succ, List.append_assoc,
          List.getElem?_append_right (by rw [blocked_length]), blocked_length]
        simp
      exact ⟨.receive k 0,by simp [step, hwaiting, handler, hr.replies, Nat.add_assoc]⟩

theorem Represents.exiting_halted (hr : Represents kNumRelays s sent k (.running .exiting))
    (l : Label) : step kNumRelays numMessages s l = none := by
  by_contra hstep
  obtain ⟨t,ht⟩ := Option.ne_none_iff_exists'.mp hstep
  have hrequests := hr.requests
  have hreplies := hr.replies
  cases step_move ht with
  | send now hidle hlow => simp [hr.client] at hidle
  | dispatch j m server hrequest hport => simp [hrequests] at hrequest
  | forward a id act hact hserver hpc =>
    obtain ⟨_,hfront,_⟩ := hr.top hact hpc (by simp)
    simp at hfront
  | insert a now act hact hserver hpc =>
    obtain ⟨_,hfront,_⟩ := hr.top hact hpc (by simp)
    simp at hfront
  | report a act r hact hpc hprint =>
    obtain ⟨_,hfront,_⟩ := hr.top hact hpc (by simp)
    simp at hfront
  | ret a act hact hpc =>
    obtain ⟨_,hfront,_⟩ := hr.top hact rfl (by rintro c hc; simp [hc] at hpc)
    obtain hexiting : .exiting = act.pc := Front.running.inj hfront
    simp [← hexiting] at hpc
  | receive a j c act response hact hpc hreply => simp [hreplies] at hreply
  | receiveClient j c response hc hreply => simp [hreplies] at hreply

/-! ## All runs -/

theorem Serving.progress_le (hs : Serving kNumRelays numMessages s) :
    s.progress kNumRelays ≤ allSteps kNumRelays numMessages := by
  obtain ⟨⟨sent,k,front,hr,hd⟩,hlow⟩ := hs
  by_cases hexiting : front = .running .exiting
  · subst hexiting
    exact (hr.exiting_progress hd hlow).le
  · exact (hr.progress_lt hd hlow hexiting).le

/-- Every step does one of the steps that are left. -/
theorem balanced (kNumRelays numMessages : ℕ) :
    Balanced (step kNumRelays numMessages) (Serving kNumRelays numMessages)
      (fun s => allSteps kNumRelays numMessages - s.progress kNumRelays)
      (fun _ => 1) (fun _ => 0) where
  inv _ _ _ hi hs := move_serving hi (step_move hs)
  balance s l t hi hs := by
    have hmove := step_move hs
    have hle := (move_serving hi hmove).progress_le
    have hnext := move_progress hi.1 hmove
    omega

theorem exec_progress (hM : 0 < numMessages)
    (h : exec (step kNumRelays numMessages) init ls = some s) :
    Serving kNumRelays numMessages s ∧ s.progress kNumRelays = ls.length := by
  have hb := balanced kNumRelays numMessages
  have hs := hb.exec_inv (init_serving hM) h
  have hbalance := hb.exec_balance (init_serving hM) h
  have hstart : init.progress kNumRelays = 0 := by simp [State.progress, init]
  have hle := hs.progress_le
  simp only [hstart, List.map_const', List.sum_replicate, smul_eq_mul] at hbalance
  exact ⟨hs,by omega⟩

/-- What is true of a run that has come to this state. -/
structure Ends (kNumRelays numMessages : ℕ) (ls : List Label) (s : State) : Prop where
  /-- No run is longer, so none goes on for ever. -/
  length_le : ls.length ≤ allSteps kNumRelays numMessages
  /-- A run can go on as long as it is shorter, and only then. -/
  halted : (∀ l, step kNumRelays numMessages s l = none) ↔
    ls.length = allSteps kNumRelays numMessages
  /-- At its end the sink has reported, on a sample of every request; before, it has not. -/
  reported : ls.length = allSteps kNumRelays numMessages →
    ∃ r, s.reports = [r] ∧ r.array.Perm s.data ∧ s.data.length = numMessages
  unreported : ls.length < allSteps kNumRelays numMessages → s.reports = []
  /-- Every run can be brought to its end. -/
  completes : ∃ ks t, exec (step kNumRelays numMessages) s ks = some t ∧
    ls.length + ks.length = allSteps kNumRelays numMessages

theorem Serving.halted_iff (hs : Serving kNumRelays numMessages s) :
    (∀ l, step kNumRelays numMessages s l = none) ↔
      s.progress kNumRelays = allSteps kNumRelays numMessages := by
  obtain ⟨⟨sent,k,front,hr,hd⟩,hlow⟩ := hs
  by_cases hexiting : front = .running .exiting
  · subst hexiting
    exact iff_of_true hr.exiting_halted (hr.exiting_progress hd hlow)
  · obtain ⟨l,hl⟩ := hr.moves hd hlow hexiting
    exact iff_of_false (fun hhalted => hl (hhalted l)) (hr.progress_lt hd hlow hexiting).ne

theorem Serving.reports (hs : Serving kNumRelays numMessages s) :
    (s.progress kNumRelays = allSteps kNumRelays numMessages →
      ∃ r, s.reports = [r] ∧ r.array.Perm s.data ∧ s.data.length = numMessages) ∧
    (s.progress kNumRelays < allSteps kNumRelays numMessages → s.reports = []) := by
  obtain ⟨⟨sent,k,front,hr,hd⟩,hlow⟩ := hs
  by_cases hexiting : front = .running .exiting
  · refine ⟨fun _ => ?_,fun hlt => ?_⟩
    · obtain ⟨r,hreports,hperm⟩ := hd.reported hexiting
      subst hexiting
      have hcount : s.data.length = s.finished + 1 := hd.count
      have hfull := hd.full rfl
      exact ⟨r,hreports,hperm,by omega⟩
    · subst hexiting
      exact absurd (hr.exiting_progress hd hlow) hlt.ne
  · exact ⟨fun heq => absurd heq (hr.progress_lt hd hlow hexiting).ne,
      fun _ => hd.unreported hexiting⟩

/-- Whatever the interleaving of the servers' threads, a run is never stuck before the report
and ends with it after the same number of steps. -/
theorem runs_end (hM : 0 < numMessages)
    (h : exec (step kNumRelays numMessages) init ls = some s) :
    Ends kNumRelays numMessages ls s := by
  obtain ⟨hs,hprogress⟩ := exec_progress hM h
  have hle := hs.progress_le
  have hhalted := hs.halted_iff
  obtain ⟨hreported,hunreported⟩ := hs.reports
  rw [hprogress] at hle hhalted hreported hunreported
  refine ⟨hle,hhalted,hreported,hunreported,?_⟩
  have hfinite : Finite (fun _ : Label => True) (fun _ => 1) (fun _ => 0) :=
    fun _ _ => ⟨Nat.one_pos,rfl⟩
  obtain ⟨ks,t,_,hks,hend⟩ := (balanced kNumRelays numMessages).exists_halted hfinite hs
  obtain ⟨ht,hlength⟩ := exec_progress hM (exec_trans h hks)
  have hlast := ht.halted_iff.mp (fun l => hend l trivial)
  rw [hlength, List.length_append] at hlast
  exact ⟨ks,t,hks,hlast⟩

theorem runs_end_lastRequest : ∃ s, exec (step 1 1) init lastRequest = some s ∧
    lastRequest.length = 6 ∧ Ends 1 1 lastRequest s := by
  obtain ⟨s,hs⟩ : ∃ s, exec (step 1 1) init lastRequest = some s := ⟨_,rfl⟩
  exact ⟨s,hs,rfl,runs_end (by norm_num) hs⟩

end RelayBench.GrpcThreads
