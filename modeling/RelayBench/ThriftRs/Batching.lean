import RelayBench.Library.Batches
import RelayBench.Library.Execution
import RelayBench.ThriftRs.Model

/-! # The sink's vector under concurrent workers

Any number of server workers run `SinkHandler::handle_bench`, statement by statement and in
any order. What the vector holds and what was printed are read off the latencies in the
order in which the calls took the lock; the fields `calls` and `completed` record them.
-/
namespace RelayBench.ThriftRs
open Execution Batches Function RemoteCall
variable {numRelays numMessages : ℕ}

/-! ## The workers -/

/-- The statement of `handle_bench` a worker is at. -/
inductive SinkPc
  | idle
  | locking (latency : ℤ)
  | pushing (latency : ℤ)
  | testing
  | sorting
  | printing
  | clearing
  | returning
  | panicked
deriving DecidableEq, Repr

structure SinkWorkers where
  worker : ℕ → SinkPc
  holder : Option ℕ
  memory : State
  calls : List ℤ
  completed : ℕ

def SinkWorkers.init : SinkWorkers := ⟨fun _ => .idle,none,ThriftRs.init,[],0⟩

inductive SinkLabel
  | call (w : ℕ) (elapsed : ℕ) (arg : Timing)
  | run (w : ℕ)
deriving DecidableEq, Repr

def SinkWorkers.goto (s : SinkWorkers) (w : ℕ) (pc : SinkPc) : SinkWorkers :=
  { s with worker := update s.worker w pc }

/-- The two indices of the sorted vector and the printed line. -/
def printSorted (vec : List ℤ) : Option Report := do
  let p50 ← vec[vec.length / 2]?
  let p90 ← vec[vec.length * 9 / 10]?
  return ⟨vec,p50.tdiv 1000,p90.tdiv 1000⟩

theorem printStats_eq_printSorted (vec : List ℤ) :
    printStats vec = printSorted (vec.insertionSort (· ≤ ·)) := rfl

def sinkStep (numRelays numMessages : ℕ) (s : SinkWorkers) : SinkLabel → Option SinkWorkers
  | .call w elapsed arg =>
    if s.worker w = .idle then
      some (match latency numRelays (asI64 elapsed) arg.nanosec with
        | none => s.goto w .panicked
        | some v => s.goto w (.locking v))
    else none
  | .run w =>
    match s.worker w with
    | .idle => none
    | .locking v =>
      if s.holder = none then
        some (if s.memory.vecPoisoned then s.goto w .panicked
          else { s.goto w (.pushing v) with holder := some w, calls := s.calls ++ [v] })
      else none
    | .pushing v => some { s.goto w .testing with
        memory := { s.memory with
          latencyVec := s.memory.latencyVec ++ [v], pushed := s.memory.pushed ++ [v] } }
    | .testing =>
      some (s.goto w (if s.memory.latencyVec.length = numMessages then .sorting else .returning))
    | .sorting => some { s.goto w .printing with
        memory := { s.memory with
          latencyVec := s.memory.latencyVec.insertionSort (· ≤ ·) } }
    | .printing =>
      some (match printSorted s.memory.latencyVec with
        | none => { s.goto w .panicked with
            holder := none, memory := { s.memory with vecPoisoned := true } }
        | some r => { s.goto w .clearing with
            memory := { s.memory with reports := s.memory.reports ++ [r] } })
    | .clearing => some { s.goto w .returning with memory := { s.memory with latencyVec := [] } }
    | .returning => some { s.goto w .idle with holder := none, completed := s.completed + 1 }
    | .panicked => none

/-- The statements between the lock and the end of the guard. -/
def SinkPc.Inside : SinkPc → Prop
  | .idle | .locking _ | .panicked => False
  | _ => True

/-- The statements from which on the vector is not what the last call left. -/
def SinkPc.Modifying : SinkPc → Prop
  | .idle | .locking _ | .pushing _ | .panicked => False
  | _ => True

theorem SinkPc.Modifying.inside {pc : SinkPc} (h : pc.Modifying) : pc.Inside := by
  cases pc with
  | pushing v => trivial
  | _ => exact h

/-! ## One call on its own -/

/-- A worker whose call has the sink to itself does what `pushLatency` does. -/
theorem run_alone {s : SinkWorkers} {w : ℕ} {v : ℤ} (hpc : s.worker w = .locking v)
    (hfree : s.holder = none) (hunpoisoned : s.memory.vecPoisoned = false) : ∃ n,
    exec (sinkStep numRelays numMessages) s (List.replicate n (.run w)) = some { s.goto w .idle with
      memory := (pushLatency numMessages v s.memory).1
      calls := s.calls ++ [v]
      completed := s.completed + 1 } := by
  obtain ⟨r,hr,_⟩ := printStats_of_ne_nil (List.append_ne_nil_of_right_ne_nil
    s.memory.latencyVec (List.cons_ne_nil v []))
  have hprint := printStats_eq_printSorted (s.memory.latencyVec ++ [v])
  rw [hr] at hprint
  by_cases hfull : s.memory.latencyVec.length + 1 = numMessages
  · refine ⟨7,?_⟩
    simp [List.replicate, sinkStep, SinkWorkers.goto, pushLatency, hpc, hfree, hunpoisoned, hfull,
      ← hprint, hr]
  · refine ⟨4,?_⟩
    simp [List.replicate, sinkStep, SinkWorkers.goto, pushLatency, hpc, hfree, hunpoisoned, hfull]

/-! ## Calls in lock order -/

/-- What the vector and the reports are after calls with these latencies. -/
structure Batched (numMessages : ℕ) (calls vec : List ℤ) (reports : List Report) : Prop where
  waiting : vec = (fill numMessages calls).waiting
  reported : List.Forall₂ (fun b r => printStats b = some r) (fill numMessages calls).batches
    reports

theorem Batched.low {done vec : List ℤ} {reports : List Report} {v : ℤ}
    (h : Batched numMessages done vec reports) (hlow : (vec ++ [v]).length ≠ numMessages) :
    Batched numMessages (done ++ [v]) (vec ++ [v]) reports := by
  have hwaiting := h.waiting
  have hadd := @fill_snoc ℤ numMessages done v
  rw [add_low (hwaiting ▸ hlow)] at hadd
  exact ⟨by rw [hadd, hwaiting],by rw [hadd]; exact h.reported⟩

theorem Batched.full {done vec : List ℤ} {reports : List Report} {v : ℤ} {r : Report}
    (h : Batched numMessages done vec reports) (hfull : (vec ++ [v]).length = numMessages)
    (hr : printStats (vec ++ [v]) = some r) :
    Batched numMessages (done ++ [v]) [] (reports ++ [r]) := by
  have hwaiting := h.waiting
  have hadd := @fill_snoc ℤ numMessages done v
  rw [add_full (hwaiting ▸ hfull)] at hadd
  refine ⟨by rw [hadd],?_⟩
  rw [hadd]
  exact List.rel_append h.reported (.cons (hwaiting ▸ hr) .nil)

/-- What the call with latency `v` has done by the statement it is at, from a vector and
reports as the previous call left them. -/
inductive InCall (numMessages : ℕ) (vec : List ℤ) (reports : List Report) (v : ℤ) :
    SinkPc → List ℤ → List Report → Prop
  | pushing : InCall numMessages vec reports v (.pushing v) vec reports
  | testing : InCall numMessages vec reports v .testing (vec ++ [v]) reports
  | sorting (hfull : (vec ++ [v]).length = numMessages) :
      InCall numMessages vec reports v .sorting (vec ++ [v]) reports
  | printing (hfull : (vec ++ [v]).length = numMessages) :
      InCall numMessages vec reports v .printing ((vec ++ [v]).insertionSort (· ≤ ·)) reports
  | clearing (hfull : (vec ++ [v]).length = numMessages) (r : Report)
      (hr : printStats (vec ++ [v]) = some r) (array : List ℤ) :
      InCall numMessages vec reports v .clearing array (reports ++ [r])
  | kept (hlow : (vec ++ [v]).length ≠ numMessages) :
      InCall numMessages vec reports v .returning (vec ++ [v]) reports
  | cleared (hfull : (vec ++ [v]).length = numMessages) (r : Report)
      (hr : printStats (vec ++ [v]) = some r) :
      InCall numMessages vec reports v .returning [] (reports ++ [r])

section Statements
variable {vec vec' : List ℤ} {reports reports' : List Report} {v v' : ℤ}

theorem InCall.push (h : InCall numMessages vec reports v (.pushing v') vec' reports') :
    InCall numMessages vec reports v .testing (vec' ++ [v']) reports' := by
  cases h with
  | pushing => exact .testing

theorem InCall.test (h : InCall numMessages vec reports v .testing vec' reports') :
    InCall numMessages vec reports v
      (if vec'.length = numMessages then .sorting else .returning) vec' reports' := by
  cases h with
  | testing =>
    split
    · exact .sorting ‹_›
    · exact .kept ‹_›

theorem InCall.sort (h : InCall numMessages vec reports v .sorting vec' reports') :
    InCall numMessages vec reports v .printing (vec'.insertionSort (· ≤ ·)) reports' := by
  cases h with
  | sorting hfull => exact .printing hfull

/-- The sorted vector is not empty, so both indices are in bounds. -/
theorem InCall.print (h : InCall numMessages vec reports v .printing vec' reports') :
    ∃ r, printSorted vec' = some r ∧
      InCall numMessages vec reports v .clearing vec' (reports' ++ [r]) := by
  cases h with
  | printing hfull =>
    obtain ⟨r,hr,_⟩ := printStats_of_ne_nil (List.append_ne_nil_of_right_ne_nil vec
      (List.cons_ne_nil v []))
    exact ⟨r,hr,.clearing hfull r hr _⟩

theorem InCall.clear (h : InCall numMessages vec reports v .clearing vec' reports') :
    InCall numMessages vec reports v .returning [] reports' := by
  cases h with
  | clearing hfull r hr array => exact .cleared hfull r hr

end Statements

theorem InCall.returned {done vec vec' : List ℤ} {reports reports' : List Report} {v : ℤ}
    (hb : Batched numMessages done vec reports)
    (h : InCall numMessages vec reports v .returning vec' reports') :
    Batched numMessages (done ++ [v]) vec' reports' := by
  cases h with
  | kept hlow => exact hb.low hlow
  | cleared hfull r hr => exact hb.full hfull hr

theorem InCall.unmodified {vec vec' : List ℤ} {reports reports' : List Report} {v : ℤ} {pc : SinkPc}
    (h : InCall numMessages vec reports v pc vec' reports') (hpc : ¬ pc.Modifying) :
    vec' = vec ∧ reports' = reports := by
  cases h with
  | pushing => exact ⟨rfl,rfl⟩
  | _ => exact absurd trivial hpc

/-! ## The invariant -/

structure SinkInv (numMessages : ℕ) (s : SinkWorkers) : Prop where
  unpoisoned : s.memory.vecPoisoned = false
  mutex : ∀ w, (s.worker w).Inside ↔ s.holder = some w
  free : s.holder = none → s.completed = s.calls.length ∧
    Batched numMessages s.calls s.memory.latencyVec s.memory.reports
  held : ∀ w, s.holder = some w → ∃ done v vec reports, s.calls = done ++ [v] ∧
    s.completed = done.length ∧ Batched numMessages done vec reports ∧
    InCall numMessages vec reports v (s.worker w) s.memory.latencyVec s.memory.reports

variable {s t : SinkWorkers} {w : ℕ} {pc : SinkPc} {l : SinkLabel} {ls : List SinkLabel}

theorem SinkInv.init : SinkInv numMessages SinkWorkers.init where
  unpoisoned := rfl
  mutex w := by simp [SinkWorkers.init, SinkPc.Inside]
  free _ := ⟨rfl,rfl,.nil⟩
  held w h := by simp [SinkWorkers.init] at h

theorem SinkInv.inCall (h : SinkInv numMessages s) (hpc : s.worker w = pc) (hinside : pc.Inside) :
    s.holder = some w ∧ ∃ done v vec reports, s.calls = done ++ [v] ∧
      s.completed = done.length ∧ Batched numMessages done vec reports ∧
      InCall numMessages vec reports v pc s.memory.latencyVec s.memory.reports := by
  have hw := (h.mutex w).mp (hpc ▸ hinside)
  exact ⟨hw,hpc ▸ h.held w hw⟩

/-- A worker moves outside the mutex. -/
theorem SinkInv.outside (h : SinkInv numMessages s) (hw : ¬ (s.worker w).Inside)
    (hpc : ¬ pc.Inside) : SinkInv numMessages (s.goto w pc) where
  unpoisoned := h.unpoisoned
  mutex k := by
    by_cases hk : k = w
    · subst hk
      simpa [SinkWorkers.goto, hpc] using fun hheld => hw ((h.mutex k).mpr hheld)
    · simpa [SinkWorkers.goto, hk] using h.mutex k
  free := h.free
  held k hk := by
    have hne : k ≠ w := by
      rintro rfl
      exact hw ((h.mutex k).mpr hk)
    simpa [SinkWorkers.goto, hne] using h.held k hk

/-- The holder of the mutex moves on inside. -/
theorem SinkInv.inside {memory : State} {pc' : SinkPc} (h : SinkInv numMessages s)
    (hpc : s.worker w = pc) (hinside : pc.Inside) (hinside' : pc'.Inside)
    (hunpoisoned : memory.vecPoisoned = false)
    (hnext : ∀ {vec reports v},
      InCall numMessages vec reports v pc s.memory.latencyVec s.memory.reports →
        InCall numMessages vec reports v pc' memory.latencyVec memory.reports) :
    SinkInv numMessages { s.goto w pc' with memory := memory } := by
  obtain ⟨hw,done,v,vec,reports,hcalls,hdone,hb,hin⟩ := h.inCall hpc hinside
  refine ⟨hunpoisoned,fun k => ?_,fun hnone => ?_,fun k hk => ?_⟩
  · by_cases hk : k = w
    · subst hk
      simpa [SinkWorkers.goto, hinside'] using hw
    · simpa [SinkWorkers.goto, hk] using h.mutex k
  · have hsome : s.holder = none := hnone
    rw [hw] at hsome
    cases hsome
  · have hkw : k = w := by
      have hheld : s.holder = some k := hk
      rw [hw] at hheld
      exact (Option.some.inj hheld).symm
    subst hkw
    refine ⟨done,v,vec,reports,hcalls,hdone,hb,?_⟩
    simpa [SinkWorkers.goto] using hnext hin

/-- A worker takes the lock: its call is the next one. -/
theorem SinkInv.lock {v : ℤ} (h : SinkInv numMessages s) (hfree : s.holder = none) :
    SinkInv numMessages { s.goto w (.pushing v) with
      holder := some w, calls := s.calls ++ [v] } where
  unpoisoned := h.unpoisoned
  mutex k := by
    by_cases hk : k = w
    · simp [SinkWorkers.goto, hk, SinkPc.Inside]
    · have hout := h.mutex k
      rw [hfree] at hout
      simpa [SinkWorkers.goto, hk, Ne.symm hk] using hout
  free hnone := by simp at hnone
  held k hk := by
    obtain ⟨hdone,hb⟩ := h.free hfree
    have hkw : w = k := by simpa using hk
    subst hkw
    refine ⟨s.calls,v,_,_,rfl,hdone,hb,?_⟩
    simpa [SinkWorkers.goto] using InCall.pushing

/-- The guard is dropped at the end of the call. -/
theorem SinkInv.unlock (h : SinkInv numMessages s) (hpc : s.worker w = .returning) :
    SinkInv numMessages { s.goto w .idle with
      holder := none, completed := s.completed + 1 } := by
  obtain ⟨hw,done,v,vec,reports,hcalls,hdone,hb,hin⟩ := h.inCall hpc trivial
  refine ⟨h.unpoisoned,fun k => ?_,fun _ => ⟨?_,?_⟩,fun k hk => ?_⟩
  · by_cases hk : k = w
    · simp [SinkWorkers.goto, hk, SinkPc.Inside]
    · have hout : ¬ (s.worker k).Inside := by
        intro hin
        have hheld := (h.mutex k).mp hin
        rw [hw] at hheld
        exact hk (Option.some.inj hheld).symm
      simpa [SinkWorkers.goto, hk] using hout
  · simp [SinkWorkers.goto, hcalls, hdone]
  · have hreturned := hin.returned hb
    rw [← hcalls] at hreturned
    exact hreturned
  · simp at hk

theorem sinkStep_inv (h : SinkInv numMessages s)
    (hs : sinkStep numRelays numMessages s l = some t) : SinkInv numMessages t := by
  cases l with
  | call w elapsed arg =>
    simp only [sinkStep, Option.ite_none_right_eq_some, Option.some.injEq] at hs
    obtain ⟨hidle,rfl⟩ := hs
    have hw : ¬ (s.worker w).Inside := by simp [hidle, SinkPc.Inside]
    split <;> exact h.outside hw (by simp [SinkPc.Inside])
  | run w =>
    cases hpc : s.worker w with
    | idle => simp [sinkStep, hpc] at hs
    | panicked => simp [sinkStep, hpc] at hs
    | locking v =>
      simp only [sinkStep, hpc, Option.ite_none_right_eq_some, Option.some.injEq,
        h.unpoisoned, Bool.false_eq_true, if_false] at hs
      obtain ⟨hfree,rfl⟩ := hs
      exact h.lock hfree
    | returning =>
      simp only [sinkStep, hpc, Option.some.injEq] at hs
      exact hs ▸ h.unlock hpc
    | pushing v =>
      simp only [sinkStep, hpc, Option.some.injEq] at hs
      exact hs ▸ h.inside hpc trivial trivial h.unpoisoned (fun hin => hin.push)
    | testing =>
      simp only [sinkStep, hpc, Option.some.injEq] at hs
      refine hs ▸ h.inside hpc trivial ?_ h.unpoisoned (fun hin => hin.test)
      split <;> trivial
    | sorting =>
      simp only [sinkStep, hpc, Option.some.injEq] at hs
      exact hs ▸ h.inside hpc trivial trivial h.unpoisoned (fun hin => hin.sort)
    | printing =>
      obtain ⟨_,_,_,_,_,_,_,_,hin⟩ := h.inCall hpc trivial
      obtain ⟨r,hr,_⟩ := hin.print
      simp only [sinkStep, hpc, hr, Option.some.injEq] at hs
      refine hs ▸ h.inside hpc trivial trivial h.unpoisoned (fun hin => ?_)
      obtain ⟨r',hr',hnext⟩ := hin.print
      rw [hr] at hr'
      cases hr'
      exact hnext
    | clearing =>
      simp only [sinkStep, hpc, Option.some.injEq] at hs
      exact hs ▸ h.inside hpc trivial trivial h.unpoisoned (fun hin => hin.clear)

theorem exec_sinkInv (h : exec (sinkStep numRelays numMessages) SinkWorkers.init ls = some s) :
    SinkInv numMessages s :=
  exec_invariant SinkInv.init (fun _ _ _ hi hs => sinkStep_inv hi hs) h

/-! ## Batches -/

/-- The latencies of the completed calls, in the order in which they took the lock. -/
def SinkWorkers.done (s : SinkWorkers) : List ℤ := s.calls.take s.completed

/-- What the calls completed so far have left. -/
structure Accounted (numMessages : ℕ) (s : SinkWorkers) : Prop where
  completed : s.done.length = s.completed
  /-- The vector holds the last `completed % numMessages` latencies. -/
  vec_length : s.memory.latencyVec.length = s.completed % numMessages
  vec : s.memory.latencyVec = s.done.drop (s.completed - s.completed % numMessages)
  reports_length : s.memory.reports.length = s.completed / numMessages
  /-- Report `j` is of the calls `numMessages * j` to `numMessages * (j + 1) - 1`. -/
  report : ∀ j < s.completed / numMessages, ∃ r, s.memory.reports[j]? = some r ∧
    printStats (batch numMessages s.done j) = some r ∧
      (batch numMessages s.done j).length = numMessages
  /-- Every latency is in one report or in the vector. -/
  partition : ((s.memory.reports.map Report.array).flatten ++ s.memory.latencyVec).Perm s.done

theorem flatten_perm {bs : List (List ℤ)} {rs : List Report}
    (h : List.Forall₂ (fun b r => printStats b = some r) bs rs) :
    (rs.map Report.array).flatten.Perm bs.flatten := by
  induction h with
  | nil => exact .refl _
  | cons hr _ ih => exact (printStats_array hr).append ih

theorem Batched.accounted (hM : 0 < numMessages)
    (h : Batched numMessages s.done s.memory.latencyVec s.memory.reports)
    (hdone : s.done.length = s.completed) : Accounted numMessages s := by
  obtain ⟨hwaiting,hbatches⟩ := fill_eq hM s.done
  have hreported := h.reported
  rw [hbatches, hdone] at hreported
  have hlength : s.memory.reports.length = s.completed / numMessages := by
    simpa using hreported.length_eq.symm
  refine ⟨hdone,?_,?_,hlength,fun j hj => ?_,?_⟩
  · rw [h.waiting, fill_waiting_length hM, hdone]
  · have hmod := Nat.div_add_mod s.completed numMessages
    rw [h.waiting, hwaiting, hdone]
    congr 1
    omega
  · have hr := hreported.get (i := j) (by simpa using hj) (by omega)
    refine ⟨_,List.getElem?_eq_getElem (by omega),by simpa using hr,?_⟩
    exact batch_length (hdone.symm ▸ batch_le hj)
  · have hflatten := fill_flatten numMessages s.done
    rw [← h.waiting] at hflatten
    exact ((flatten_perm h.reported).append_right _).trans (.of_eq hflatten)

/-- For any number of workers and every order in which they take the lock: whenever no call
is between its push and its end, the calls completed so far are accounted for. -/
theorem exec_accounted (hM : 0 < numMessages)
    (h : exec (sinkStep numRelays numMessages) SinkWorkers.init ls = some s)
    (hrest : ∀ w, ¬ (s.worker w).Modifying) : Accounted numMessages s := by
  have hinv := exec_sinkInv h
  cases hholder : s.holder with
  | none =>
    obtain ⟨hcompleted,hb⟩ := hinv.free hholder
    have hdone : s.done = s.calls := List.take_of_length_le hcompleted.ge
    exact Batched.accounted hM (hdone ▸ hb) (hdone ▸ hcompleted.symm)
  | some w =>
    obtain ⟨done,v,vec,reports,hcalls,hcompleted,hb,hin⟩ := hinv.held w hholder
    obtain ⟨hvec,hreports⟩ := hin.unmodified (hrest w)
    have hdone : s.done = done := by
      rw [SinkWorkers.done, hcalls, hcompleted, List.take_left']
      rfl
    rw [← hvec, ← hreports, ← hdone] at hb
    exact hb.accounted hM (by rw [hdone, hcompleted])

/-- Two workers, the later call first at the lock; the second fills the vector. -/
def twoWorkers : List SinkLabel :=
  [.call 0 25 ⟨0,5,"client"⟩,.call 1 9 ⟨1,5,"client"⟩] ++
    List.replicate 4 (.run 1) ++ List.replicate 7 (.run 0)

theorem exec_accounted_twoWorkers : ∃ s,
    exec (sinkStep 1 2) SinkWorkers.init twoWorkers = some s ∧
      (∀ w, ¬ (s.worker w).Modifying) ∧ s.memory.reports.length = 1 ∧ Accounted 2 s := by
  have hrun : (exec (sinkStep 1 2) SinkWorkers.init twoWorkers).map
      (fun s => (s.holder,s.completed)) = some (none,2) := rfl
  obtain ⟨s,hs,hend⟩ := Option.map_eq_some_iff.mp hrun
  obtain ⟨hholder,hcompleted⟩ := Prod.mk.inj hend
  have hrest : ∀ w, ¬ (s.worker w).Modifying := by
    intro w hw
    have hheld := ((exec_sinkInv hs).mutex w).mp hw.inside
    rw [hholder] at hheld
    cases hheld
  have haccounted := exec_accounted Nat.two_pos hs hrest
  exact ⟨s,hs,hrest,by rw [haccounted.reports_length, hcompleted],haccounted⟩

end RelayBench.ThriftRs
