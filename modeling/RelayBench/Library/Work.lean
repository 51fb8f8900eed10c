import RelayBench.Library.Execution

/-! # The work of a run

Steps do work that is left and may add new work. Where every step keeps this balance, the
labels of a run say how much is left after it; where the steps of a kind do work and add none,
no run of them goes on for ever.
-/
namespace RelayBench.Work
open Execution
variable {S L : Type*}

/-- Every step keeps the invariant, and the balance of the work left, done and added. -/
structure Balanced (step : S → L → Option S) (Inv : S → Prop) (work : S → ℕ) (done added : L → ℕ) :
    Prop where
  inv : ∀ s l t, Inv s → step s l = some t → Inv t
  balance : ∀ s l t, Inv s → step s l = some t → work t + done l = work s + added l

/-- No step of this kind can be taken. -/
def Halted (step : S → L → Option S) (Kind : L → Prop) (s : S) : Prop :=
  ∀ l, Kind l → step s l = none

/-- Steps of this kind do work and add none. -/
def Finite (Kind : L → Prop) (done added : L → ℕ) : Prop :=
  ∀ l, Kind l → 0 < done l ∧ added l = 0

variable {step : S → L → Option S} {Inv : S → Prop} {work : S → ℕ} {done added : L → ℕ}
variable {Kind : L → Prop} {s t : S} {ls : List L}

theorem Balanced.exec_inv (hb : Balanced step Inv work done added) (hs : Inv s)
    (h : exec step s ls = some t) : Inv t :=
  exec_invariant hs (fun s l t hi hl => hb.inv s l t hi hl) h

/-- The balance of a whole run. -/
theorem Balanced.exec_balance (hb : Balanced step Inv work done added) (hs : Inv s)
    (h : exec step s ls = some t) :
    work t + (ls.map done).sum = work s + (ls.map added).sum := by
  induction ls generalizing s with
  | nil =>
    cases h
    rfl
  | cons l ls ih =>
    obtain ⟨u,hu,hl⟩ := Option.bind_eq_some_iff.mp h
    have hfirst := hb.balance s l u hs hu
    have hrest := ih (hb.inv s l u hs hu) hl
    rw [List.map_cons, List.map_cons, List.sum_cons, List.sum_cons]
    omega

/-- The balance of a run that no step adds work to. -/
theorem Balanced.exec_done (hb : Balanced step Inv work done (fun _ => 0)) (hs : Inv s)
    (h : exec step s ls = some t) : work t + (ls.map done).sum = work s := by
  have hbalance := hb.exec_balance hs h
  rwa [List.map_const', List.sum_replicate, smul_zero, Nat.add_zero] at hbalance

theorem countP_le_done [DecidablePred Kind] (hdone : ∀ l, Kind l → 0 < done l) (ls : List L) :
    ls.countP (fun l => Kind l) ≤ (ls.map done).sum := by
  induction ls with
  | nil => exact le_rfl
  | cons l ls ih =>
    rw [List.countP_cons, List.map_cons, List.sum_cons]
    by_cases hl : Kind l
    · have hpos := hdone l hl
      simp only [hl, decide_true, if_true]
      omega
    · simp only [hl, decide_false, Bool.false_eq_true, if_false]
      omega

theorem done_eq_length (hdone : ∀ l ∈ ls, done l = 1) : (ls.map done).sum = ls.length := by
  rw [List.map_congr_left hdone, List.map_const', List.sum_replicate, smul_eq_mul, Nat.mul_one]

/-- From every state such steps lead to one in which there are none left to take. -/
theorem Balanced.exists_halted (hb : Balanced step Inv work done added)
    (hfinite : Finite Kind done added) (hs : Inv s) :
    ∃ ls t, (∀ l ∈ ls, Kind l) ∧ exec step s ls = some t ∧ Halted step Kind t := by
  induction hw : work s using Nat.strongRecOn generalizing s with
  | ind n ih =>
    subst hw
    by_cases hhalted : Halted step Kind s
    · exact ⟨[],s,by simp,rfl,hhalted⟩
    · obtain ⟨l,hl⟩ := not_forall.mp hhalted
      obtain ⟨hkind,hstep⟩ := Classical.not_imp.mp hl
      obtain ⟨u,hu⟩ := Option.ne_none_iff_exists'.mp hstep
      have hbalance := hb.balance s l u hs hu
      obtain ⟨hdone,hadded⟩ := hfinite l hkind
      obtain ⟨ls,t,hls,hrun,ht⟩ := ih (work u) (by omega) (hb.inv s l u hs hu) rfl
      refine ⟨l :: ls,t,?_,exec_step hu hrun,ht⟩
      intro x hx
      rcases List.mem_cons.mp hx with rfl | hx
      · exact hkind
      · exact hls x hx

/-- What is left in all places, when it changes in one of them. -/
theorem sum_replace {ι : Type*} [DecidableEq ι] {places : Finset ι} {old new : ι → ℕ} {i : ι}
    (hi : i ∈ places) (hother : ∀ j ≠ i, new j = old j) :
    ∑ j ∈ places, new j + old i = ∑ j ∈ places, old j + new i := by
  have hrest : ∑ j ∈ places.erase i, new j = ∑ j ∈ places.erase i, old j :=
    Finset.sum_congr rfl (fun j hj => hother j (Finset.ne_of_mem_erase hj))
  have hnew := Finset.add_sum_erase places new hi
  have hold := Finset.add_sum_erase places old hi
  omega

end RelayBench.Work
