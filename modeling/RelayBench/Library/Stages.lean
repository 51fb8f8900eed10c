import Mathlib

/-! # Stages that hand on what they handle

Stage `k` is sent some things, has handled part of them and not the rest; the next stage
is sent what it handled. Nothing is duplicated, so what the last stage has handled and
what was left behind on the way add up to what the first stage was sent.
-/
namespace RelayBench.Conservation
open Finset
variable {α : Type*}

structure Stages (sent handled rest : ℕ → List α) (n : ℕ) : Prop where
  split : ∀ k ≤ n, (handled k ++ rest k).Perm (sent k)
  next : ∀ k < n, (sent (k + 1)).Perm (handled k)

variable {sent handled rest : ℕ → List α} {n : ℕ}

theorem Stages.mono (h : Stages sent handled rest n) {k : ℕ} (hk : k ≤ n) :
    Stages sent handled rest k :=
  ⟨fun j hj => h.split j (hj.trans hk),fun j hj => h.next j (by omega)⟩

theorem Stages.length_add (h : Stages sent handled rest n) :
    (handled n).length + ∑ k ∈ range (n + 1), (rest k).length = (sent 0).length := by
  induction n with
  | zero => simpa using (h.split 0 le_rfl).length_eq
  | succ n ih =>
    have hlow := ih (h.mono (Nat.le_succ n))
    have hsplit := (h.split (n + 1) le_rfl).length_eq
    have hnext := (h.next n (Nat.lt_succ_self n)).length_eq
    rw [List.length_append] at hsplit
    rw [sum_range_succ]
    omega

theorem Stages.handled_length_le (h : Stages sent handled rest n) :
    (handled n).length ≤ (sent 0).length := by
  have := h.length_add
  omega

/-- When the last stage has handled as many as were sent, nothing was left anywhere. -/
theorem Stages.rest_eq_nil (h : Stages sent handled rest n)
    (hfull : (sent 0).length ≤ (handled n).length) {k : ℕ} (hk : k ≤ n) : rest k = [] := by
  have hle : (rest k).length ≤ ∑ j ∈ range (n + 1), (rest j).length :=
    single_le_sum (f := fun j => (rest j).length) (fun _ _ => Nat.zero_le _)
      (mem_range.mpr (by omega))
  have := h.length_add
  exact List.eq_nil_of_length_eq_zero (by omega)

/-- When nothing was left, every stage has handled exactly what was sent. -/
theorem Stages.handled_perm (h : Stages sent handled rest n) (hnil : ∀ k ≤ n, rest k = []) :
    (handled n).Perm (sent 0) := by
  have hsplit {k : ℕ} (hk : k ≤ n) : (handled k).Perm (sent k) := by
    simpa [hnil k hk] using h.split k hk
  induction n with
  | zero => exact hsplit le_rfl
  | succ n ih =>
    have hlow := ih (h.mono (Nat.le_succ n)) (fun k hk => hnil k (by omega))
      (fun hk => hsplit (by omega))
    exact (hsplit le_rfl).trans ((h.next n (Nat.lt_succ_self n)).trans hlow)

end RelayBench.Conservation
