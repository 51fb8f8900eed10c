import Mathlib

/-! # First-in first-out hops with a worker between two queues

Worker `i` takes from queue `i` into its hand and hands on to queue `i+1`. `flow` lists
what is on the way, nearest to the end first, so that taking and handing on only move
a bracket, sending appends at the back and losing leaves a sublist.
-/
namespace RelayBench.HopQueues
open Function
variable {α : Type*}

/-- Everything in queues `n`, …, `0` and in the hands of workers `n-1`, …, `0`. -/
def flow (queue hand : ℕ → List α) : ℕ → List α
  | 0 => queue 0
  | n + 1 => queue (n + 1) ++ (hand n ++ flow queue hand n)

theorem flow_congr {queue queue' hand hand' : ℕ → List α} {n : ℕ}
    (hq : ∀ i ≤ n, queue i = queue' i) (hh : ∀ i < n, hand i = hand' i) :
    flow queue hand n = flow queue' hand' n := by
  induction n with
  | zero => exact hq 0 le_rfl
  | succ n ih =>
    have hflow := ih (fun i hi => hq i (by omega)) (fun i hi => hh i (by omega))
    simp only [flow, hq (n + 1) le_rfl, hh n (by omega), hflow]

theorem mem_flow {queue hand : ℕ → List α} {n : ℕ} {m : α} :
    m ∈ flow queue hand n ↔ (∃ i ≤ n, m ∈ queue i) ∨ ∃ i < n, m ∈ hand i := by
  induction n with
  | zero => simp [flow]
  | succ n ih =>
    simp only [flow, List.mem_append, ih, Nat.le_succ_iff, Nat.lt_succ_iff_lt_or_eq]
    grind

/-- Sending puts the message at the back of everything on the way. -/
theorem flow_send (queue hand : ℕ → List α) (m : α) (n : ℕ) :
    flow (update queue 0 (queue 0 ++ [m])) hand n = flow queue hand n ++ [m] := by
  induction n with
  | zero => simp [flow]
  | succ n ih => simp [flow, ih, List.append_assoc]

/-- Taking a message in hand moves no message past another. -/
theorem flow_take {queue hand : ℕ → List α} {i n : ℕ} {m : α} {rest : List α}
    (hi : i < n) (hq : queue i = m :: rest) (hh : hand i = []) :
    flow (update queue i rest) (update hand i [m]) n = flow queue hand n := by
  induction n with
  | zero => omega
  | succ n ih =>
    rcases Nat.lt_succ_iff_lt_or_eq.mp hi with hlt | rfl
    · have hq' : update queue i rest (n + 1) = queue (n + 1) := update_of_ne (by omega) _ _
      have hh' : update hand i [m] n = hand n := update_of_ne (by omega) _ _
      simp only [flow, hq', hh', ih hlt]
    · have hq' : update queue i rest (i + 1) = queue (i + 1) := update_of_ne (by omega) _ _
      have hback : m :: flow (update queue i rest) (update hand i [m]) i = flow queue hand i := by
        cases i with
        | zero => simp [flow, hq]
        | succ k =>
          have hlow : flow (update queue (k + 1) rest) (update hand (k + 1) [m]) k =
              flow queue hand k :=
            flow_congr (fun j hj => update_of_ne (by omega) _ _)
              (fun j hj => update_of_ne (by omega) _ _)
          simp [flow, hlow, hq]
      simp only [flow, hq', update_self, hh, List.nil_append, List.singleton_append, hback]

/-- Handing on moves no message past another. -/
theorem flow_handOn {queue hand : ℕ → List α} {i n : ℕ} {m : α}
    (hi : i < n) (hh : hand i = [m]) :
    flow (update queue (i + 1) (queue (i + 1) ++ [m])) (update hand i []) n =
      flow queue hand n := by
  induction n with
  | zero => omega
  | succ n ih =>
    rcases Nat.lt_succ_iff_lt_or_eq.mp hi with hlt | rfl
    · have hh' : update hand i [] n = hand n := update_of_ne (by omega) _ _
      by_cases hin : i + 1 = n + 1
      · omega
      · have hq' : update queue (i + 1) (queue (i + 1) ++ [m]) (n + 1) = queue (n + 1) :=
          update_of_ne (Ne.symm hin) _ _
        simp only [flow, hq', hh', ih hlt]
    · have hlow : flow (update queue (i + 1) (queue (i + 1) ++ [m])) (update hand i []) i =
          flow queue hand i :=
        flow_congr (fun j hj => update_of_ne (by omega) _ _)
          (fun j hj => update_of_ne (by omega) _ _)
      simp [flow, hlow, hh]

/-- Losing messages of one queue leaves a sublist of what was on the way. -/
theorem flow_lose {queue : ℕ → List α} (hand : ℕ → List α) {i : ℕ} {kept : List α}
    (hk : kept.Sublist (queue i)) (n : ℕ) :
    (flow (update queue i kept) hand n).Sublist (flow queue hand n) := by
  have hqueue (j : ℕ) : (update queue i kept j).Sublist (queue j) := by
    by_cases hj : j = i
    · subst hj
      simpa using hk
    · rw [update_of_ne hj]
  induction n with
  | zero => exact hqueue 0
  | succ n ih => exact (hqueue (n + 1)).append ((List.Sublist.refl _).append ih)

/-- What a queue loses and what stays on the way make up what was on the way. -/
theorem flow_lose_perm {queue : ℕ → List α} (hand : ℕ → List α) {i n : ℕ} {kept lost : List α}
    (hi : i ≤ n) (hk : (kept ++ lost).Perm (queue i)) :
    (flow (update queue i kept) hand n ++ lost).Perm (flow queue hand n) := by
  induction n with
  | zero =>
    obtain rfl : i = 0 := by omega
    simpa [flow] using hk
  | succ n ih =>
    rcases Nat.le_succ_iff.mp hi with hle | rfl
    · have hq : update queue i kept (n + 1) = queue (n + 1) := update_of_ne (by omega) _ _
      simp only [flow, hq, List.append_assoc]
      exact ((ih hle).append_left _).append_left _
    · have hlow : flow (update queue (n + 1) kept) hand n = flow queue hand n :=
        flow_congr (fun j hj => update_of_ne (by omega) _ _) (fun _ _ => rfl)
      simp only [flow, update_self, hlow, List.append_assoc]
      have hswap : (hand n ++ (flow queue hand n ++ lost)).Perm
          (lost ++ (hand n ++ flow queue hand n)) := by
        simpa using (List.perm_append_comm : (hand n ++ flow queue hand n ++ lost).Perm _)
      exact (hswap.append_left kept).trans (by simpa using hk.append_right _)

section Overwriting
variable {queue hand : ℕ → List α} {i n : ℕ} {m : α}

/-- Sending over the `k` oldest messages of the first queue. -/
theorem flow_send_over (queue hand : ℕ → List α) (m : α) (k n : ℕ) :
    (flow (update queue 0 ((queue 0).drop k ++ [m])) hand n).Sublist
      (flow queue hand n ++ [m]) := by
  have hs := flow_send (update queue 0 ((queue 0).drop k)) hand m n
  simp only [update_self, update_idem] at hs
  rw [hs]
  exact (flow_lose hand (List.drop_sublist k _) n).append_right [m]

theorem flow_send_over_perm (queue hand : ℕ → List α) (m : α) (k n : ℕ) :
    (flow (update queue 0 ((queue 0).drop k ++ [m])) hand n ++ (queue 0).take k).Perm
      (flow queue hand n ++ [m]) := by
  have hs := flow_send (update queue 0 ((queue 0).drop k)) hand m n
  simp only [update_self, update_idem] at hs
  have hsplit : ((queue 0).drop k ++ (queue 0).take k).Perm (queue 0) := by
    simpa using (List.perm_append_comm : ((queue 0).drop k ++ (queue 0).take k).Perm _)
  have hl := (flow_lose_perm hand (Nat.zero_le n) hsplit).append_right [m]
  rw [hs]
  refine List.Perm.trans ?_ hl
  simpa only [List.append_assoc] using (List.perm_append_comm.append_left _)

/-- Handing on over the `k` oldest messages of the next queue. -/
theorem flow_handOn_over (k : ℕ) (hi : i < n) (hh : hand i = [m]) :
    (flow (update queue (i + 1) ((queue (i + 1)).drop k ++ [m])) (update hand i []) n).Sublist
      (flow queue hand n) := by
  have hs := @flow_handOn α (update queue (i + 1) ((queue (i + 1)).drop k)) hand i n m hi hh
  simp only [update_self, update_idem] at hs
  rw [hs]
  exact flow_lose hand (List.drop_sublist k _) n

theorem flow_handOn_over_perm (k : ℕ) (hi : i < n) (hh : hand i = [m]) :
    (flow (update queue (i + 1) ((queue (i + 1)).drop k ++ [m])) (update hand i []) n ++
      (queue (i + 1)).take k).Perm (flow queue hand n) := by
  have hs := @flow_handOn α (update queue (i + 1) ((queue (i + 1)).drop k)) hand i n m hi hh
  simp only [update_self, update_idem] at hs
  have hsplit : ((queue (i + 1)).drop k ++ (queue (i + 1)).take k).Perm (queue (i + 1)) := by
    simpa using (List.perm_append_comm : ((queue (i + 1)).drop k ++ (queue (i + 1)).take k).Perm _)
  rw [hs]
  exact flow_lose_perm hand (by omega) hsplit

end Overwriting

/-- The message at the end leaves from the front of everything on the way. -/
theorem flow_leave {queue hand : ℕ → List α} {n : ℕ} {m : α} {rest : List α}
    (hq : queue n = m :: rest) :
    m :: flow (update queue n rest) hand n = flow queue hand n := by
  cases n with
  | zero => simp [flow, hq]
  | succ n =>
    have hlow : flow (update queue (n + 1) rest) hand n = flow queue hand n :=
      flow_congr (fun j hj => update_of_ne (by omega) _ _) (fun _ _ => rfl)
    simp [flow, hlow, hq]

end RelayBench.HopQueues
