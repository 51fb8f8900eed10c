import Mathlib

/-! # Batches of a stream

A buffer is emptied each time it holds `size` elements. After `n` elements of a stream it
has emitted the `n / size` full batches of the stream in order, and holds the rest.
-/
namespace RelayBench.Batches
variable {α : Type*}

structure Buffer (α : Type*) where
  waiting : List α
  batches : List (List α)

/-- Add an element; a buffer that it fills is emitted and emptied. -/
def Buffer.add (size : ℕ) (b : Buffer α) (a : α) : Buffer α :=
  if (b.waiting ++ [a]).length = size then ⟨[],b.batches ++ [b.waiting ++ [a]]⟩
  else ⟨b.waiting ++ [a],b.batches⟩

def fill (size : ℕ) (as : List α) : Buffer α := as.foldl (Buffer.add size) ⟨[],[]⟩

/-- Elements `size * j` to `size * (j + 1) - 1` of the stream. -/
def batch (size : ℕ) (as : List α) (j : ℕ) : List α := (as.drop (size * j)).take size

variable {size : ℕ} {as : List α} {a : α}

theorem fill_snoc : fill size (as ++ [a]) = (fill size as).add size a := List.foldl_concat _ _ _ _

theorem add_full {b : Buffer α} (h : (b.waiting ++ [a]).length = size) :
    b.add size a = ⟨[],b.batches ++ [b.waiting ++ [a]]⟩ := if_pos h

theorem add_low {b : Buffer α} (h : (b.waiting ++ [a]).length ≠ size) :
    b.add size a = ⟨b.waiting ++ [a],b.batches⟩ := if_neg h

/-- Nothing is lost and nothing is emitted twice. -/
theorem fill_flatten (size : ℕ) (as : List α) :
    (fill size as).batches.flatten ++ (fill size as).waiting = as := by
  induction as using List.reverseRecOn with
  | nil => rfl
  | append_singleton as a ih =>
    rw [fill_snoc]
    unfold Buffer.add
    split
    · simp only [List.flatten_append, List.flatten_singleton, List.append_nil]
      rw [← List.append_assoc, ih]
    · rw [← List.append_assoc, ih]

theorem batch_append {j : ℕ} (h : size * j + size ≤ as.length) (bs : List α) :
    batch size (as ++ bs) j = batch size as j := by
  unfold batch
  rw [List.drop_append_of_le_length (by omega), List.take_append_of_le_length]
  rw [List.length_drop]
  omega

theorem batch_length {j : ℕ} (h : size * j + size ≤ as.length) :
    (batch size as j).length = size := by
  rw [batch, List.length_take, List.length_drop]
  omega

/-- Batch `j` lies within the stream when it is one of its full batches. -/
theorem batch_le {n j : ℕ} (h : j < n / size) : size * j + size ≤ n := by
  have hle : size * (j + 1) ≤ size * (n / size) := Nat.mul_le_mul_left size h
  have hdiv := Nat.mul_div_le n size
  rw [Nat.mul_succ] at hle
  omega

theorem fill_eq (hsize : 0 < size) (as : List α) :
    (fill size as).waiting = as.drop (size * (as.length / size)) ∧
      (fill size as).batches = (List.range (as.length / size)).map (batch size as) := by
  induction as using List.reverseRecOn with
  | nil => simp [fill]
  | append_singleton as a ih =>
    obtain ⟨hwaiting,hbatches⟩ := ih
    have hdiv := Nat.div_add_mod as.length size
    have hlength : (fill size as).waiting.length = as.length % size := by
      rw [hwaiting, List.length_drop]
      omega
    have hsame : (List.range (as.length / size)).map (batch size (as ++ [a])) =
        (List.range (as.length / size)).map (batch size as) := by
      apply List.map_congr_left
      intro j hj
      exact batch_append (batch_le (List.mem_range.mp hj)) [a]
    have hlast : as.drop (size * (as.length / size)) ++ [a] =
        (as ++ [a]).drop (size * (as.length / size)) := by
      rw [List.drop_append_of_le_length (Nat.mul_div_le _ _)]
    rw [fill_snoc, List.length_append, List.length_singleton]
    by_cases hfull : as.length % size + 1 = size
    · have hn : as.length + 1 = size * (as.length / size + 1) := by
        rw [Nat.mul_succ]
        omega
      have hnext : (as.length + 1) / size = as.length / size + 1 :=
        Nat.div_eq_of_eq_mul_right hsize hn
      have hbatch : batch size (as ++ [a]) (as.length / size) = (fill size as).waiting ++ [a] := by
        rw [batch, ← hlast, ← hwaiting, List.take_of_length_le]
        rw [List.length_append, List.length_singleton, hlength, hfull]
      rw [add_full (by rw [List.length_append, List.length_singleton, hlength, hfull]), hnext,
        List.range_succ, List.map_append, hsame, hbatches, ← hn]
      refine ⟨?_,?_⟩
      · rw [List.drop_of_length_le]
        simp
      · rw [List.map_singleton, hbatch]
    · have hmod := Nat.mod_lt as.length hsize
      have hnext : (as.length + 1) / size = as.length / size := by
        apply Nat.div_eq_of_lt_le
        · rw [Nat.mul_comm]
          omega
        · rw [Nat.add_mul, Nat.one_mul, Nat.mul_comm]
          omega
      rw [add_low (by rw [List.length_append, List.length_singleton, hlength]; exact hfull)]
      rw [hnext, hsame]
      exact ⟨by rw [hwaiting, hlast],hbatches⟩

theorem fill_waiting_length (hsize : 0 < size) (as : List α) :
    (fill size as).waiting.length = as.length % size := by
  have hdiv := Nat.div_add_mod as.length size
  rw [(fill_eq hsize as).1, List.length_drop]
  omega

end RelayBench.Batches
