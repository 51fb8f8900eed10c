import RelayBench.Common.Timing
import RelayBench.Library.OrderStatistics

/-! # The percentile report of the sinks

Every sink copies or holds its samples in a vector, sorts it and reads two indices. The
unordered multiset of the C++ sinks is kept as a list: only its size and its sorted copy
are ever read.
-/
namespace RelayBench
open OrderStatistics

/-- A printed report: the sorted samples and the two figures in microseconds. -/
structure Report where
  array : List ℤ
  p50 : ℤ
  p90 : ℤ
deriving DecidableEq, Repr

/-- Sort, read at `n / 2` and `n * 9 / 10`, divide by 1000; none when an index is out of
bounds. -/
def printStats (data : List ℤ) : Option Report := do
  let array := data.insertionSort (· ≤ ·)
  let p50 ← array[array.length / 2]?
  let p90 ← array[array.length * 9 / 10]?
  return ⟨array,p50.tdiv 1000,p90.tdiv 1000⟩

/-- An index held in an `int`; a negative one is out of bounds. -/
def intIndex (array : List ℤ) (i : ℕ) : Option ℤ :=
  if asI32 i < 0 then none else array[(asI32 i).toNat]?

/-- `print_stats` of the C++ sinks, whose two indices are of type `int`. -/
def printStatsInt (data : List ℤ) : Option Report := do
  let array := data.insertionSort (· ≤ ·)
  let p50 ← intIndex array (array.length / 2)
  let p90 ← intIndex array (array.length * 9 / 10)
  return ⟨array,p50.tdiv 1000,p90.tdiv 1000⟩

theorem intIndex_eq {array : List ℤ} {i : ℕ} (h : i < 2 ^ 31) : intIndex array i = array[i]? := by
  have hpos : ¬ (i : ℤ) < 0 := by omega
  rw [intIndex, asI32_of_lt h, if_neg hpos, Int.toNat_natCast]

/-- The `int` indices are the right ones of any collection that they can index. -/
theorem printStatsInt_eq {data : List ℤ} (h : data.length * 9 / 10 < 2 ^ 31) :
    printStatsInt data = printStats data := by
  have hlen := List.length_insertionSort (· ≤ ·) data
  have h50 : data.length / 2 < 2 ^ 31 := by omega
  simp only [printStatsInt, printStats, hlen, intIndex_eq h, intIndex_eq h50]

/-- The two figures are those of two order statistics. -/
theorem printStats_orderStat {data : List ℤ} {p50 p90 : ℤ}
    (h50 : orderStat data (data.length / 2) = some p50)
    (h90 : orderStat data (data.length * 9 / 10) = some p90) :
    printStats data = some ⟨sorted data,p50.tdiv 1000,p90.tdiv 1000⟩ := by
  have hlen := List.length_insertionSort (· ≤ ·) data
  unfold orderStat sorted at h50 h90
  simp only [printStats, hlen, h50, h90]
  rfl

theorem exists_percentiles {data : List ℤ} (h : data ≠ []) : ∃ p50 p90,
    orderStat data (data.length / 2) = some p50 ∧
    orderStat data (data.length * 9 / 10) = some p90 := by
  have hpos := List.length_pos_of_ne_nil h
  obtain ⟨p50,h50⟩ := exists_orderStat (show data.length / 2 < data.length by omega)
  obtain ⟨p90,h90⟩ := exists_orderStat (show data.length * 9 / 10 < data.length by omega)
  exact ⟨p50,p90,h50,h90⟩

/-- A report is printed from every non-empty collection, over exactly its samples. -/
theorem printStats_of_ne_nil {data : List ℤ} (h : data ≠ []) :
    ∃ r, printStats data = some r ∧ r.array.Perm data := by
  obtain ⟨p50,p90,h50,h90⟩ := exists_percentiles h
  exact ⟨_,printStats_orderStat h50 h90,sorted_perm data⟩

/-- The order in which the samples came does not show in the report. -/
theorem printStats_congr {data data' : List ℤ} (h : data'.Perm data) :
    printStats data' = printStats data := by
  have hsorted : data'.insertionSort (· ≤ ·) = data.insertionSort (· ≤ ·) := sorted_congr h
  rw [printStats, hsorted]
  rfl

theorem printStats_array {data : List ℤ} {r : Report} (h : printStats data = some r) :
    r.array.Perm data := by
  have hne : data ≠ [] := by
    rintro rfl
    simp [printStats] at h
  obtain ⟨r',hr,hp⟩ := printStats_of_ne_nil hne
  rw [hr] at h
  cases h
  exact hp

end RelayBench
