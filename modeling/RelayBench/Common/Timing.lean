import Mathlib

/-! # The timing message and the arithmetic done on it

The C++ programs compute in `int64_t`, whose overflow is undefined, and are read over the
integers. The Rust programs are run from release builds, whose `i64` and `i32` operations
wrap; a division by zero or of the least value by minus one panics there too.
-/
namespace RelayBench

/-- `Timing.msg`, `timing.thrift` and the `Request` of `timing.proto`. -/
structure Timing where
  msgid : ℤ
  nanosec : ℤ
  source : String
deriving DecidableEq, Repr

/-- The C++ sinks: `(nanosec - arg.nanosec) / (kNumRelays + 1)`. -/
def nanosecPerHop (kNumRelays : ℕ) (nanosec sent : ℤ) : ℤ :=
  (nanosec - sent).tdiv (kNumRelays + 1)

theorem nanosecPerHop_nonneg (kNumRelays : ℕ) {nanosec sent : ℤ} (h : sent ≤ nanosec) :
    0 ≤ nanosecPerHop kNumRelays nanosec sent :=
  Int.tdiv_nonneg (by omega) (by omega)

/-! ## Fixed-width integers -/

/-- The values of an `i64`. -/
def InI64 (x : ℤ) : Prop := -2 ^ 63 ≤ x ∧ x < 2 ^ 63

instance (x : ℤ) : Decidable (InI64 x) := inferInstanceAs (Decidable (_ ∧ _))

/-- The values of an `i32`. -/
def InI32 (x : ℤ) : Prop := -2 ^ 31 ≤ x ∧ x < 2 ^ 31

instance (x : ℤ) : Decidable (InI32 x) := inferInstanceAs (Decidable (_ ∧ _))

/-- `as i64` of a wider integer, and the result of a wrapping `i64` operation. -/
def asI64 (x : ℤ) : ℤ := x.bmod (2 ^ 64)

/-- The result of a wrapping `i32` operation. -/
def asI32 (x : ℤ) : ℤ := x.bmod (2 ^ 32)

theorem asI64_inI64 (x : ℤ) : InI64 (asI64 x) := by
  have hle : -((2 ^ 64 : ℕ) / 2 : ℤ) ≤ x.bmod (2 ^ 64) := Int.le_bmod (by norm_num)
  have hlt : x.bmod (2 ^ 64) < ((2 ^ 64 : ℕ) + 1) / 2 := Int.bmod_lt (by norm_num)
  exact ⟨by simpa [asI64] using hle,by simpa [asI64] using hlt⟩

theorem asI64_of_inI64 {x : ℤ} (h : InI64 x) : asI64 x = x := by
  obtain ⟨hlo,hhi⟩ := h
  unfold asI64
  rw [Int.bmod_eq_of_le] <;> omega

theorem asI32_of_inI32 {x : ℤ} (h : InI32 x) : asI32 x = x := by
  obtain ⟨hlo,hhi⟩ := h
  unfold asI32
  rw [Int.bmod_eq_of_le] <;> omega

theorem asI32_of_lt {n : ℕ} (h : n < 2 ^ 31) : asI32 n = n :=
  asI32_of_inI32 ⟨by omega,by omega⟩

/-- `i64` division, none where it panics. -/
def divI64 (a b : ℤ) : Option ℤ :=
  if b = 0 ∨ (a = -2 ^ 63 ∧ b = -1) then none else some (a.tdiv b)

/-- The Rust sinks: `(elapsed - t.nanosec) / (index + 1) as i64`, the sum an `i32`. -/
def latency (index elapsed nanosec : ℤ) : Option ℤ :=
  divI64 (asI64 (elapsed - nanosec)) (asI32 (index + 1))

/-- `latency` of a build with overflow checks, in which the two sums panic instead. -/
def latencyChecked (index elapsed nanosec : ℤ) : Option ℤ :=
  if InI64 (elapsed - nanosec) ∧ InI32 (index + 1) then
    divI64 (elapsed - nanosec) (index + 1)
  else none

/-- No index below the largest `i32` makes the division panic; at the largest one the
sum wraps to the least value, which is not zero either. -/
theorem latency_isSome {n : ℕ} (h : n < 2 ^ 31) (elapsed nanosec : ℤ) :
    ∃ v, latency n elapsed nanosec = some v := by
  have hne : asI32 ((n : ℤ) + 1) ≠ 0 ∧ asI32 ((n : ℤ) + 1) ≠ -1 := by
    rcases Nat.lt_or_ge (n + 1) (2 ^ 31) with hlt | hge
    · have he := asI32_of_lt hlt
      push_cast at he
      rw [he]
      omega
    · have hn : (n : ℤ) + 1 = 2 ^ 31 := by omega
      have hw : asI32 (2 ^ 31) = -2 ^ 31 := by norm_num [asI32, Int.bmod]
      rw [hn, hw]
      norm_num
  refine ⟨(asI64 (elapsed - nanosec)).tdiv (asI32 ((n : ℤ) + 1)),?_⟩
  simp only [latency, divI64, hne.1, hne.2, and_false, or_self, if_false]

theorem latency_eq {n : ℕ} (h : n + 1 < 2 ^ 31) (elapsed nanosec : ℤ) :
    latency n elapsed nanosec = some ((asI64 (elapsed - nanosec)).tdiv (n + 1)) := by
  have hsum : asI32 ((n : ℤ) + 1) = n + 1 := by exact_mod_cast asI32_of_lt h
  have hne : ((n : ℤ) + 1 ≠ 0) ∧ ((n : ℤ) + 1 ≠ -1) := by omega
  simp only [latency, divI64, hsum, hne.1, hne.2, and_false, or_self, if_false]

/-- Where nothing overflows, the Rust sinks compute what the C++ sinks do. -/
theorem latency_eq_nanosecPerHop {n : ℕ} (h : n + 1 < 2 ^ 31) {elapsed nanosec : ℤ}
    (hd : InI64 (elapsed - nanosec)) :
    latency n elapsed nanosec = some (nanosecPerHop n elapsed nanosec) := by
  rw [latency_eq h, asI64_of_inI64 hd]
  rfl

/-! ## What a wrapped difference does to a quotient -/

theorem tdiv_eq_natAbs_lt {x y n : ℤ} (hn : n ≠ 0) (h : x.tdiv n = y.tdiv n) :
    (x - y).natAbs < 2 * n.natAbs := by
  have hx := Int.tmod_add_mul_tdiv x n
  have hy := Int.tmod_add_mul_tdiv y n
  have hpos : 0 < n.natAbs := Int.natAbs_pos.mpr hn
  have hrx : (x.tmod n).natAbs < n.natAbs := by
    rw [Int.natAbs_tmod]
    exact Nat.mod_lt _ hpos
  have hry : (y.tmod n).natAbs < n.natAbs := by
    rw [Int.natAbs_tmod]
    exact Nat.mod_lt _ hpos
  rw [h] at hx
  omega

theorem dvd_sub_asI64 (x : ℤ) : 2 ^ 64 ∣ x - asI64 x := by
  unfold asI64
  exact_mod_cast Int.dvd_self_sub_bmod

/-- Divided by a number of hops, a wrapped difference is not the exact one. -/
theorem inI64_of_tdiv_asI64 {x n : ℤ} (hn : n ≠ 0) (hsmall : n.natAbs ≤ 2 ^ 31)
    (h : (asI64 x).tdiv n = x.tdiv n) : InI64 x := by
  have hclose := tdiv_eq_natAbs_lt hn h
  obtain ⟨k,hk⟩ := dvd_sub_asI64 x
  have hsame : asI64 x = x := by omega
  exact hsame ▸ asI64_inI64 x

end RelayBench
