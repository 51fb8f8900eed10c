import RelayBench.Common.Timing

/-! # The sink as a process of its own

`mpsink` hands any `i32` of its command line to `sink_loop`, which computes with it for
every message. The arithmetic is exact except at two indices, at clocks past the `i64`
nanoseconds and at delays of that size.
-/
namespace RelayBench.Zenoh

/-! ## The command line -/

def digitValue (c : Char) : Option ℕ := if c.isDigit then some (c.toNat - '0'.toNat) else none

def parseDigits : List Char → Option ℕ
  | [] => none
  | cs => cs.foldlM (fun n c => (digitValue c).map (fun d => 10 * n + d)) 0

/-- `str::parse::<i32>`: a sign or none, at least one digit, and a value in range. -/
def parseI32 (s : String) : Option ℤ :=
  let value : Option ℤ :=
    match s.toList with
    | '-' :: cs => (parseDigits cs).map (fun n => -n)
    | '+' :: cs => (parseDigits cs).map (fun n => n)
    | cs => (parseDigits cs).map (fun n => n)
  value.bind (fun v => if InI32 v then some v else none)

inductive MpSink
  | usage
  | panicked
  | started (index : ℤ)
deriving DecidableEq, Repr

/-- `main` of `mpsink.rs` up to the call of `sink_loop`. -/
def mpsink (args : List String) : MpSink :=
  if args.length ≤ 1 then .usage
  else
    match args[1]?.bind parseI32 with
    | none => .panicked
    | some index => .started index

theorem parseI32_inI32 {s : String} {v : ℤ} (h : parseI32 s = some v) : InI32 v := by
  obtain ⟨w,_,hw⟩ := Option.bind_eq_some_iff.mp h
  obtain ⟨hin,hwv⟩ := Option.ite_none_right_eq_some.mp hw
  cases hwv
  exact hin

theorem mpsink_inI32 {args : List String} {index : ℤ} (h : mpsink args = .started index) :
    InI32 index := by
  unfold mpsink at h
  split at h
  · cases h
  · split at h
    · cases h
    · rename_i i hi
      cases h
      obtain ⟨arg,_,harg⟩ := Option.bind_eq_some_iff.mp hi
      exact parseI32_inI32 harg

/-! ## The arithmetic of one message -/

/-- The expression gives the exact quotient, with overflow checks and without. -/
def ExactLatency (index : ℤ) (clock : ℕ) (nanosec : ℤ) : Prop :=
  latencyChecked index (asI64 clock) nanosec = some ((clock - nanosec).tdiv (index + 1)) ∧
  latency index (asI64 clock) nanosec = some ((clock - nanosec).tdiv (index + 1))

/-- Where no step of the arithmetic overflows or divides by zero. -/
structure InRange (index : ℤ) (clock : ℕ) (nanosec : ℤ) : Prop where
  not_minus_one : index ≠ -1
  not_largest : index ≠ 2 ^ 31 - 1
  clock_lt : clock < 2 ^ 63
  delay_lt : clock - nanosec < 2 ^ 63

variable {index nanosec : ℤ} {clock : ℕ}

theorem divI64_exact {a b : ℤ} (hb : b ≠ 0) (ha : a ≠ -2 ^ 63) :
    divI64 a b = some (a.tdiv b) := by
  simp only [divI64, hb, ha, false_and, or_self, if_false]

theorem divI64_eq_some {a b q : ℤ} (h : divI64 a b = some q) : b ≠ 0 ∧ q = a.tdiv b := by
  unfold divI64 at h
  split at h
  · cases h
  · rename_i hb
    cases h
    exact ⟨fun h0 => hb (.inl h0),rfl⟩

/-- A clock past the `i64` is off by at least `2 ^ 64`. -/
theorem asI64_wrapped (h : 2 ^ 63 ≤ clock) : asI64 clock + 2 ^ 64 ≤ clock := by
  have hin := asI64_inI64 clock
  obtain ⟨k,hk⟩ := dvd_sub_asI64 clock
  have hlt := hin.2
  omega

theorem exactLatency_of_inRange (hi : InI32 index) (hn : InI64 nanosec)
    (h : InRange index clock nanosec) : ExactLatency index clock nanosec := by
  obtain ⟨hne,hlargest,hclock,hdelay⟩ := h
  obtain ⟨hilo,hihi⟩ := hi
  obtain ⟨hnlo,hnhi⟩ := hn
  have hclock' : asI64 clock = clock := asI64_of_inI64 ⟨by omega,by omega⟩
  have hin : InI64 (clock - nanosec) := ⟨by omega,hdelay⟩
  have hindex : InI32 (index + 1) := ⟨by omega,by omega⟩
  have hdiv : divI64 (clock - nanosec) (index + 1) =
      some ((clock - nanosec).tdiv (index + 1)) := divI64_exact (by omega) (by omega)
  constructor
  · rw [hclock', latencyChecked, if_pos ⟨hin,hindex⟩, hdiv]
  · rw [hclock', latency, asI64_of_inI64 hin, asI32_of_inI32 hindex, hdiv]

theorem inRange_of_exactLatency (h : ExactLatency index clock nanosec) :
    InRange index clock nanosec := by
  obtain ⟨hchecked,_⟩ := h
  unfold latencyChecked at hchecked
  split at hchecked
  · rename_i hfits
    obtain ⟨hin,hindex⟩ := hfits
    obtain ⟨hne,hquotient⟩ := divI64_eq_some hchecked
    have hclock : clock < 2 ^ 63 := by
      by_contra hlarge
      have hwrapped := asI64_wrapped (not_lt.mp hlarge)
      have hclose := tdiv_eq_natAbs_lt hne hquotient
      obtain ⟨hlo,hhi⟩ := hindex
      omega
    have hclock' : asI64 clock = clock := asI64_of_inI64 ⟨by omega,by omega⟩
    rw [hclock'] at hin
    obtain ⟨hlo,hhi⟩ := hindex
    exact ⟨by omega,by omega,hclock,hin.2⟩
  · cases hchecked

/-- For every index that `mpsink` accepts, every clock reading and every message. -/
theorem exactLatency_iff (args : List String) (index : ℤ) (h : mpsink args = .started index)
    (clock : ℕ) (nanosec : ℤ) (hn : InI64 nanosec) :
    ExactLatency index clock nanosec ↔ InRange index clock nanosec :=
  ⟨inRange_of_exactLatency,exactLatency_of_inRange (mpsink_inI32 h) hn⟩

theorem exactLatency_iff_twenty :
    ExactLatency 20 1700000000000000000 1699999999999000000 ↔
      InRange 20 1700000000000000000 1699999999999000000 :=
  exactLatency_iff ["mpsink","20"] 20 (by decide) _ _ (by decide)

/-- Index -1 is accepted, and the first message divides by zero. -/
theorem latency_panics : mpsink ["mpsink","-1"] = .started (-1) ∧
    latency (-1) (asI64 1700000000000000000) 1699999999999000000 = none ∧
    ¬ ExactLatency (-1) 1700000000000000000 1699999999999000000 := by
  refine ⟨by decide,by decide,fun h => ?_⟩
  exact (inRange_of_exactLatency h).not_minus_one rfl

end RelayBench.Zenoh
