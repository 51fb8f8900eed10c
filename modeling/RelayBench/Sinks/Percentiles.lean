import RelayBench.Common.Report

/-! # What the two printed figures are

The figures are two members of the collection with the shares of samples on either side
that their names promise. Because dividing is monotone, dividing every delay by the number
of hops before ranking prints what dividing the ranked delays would.
-/
namespace RelayBench
open OrderStatistics
variable {data : List ℤ} {r : Report}

/-! ## Shares of the samples -/

theorem tdiv_monotone {n : ℤ} (hn : 0 < n) : Monotone (fun x : ℤ => x.tdiv n) :=
  fun _ _ h => Int.tdiv_le_tdiv hn h

theorem tdiv_tdiv (x : ℤ) (m n : ℕ) : (x.tdiv m).tdiv n = x.tdiv (m * n) := by
  have hnat (k : ℕ) : ((k : ℤ).tdiv m).tdiv n = (k : ℤ).tdiv (m * n) := by
    rw [← Int.natCast_mul, ← Int.ofNat_tdiv, ← Int.ofNat_tdiv, ← Int.ofNat_tdiv,
      Nat.div_div_eq_div_mul]
  obtain ⟨k,rfl | rfl⟩ := Int.eq_nat_or_neg x
  · exact hnat k
  · rw [Int.neg_tdiv, Int.neg_tdiv, Int.neg_tdiv, hnat]

/-- A reading of the sink's clock and the sender's reading in the message. -/
structure Clocks where
  received : ℤ
  sent : ℤ
deriving DecidableEq, Repr

def Clocks.delay (c : Clocks) : ℤ := c.received - c.sent

/-- What the C++ sinks keep of a message. -/
def Clocks.sample (kNumRelays : ℕ) (c : Clocks) : ℤ :=
  nanosecPerHop kNumRelays c.received c.sent

theorem samples_eq (kNumRelays : ℕ) (clocks : List Clocks) :
    clocks.map (Clocks.sample kNumRelays) =
      (clocks.map Clocks.delay).map (fun x => x.tdiv (kNumRelays + 1)) := by
  rw [List.map_map]
  rfl

/-- The printed figures are those of the undivided delays, divided once. The Rust sinks keep
the same samples wherever their `i32` sum and their `i64` difference do not overflow. -/
theorem figures_of_delays (kNumRelays : ℕ) (clocks : List Clocks) (hne : clocks ≠ []) :
    let delays := clocks.map Clocks.delay
    (∃ r d50 d90, printStats (clocks.map (Clocks.sample kNumRelays)) = some r ∧
      (sorted delays)[delays.length / 2]? = some d50 ∧
      (sorted delays)[delays.length * 9 / 10]? = some d90 ∧
      r.p50 = d50.tdiv ((kNumRelays + 1) * 1000) ∧
      r.p90 = d90.tdiv ((kNumRelays + 1) * 1000)) ∧
    (kNumRelays + 1 < 2 ^ 31 → ∀ c ∈ clocks, InI64 c.delay →
      latency kNumRelays c.received c.sent = some (c.sample kNumRelays)) := by
  intro delays
  refine ⟨?_,fun hN c _ hc => latency_eq_nanosecPerHop hN hc⟩
  have hdelays : delays ≠ [] := by simpa [delays] using hne
  have hhops : (0 : ℤ) < kNumRelays + 1 := by omega
  have hmono := tdiv_monotone hhops
  obtain ⟨d50,d90,h50,h90⟩ := exists_percentiles hdelays
  have h50' := orderStat_map hmono delays (delays.length / 2)
  have h90' := orderStat_map hmono delays (delays.length * 9 / 10)
  rw [h50, ← samples_eq] at h50'
  rw [h90, ← samples_eq] at h90'
  have hlength : (clocks.map (Clocks.sample kNumRelays)).length = delays.length := by
    simp [delays]
  refine ⟨_,d50,d90,printStats_orderStat (by rw [hlength, h50']; rfl) (by rw [hlength, h90']; rfl),
    h50,h90,?_,?_⟩
  · exact_mod_cast tdiv_tdiv d50 (kNumRelays + 1) 1000
  · exact_mod_cast tdiv_tdiv d90 (kNumRelays + 1) 1000

theorem figures_of_delays_bothSigns :
    let clocks : List Clocks := [⟨0,5⟩,⟨30000,5⟩]
    let delays := clocks.map Clocks.delay
    (∃ r d50 d90, printStats (clocks.map (Clocks.sample 2)) = some r ∧
      (sorted delays)[delays.length / 2]? = some d50 ∧
      (sorted delays)[delays.length * 9 / 10]? = some d90 ∧
      r.p50 = d50.tdiv (((2 : ℕ) + 1) * 1000) ∧ r.p90 = d90.tdiv (((2 : ℕ) + 1) * 1000)) ∧
    (2 + 1 < 2 ^ 31 → ∀ c ∈ clocks, InI64 c.delay →
      latency (2 : ℕ) c.received c.sent = some (c.sample 2)) :=
  figures_of_delays 2 _ (List.cons_ne_nil _ _)

end RelayBench
