import Mathlib

/-! # Varints and zigzag

A natural number is written in groups of seven bits, the lowest first, with the high bit of
a byte set when another byte follows. An integer is first folded into the naturals by
zigzag: `0, -1, 1, -2, …`.
-/
namespace RelayBench.Varint

def zigzag (x : ℤ) : ℕ := if 0 ≤ x then 2 * x.toNat else 2 * (-x).toNat - 1

def unzigzag (n : ℕ) : ℤ := if n % 2 = 0 then (n / 2 : ℕ) else -((n / 2 : ℕ) : ℤ) - 1

theorem unzigzag_zigzag (x : ℤ) : unzigzag (zigzag x) = x := by
  unfold unzigzag zigzag
  split <;> split <;> omega

theorem zigzag_lt {x : ℤ} {k : ℕ} (hlo : -2 ^ k ≤ x) (hhi : x < 2 ^ k) :
    zigzag x < 2 ^ (k + 1) := by
  have hcast : ((2 ^ k : ℕ) : ℤ) = 2 ^ k := by norm_num
  rw [pow_succ]
  unfold zigzag
  split <;> omega

def encode (n : ℕ) : List UInt8 :=
  if n < 128 then [UInt8.ofNat n] else UInt8.ofNat (n % 128 + 128) :: encode (n / 128)
termination_by n

/-- Read one number and return what follows it; a number that is cut short is refused. -/
def decode : List UInt8 → Option (ℕ × List UInt8)
  | [] => none
  | b :: bytes =>
    if b.toNat < 128 then some (b.toNat,bytes)
    else (decode bytes).map (fun p => (b.toNat - 128 + 128 * p.1,p.2))

theorem encode_of_lt {n : ℕ} (h : n < 128) : encode n = [UInt8.ofNat n] := by
  rw [encode, if_pos h]

theorem encode_of_le {n : ℕ} (h : 128 ≤ n) :
    encode n = UInt8.ofNat (n % 128 + 128) :: encode (n / 128) := by
  rw [encode, if_neg (by omega)]

theorem toNat_ofNat {n : ℕ} (h : n < 256) : (UInt8.ofNat n).toNat = n := by
  simpa using h

theorem decode_encode (n : ℕ) (rest : List UInt8) :
    decode (encode n ++ rest) = some (n,rest) := by
  induction n using Nat.strongRecOn with
  | ind n ih =>
    rcases Nat.lt_or_ge n 128 with hlt | hge
    · have hbyte := toNat_ofNat (show n < 256 by omega)
      rw [encode_of_lt hlt, List.singleton_append, decode, hbyte, if_pos hlt]
    · have hbyte := toNat_ofNat (show n % 128 + 128 < 256 by omega)
      rw [encode_of_le hge, List.cons_append, decode, hbyte, if_neg (by omega),
        ih (n / 128) (by omega)]
      simp only [Option.map_some, Option.some.injEq, Prod.mk.injEq, and_true]
      omega

/-- What stands behind a number is not read. -/
theorem decode_append {bytes rest : List UInt8} {n : ℕ} (h : decode bytes = some (n,rest))
    (more : List UInt8) : decode (bytes ++ more) = some (n,rest ++ more) := by
  induction bytes generalizing n rest with
  | nil => cases h
  | cons b bytes ih =>
    rw [List.cons_append, decode]
    rw [decode] at h
    split at h
    · cases h
      rw [if_pos ‹_›]
    · obtain ⟨p,hp,heq⟩ := Option.map_eq_some_iff.mp h
      cases heq
      rw [if_neg ‹_›, ih hp]
      rfl

/-- Seven bits a byte. -/
theorem encode_length_le {n k : ℕ} (h : n < 2 ^ (7 * (k + 1))) : (encode n).length ≤ k + 1 := by
  induction k generalizing n with
  | zero => simp [encode_of_lt (show n < 128 by simpa using h)]
  | succ k ih =>
    rcases Nat.lt_or_ge n 128 with hlt | hge
    · simp [encode_of_lt hlt]
    · have hdiv : n / 128 < 2 ^ (7 * (k + 1)) := by
        rw [Nat.div_lt_iff_lt_mul (by norm_num)]
        calc n < 2 ^ (7 * (k + 1 + 1)) := h
          _ = 2 ^ (7 * (k + 1)) * 128 := by ring
      rw [encode_of_le hge, List.length_cons]
      exact Nat.succ_le_succ (ih hdiv)

end RelayBench.Varint
