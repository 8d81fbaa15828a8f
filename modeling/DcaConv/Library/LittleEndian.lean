import Mathlib.Data.Nat.Digits.Defs
import Mathlib.Tactic.Ring

/-!
# Little-endian numbers

A natural number as a fixed count of bytes, least significant first. Reading is Mathlib's
`Nat.ofDigits` in base 256; writing drops whatever does not fit, so the round trip is exact below
`256 ^ k`.
-/

namespace LittleEndian

/-- The `k` low bytes of `n`. -/
def toBytes (k n : ℕ) : List UInt8 := (List.range k).map fun i ↦ UInt8.ofNat (n / 256 ^ i)

/-- The number whose bytes these are. -/
def ofBytes (bs : List UInt8) : ℕ := Nat.ofDigits 256 (bs.map UInt8.toNat)

@[simp] theorem length_toBytes (k n : ℕ) : (toBytes k n).length = k := by
  rw [toBytes, List.length_map, List.length_range]

theorem toBytes_succ (k n : ℕ) :
    toBytes (k + 1) n = UInt8.ofNat n :: toBytes k (n / 256) := by
  rw [toBytes, List.range_succ_eq_map, List.map_cons, List.map_map, pow_zero, Nat.div_one, toBytes]
  congr 1
  refine List.map_congr_left fun i _ ↦ ?_
  rw [Function.comp_apply, Nat.div_div_eq_div_mul, pow_succ']

@[simp] theorem ofBytes_cons (b : UInt8) (bs : List UInt8) :
    ofBytes (b :: bs) = b.toNat + 256 * ofBytes bs := by
  rw [ofBytes, List.map_cons, Nat.ofDigits_cons, ofBytes]

theorem ofBytes_toBytes {k n : ℕ} (h : n < 256 ^ k) : ofBytes (toBytes k n) = n := by
  induction k generalizing n with
  | zero => rw [pow_zero, Nat.lt_one_iff] at h; rw [h]; rfl
  | succ k ih =>
    have hdiv : n / 256 < 256 ^ k := by
      rw [Nat.div_lt_iff_lt_mul (by norm_num), ← pow_succ]
      exact h
    have hbyte : (UInt8.ofNat n).toNat = n % 256 := UInt8.toNat_ofNat'
    rw [toBytes_succ, ofBytes_cons, ih hdiv, hbyte]
    omega

end LittleEndian
