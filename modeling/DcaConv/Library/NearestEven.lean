import Mathlib.Algebra.Order.Field.Power
import Mathlib.Algebra.Order.Floor.Ring
import Mathlib.Data.Int.Log
import Mathlib.Data.Rat.Floor
import Mathlib.Tactic.FieldSimp
import Mathlib.Tactic.Linarith
import Mathlib.Tactic.NormNum
import Mathlib.Tactic.Ring

/-!
# Rounding to the nearest, ties to even

A rational is rounded to `p` significant binary digits, as a floating-point format does between
underflow and overflow. A multiple `n * 2 ^ e` with `n` below `2 ^ p` has these digits and stays as
it is. With one digit more, `n` is halved, and an odd `n` is a tie.
-/

namespace NearestEven

/-- The nearest integer, the even one at a midpoint. -/
def toInt (x : ℚ) : ℤ :=
  if x - ⌊x⌋ < 1 / 2 then ⌊x⌋ else if 1 / 2 < x - ⌊x⌋ then ⌊x⌋ + 1 else ⌊x⌋ + ⌊x⌋ % 2

/-- The unit of the last of `p` digits. -/
def ulp (p : ℕ) (x : ℚ) : ℚ := 2 ^ (Int.log 2 |x| + 1 - p)

/-- `x` to `p` significant digits. -/
def round (p : ℕ) (x : ℚ) : ℚ := toInt (x / ulp p x) * ulp p x

@[simp] theorem toInt_intCast (k : ℤ) : toInt k = k := by simp [toInt]

/-- At a midpoint the parity of the lower neighbour decides. -/
theorem toInt_midpoint (k : ℤ) : toInt (k + 1 / 2) = k + k % 2 := by
  have hfloor : ⌊(k : ℚ) + 1 / 2⌋ = k := by
    rw [Int.floor_eq_iff]
    constructor <;> linarith
  rw [toInt, hfloor, add_sub_cancel_left, if_neg (lt_irrefl _), if_neg (lt_irrefl _)]

/-! ## Multiples of a power of two -/

section Scaled

variable {n p : ℕ}

theorem log_natCast_mul_zpow (hn : n ≠ 0) (e : ℤ) :
    Int.log 2 |(n : ℚ) * 2 ^ e| = Nat.log 2 n + e := by
  have hpos : (0 : ℚ) < n * 2 ^ e :=
    mul_pos (by exact_mod_cast Nat.pos_of_ne_zero hn) (by positivity)
  rw [abs_of_pos hpos]
  apply le_antisymm
  · rw [← Int.lt_add_one_iff, ← Int.lt_zpow_iff_log_lt Nat.one_lt_two hpos]
    have hlt : (n : ℚ) < 2 ^ (Nat.log 2 n + 1) := by
      exact_mod_cast Nat.lt_pow_succ_log_self Nat.one_lt_two n
    calc (n : ℚ) * 2 ^ e < 2 ^ (Nat.log 2 n + 1) * 2 ^ e := by gcongr
      _ = (2 : ℕ) ^ ((Nat.log 2 n : ℤ) + e + 1) := by
        rw [← zpow_natCast, ← zpow_add₀ two_ne_zero]
        push_cast
        ring_nf
  · rw [← Int.zpow_le_iff_le_log Nat.one_lt_two hpos]
    have hle : (2 : ℚ) ^ Nat.log 2 n ≤ n := by exact_mod_cast Nat.pow_log_le_self 2 hn
    calc ((2 : ℕ) : ℚ) ^ ((Nat.log 2 n : ℤ) + e) = 2 ^ Nat.log 2 n * 2 ^ e := by
          rw [Nat.cast_ofNat, zpow_add₀ two_ne_zero, zpow_natCast]
      _ ≤ n * 2 ^ e := by gcongr

/-- What has no more than `p` digits stays. -/
theorem round_of_lt (hn : n ≠ 0) (hlt : n < 2 ^ p) (e : ℤ) :
    round p ((n : ℚ) * 2 ^ e) = n * 2 ^ e := by
  have hlog : Nat.log 2 n < p := Nat.log_lt_of_lt_pow hn hlt
  obtain ⟨d, hd⟩ := Nat.exists_eq_add_of_lt hlog
  have hulp : ulp p ((n : ℚ) * 2 ^ e) = 2 ^ (e - d) := by
    rw [ulp, log_natCast_mul_zpow hn, hd]
    congr 1
    push_cast
    ring
  have hdigits : (n : ℚ) * 2 ^ e / 2 ^ (e - d) = ((n * 2 ^ d : ℕ) : ℤ) := by
    rw [zpow_sub₀ two_ne_zero, zpow_natCast]
    have hpow : (2 : ℚ) ^ e ≠ 0 := zpow_ne_zero _ two_ne_zero
    push_cast
    field_simp
  rw [round, hulp, hdigits, toInt_intCast, ← hdigits,
    div_mul_cancel₀ _ (zpow_ne_zero _ two_ne_zero)]

/-- The nearest even number, and of two the one that is a multiple of four. -/
def toEven (n : ℕ) : ℕ := if n % 2 = 0 then n else 2 * (n / 2 + n / 2 % 2)

/-- What has a digit more is rounded to an even multiple. -/
theorem round_of_mem (hle : 2 ^ p ≤ n) (hlt : n < 2 ^ (p + 1)) (e : ℤ) :
    round p ((n : ℚ) * 2 ^ e) = toEven n * 2 ^ e := by
  have hn : n ≠ 0 := (lt_of_lt_of_le (by positivity) hle).ne'
  have hlog : Nat.log 2 n = p := (Nat.log_eq_iff (Or.inr ⟨Nat.one_lt_two, hn⟩)).mpr ⟨hle, hlt⟩
  have hulp : ulp p ((n : ℚ) * 2 ^ e) = 2 * 2 ^ e := by
    rw [ulp, log_natCast_mul_zpow hn, hlog, ← zpow_one_add₀ two_ne_zero]
    congr 1
    ring
  have hpow : (2 : ℚ) ^ e ≠ 0 := zpow_ne_zero _ two_ne_zero
  have hhalf : (n : ℚ) * 2 ^ e / (2 * 2 ^ e) = n / 2 := by field_simp
  rw [round, hulp, hhalf, toEven]
  split
  · next heven =>
    obtain ⟨k, rfl⟩ := Nat.dvd_of_mod_eq_zero heven
    have hcast : ((2 * k : ℕ) : ℚ) / 2 = (k : ℤ) := by
      push_cast
      ring
    rw [hcast, toInt_intCast]
    push_cast
    ring
  · next hodd =>
    obtain ⟨k, rfl⟩ : ∃ k, n = 2 * k + 1 := ⟨n / 2, by omega⟩
    have hcast : ((2 * k + 1 : ℕ) : ℚ) / 2 = (k : ℤ) + 1 / 2 := by
      push_cast
      ring
    have hdown : (2 * k + 1) / 2 = k := by omega
    have hparity : (((k : ℤ) + (k : ℤ) % 2 : ℤ) : ℚ) = (k + k % 2 : ℕ) := by norm_cast
    rw [hcast, toInt_midpoint, hdown, hparity, Nat.cast_mul, Nat.cast_ofNat]
    ring

/-- Cut to a multiple of four or more, the even number differs where it was rounded up to one. -/
theorem toEven_div_eq_iff {e : ℕ} (he : 2 ≤ e) :
    toEven n / 2 ^ e = n / 2 ^ e ↔ ¬2 ^ e ∣ n + 1 := by
  obtain ⟨d, hd⟩ : 4 ∣ 2 ^ e := pow_dvd_pow 2 he
  have hdvd : ∀ m, 2 ^ e ∣ m → m % 4 = 0 := fun m hm ↦
    Nat.mod_eq_zero_of_dvd ((Dvd.intro d hd.symm).trans hm)
  rw [toEven]
  split
  · next heven => exact iff_of_true rfl fun h ↦ by have := hdvd _ h; omega
  · next hodd =>
    rcases Nat.mod_two_eq_zero_or_one (n / 2) with hlow | hlow
    · obtain ⟨k, rfl⟩ : ∃ k, n = k + 1 := ⟨n - 1, by omega⟩
      have hk : 2 * ((k + 1) / 2 + (k + 1) / 2 % 2) = k := by omega
      rw [hk, Nat.succ_div_of_not_dvd fun h ↦ by have := hdvd _ h; omega]
      exact iff_of_true rfl fun h ↦ by have := hdvd _ h; omega
    · have hup : 2 * (n / 2 + n / 2 % 2) = n + 1 := by omega
      rw [hup, Nat.succ_div, Nat.add_eq_left]
      simp

end Scaled

end NearestEven
