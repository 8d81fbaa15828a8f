import DcaConv.Machine
import Mathlib.Tactic.IntervalCases
import Mathlib.Tactic.Ring
import Mathlib.Tactic.FieldSimp
import Mathlib.Tactic.NormNum

/-!
# The AICA pitch register

The AICA stores a sample rate as a 15-bit float: a signed 4-bit octave above bit 11 and a 10-bit
mantissa with an implicit leading one. `fDaConvertFrequency` picks the octave by halving a base
rate until it no longer exceeds the request, then rounds the quotient to the mantissa;
`fDaUnconvertFrequency` reads the code back.

## Two bases

The encoder's base is an integer halved by a shift, so from the fifth octave down it is smaller
than the exact base `44100 * 2 ^ hi` of the decoder. The quotient is masked to ten bits with no
carry into the octave. Both facts are kept, and everything later is stated against the closed
forms of this file rather than against the loop.
-/

namespace DcaConv

/-! ## The two conversions -/

/-- The octave search. The first argument counts the halvings still allowed, so `freq_hi` is that
count minus 8 throughout; the result is the final `freq_base` and count. -/
def octaveSearch (freqHz : ℕ) : ℕ → ℕ → ℕ × ℕ
  | 0, freqBase => (freqBase, 0)
  | n + 1, freqBase =>
    if freqHz < freqBase then octaveSearch freqHz n (freqBase >>> 1) else (freqBase, n + 1)

/-- A sample rate in hertz as an AICA pitch value. -/
def fDaConvertFrequency (freqHz : ℕ) : ℕ :=
  let found := octaveSearch freqHz 15 5644800
  let freqHi : ℤ := (found.2 : ℤ) - 8
  let freqLo := u32 (u32 (freqHz <<< 10) + found.1 / 2) / found.1
  ((freqHi % 16).toNat <<< 11) ||| (freqLo &&& 1023)

/-- An AICA pitch value as a rate in hertz: the exact product, before it is returned as a `float`. -/
def fDaUnconvertFrequency (freq : ℕ) : ℚ :=
  let freq := freq &&& 0x7fff
  let freqHi := (freq >>> 11) &&& 0xf
  let freqLo := freq &&& 0x3ff
  -- `freq_hi |= 0xfffffff0` sign-extends the four-bit octave
  let signedHi : ℤ := if freqHi &&& 0x8 = 0 then freqHi else (freqHi : ℤ) - 16
  44100 * 2 ^ signedHi * (1 + freqLo / 1024)

/-- The rate in whole hertz that the AICA plays when asked for `freqHz`. -/
def fDcaToAICAFrequency (freqHz : ℕ) : ℕ :=
  truncate (fDaUnconvertFrequency (fDaConvertFrequency freqHz))

/-! ## Octaves

Octave `k` here is `freq_hi + 8`, from 0 to 15. -/

/-- The encoder's base rate of an octave. -/
def octaveBase (k : ℕ) : ℕ := 5644800 >>> (15 - k)

/-- The octave whose base the search stops at. -/
structure InOctave (freqHz k : ℕ) : Prop where
  le_top : k ≤ 15
  base_le : k = 0 ∨ octaveBase k ≤ freqHz
  lt_next : k = 15 ∨ freqHz < octaveBase (k + 1)

theorem octaveBase_shiftRight {n : ℕ} (h : n < 15) : octaveBase (n + 1) >>> 1 = octaveBase n := by
  rw [octaveBase, octaveBase, ← Nat.shiftRight_add, show 15 - (n + 1) + 1 = 15 - n from by omega]

theorem octaveBase_le_succ {n : ℕ} (h : n < 15) : octaveBase n ≤ octaveBase (n + 1) := by
  rw [← octaveBase_shiftRight h, Nat.shiftRight_eq_div_pow]
  exact Nat.div_le_self _ _

/-- Started at octave `n` with that octave's base, the search stops at the octave of `freqHz`. -/
theorem octaveSearch_spec (freqHz : ℕ) : ∀ n ≤ 15, ∃ k ≤ n,
    octaveSearch freqHz n (octaveBase n) = (octaveBase k, k) ∧
      (k = 0 ∨ octaveBase k ≤ freqHz) ∧ (k = n ∨ freqHz < octaveBase (k + 1)) := by
  intro n
  induction n with
  | zero => intro _; exact ⟨0, le_refl 0, rfl, Or.inl rfl, Or.inl rfl⟩
  | succ n ih =>
    intro hn
    rw [octaveSearch]
    by_cases hlt : freqHz < octaveBase (n + 1)
    · obtain ⟨k, hkn, hrun, hlo, hhi⟩ := ih (by omega)
      refine ⟨k, by omega, ?_, hlo, Or.inr ?_⟩
      · rw [if_pos hlt, octaveBase_shiftRight (by omega), hrun]
      · rcases hhi with rfl | hhi
        · exact hlt
        · exact hhi
    · exact ⟨n + 1, le_refl _, if_neg hlt, Or.inr (by omega), Or.inl rfl⟩

theorem exists_inOctave (freqHz : ℕ) : ∃ k, InOctave freqHz k ∧
    octaveSearch freqHz 15 5644800 = (octaveBase k, k) := by
  obtain ⟨k, hk, hrun, hlo, hhi⟩ := octaveSearch_spec freqHz 15 (le_refl _)
  exact ⟨k, ⟨hk, hlo, hhi⟩, hrun⟩

theorem octaveBase_mono {j k : ℕ} (hjk : j ≤ k) (hk : k ≤ 15) : octaveBase j ≤ octaveBase k := by
  induction k with
  | zero => rw [Nat.le_zero.mp hjk]
  | succ k ih =>
    rcases Nat.lt_succ_iff_lt_or_eq.mp (Nat.lt_succ_of_le hjk) with h | rfl
    · exact (ih (by omega) (by omega)).trans (octaveBase_le_succ (by omega))
    · exact le_refl _

theorem octaveBase_le {k : ℕ} (hk : k ≤ 14) : octaveBase k ≤ 2822400 :=
  octaveBase_mono hk (by norm_num)

theorem InOctave.unique {freqHz j k : ℕ} (hj : InOctave freqHz j) (hk : InOctave freqHz k) :
    j = k := by
  -- of two different octaves, the base of the upper one separates the request from the lower one
  have key : ∀ {a b : ℕ}, InOctave freqHz a → InOctave freqHz b → ¬a < b := by
    intro a b ha hb hab
    have hbase : octaveBase (a + 1) ≤ octaveBase b := octaveBase_mono hab hb.le_top
    rcases ha.lt_next with h | h
    · have := hb.le_top; omega
    · rcases hb.base_le with h' | h' <;> omega
  have h₁ := key hj hk
  have h₂ := key hk hj
  omega

theorem octaveSearch_eq {freqHz k : ℕ} (h : InOctave freqHz k) :
    octaveSearch freqHz 15 5644800 = (octaveBase k, k) := by
  obtain ⟨j, hj, hrun⟩ := exists_inOctave freqHz
  rw [hrun, hj.unique h]

/-! ## Closed forms -/

/-- The pitch value with octave `k` and mantissa bits `lo`. -/
def aicaCode (k lo : ℕ) : ℕ := 2 ^ 11 * ((k + 8) % 16) + lo

/-- The mantissa, implicit one included, before it is masked to ten bits. The rounding term can
still carry the sum past 32 bits when the shift does not. -/
def mantissa (freqHz k : ℕ) : ℕ := u32 (1024 * freqHz + octaveBase k / 2) / octaveBase k

theorem fDaConvertFrequency_eq {freqHz k : ℕ} (hk : InOctave freqHz k) (hf : freqHz < 2 ^ 22) :
    fDaConvertFrequency freqHz = aicaCode k (mantissa freqHz k % 1024) := by
  have hshift : u32 (freqHz <<< 10) = 1024 * freqHz := by
    rw [Nat.shiftLeft_eq, u32_of_lt (by omega)]
    ring
  have hlo : u32 (u32 (freqHz <<< 10) + octaveBase k / 2) / octaveBase k = mantissa freqHz k := by
    rw [hshift, mantissa]
  have hhi : (((k : ℤ) - 8) % 16).toNat = (k + 8) % 16 := by omega
  have hmask : mantissa freqHz k &&& 1023 = mantissa freqHz k % 1024 :=
    Nat.and_two_pow_sub_one_eq_mod (mantissa freqHz k) 10
  have hlt : mantissa freqHz k % 1024 < 2 ^ 11 := by omega
  rw [fDaConvertFrequency, octaveSearch_eq hk]
  dsimp only
  rw [hlo, hhi, hmask, aicaCode, Nat.shiftLeft_eq, mul_comm, Nat.two_pow_add_eq_or_of_lt hlt]

theorem aicaCode_lt (k : ℕ) {lo : ℕ} (h : lo < 1024) : aicaCode k lo < 2 ^ 15 := by
  rw [aicaCode]
  omega

theorem aicaCode_inj {k lo lo' : ℕ} : aicaCode k lo = aicaCode k lo' ↔ lo = lo' := by
  rw [aicaCode, aicaCode]
  omega

/-- The octave bits of a code, which the decoder reads as a signed number. -/
theorem octaveBits_aicaCode {k lo : ℕ} (hlo : lo < 1024) :
    aicaCode k lo >>> 11 &&& 0xf = (k + 8) % 16 := by
  rw [show 0xf = 2 ^ 4 - 1 from rfl, Nat.and_two_pow_sub_one_eq_mod, Nat.shiftRight_eq_div_pow,
    aicaCode]
  omega

theorem signExtend_octaveBits {k : ℕ} (hk : k ≤ 15) :
    (if (k + 8) % 16 &&& 0x8 = 0 then (((k + 8) % 16 : ℕ) : ℤ)
      else (((k + 8) % 16 : ℕ) : ℤ) - 16) = (k : ℤ) - 8 := by
  interval_cases k <;> decide

theorem fDaUnconvertFrequency_aicaCode {k lo : ℕ} (hk : k ≤ 15) (hlo : lo < 1024) :
    fDaUnconvertFrequency (aicaCode k lo) = 44100 * 2 ^ ((k : ℤ) - 8) * (1 + lo / 1024) := by
  have hcode : aicaCode k lo &&& 0x7fff = aicaCode k lo := by
    rw [show 0x7fff = 2 ^ 15 - 1 from rfl, Nat.and_two_pow_sub_one_eq_mod,
      Nat.mod_eq_of_lt (aicaCode_lt k hlo)]
  have hmant : aicaCode k lo &&& 0x3ff = lo := by
    rw [show 0x3ff = 2 ^ 10 - 1 from rfl, Nat.and_two_pow_sub_one_eq_mod, aicaCode]
    omega
  rw [fDaUnconvertFrequency, hcode, octaveBits_aicaCode hlo, hmant, signExtend_octaveBits hk]

/-- The exact rate of a code, over one denominator. -/
theorem rate_eq_div (k lo : ℕ) :
    (44100 : ℚ) * 2 ^ ((k : ℤ) - 8) * (1 + lo / 1024)
      = ((11025 * (1024 + lo) * 2 ^ k : ℕ) : ℚ) / (65536 : ℕ) := by
  rw [zpow_sub₀ (by norm_num), zpow_natCast]
  push_cast
  field_simp
  ring

/-- The mantissa the decoder reads: the stored ten bits below an implicit one. It is the rounded
mantissa except when rounding reached the next octave, where the lost carry leaves the base. -/
def storedMantissa (freqHz k : ℕ) : ℕ := 1024 + mantissa freqHz k % 1024

/-- The whole-hertz rate of mantissa `m` in octave `k`. -/
def rateOf (k m : ℕ) : ℕ := 11025 * m * 2 ^ k / 65536

theorem storedMantissa_mem (freqHz k : ℕ) :
    1024 ≤ storedMantissa freqHz k ∧ storedMantissa freqHz k < 2048 := by
  rw [storedMantissa]
  omega

theorem fDcaToAICAFrequency_eq {freqHz k : ℕ} (hk : InOctave freqHz k) (hf : freqHz < 2 ^ 22) :
    fDcaToAICAFrequency freqHz = rateOf k (storedMantissa freqHz k) := by
  rw [fDcaToAICAFrequency, fDaConvertFrequency_eq hk hf,
    fDaUnconvertFrequency_aicaCode hk.le_top (Nat.mod_lt _ (by norm_num)), rate_eq_div,
    truncate_natCast_div, rateOf, storedMantissa]

end DcaConv
