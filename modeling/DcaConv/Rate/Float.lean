import DcaConv.Library.NearestEven
import DcaConv.Rate.RoundTrip

/-!
# The `float` of the decoder

`fDaUnconvertFrequency` returns a `float`. Its product has 27 bits at most and is exact as a
`double`, and the assignment rounds it to 24. The rest of this development reads the product
itself; here is where that makes a difference to a rate in whole hertz. It does if the rounding
carries the rate up to the next hertz, which up to 44100 Hz happens to two codes.
-/

namespace DcaConv

/-- An AICA pitch value as the `float` it is returned as. -/
def fDaUnconvertFrequencyFloat (freq : ℕ) : ℚ := NearestEven.round 24 (fDaUnconvertFrequency freq)

/-- The rate in whole hertz by the `float`. -/
def fDcaToAICAFrequencyFloat (freqHz : ℕ) : ℕ :=
  truncate (fDaUnconvertFrequencyFloat (fDaConvertFrequency freqHz))

/-- Mantissa `m` of octave `k` is rounded up to a whole hertz. -/
def CarriesToHertz (k m : ℕ) : Prop := 2 ^ 24 ≤ 11025 * m ∧ 2 ^ (16 - k) ∣ 11025 * m + 1

section Float

variable {freqHz k m : ℕ}

/-- The rate of a code, in units of its last digit. -/
theorem rate_eq_mul_zpow (k lo : ℕ) : (44100 : ℚ) * 2 ^ ((k : ℤ) - 8) * (1 + lo / 1024)
    = (11025 * (1024 + lo) : ℕ) * 2 ^ ((k : ℤ) - 16) := by
  rw [rate_eq_div, zpow_sub₀ two_ne_zero, zpow_natCast]
  push_cast
  ring

theorem truncate_mul_zpow (n : ℕ) (hk : k ≤ 16) :
    truncate ((n : ℚ) * 2 ^ ((k : ℤ) - 16)) = n / 2 ^ (16 - k) := by
  have hpow : (2 : ℚ) ^ ((k : ℤ) - 16) = ((2 ^ (16 - k) : ℕ) : ℚ)⁻¹ := by
    rw [Nat.cast_pow, Nat.cast_ofNat, ← zpow_natCast, ← zpow_neg]
    congr 1
    omega
  rw [hpow, ← div_eq_mul_inv, truncate_natCast_div]

theorem rateOf_eq (m : ℕ) (hk : k ≤ 16) : rateOf k m = 11025 * m / 2 ^ (16 - k) := by
  have hpow : 65536 = 2 ^ (16 - k) * 2 ^ k := by
    rw [← pow_add, Nat.sub_add_cancel hk]
    norm_num
  rw [rateOf, hpow, Nat.mul_div_mul_right _ _ (by positivity)]

/-- **The exact reading.** The `float` gives the same rate in whole hertz as the exact product,
unless its rounding carries to one. -/
theorem toAICAFloat_eq_iff (hk : InOctave freqHz k) (hf : freqHz < 2 ^ 22) :
    fDcaToAICAFrequencyFloat freqHz = fDcaToAICAFrequency freqHz ↔
      ¬CarriesToHertz k (storedMantissa freqHz k) := by
  have hk₁₄ := le_fourteen_of_lt hk hf
  obtain ⟨hm, hm'⟩ := storedMantissa_mem freqHz k
  have hne : 11025 * storedMantissa freqHz k ≠ 0 := by omega
  rw [fDcaToAICAFrequency_eq hk hf, rateOf_eq _ (by omega), fDcaToAICAFrequencyFloat,
    fDaUnconvertFrequencyFloat, fDaConvertFrequency_eq hk hf,
    fDaUnconvertFrequency_aicaCode hk.le_top (Nat.mod_lt _ (by norm_num)), rate_eq_mul_zpow,
    ← storedMantissa, CarriesToHertz]
  by_cases hlt : 11025 * storedMantissa freqHz k < 2 ^ 24
  · rw [NearestEven.round_of_lt hne hlt, truncate_mul_zpow _ (by omega)]
    exact iff_of_true rfl fun h ↦ absurd hlt (not_lt.mpr h.1)
  · rw [NearestEven.round_of_mem (not_lt.mp hlt) (by omega), truncate_mul_zpow _ (by omega),
      NearestEven.toEven_div_eq_iff (by omega), and_iff_right (not_lt.mp hlt)]

/-! ## Up to 44100 hertz -/

theorem carriesToHertz_iff (hk : k ≤ 7) (hm : m < 2048) :
    CarriesToHertz k m ↔ (k = 6 ∨ k = 7) ∧ m = 1551 := by
  interval_cases k <;> norm_num [CarriesToHertz] <;> omega

theorem InOctave.le_seven (hk : InOctave freqHz k) (hf : freqHz < 44100) : k ≤ 7 := by
  by_contra hgt
  have hmono := octaveBase_mono (show 8 ≤ k by omega) hk.le_top
  have height : octaveBase 8 = 44100 := rfl
  rcases hk.base_le with h | h <;> omega

/-- The requests that get mantissa 1551, a part of a hertz below 16699 or two below 33398. -/
def FloatRoundsUp (freqHz : ℕ) : Prop :=
  16694 ≤ freqHz ∧ freqHz ≤ 16704 ∨ 33388 ≤ freqHz ∧ freqHz ≤ 33408

instance : DecidablePred FloatRoundsUp := fun freqHz ↦ by unfold FloatRoundsUp; infer_instance

theorem storedMantissa_eq_iff (hk : InOctave freqHz k) (hlo : 172 ≤ freqHz)
    (hf : freqHz < 44100) (hm : 1024 < m) (hm' : m < 2048) :
    storedMantissa freqHz k = m ↔ mantissa freqHz k = m := by
  have hk₇ := hk.le_seven hf
  have hb := octaveBase_le (show k ≤ 14 by omega)
  obtain ⟨hlow, hhigh⟩ := mantissa_mem hk hlo (by omega) (by omega)
  rw [storedMantissa]
  omega

theorem floatRoundsUp_iff (hk : InOctave freqHz k) (hf : freqHz < 44100) :
    (k = 6 ∨ k = 7) ∧ storedMantissa freqHz k = 1551 ↔ FloatRoundsUp freqHz := by
  have hsix : octaveBase 6 = 11025 := rfl
  have hseven : octaveBase 7 = 22050 := rfl
  have hbase := hk.base_le
  have hnext := hk.lt_next
  have hk₇ := hk.le_seven hf
  rw [FloatRoundsUp]
  by_cases hoctave : k = 6 ∨ k = 7
  · have hlow : 11025 ≤ freqHz := by rcases hoctave with rfl | rfl <;> omega
    rw [storedMantissa_eq_iff hk (by omega) hf (by norm_num) (by norm_num),
      mantissa_eq_div (by omega), and_iff_right hoctave]
    rcases hoctave with rfl | rfl
    · have hmid : freqHz < octaveBase 7 := hk.lt_next.resolve_left (by norm_num)
      rw [hsix]
      omega
    · rw [hseven]
      omega
  · refine iff_of_false (fun h ↦ hoctave h.1) ?_
    -- below octave 6 the rates end in front of both ranges
    have hmono := octaveBase_mono (show k + 1 ≤ 6 by omega) (by norm_num)
    omega

theorem toAICAFloat_44100 : fDcaToAICAFrequencyFloat 44100 = fDcaToAICAFrequency 44100 := by
  have hk : InOctave 44100 8 := ⟨by norm_num, Or.inr (by decide), Or.inr (by decide)⟩
  refine (toAICAFloat_eq_iff hk (by norm_num)).mpr fun h ↦ absurd h.1 ?_
  rw [show storedMantissa 44100 8 = 1024 from rfl]
  norm_num

/-- Up to 44100 Hz the two readings differ at 32 requests. -/
theorem toAICAFloat_eq_iff_common (hf : freqHz ≤ 44100) :
    fDcaToAICAFrequencyFloat freqHz = fDcaToAICAFrequency freqHz ↔ ¬FloatRoundsUp freqHz := by
  rcases hf.lt_or_eq with hlt | rfl
  · obtain ⟨k, hk, -⟩ := exists_inOctave freqHz
    obtain ⟨-, hm⟩ := storedMantissa_mem freqHz k
    rw [toAICAFloat_eq_iff hk (by omega), carriesToHertz_iff (hk.le_seven hlt) hm,
      floatRoundsUp_iff hk hlt]
  · refine iff_of_true toAICAFloat_44100 ?_
    rw [FloatRoundsUp]
    omega

end Float

end DcaConv
