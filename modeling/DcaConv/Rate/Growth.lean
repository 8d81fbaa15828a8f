import DcaConv.Rate.RoundTrip

/-!
# How far rounding can raise a rate

A sound is resampled to a rounded rate, so rounding up makes it longer. The slack the program
allows for this is 50 samples on 65280, a little over one part in 1306. Rounding to nearest stays
inside it in the wide octaves; the narrow ones exceed it only where `RateDrifts` holds, and a
request below the lowest octave is read back with the implicit one it does not have.
-/

namespace DcaConv

/-! ## Lower bounds -/

theorem le_rateOf {k m : ℕ} (hm : 1024 ≤ m) : 172 ≤ rateOf k m := by
  have hk : 1 ≤ 2 ^ k := Nat.one_le_two_pow
  rw [rateOf, Nat.le_div_iff_mul_le (by norm_num)]
  calc 172 * 65536 ≤ 11025 * 1024 * 1 := by norm_num
    _ ≤ 11025 * m * 2 ^ k := Nat.mul_le_mul (Nat.mul_le_mul_left _ hm) hk

/-- Every pitch value is played at the hardware minimum or above. -/
theorem le_truncate_fDaUnconvertFrequency (freq : ℕ) :
    172 ≤ truncate (fDaUnconvertFrequency freq) := by
  rw [fDaUnconvertFrequency]
  have hnibble : ((freq &&& 0x7fff) >>> 11) &&& 0xf < 16 := by
    rw [show 0xf = 2 ^ 4 - 1 from rfl, Nat.and_two_pow_sub_one_eq_mod]
    exact Nat.mod_lt _ (by norm_num)
  generalize ((freq &&& 0x7fff) >>> 11) &&& 0xf = freqHi at hnibble
  have hoct : (-8 : ℤ) ≤ if freqHi &&& 0x8 = 0 then (freqHi : ℤ) else (freqHi : ℤ) - 16 := by
    interval_cases freqHi <;> decide
  refine Nat.le_floor ?_
  have hbase : (2 : ℚ) ^ (-8 : ℤ)
      ≤ 2 ^ (if freqHi &&& 0x8 = 0 then (freqHi : ℤ) else (freqHi : ℤ) - 16) :=
    zpow_le_zpow_right₀ (by norm_num) hoct
  have hmant : (1 : ℚ) ≤ 1 + ((freq &&& 0x7fff &&& 0x3ff : ℕ) : ℚ) / 1024 :=
    le_add_of_nonneg_right (by positivity)
  calc ((172 : ℕ) : ℚ) ≤ 44100 * 2 ^ (-8 : ℤ) * 1 := by norm_num
    _ ≤ _ := by gcongr

/-- No request is ever rounded to a rate below the hardware minimum. -/
theorem le_toAICA {freqHz : ℕ} (hf : freqHz < 2 ^ 22) : 172 ≤ fDcaToAICAFrequency freqHz := by
  obtain ⟨k, hk, -⟩ := exists_inOctave freqHz
  rw [fDcaToAICAFrequency_eq hk hf]
  exact le_rateOf (storedMantissa_mem freqHz k).1

/-- Below the lowest octave the quotient has no leading one, and the decoder adds it: the rate
read back is the request on top of the octave's base. -/
theorem toAICA_below {freqHz : ℕ} (hf : freqHz < 172) :
    fDcaToAICAFrequency freqHz = freqHz + 172 := by
  have hbase : octaveBase 0 = 172 := rfl
  have hm : mantissa freqHz 0 = (1024 * freqHz + 86) / 172 :=
    mantissa_eq_div (by rw [hbase]; omega)
  have hrange : (1024 * freqHz + 86) / 172 ≤ 1018 := by omega
  rw [fDcaToAICAFrequency_eq (inOctave_zero (by omega)) (by omega), rateOf, storedMantissa, hm,
    Nat.mod_eq_of_lt (by omega : (1024 * freqHz + 86) / 172 < 1024)]
  omega

/-! ## Upper bounds -/

theorem toAICA_narrow_le {freqHz : ℕ} (hlo : 689 ≤ freqHz) (hf : freqHz < 2756) :
    689 ≤ fDcaToAICAFrequency freqHz ∧ fDcaToAICAFrequency freqHz ≤ freqHz := by
  rcases Nat.lt_or_ge freqHz 1378 with h | h
  · rw [toAICA_octave_two hlo h]
    split <;> omega
  · rw [toAICA_octave_three h hf]
    split <;> omega

theorem toAICA_wide_le {freqHz k : ℕ} (hk : InOctave freqHz k) (hk₄ : 4 ≤ k)
    (hf : freqHz < 2 ^ 17) : 2612 * fDcaToAICAFrequency freqHz ≤ 2614 * freqHz := by
  have hk₁₁ : k ≤ 11 := by
    by_contra hgt
    have hmono : octaveBase 12 ≤ octaveBase k := octaveBase_mono (by omega) hk.le_top
    have hbase : octaveBase 12 = 705600 := rfl
    rcases hk.base_le with h | h <;> omega
  have hbase := octaveBase_le_of_inOctave hk (by
    have hmono : octaveBase 4 ≤ octaveBase k := octaveBase_mono hk₄ (by omega)
    have hb : octaveBase 4 = 2756 := rfl
    rcases hk.base_le with h | h <;> omega)
  have hcell : 1024 * freqHz + octaveBase k / 2 < 2 ^ 32 := by omega
  have hm := base_mul_storedMantissa_le hk (by have := octaveBase_ge k; omega) (by omega) hcell
  rw [fDcaToAICAFrequency_eq hk (by omega), rateOf]
  generalize storedMantissa freqHz k = m at hm ⊢
  interval_cases k <;> simp only [octaveBase] at hbase hm <;> norm_num at hbase hm ⊢ <;> omega

/-! ## One and two roundings -/

/-- Off the drifting requests, one rounding stays within the slack. -/
theorem toAICA_growth {freqHz : ℕ} (hlo : 172 ≤ freqHz) (hf : freqHz < 2 ^ 17)
    (hdrift : ¬RateDrifts freqHz) : 65281 * fDcaToAICAFrequency freqHz ≤ 65331 * freqHz := by
  rcases Nat.lt_or_ge freqHz 344 with h₁ | h₁
  · rw [toAICA_octave_zero hlo h₁]
    omega
  rcases Nat.lt_or_ge freqHz 689 with h₂ | h₂
  · rcases (by omega : freqHz < 688 ∨ freqHz = 688) with hlt | rfl
    · rw [toAICA_octave_one h₁ hlt, if_neg hdrift]
      omega
    · rw [toAICA_688]
      norm_num
  rcases Nat.lt_or_ge freqHz 2756 with h₃ | h₃
  · have := (toAICA_narrow_le h₂ h₃).2
    omega
  · obtain ⟨k, hk, hk₄⟩ := exists_inOctave_wide h₃
    have := toAICA_wide_le hk hk₄ hf
    omega

/-- A drifting request is one hertz short of its rounded rate. -/
theorem toAICA_of_drift {freqHz : ℕ} (h : RateDrifts freqHz) :
    fDcaToAICAFrequency freqHz = freqHz + 1 := by
  have hrange : 344 ≤ freqHz ∧ freqHz < 688 := by
    rw [RateDrifts] at h
    omega
  rw [toAICA_octave_one hrange.1 hrange.2, if_pos h]

/-- Two roundings of a drifting request whose successor drifts too raise it by two hertz. -/
theorem toAICA_twice_of_drift {freqHz : ℕ} (h : RateDrifts freqHz)
    (h' : RateDrifts (freqHz + 1)) :
    fDcaToAICAFrequency (fDcaToAICAFrequency freqHz) = freqHz + 2 := by
  rw [toAICA_of_drift h, toAICA_of_drift h']

/-- Otherwise two roundings stay within the slack left by the 64 samples the program holds back. -/
theorem toAICA_twice_lt {freqHz : ℕ} (hlo : 172 ≤ freqHz) (hf : freqHz < 2 ^ 17)
    (hdrift : ¬(RateDrifts freqHz ∧ RateDrifts (freqHz + 1))) :
    65216 * fDcaToAICAFrequency (fDcaToAICAFrequency freqHz) < 65331 * freqHz := by
  rcases Nat.lt_or_ge freqHz 344 with h₁ | h₁
  · rw [toAICA_octave_zero hlo h₁, toAICA_octave_zero hlo h₁]
    omega
  rcases Nat.lt_or_ge freqHz 689 with h₂ | h₂
  · rcases (by omega : freqHz < 688 ∨ freqHz = 688) with hlt | rfl
    · by_cases hd : RateDrifts freqHz
      · have hd' : ¬RateDrifts (freqHz + 1) := fun h ↦ hdrift ⟨hd, h⟩
        rw [toAICA_octave_one h₁ hlt, if_pos hd]
        rw [RateDrifts] at hd
        rcases (by omega : freqHz + 1 < 688 ∨ freqHz + 1 = 688) with hlt' | heq
        · rw [toAICA_octave_one (by omega) hlt', if_neg hd']
          omega
        · rw [heq, toAICA_688]
          omega
      · rw [toAICA_octave_one h₁ hlt, if_neg hd, toAICA_octave_one h₁ hlt, if_neg hd]
        omega
    · rw [toAICA_688, toAICA_octave_one (by norm_num) (by norm_num)]
      decide
  rcases Nat.lt_or_ge freqHz 2756 with h₃ | h₃
  · obtain ⟨hge, hle⟩ := toAICA_narrow_le h₂ h₃
    have := (toAICA_narrow_le hge (by omega)).2
    omega
  · obtain ⟨k, hk, hk₄⟩ := exists_inOctave_wide h₃
    have := toAICA_wide_le hk hk₄ hf
    rw [toAICA_toAICA_of_code_eq (fDaConvertFrequency_toAICA_of_wide hk hk₄ (by omega)).symm]
    omega

/-- Below the lowest octave two roundings raise a rate by more than the slack, whatever it is. -/
theorem toAICA_twice_below {freqHz : ℕ} (hf : freqHz < 172) :
    65331 * (freqHz + 1) ≤ 65216 * fDcaToAICAFrequency (fDcaToAICAFrequency freqHz) := by
  rw [toAICA_below hf, toAICA_octave_zero (by omega) (by omega)]
  omega

/-- A bound for every request in range. -/
theorem toAICA_le (freqHz : ℕ) (hf : freqHz < 2 ^ 17) :
    fDcaToAICAFrequency freqHz ≤ freqHz + freqHz / 1000 + 344 := by
  rcases Nat.lt_or_ge freqHz 172 with hlo | hlo
  · rw [toAICA_below hlo]
    omega
  · by_cases hdrift : RateDrifts freqHz
    · rw [toAICA_of_drift hdrift]
      omega
    · have := toAICA_growth hlo hf hdrift
      omega

end DcaConv
