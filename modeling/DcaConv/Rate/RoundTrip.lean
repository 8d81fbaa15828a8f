import DcaConv.Rate.Convert

/-!
# Rounding a rate twice

`main` rounds the output rate to an AICA rate before it resamples, and the writer rounds that
result again. The two agree when the whole-hertz rate read back from a code rounds to the code it
came from, that is, when truncation leaves it inside the code's rounding cell.

From the fifth octave up the cell is wide enough to absorb the truncation and the encoder's
truncated base together. Below that the mantissa step is about a hertz or less, and each octave has
its own exceptions: in the second the decoder's larger base lifts the rate by a whole hertz, in the
third and fourth truncation drops below the cell whenever the encoder rounded up.
-/

namespace DcaConv

/-! ## Rounding cells -/

theorem octaveBase_ge (k : ℕ) : 172 ≤ octaveBase k := by
  rw [octaveBase, Nat.shiftRight_eq_div_pow]
  calc 172 ≤ 5644800 / 2 ^ 15 := by norm_num
    _ ≤ 5644800 / 2 ^ (15 - k) :=
      Nat.div_le_div_left (Nat.pow_le_pow_right (by norm_num) (by omega)) (by positivity)

theorem octaveBase_pos (k : ℕ) : 0 < octaveBase k :=
  (by norm_num : 0 < 172).trans_le (octaveBase_ge k)

theorem octaveBase_succ_le_double {k : ℕ} (hk : k < 15) :
    octaveBase (k + 1) ≤ 2 * octaveBase k + 1 := by
  rw [← octaveBase_shiftRight hk, Nat.shiftRight_eq_div_pow]
  omega

/-- The rates that round to mantissa `m`, scaled by 1024 and shifted by half a step. -/
theorem mantissa_eq_iff {freqHz k m : ℕ} (hf : 1024 * freqHz + octaveBase k / 2 < 2 ^ 32) :
    mantissa freqHz k = m ↔ octaveBase k * m ≤ 1024 * freqHz + octaveBase k / 2 ∧
      1024 * freqHz + octaveBase k / 2 < octaveBase k * m + octaveBase k := by
  rw [mantissa, u32_of_lt hf, Nat.div_eq_iff (octaveBase_pos k), mul_comm m]
  have := octaveBase_pos k
  omega

theorem octaveBase_le_of_inOctave {freqHz k : ℕ} (hk : InOctave freqHz k) (hlo : 172 ≤ freqHz) :
    octaveBase k ≤ freqHz := by
  rcases hk.base_le with rfl | h
  · exact hlo
  · exact h

/-- Below the top octave the rounded mantissa reaches at most the next octave's base. -/
theorem mantissa_mem {freqHz k : ℕ} (hk : InOctave freqHz k) (hlo : 172 ≤ freqHz) (htop : k < 15)
    (hf : 1024 * freqHz + octaveBase k / 2 < 2 ^ 32) :
    1024 ≤ mantissa freqHz k ∧ mantissa freqHz k ≤ 2048 := by
  have hbase := octaveBase_le_of_inOctave hk hlo
  have hpos := octaveBase_pos k
  have hnext : freqHz ≤ 2 * octaveBase k := by
    have := octaveBase_succ_le_double htop
    rcases hk.lt_next with h | h <;> omega
  rw [mantissa, u32_of_lt hf]
  constructor
  · rw [Nat.le_div_iff_mul_le hpos]
    omega
  · rw [← Nat.lt_succ_iff, Nat.div_lt_iff_lt_mul hpos]
    omega

/-- The decoder never reads more than the encoder's quotient. -/
theorem base_mul_storedMantissa_le {freqHz k : ℕ} (hk : InOctave freqHz k) (hlo : 172 ≤ freqHz)
    (htop : k < 15) (hf : 1024 * freqHz + octaveBase k / 2 < 2 ^ 32) :
    octaveBase k * storedMantissa freqHz k ≤ 1024 * freqHz + octaveBase k / 2 := by
  obtain ⟨hm₁, hm₂⟩ := mantissa_mem hk hlo htop hf
  have hle : storedMantissa freqHz k ≤ mantissa freqHz k := by
    rw [storedMantissa]
    omega
  calc octaveBase k * storedMantissa freqHz k
      ≤ octaveBase k * mantissa freqHz k := Nat.mul_le_mul_left _ hle
    _ ≤ 1024 * freqHz + octaveBase k / 2 := ((mantissa_eq_iff hf).mp rfl).1

theorem fDaConvertFrequency_eq_iff {f g k : ℕ} (hf : InOctave f k) (hg : InOctave g k)
    (hf' : f < 2 ^ 22) (hg' : g < 2 ^ 22) :
    fDaConvertFrequency f = fDaConvertFrequency g ↔ storedMantissa f k = storedMantissa g k := by
  rw [fDaConvertFrequency_eq hf hf', fDaConvertFrequency_eq hg hg', aicaCode_inj, storedMantissa,
    storedMantissa, Nat.add_left_cancel_iff]

/-! ## The wide octaves -/

theorem exists_inOctave_wide {freqHz : ℕ} (hlo : 2756 ≤ freqHz) :
    ∃ k, InOctave freqHz k ∧ 4 ≤ k := by
  obtain ⟨k, hk, -⟩ := exists_inOctave freqHz
  refine ⟨k, hk, ?_⟩
  by_contra hlt
  have hmono : octaveBase (k + 1) ≤ octaveBase 4 := octaveBase_mono (by omega) (by norm_num)
  have hbase : octaveBase 4 = 2756 := rfl
  rcases hk.lt_next with h | h <;> omega

theorem inOctave_rateOf {k m : ℕ} (hk : 1 ≤ k) (hk' : k ≤ 14) (hm : 1024 ≤ m) (hm' : m < 2048) :
    InOctave (rateOf k m) k := by
  refine ⟨by omega, Or.inr ?_, Or.inr ?_⟩ <;>
    interval_cases k <;> simp only [octaveBase, rateOf] <;> norm_num <;> omega

/-- In the fifth octave and above, truncation to whole hertz stays inside the rounding cell. -/
theorem rateOf_mem_cell {k m : ℕ} (hk : 4 ≤ k) (hk' : k ≤ 14) (hm : 1024 ≤ m) (hm' : m < 2048) :
    octaveBase k * m ≤ 1024 * rateOf k m + octaveBase k / 2 ∧
      1024 * rateOf k m + octaveBase k / 2 < octaveBase k * m + octaveBase k := by
  interval_cases k <;> simp only [octaveBase, rateOf] <;> norm_num <;> omega

/-- The top of the range: a request just below `2 ^ 22` whose rounding term wraps is stored as the
octave's base, so no stored mantissa reaches `2 ^ 22` hertz. -/
theorem storedMantissa_top {freqHz : ℕ} (hf : freqHz < 2 ^ 22) (hk : InOctave freqHz 14) :
    storedMantissa freqHz 14 ≤ 1521 := by
  have hbase : octaveBase 14 = 2822400 := rfl
  have hlo := octaveBase_le_of_inOctave hk (by have := hk.base_le; omega)
  have hquot : mantissa freqHz 14 = 0 ∨ 1024 ≤ mantissa freqHz 14 ∧ mantissa freqHz 14 ≤ 1521 := by
    rw [mantissa, u32, hbase]
    rcases Nat.lt_or_ge (1024 * freqHz + 2822400 / 2) (2 ^ 32) with h | h
    · rw [Nat.mod_eq_of_lt h]
      omega
    · rw [Nat.mod_eq_sub_mod h, Nat.mod_eq_of_lt (by omega)]
      omega
  rw [storedMantissa]
  omega

theorem rateOf_lt {freqHz k : ℕ} (hk : InOctave freqHz k) (hk₁ : 1 ≤ k) (hk₁₄ : k ≤ 14)
    (hf : freqHz < 2 ^ 22) :
    1024 * rateOf k (storedMantissa freqHz k) + octaveBase k / 2 < 2 ^ 32 := by
  obtain ⟨hm, hm'⟩ := storedMantissa_mem freqHz k
  rcases Nat.lt_or_ge k 14 with h | h
  · have hr := (inOctave_rateOf hk₁ hk₁₄ hm hm').lt_next
    have hb : octaveBase (k + 1) ≤ 2822400 := octaveBase_le h
    have hb' := octaveBase_le hk₁₄
    omega
  · obtain rfl : k = 14 := by omega
    have htop := storedMantissa_top hf hk
    have hbase : octaveBase 14 = 2822400 := rfl
    rw [rateOf, hbase]
    omega

theorem le_fourteen_of_lt {freqHz k : ℕ} (hk : InOctave freqHz k) (hf : freqHz < 2 ^ 22) :
    k ≤ 14 := by
  have htop := hk.le_top
  have hbase : octaveBase 15 = 5644800 := rfl
  rcases hk.base_le with h | h
  · omega
  · by_contra hgt
    obtain rfl : k = 15 := by omega
    omega

/-- Within one octave, a rate is stored as the mantissa whose cell holds it. -/
theorem storedMantissa_eq_of_mem_cell {freqHz k m : ℕ}
    (hf : 1024 * freqHz + octaveBase k / 2 < 2 ^ 32) (hm : 1024 ≤ m) (hm' : m < 2048)
    (hcell : octaveBase k * m ≤ 1024 * freqHz + octaveBase k / 2 ∧
      1024 * freqHz + octaveBase k / 2 < octaveBase k * m + octaveBase k) :
    storedMantissa freqHz k = m := by
  rw [storedMantissa, (mantissa_eq_iff hf).mpr hcell]
  omega

theorem fDaConvertFrequency_toAICA_of_wide {freqHz k : ℕ} (hk : InOctave freqHz k) (hk₄ : 4 ≤ k)
    (hf : freqHz < 2 ^ 22) :
    fDaConvertFrequency (fDcaToAICAFrequency freqHz) = fDaConvertFrequency freqHz := by
  have hk₁₄ := le_fourteen_of_lt hk hf
  obtain ⟨hm, hm'⟩ := storedMantissa_mem freqHz k
  have hlt := rateOf_lt hk (by omega) hk₁₄ hf
  have hlt' : rateOf k (storedMantissa freqHz k) < 2 ^ 22 := by omega
  rw [fDcaToAICAFrequency_eq hk hf, fDaConvertFrequency_eq_iff
    (inOctave_rateOf (by omega) hk₁₄ hm hm') hk hlt' hf]
  exact storedMantissa_eq_of_mem_cell hlt hm hm' (rateOf_mem_cell hk₄ hk₁₄ hm hm')

/-! ## The four narrow octaves

Their bases are 172, 344, 689 and 1378 hertz, against exact bases 172.27, 344.53, 689.06 and
1378.13. -/

/-- The requests of the second octave that the decoder's larger base lifts by one hertz. -/
def RateDrifts (freqHz : ℕ) : Prop :=
  574 ≤ freqHz ∧ freqHz ≤ 580 ∨ 610 ≤ freqHz ∧ freqHz ≤ 623 ∨
    646 ≤ freqHz ∧ freqHz ≤ 666 ∨ 682 ≤ freqHz ∧ freqHz ≤ 687

instance : DecidablePred RateDrifts := fun freqHz ↦ by unfold RateDrifts; infer_instance

theorem inOctave_zero {freqHz : ℕ} (hf : freqHz < 344) : InOctave freqHz 0 :=
  ⟨by norm_num, Or.inl rfl, Or.inr hf⟩

theorem inOctave_one {freqHz : ℕ} (hlo : 344 ≤ freqHz) (hf : freqHz < 689) : InOctave freqHz 1 :=
  ⟨by norm_num, Or.inr hlo, Or.inr hf⟩

theorem inOctave_two {freqHz : ℕ} (hlo : 689 ≤ freqHz) (hf : freqHz < 1378) : InOctave freqHz 2 :=
  ⟨by norm_num, Or.inr hlo, Or.inr hf⟩

theorem inOctave_three {freqHz : ℕ} (hlo : 1378 ≤ freqHz) (hf : freqHz < 2756) :
    InOctave freqHz 3 :=
  ⟨by norm_num, Or.inr hlo, Or.inr hf⟩

/-- The quotient of a narrow octave, without the 32-bit reduction that cannot bite there. -/
theorem mantissa_eq_div {freqHz k : ℕ} (hf : 1024 * freqHz + octaveBase k / 2 < 2 ^ 32) :
    mantissa freqHz k = (1024 * freqHz + octaveBase k / 2) / octaveBase k := by
  rw [mantissa, u32_of_lt hf]

theorem toAICA_octave_zero {freqHz : ℕ} (hlo : 172 ≤ freqHz) (hf : freqHz < 344) :
    fDcaToAICAFrequency freqHz = freqHz := by
  have hbase : octaveBase 0 = 172 := rfl
  have hm : mantissa freqHz 0 = (1024 * freqHz + 86) / 172 :=
    mantissa_eq_div (by rw [hbase]; omega)
  have hrange : 1024 ≤ (1024 * freqHz + 86) / 172 ∧ (1024 * freqHz + 86) / 172 < 2048 := by omega
  have hstored : storedMantissa freqHz 0 = (1024 * freqHz + 86) / 172 := by
    rw [storedMantissa, hm]
    omega
  rw [fDcaToAICAFrequency_eq (inOctave_zero hf) (by omega), rateOf, hstored]
  omega

theorem toAICA_octave_one {freqHz : ℕ} (hlo : 344 ≤ freqHz) (hf : freqHz < 688) :
    fDcaToAICAFrequency freqHz = if RateDrifts freqHz then freqHz + 1 else freqHz := by
  have hbase : octaveBase 1 = 344 := rfl
  have hm : mantissa freqHz 1 = (1024 * freqHz + 172) / 344 :=
    mantissa_eq_div (by rw [hbase]; omega)
  have hdrift : ∀ f < 688, 344 ≤ f →
      11025 * (1024 + (1024 * f + 172) / 344 % 1024) * 2 ^ 1 / 65536
        = if RateDrifts f then f + 1 else f := by decide +kernel
  rw [fDcaToAICAFrequency_eq (inOctave_one hlo (by omega)) (by omega), rateOf, storedMantissa, hm]
  exact hdrift freqHz hf hlo

/-- The carry out of the mantissa: rounding takes 688 up to the next octave, and the ten-bit mask
takes it back to the bottom of its own. -/
theorem toAICA_688 : fDcaToAICAFrequency 688 = 344 := by
  rw [fDcaToAICAFrequency_eq (inOctave_one (by norm_num) (by norm_num)) (by norm_num)]
  rfl

theorem storedMantissa_two {freqHz : ℕ} (hlo : 689 ≤ freqHz) (hf : freqHz < 1378) :
    storedMantissa freqHz 2 = (1024 * freqHz + 344) / 689 := by
  have hbase : octaveBase 2 = 689 := rfl
  have hm : mantissa freqHz 2 = (1024 * freqHz + 344) / 689 :=
    mantissa_eq_div (by rw [hbase]; omega)
  have hrange : 1024 ≤ (1024 * freqHz + 344) / 689 ∧ (1024 * freqHz + 344) / 689 < 2048 := by omega
  rw [storedMantissa, hm]
  omega

theorem toAICA_octave_two {freqHz : ℕ} (hlo : 689 ≤ freqHz) (hf : freqHz < 1378) :
    fDcaToAICAFrequency freqHz
      = if (1024 * freqHz + 344) % 689 ≤ 344 + (1024 * freqHz + 344) / 689 / 16 then freqHz
        else freqHz - 1 := by
  rw [fDcaToAICAFrequency_eq (inOctave_two hlo hf) (by omega), storedMantissa_two hlo hf, rateOf]
  have hm : 1024 ≤ (1024 * freqHz + 344) / 689 ∧ (1024 * freqHz + 344) / 689 < 2048 := by omega
  have hr := Nat.mod_add_div (1024 * freqHz + 344) 689
  split <;> omega

theorem storedMantissa_three {freqHz : ℕ} (hlo : 1378 ≤ freqHz) (hf : freqHz < 2756) :
    storedMantissa freqHz 3 = (1024 * freqHz + 689) / 1378 := by
  have hbase : octaveBase 3 = 1378 := rfl
  have hm : mantissa freqHz 3 = (1024 * freqHz + 689) / 1378 :=
    mantissa_eq_div (by rw [hbase]; omega)
  have hrange : 1024 ≤ (1024 * freqHz + 689) / 1378 ∧
      (1024 * freqHz + 689) / 1378 < 2048 := by omega
  rw [storedMantissa, hm]
  omega

theorem toAICA_octave_three {freqHz : ℕ} (hlo : 1378 ≤ freqHz) (hf : freqHz < 2756) :
    fDcaToAICAFrequency freqHz
      = if (1024 * freqHz + 689) % 1378 ≤ 689 + (1024 * freqHz + 689) / 1378 / 8 then freqHz
        else freqHz - 1 := by
  rw [fDcaToAICAFrequency_eq (inOctave_three hlo hf) (by omega), storedMantissa_three hlo hf,
    rateOf]
  have hm : 1024 ≤ (1024 * freqHz + 689) / 1378 ∧ (1024 * freqHz + 689) / 1378 < 2048 := by omega
  have hr := Nat.mod_add_div (1024 * freqHz + 689) 1378
  split <;> omega

/-! ## When rounding twice is rounding once -/

/-- The requests whose rounded rate still denotes their code. In the third and fourth octaves the
remainder of the encoder's division decides: a remainder above half a step means the encoder rounded
up, and truncation then falls short of the request by a hertz. -/
structure KeepsCode (freqHz : ℕ) : Prop where
  /-- The second octave. -/
  second : ¬RateDrifts freqHz
  /-- The third octave, where a hertz is always more than a step. -/
  third : 689 ≤ freqHz → freqHz < 1378 →
    (1024 * freqHz + 344) % 689 ≤ 344 + (1024 * freqHz + 344) / 689 / 16
  /-- The fourth octave, where the lost hertz may still lie in the cell. -/
  fourth : 1378 ≤ freqHz → freqHz < 2756 →
    689 + (1024 * freqHz + 689) / 1378 / 8 < (1024 * freqHz + 689) % 1378 →
      1024 ≤ (1024 * freqHz + 689) % 1378

/-- Equal codes already make the second rounding idle. -/
theorem toAICA_toAICA_of_code_eq {freqHz : ℕ}
    (h : fDaConvertFrequency freqHz = fDaConvertFrequency (fDcaToAICAFrequency freqHz)) :
    fDcaToAICAFrequency (fDcaToAICAFrequency freqHz) = fDcaToAICAFrequency freqHz := by
  calc fDcaToAICAFrequency (fDcaToAICAFrequency freqHz)
      = truncate (fDaUnconvertFrequency
          (fDaConvertFrequency (fDcaToAICAFrequency freqHz))) := rfl
    _ = truncate (fDaUnconvertFrequency (fDaConvertFrequency freqHz)) := by rw [← h]
    _ = fDcaToAICAFrequency freqHz := rfl

private theorem code_eq_iff_octave_one {freqHz : ℕ} (hlo : 344 ≤ freqHz) (hf : freqHz < 689) :
    fDaConvertFrequency freqHz = fDaConvertFrequency (fDcaToAICAFrequency freqHz) ↔
      ¬RateDrifts freqHz := by
  rcases (by omega : freqHz < 688 ∨ freqHz = 688) with hlt | rfl
  · rw [toAICA_octave_one hlo hlt]
    split
    · next hdrift =>
      have hbase : octaveBase 1 = 344 := rfl
      have hne : storedMantissa freqHz 1 ≠ storedMantissa (freqHz + 1) 1 := by
        -- a hertz is two or three steps here, far less than the 1024 the mask identifies
        have hstep : (1024 * (freqHz + 1) + 344 / 2) / 344 = (1024 * freqHz + 344 / 2) / 344 + 2 ∨
            (1024 * (freqHz + 1) + 344 / 2) / 344 = (1024 * freqHz + 344 / 2) / 344 + 3 := by
          omega
        rw [storedMantissa, storedMantissa, mantissa_eq_div (by rw [hbase]; omega),
          mantissa_eq_div (by rw [hbase]; omega), hbase]
        omega
      rw [fDaConvertFrequency_eq_iff (inOctave_one hlo hf)
        (inOctave_one (by omega) (by omega)) (by omega) (by omega)]
      exact iff_of_false hne (not_not.mpr hdrift)
    · next hdrift => exact iff_of_true rfl hdrift
  · rw [toAICA_688, fDaConvertFrequency_eq_iff (inOctave_one (by norm_num) (by norm_num))
      (inOctave_one (by norm_num) (by norm_num)) (by norm_num) (by norm_num)]
    decide

private theorem code_eq_iff_octave_two {freqHz : ℕ} (hlo : 689 ≤ freqHz) (hf : freqHz < 1378) :
    fDaConvertFrequency freqHz = fDaConvertFrequency (fDcaToAICAFrequency freqHz) ↔
      (1024 * freqHz + 344) % 689 ≤ 344 + (1024 * freqHz + 344) / 689 / 16 := by
  rw [toAICA_octave_two hlo hf]
  split
  · next hle => exact iff_of_true rfl hle
  · next hgt =>
    have hlo' : 689 ≤ freqHz - 1 := by omega
    rw [fDaConvertFrequency_eq_iff (inOctave_two hlo hf) (inOctave_two hlo' (by omega))
      (by omega) (by omega), storedMantissa_two hlo hf, storedMantissa_two hlo' (by omega)]
    refine iff_of_false ?_ hgt
    omega

private theorem code_eq_iff_octave_three {freqHz : ℕ} (hlo : 1378 ≤ freqHz) (hf : freqHz < 2756) :
    fDaConvertFrequency freqHz = fDaConvertFrequency (fDcaToAICAFrequency freqHz) ↔
      (689 + (1024 * freqHz + 689) / 1378 / 8 < (1024 * freqHz + 689) % 1378 →
        1024 ≤ (1024 * freqHz + 689) % 1378) := by
  rw [toAICA_octave_three hlo hf]
  split
  · next hle => exact iff_of_true rfl fun h ↦ absurd hle (by omega)
  · next hgt =>
    have hlo' : 1378 ≤ freqHz - 1 := by omega
    rw [fDaConvertFrequency_eq_iff (inOctave_three hlo hf) (inOctave_three hlo' (by omega))
      (by omega) (by omega), storedMantissa_three hlo hf, storedMantissa_three hlo' (by omega)]
    omega

theorem code_eq_iff_keepsCode {freqHz : ℕ} (hlo : 172 ≤ freqHz) (hf : freqHz < 2 ^ 22) :
    fDaConvertFrequency freqHz = fDaConvertFrequency (fDcaToAICAFrequency freqHz) ↔
      KeepsCode freqHz := by
  have hkeep : KeepsCode freqHz ↔ _ ∧ _ ∧ _ :=
    ⟨fun h ↦ ⟨h.second, h.third, h.fourth⟩, fun h ↦ ⟨h.1, h.2.1, h.2.2⟩⟩
  have hdrift : RateDrifts freqHz → 344 ≤ freqHz ∧ freqHz < 689 := by
    rw [RateDrifts]
    omega
  rcases Nat.lt_or_ge freqHz 344 with h₁ | h₁
  · rw [toAICA_octave_zero hlo h₁]
    exact iff_of_true rfl ⟨fun h ↦ by have := hdrift h; omega, by omega, by omega⟩
  rcases Nat.lt_or_ge freqHz 689 with h₂ | h₂
  · rw [code_eq_iff_octave_one h₁ h₂, hkeep]
    exact ⟨fun h ↦ ⟨h, by omega, by omega⟩, fun h ↦ h.1⟩
  rcases Nat.lt_or_ge freqHz 1378 with h₃ | h₃
  · rw [code_eq_iff_octave_two h₂ h₃, hkeep]
    exact ⟨fun h ↦ ⟨fun h' ↦ by have := hdrift h'; omega, fun _ _ ↦ h, by omega⟩,
      fun h ↦ h.2.1 h₂ h₃⟩
  rcases Nat.lt_or_ge freqHz 2756 with h₄ | h₄
  · rw [code_eq_iff_octave_three h₃ h₄, hkeep]
    exact ⟨fun h ↦ ⟨fun h' ↦ by have := hdrift h'; omega, by omega, fun _ _ ↦ h⟩,
      fun h ↦ h.2.2 h₃ h₄⟩
  · obtain ⟨k, hk, hk₄⟩ := exists_inOctave_wide h₄
    exact iff_of_true (fDaConvertFrequency_toAICA_of_wide hk hk₄ hf).symm
      ⟨fun h ↦ by have := hdrift h; omega, by omega, by omega⟩

/-- **Stability of the rounded rate.** Rounding a rate twice is rounding it once, with one and the
same code, exactly off the narrow-octave exceptions. -/
theorem toAICA_stable_iff (freqHz : ℕ) (hlo : 172 ≤ freqHz) (hf : freqHz < 2 ^ 22) :
    (fDcaToAICAFrequency (fDcaToAICAFrequency freqHz) = fDcaToAICAFrequency freqHz ∧
      fDaConvertFrequency freqHz = fDaConvertFrequency (fDcaToAICAFrequency freqHz)) ↔
      KeepsCode freqHz := by
  rw [← code_eq_iff_keepsCode hlo hf]
  exact ⟨fun h ↦ h.2, fun h ↦ ⟨toAICA_toAICA_of_code_eq h, h⟩⟩

/-- Stability at the common rate of half the output rate. -/
theorem toAICA_stable_iff_22050 :
    (fDcaToAICAFrequency (fDcaToAICAFrequency 22050) = fDcaToAICAFrequency 22050 ∧
      fDaConvertFrequency 22050 = fDaConvertFrequency (fDcaToAICAFrequency 22050)) ↔
      KeepsCode 22050 :=
  toAICA_stable_iff 22050 (by norm_num) (by norm_num)

/-- A request of 687 Hz is rounded to 688 Hz, and that rate to 344 Hz. -/
theorem toAICA_unstable_687 :
    172 ≤ 687 ∧ 687 < 2 ^ 22 ∧
      ¬(fDcaToAICAFrequency (fDcaToAICAFrequency 687) = fDcaToAICAFrequency 687 ∧
        fDaConvertFrequency 687 = fDaConvertFrequency (fDcaToAICAFrequency 687)) := by
  have h₁ : fDcaToAICAFrequency 687 = 688 := by
    rw [toAICA_octave_one (by norm_num) (by norm_num)]
    decide
  refine ⟨by norm_num, by norm_num, fun h ↦ ?_⟩
  rw [h₁, toAICA_688] at h
  exact absurd h.1 (by norm_num)

end DcaConv
