import DcaConv.Rate.RoundTrip

/-!
# How far the pitch register is from the request

A code denotes the exact rate `44100 * 2 ^ hi * (1 + lo / 1024)`. Rounding the quotient to the
nearest mantissa costs half a step, and the encoder's truncated octave base up to a hertz, so the
two stay within a step and a hertz of the request together. Masking the quotient to ten bits can
cost a whole octave: where rounding carries into the next octave the carry is lost, and at the very
top of the range the rounding term wraps in 32 bits. In both places the code denotes the base of
the octave, half the rate asked for.
-/

namespace DcaConv

/-! ## The statement in integers -/

/-- The signed octave of a pitch value. -/
def signedOctave (freq : ℕ) : ℤ :=
  let freqHi := (freq >>> 11) &&& 0xf
  if freqHi &&& 0x8 = 0 then freqHi else (freqHi : ℤ) - 16

/-- The exact rate of the request's code is a mantissa step and a hertz from the request. -/
def ConvertsAccurately (freqHz : ℕ) : Prop :=
  |fDaUnconvertFrequency (fDaConvertFrequency freqHz) - freqHz|
    ≤ 44100 * 2 ^ signedOctave (fDaConvertFrequency freqHz) / 1024 + 1

theorem signedOctave_aicaCode {k lo : ℕ} (hk : k ≤ 15) (hlo : lo < 1024) :
    signedOctave (aicaCode k lo) = (k : ℤ) - 8 := by
  rw [signedOctave, octaveBits_aicaCode hlo, signExtend_octaveBits hk]

/-- The same for the stored mantissa, over one denominator. -/
theorem convertsAccurately_iff {freqHz k : ℕ} (hk : InOctave freqHz k) (hf : freqHz < 2 ^ 22) :
    ConvertsAccurately freqHz ↔
      11025 * storedMantissa freqHz k * 2 ^ k ≤ 65536 * freqHz + (11025 * 2 ^ k + 65536) ∧
        65536 * freqHz ≤ 11025 * storedMantissa freqHz k * 2 ^ k + (11025 * 2 ^ k + 65536) := by
  have hlo : mantissa freqHz k % 1024 < 1024 := Nat.mod_lt _ (by norm_num)
  have hstep : (44100 : ℚ) * 2 ^ ((k : ℤ) - 8) / 1024 = 11025 * 2 ^ k / 65536 := by
    rw [zpow_sub₀ (by norm_num), zpow_natCast]
    norm_num
    ring
  rw [ConvertsAccurately, fDaConvertFrequency_eq hk hf, signedOctave_aicaCode hk.le_top hlo,
    fDaUnconvertFrequency_aicaCode hk.le_top hlo, rate_eq_div, hstep, abs_le]
  rw [← storedMantissa]
  push_cast
  constructor
  · rintro ⟨h₁, h₂⟩
    constructor
    · have : (11025 * storedMantissa freqHz k * 2 ^ k : ℚ)
          ≤ 65536 * freqHz + (11025 * 2 ^ k + 65536) := by linarith
      exact_mod_cast this
    · have : (65536 * freqHz : ℚ)
          ≤ 11025 * storedMantissa freqHz k * 2 ^ k + (11025 * 2 ^ k + 65536) := by linarith
      exact_mod_cast this
  · rintro ⟨h₁, h₂⟩
    have h₁' : (11025 * storedMantissa freqHz k * 2 ^ k : ℚ)
        ≤ 65536 * freqHz + (11025 * 2 ^ k + 65536) := by exact_mod_cast h₁
    have h₂' : (65536 * freqHz : ℚ)
        ≤ 11025 * storedMantissa freqHz k * 2 ^ k + (11025 * 2 ^ k + 65536) := by exact_mod_cast h₂
    constructor <;> linarith

/-! ## Inside an octave -/

/-- The requests that round inside their own octave: half a mantissa step below the next one at
least, and below the point where the rounding term wraps. -/
def RoundsInOctave (freqHz : ℕ) : Prop :=
  freqHz < 4192926 ∧ ∀ k, InOctave freqHz k →
    1024 * freqHz + octaveBase k / 2 < 2048 * octaveBase k

theorem le_double_octaveBase {freqHz k : ℕ} (hk : InOctave freqHz k) (hk₁₄ : k ≤ 14) :
    freqHz ≤ 2 * octaveBase k := by
  have hdouble := octaveBase_succ_le_double (k := k) (by omega)
  rcases hk.lt_next with h | h <;> omega

/-- A mantissa rounded to nearest is accurate. The base is at most one short of the exact one, and
the octaves where that costs most are the second and the sixth. -/
theorem accurate_of_cell {freqHz k m : ℕ} (hk₁₄ : k ≤ 14) (hle : freqHz ≤ 2 * octaveBase k)
    (hcell : octaveBase k * m ≤ 1024 * freqHz + octaveBase k / 2 ∧
      1024 * freqHz + octaveBase k / 2 < octaveBase k * m + octaveBase k) :
    11025 * m * 2 ^ k ≤ 65536 * freqHz + (11025 * 2 ^ k + 65536) ∧
      65536 * freqHz ≤ 11025 * m * 2 ^ k + (11025 * 2 ^ k + 65536) := by
  interval_cases k <;> simp only [octaveBase] at hle hcell <;> norm_num at hle hcell ⊢ <;> omega

/-- The base of the octave is not accurate for a request at the top of it. -/
theorem not_accurate_of_base {freqHz k : ℕ} (hk₁₄ : k ≤ 14)
    (hfar : octaveBase k + octaveBase k / 512 + 2 < freqHz) :
    ¬65536 * freqHz ≤ 11025 * 1024 * 2 ^ k + (11025 * 2 ^ k + 65536) := by
  interval_cases k <;> simp only [octaveBase] at hfar <;> norm_num at hfar ⊢ <;> omega

theorem lt_octaveBase_top {freqHz k : ℕ} (hk : InOctave freqHz k) (hk₁₄ : k < 14) :
    freqHz < 2822400 := by
  have hbase : octaveBase (k + 1) ≤ 2822400 := octaveBase_le hk₁₄
  rcases hk.lt_next with h | h <;> omega

/-- In its own octave, the condition is about one base. -/
theorem roundsInOctave_iff {freqHz k : ℕ} (hk : InOctave freqHz k) : RoundsInOctave freqHz ↔
    freqHz < 4192926 ∧ 1024 * freqHz + octaveBase k / 2 < 2048 * octaveBase k := by
  refine and_congr_right fun _ ↦ ⟨fun h ↦ h k hk, fun h j hj ↦ ?_⟩
  rw [hj.unique hk]
  exact h

/-- Inside its octave a request is in the cell of what is stored. -/
theorem mem_cell_of_rounds {freqHz k : ℕ} (hk : InOctave freqHz k) (hlo : 172 ≤ freqHz)
    (hf : freqHz < 2 ^ 22) (h : RoundsInOctave freqHz) :
    octaveBase k * storedMantissa freqHz k ≤ 1024 * freqHz + octaveBase k / 2 ∧
      1024 * freqHz + octaveBase k / 2 < octaveBase k * storedMantissa freqHz k + octaveBase k := by
  have hk₁₄ := le_fourteen_of_lt hk hf
  obtain ⟨hlt, hoct⟩ := (roundsInOctave_iff hk).mp h
  have hwrap : 1024 * freqHz + octaveBase k / 2 < 2 ^ 32 := by
    have hb := octaveBase_le hk₁₄
    omega
  have hcell := (mantissa_eq_iff hwrap).mp rfl
  have hm := (mantissa_mem hk hlo (by omega) hwrap).1
  have hm' : mantissa freqHz k < 2048 := by
    rw [mantissa, u32_of_lt hwrap, Nat.div_lt_iff_lt_mul (octaveBase_pos k)]
    exact hoct
  rwa [storedMantissa_eq_of_mem_cell hwrap hm hm' hcell]

/-- Otherwise the request is twice the base, up to the half step that rounding adds. -/
theorem far_of_not_rounds {freqHz k : ℕ} (hk : InOctave freqHz k) (hk₁₄ : k ≤ 14)
    (h : ¬RoundsInOctave freqHz) : octaveBase k + octaveBase k / 512 + 2 < freqHz := by
  have hb := octaveBase_ge k
  have hb' := octaveBase_le hk₁₄
  rw [roundsInOctave_iff hk] at h
  by_cases hlt : freqHz < 4192926
  · have hcarry : ¬1024 * freqHz + octaveBase k / 2 < 2048 * octaveBase k := fun hc ↦ h ⟨hlt, hc⟩
    omega
  · omega

/-- Where rounding leaves the octave, or the rounding term wraps, the base is stored. -/
theorem storedMantissa_of_not_rounds {freqHz k : ℕ} (hk : InOctave freqHz k) (hlo : 172 ≤ freqHz)
    (hf : freqHz < 2 ^ 22) (h : ¬RoundsInOctave freqHz) : storedMantissa freqHz k = 1024 := by
  have hk₁₄ := le_fourteen_of_lt hk hf
  have hbase := octaveBase_le_of_inOctave hk hlo
  rw [roundsInOctave_iff hk] at h
  by_cases hwrap : 1024 * freqHz + octaveBase k / 2 < 2 ^ 32
  · have hlt : freqHz < 4192926 := by
      rcases Nat.lt_or_ge k 14 with hlow | htop
      · exact (lt_octaveBase_top hk hlow).trans (by norm_num)
      · obtain rfl : k = 14 := by omega
        have hb : octaveBase 14 = 2822400 := rfl
        omega
    have hcarry : ¬1024 * freqHz + octaveBase k / 2 < 2048 * octaveBase k := fun hc ↦ h ⟨hlt, hc⟩
    have hle := (mantissa_mem hk hlo (by omega) hwrap).2
    have hge : 2048 ≤ mantissa freqHz k := by
      rw [mantissa, u32_of_lt hwrap, Nat.le_div_iff_mul_le (octaveBase_pos k)]
      omega
    rw [storedMantissa]
    omega
  · obtain rfl : k = 14 := by
      by_contra hne
      have hlow := lt_octaveBase_top hk (by omega)
      omega
    have hb : octaveBase 14 = 2822400 := rfl
    have hzero : mantissa freqHz 14 = 0 := by
      rw [mantissa, u32, hb, Nat.mod_eq_sub_mod (by omega), Nat.mod_eq_of_lt (by omega)]
      omega
    rw [storedMantissa, hzero]

/-- **Accuracy of the pitch register.** A request is converted to within a mantissa step and a hertz
exactly when it rounds inside its octave. -/
theorem convertsAccurately_iff_rounds (freqHz : ℕ) (hlo : 172 ≤ freqHz) (hf : freqHz < 2 ^ 22) :
    ConvertsAccurately freqHz ↔ RoundsInOctave freqHz := by
  obtain ⟨k, hk, -⟩ := exists_inOctave freqHz
  have hk₁₄ := le_fourteen_of_lt hk hf
  rw [convertsAccurately_iff hk hf]
  by_cases hrounds : RoundsInOctave freqHz
  · have hcell := mem_cell_of_rounds hk hlo hf hrounds
    exact iff_of_true (accurate_of_cell hk₁₄ (le_double_octaveBase hk hk₁₄) hcell) hrounds
  · have hfar := far_of_not_rounds hk hk₁₄ hrounds
    rw [storedMantissa_of_not_rounds hk hlo hf hrounds]
    exact iff_of_false (fun h ↦ not_accurate_of_base hk₁₄ hfar h.2) hrounds

/-- The common rate 22050 Hz is converted accurately. -/
theorem convertsAccurately_iff_rounds_22050 :
    ConvertsAccurately 22050 ↔ RoundsInOctave 22050 :=
  convertsAccurately_iff_rounds 22050 (by norm_num) (by norm_num)

/-- 688 Hz is the top of the second octave: its code denotes 344.53 Hz. -/
theorem not_convertsAccurately_688 :
    172 ≤ 688 ∧ 688 < 2 ^ 22 ∧ ¬ConvertsAccurately 688 := by
  refine ⟨by norm_num, by norm_num, ?_⟩
  rw [convertsAccurately_iff (inOctave_one (by norm_num) (by norm_num)) (by norm_num)]
  decide

end DcaConv
