import DcaConv.Pipeline.Run
import DcaConv.Rate.Growth

/-!
# The length of the converted sound

A `.dca` conversion multiplies the length by a ratio of rates. The rate is chosen so that the result
fits the AICA, then rounded to a rate the AICA has, and it is the rounded rate that decides. The
rounding can raise a rate, so the result can be longer than it was chosen to be; and the length is
truncated, so it can also be nothing.

Both questions are answered for the exact products `L * d / r`, with `L` the length in samples, `r`
the source's rate, `f` the requested one and `d` the output's.
-/

namespace DcaConv

/-! ## The output rate -/

theorem roundRate_eq (format : DcaFormat) {rate : ℕ} (h : rate ≤ 45000) :
    roundRate format rate = fDcaToAICAFrequency rate := by
  have hge : 172 ≤ fDcaToAICAFrequency rate := le_toAICA (by omega)
  have hle := toAICA_le rate (by omega)
  have hmax : ¬(format = .adpcm ∧ dcaMaximumAdpcmSampleRateHz < fDcaToAICAFrequency rate) := by
    rintro ⟨-, hlt⟩
    rw [dcaMaximumAdpcmSampleRateHz] at hlt
    omega
  rw [roundRate, if_neg (not_lt.mpr hge), if_neg hmax]

/-- The rate that makes `L` samples fit, before any rounding. -/
def fittingRate (L r : ℕ) : ℕ := r * 65216 / L

/-- `L` samples do not fit at the requested rate. -/
def Overlong (L f r : ℕ) : Prop := dcacMaxSamples < L * f / r

instance (L f r : ℕ) : Decidable (Overlong L f r) := by unfold Overlong; infer_instance

theorem Overlong.mul_lt {L f r : ℕ} (h : Overlong L f r) : 65281 * r ≤ L * f := by
  have hlt : 65280 < L * f / r := h
  have hmul := Nat.div_mul_le_self (L * f) r
  calc 65281 * r ≤ L * f / r * r := Nat.mul_le_mul_right _ hlt
    _ ≤ L * f := hmul

theorem lt_of_not_overlong {L f r : ℕ} (hr : 0 < r) (h : ¬Overlong L f r) : L * f < 65281 * r := by
  have hle : L * f / r ≤ 65280 := not_lt.mp h
  exact (Nat.div_lt_iff_lt_mul hr).mp (Nat.lt_succ_of_le hle)

theorem Overlong.fittingRate_le {L f r : ℕ} (h : Overlong L f r) : fittingRate L r ≤ f := by
  have hmul := h.mul_lt
  refine Nat.div_le_of_le_mul ?_
  omega

section FitRate

variable {settings : Settings} {dcac : DcAudioConverter}

/-- The guard against rates below the hardware minimum never fires: it looks at a rounded rate. -/
theorem fitRate_eq (hdesired : dcac.desiredSampleRateHz ≤ 44100) :
    fitRate settings dcac = .ok (if dcac.longSound = false ∧
        Overlong (fitLength settings dcac) dcac.desiredSampleRateHz dcac.sampleRateHz then
          fDcaToAICAFrequency (fittingRate (fitLength settings dcac) dcac.sampleRateHz)
        else dcac.desiredSampleRateHz) := by
  have hsize : expectedSize settings dcac
      = fitLength settings dcac * dcac.desiredSampleRateHz / dcac.sampleRateHz :=
    truncate_mul_div_assoc _ _ _
  have hratio : truncate (dcac.sampleRateHz
      * (((dcacMaxSamples - 64 : ℕ) : ℚ) / fitLength settings dcac))
        = fittingRate (fitLength settings dcac) dcac.sampleRateHz := truncate_mul_div _ _ _
  have hguard : ((!dcac.longSound) = true ∧
      dcacMaxSamples < fitLength settings dcac * dcac.desiredSampleRateHz / dcac.sampleRateHz) ↔
        (dcac.longSound = false ∧
          Overlong (fitLength settings dcac) dcac.desiredSampleRateHz dcac.sampleRateHz) := by
    rw [Bool.not_eq_true']
    rfl
  rw [fitRate, hsize]
  by_cases hfit : dcac.longSound = false ∧
      Overlong (fitLength settings dcac) dcac.desiredSampleRateHz dcac.sampleRateHz
  · have hle := hfit.2.fittingRate_le
    -- the guard reads the rounded rate, which is never below 172
    have hge : ¬fDcaToAICAFrequency
        (fittingRate (fitLength settings dcac) dcac.sampleRateHz) < dcaMinimumSampleRateHz :=
      not_lt.mpr (le_toAICA (by omega))
    rw [if_pos (hguard.mpr hfit), if_pos hfit]
    dsimp only
    rw [hratio, if_neg hge]
  · rw [if_neg (fun hc ↦ hfit (hguard.mp hc)), if_neg hfit]

end FitRate

/-- The output's rate. -/
def outputRate (longSound : Bool) (L f r : ℕ) : ℕ :=
  if longSound = false ∧ Overlong L f r then
    fDcaToAICAFrequency (fDcaToAICAFrequency (fittingRate L r))
  else fDcaToAICAFrequency f

theorem le_outputRate (longSound : Bool) {L f r : ℕ} (hf : f ≤ 44100) :
    172 ≤ outputRate longSound L f r := by
  rw [outputRate]
  split
  · next h =>
    have hle := h.2.fittingRate_le
    have hbound := toAICA_le (fittingRate L r) (by omega)
    exact le_toAICA (by omega)
  · exact le_toAICA (by omega)

/-! ## The final length -/

/-- Scaling commutes with the trimming of the loop's end. -/
theorem finalLength_scaled {settings : Settings} {dcac scaled : DcAudioConverter} (f : ℕ →o ℕ)
    (h : TrimmedInv dcac) (hlooping : scaled.looping = dcac.looping)
    (hlen : scaled.samplesLen = f dcac.samplesLen) (hend : scaled.loopEnd = f dcac.loopEnd) :
    finalLength settings scaled = f (fitLength settings dcac) := by
  have hmono : f dcac.loopEnd ≤ f dcac.samplesLen := f.monotone h.inOrder.end_le
  rw [finalLength, fitLength, hlooping, hlen, hend, u32_of_lt h.samplesLen_lt]
  by_cases htrim : settings.trimLoopEnd = true
  · rw [if_pos htrim]
    cases hl : dcac.looping with
    | true =>
      split
      · rfl
      · next hnot => exact le_antisymm (not_lt.mp fun hlt ↦ hnot ⟨htrim, rfl, hlt⟩) hmono
    | false => rw [if_neg (fun hc ↦ Bool.false_ne_true hc.2.1), h.plain hl]
  · rw [if_neg htrim, if_neg (fun hc ↦ htrim hc.1)]

/-- **Length of a `.dca` conversion.** -/
theorem converted_samplesLen {src : Resampler} {settings : Settings}
    {t final : DcAudioConverter} (h : TrimmedInv t)
    (hfinal : converted .dca src settings t = .ok final) :
    final.samplesLen = fitLength settings t * outputRate t.longSound (fitLength settings t)
        t.desiredSampleRateHz t.sampleRateHz / t.sampleRateHz := by
  obtain ⟨prepared, hprepared, hrest⟩ := Fallible.bind_eq_ok.mp hfinal
  obtain ⟨mixed, hmixed, hok⟩ := Fallible.bind_eq_ok.mp hrest
  cases hok
  obtain ⟨rate, hrate, hrounded, hsame, hsource⟩ := prepareDca_eq_ok hprepared
  obtain ⟨hsame', hsource', hdesired'⟩ := convertChannels_frame hmixed
  have hloop := hsame.trans hsame'
  have hmixedRate : mixed.sampleRateHz = t.sampleRateHz := hsource'.trans hsource
  have hout : mixed.desiredSampleRateHz = outputRate t.longSound (fitLength settings t)
      t.desiredSampleRateHz t.sampleRateHz := by
    have hdes := h.desired_mem.2
    rw [fitRate_eq hdes] at hrate
    cases hrate
    rw [hdesired', hrounded, outputRate]
    split
    · next hfit =>
      have hle := hfit.2.fittingRate_le
      have hbound := toAICA_le (fittingRate (fitLength settings t) t.sampleRateHz)
        (by omega)
      exact roundRate_eq _ (by omega)
    · exact roundRate_eq _ (by omega)
  obtain ⟨hlen, -, hend⟩ := resample_scaled (by rw [hmixedRate]; exact h.rate_pos) src
  rw [hout, hmixedRate] at hlen hend
  rw [hloop.samplesLen_eq] at hlen
  rw [hloop.loopEnd_eq] at hend
  rw [finishLoop_samplesLen, finalLength_scaled _ h ?_ hlen hend, rateScale_apply]
  rw [resample_looping, hloop.looping_eq]

end DcaConv
