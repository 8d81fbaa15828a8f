import DcaConv.Container.Write
import DcaConv.Pipeline.Length

/-!
# Sounds that do not fit, and sounds that vanish

Two promises about the length of a `.dca` conversion and the exact inputs on which they are kept:
without `--long` the result fits the AICA, and no result is empty.

Fitting fails where rounding raises the rate by more than the slack of 50 samples, which happens in
two places: below the lowest octave of the pitch register, where the rounded rate is 172 Hz more
than the one asked for, and at the rates of the second octave that drift. The check that should stop
the first case compares the rounded rate with 172 and cannot fail.
-/

namespace DcaConv

/-! ## Products of lengths and rates -/

theorem mul_lt_of_rate_le {L d f r a b : ℕ} (hb : 0 < b) (hrate : a * d ≤ b * f)
    (hlen : L * f < a * r) : L * d < b * r := by
  refine Nat.lt_of_mul_lt_mul_left (a := a) ?_
  calc a * (L * d) = L * (a * d) := by ring
    _ ≤ L * (b * f) := Nat.mul_le_mul_left _ hrate
    _ = b * (L * f) := by ring
    _ < b * (a * r) := Nat.mul_lt_mul_of_pos_left hlen hb
    _ = a * (b * r) := by ring

theorem mul_lt_of_rate_lt {L d f r a b : ℕ} (hL : 0 < L) (hrate : a * d < b * f)
    (hlen : L * f ≤ a * r) : L * d < b * r := by
  refine Nat.lt_of_mul_lt_mul_left (a := a) ?_
  calc a * (L * d) = L * (a * d) := by ring
    _ < L * (b * f) := Nat.mul_lt_mul_of_pos_left hrate hL
    _ = b * (L * f) := by ring
    _ ≤ b * (a * r) := Nat.mul_le_mul_left _ hlen
    _ = a * (b * r) := by ring

theorem lt_mul_of_rate_le {L d f r a b : ℕ} (hb : 0 < b) (hrate : b * f ≤ a * d)
    (hlen : a * r < L * f) : b * r < L * d := by
  refine Nat.lt_of_mul_lt_mul_left (a := a) ?_
  calc a * (b * r) = b * (a * r) := by ring
    _ < b * (L * f) := Nat.mul_lt_mul_of_pos_left hlen hb
    _ = L * (b * f) := by ring
    _ ≤ L * (a * d) := Nat.mul_le_mul_left _ hrate
    _ = a * (L * d) := by ring

/-! ## Fitting -/

/-- The conversions whose rounded rate still fits. A sound that fits as requested must not have its
rate rounded up too far; one that does not must fit at a rate the AICA has, and its own two
roundings must stay within the slack. -/
def RateFits (L f r : ℕ) : Prop :=
  if Overlong L f r then
    172 ≤ fittingRate L r ∧
      (RateDrifts (fittingRate L r) → RateDrifts (fittingRate L r + 1) →
        L * (fittingRate L r + 2) < 65331 * r)
  else
    (f < 172 → L * (f + 172) < 65331 * r) ∧ (RateDrifts f → L * (f + 1) < 65331 * r)

theorem rateFits_of_requested {L f r : ℕ} (hr : 0 < r) (hf : f ≤ 44100) (h : ¬Overlong L f r) :
    L * fDcaToAICAFrequency f < 65331 * r ↔ RateFits L f r := by
  rw [RateFits, if_neg h]
  have hlen := lt_of_not_overlong hr h
  by_cases hlow : f < 172
  -- below the lowest octave rounding adds the octave's base
  · rw [toAICA_below hlow]
    refine ⟨fun hlt ↦ ⟨fun _ ↦ hlt, fun hdrift ↦ ?_⟩, fun hfit ↦ hfit.1 hlow⟩
    rw [RateDrifts] at hdrift
    omega
  · by_cases hdrift : RateDrifts f
    -- a drifting rate gains a hertz, any other stays within the slack
    · rw [toAICA_of_drift hdrift]
      exact ⟨fun hlt ↦ ⟨fun hlow' ↦ absurd hlow' hlow, fun _ ↦ hlt⟩, fun hfit ↦ hfit.2 hdrift⟩
    · have hgrowth := toAICA_growth (not_lt.mp hlow) (by omega) hdrift
      exact iff_of_true (mul_lt_of_rate_le (by norm_num) hgrowth hlen)
        ⟨fun hlow' ↦ absurd hlow' hlow, fun hdrift' ↦ absurd hdrift' hdrift⟩

theorem rateFits_of_reduced {L f r : ℕ} (hr : 0 < r) (hf : f ≤ 44100) (h : Overlong L f r) :
    L * fDcaToAICAFrequency (fDcaToAICAFrequency (fittingRate L r)) < 65331 * r ↔
      RateFits L f r := by
  have hle := h.fittingRate_le
  have hL : 0 < L := by
    have hmul := h.mul_lt
    refine Nat.pos_of_ne_zero fun hzero ↦ ?_
    rw [hzero, Nat.zero_mul] at hmul
    omega
  have hquot : L * fittingRate L r ≤ 65216 * r := by
    rw [fittingRate, Nat.mul_comm 65216 r]
    exact Nat.mul_div_le _ _
  have hnext : 65216 * r < L * (fittingRate L r + 1) := by
    rw [fittingRate, Nat.mul_comm 65216 r]
    exact Nat.lt_mul_div_succ _ hL
  rw [RateFits, if_pos h]
  by_cases hlow : fittingRate L r < 172
  -- here the sound cannot fit: the two roundings raise the rate beyond what the slack allows
  · have hbelow := toAICA_twice_below hlow
    refine iff_of_false (not_lt.mpr ?_) fun hfit ↦ absurd hfit.1 (not_le.mpr hlow)
    exact (lt_mul_of_rate_le (by norm_num) hbelow hnext).le
  · by_cases hdrift : RateDrifts (fittingRate L r) ∧ RateDrifts (fittingRate L r + 1)
    · rw [toAICA_twice_of_drift hdrift.1 hdrift.2]
      exact ⟨fun hlt ↦ ⟨not_lt.mp hlow, fun _ _ ↦ hlt⟩, fun hfit ↦ hfit.2 hdrift.1 hdrift.2⟩
    · have htwice := toAICA_twice_lt (not_lt.mp hlow) (by omega) hdrift
      exact iff_of_true (mul_lt_of_rate_lt hL htwice hquot)
        ⟨not_lt.mp hlow, fun h₁ h₂ ↦ absurd ⟨h₁, h₂⟩ hdrift⟩

theorem outputLength_le_iff {L f r : ℕ} (hr : 0 < r) (hf : f ≤ 44100) :
    L * outputRate false L f r / r ≤ dcacMaxSamples + 50 ↔ RateFits L f r := by
  have hdiv : L * outputRate false L f r / r ≤ dcacMaxSamples + 50 ↔
      L * outputRate false L f r < 65331 * r := by
    rw [← Nat.div_lt_iff_lt_mul hr]
    exact Nat.lt_succ_iff.symm
  rw [hdiv, outputRate]
  by_cases hover : Overlong L f r
  · rw [if_pos ⟨rfl, hover⟩]
    exact rateFits_of_reduced hr hf hover
  · rw [if_neg fun hc ↦ hover hc.2]
    exact rateFits_of_requested hr hf hover

/-! ## Emptiness -/

theorem outputLength_pos_iff (longSound : Bool) {L f r : ℕ} (hr : 0 < r) (hf : f ≤ 44100) :
    1 ≤ L * outputRate longSound L f r / r ↔ r ≤ L * fDcaToAICAFrequency f := by
  rw [Nat.le_div_iff_mul_le hr, Nat.one_mul]
  by_cases hover : longSound = false ∧ Overlong L f r
  · have hmul := hover.2.mul_lt
    have hrL : r ≤ L := by
      have hcap : L * f ≤ L * 44100 := Nat.mul_le_mul_left _ hf
      omega
    have hrate := le_outputRate longSound (L := L) (r := r) hf
    have hrate' : 172 ≤ fDcaToAICAFrequency f := le_toAICA (by omega)
    exact iff_of_true (hrL.trans (Nat.le_mul_of_pos_right L (by omega)))
      (hrL.trans (Nat.le_mul_of_pos_right L (by omega)))
  · rw [outputRate, if_neg hover]

/-! ## Runs -/

/-- A run on a mono sound gets to the writer when the trimming leaves samples. -/
theorem exists_runMain_mono {options : List CliOption} {sound : Sound} {past : ℕ → Int16}
    {settings : Settings} {dcac t : DcAudioConverter} (src : Resampler)
    (hoptions : parseOptions options = .ok (settings, dcac))
    (ht : trimmed .dca past settings (dcac.load sound) = .ok t) (hlen : t.samplesLen ≠ 0)
    (hmono : t.channelCnt = 1) : ∃ final, runMain options sound .dca past src = .ok final ∧
      converted .dca src settings t = .ok final := by
  have hdesired := (trimmed_inv hoptions ht).1.desired_mem.2
  have hone : (if 1 < (if t.desiredChannels = 0 then 1 else t.desiredChannels) then 1
      else (if t.desiredChannels = 0 then 1 else t.desiredChannels)) = 1 := by
    split <;> split <;> omega
  obtain ⟨final, hfinal⟩ : ∃ final, converted .dca src settings t = .ok final := by
    rw [converted, prepareOutput, prepareDca, if_neg hlen, fitRate_eq hdesired,
      Fallible.ok_bind, Fallible.ok_bind, convertChannels]
    dsimp only
    rw [hmono, hone, if_pos rfl, Fallible.ok_bind]
    exact ⟨_, rfl⟩
  refine ⟨final, ?_, hfinal⟩
  rw [runMain, hoptions, Fallible.ok_bind]
  dsimp only
  rw [ht, Fallible.ok_bind, hfinal]

section Runs

variable {settings : Settings} {dcac t final : DcAudioConverter}

/-- **Fitting the AICA.** A conversion without `--long` that reaches the writer fits exactly when
its rounded rate does. -/
theorem dca_fits_iff (options : List CliOption) (sound : Sound) (past : ℕ → Int16)
    (src : Resampler) (hoptions : parseOptions options = .ok (settings, dcac))
    (hshort : dcac.longSound = false)
    (ht : trimmed .dca past settings (dcac.load sound) = .ok t)
    (hfinal : converted .dca src settings t = .ok final) :
    (final.samplesLen ≤ dcacMaxSamples + 50 ∧
        ∀ out bytes, fDcaWrite final out ≠ .ok (.tooLong, bytes)) ↔
      RateFits (fitLength settings t) t.desiredSampleRateHz t.sampleRateHz := by
  obtain ⟨hinv, hlong⟩ := trimmed_inv hoptions ht
  have hlen := converted_samplesLen hinv hfinal
  rw [hlong, hshort] at hlen
  rw [← outputLength_le_iff hinv.rate_pos hinv.desired_mem.2, ← hlen]
  exact ⟨fun h ↦ h.1, fun h ↦ ⟨h, fun out bytes hwrite ↦ not_le.mpr (fDcaWrite_tooLong hwrite) h⟩⟩

/-- A thousand frames of silence, asked for at half their rate. -/
theorem dca_fits_iff_silence : ∃ t final,
    trimmed .dca (fun _ ↦ 0) .initial
      ({ dcaInit with desiredSampleRateHz := 22050 }.load
        (.silence 44100 1000 (by decide) (by decide))) = .ok t ∧
      converted .dca .silent .initial t = .ok final ∧
      ((final.samplesLen ≤ dcacMaxSamples + 50 ∧
          ∀ out bytes, fDcaWrite final out ≠ .ok (.tooLong, bytes)) ↔
        RateFits (fitLength .initial t) t.desiredSampleRateHz t.sampleRateHz) := by
  have hoptions : parseOptions [.rate (some 22050)]
      = .ok (.initial, { dcaInit with desiredSampleRateHz := 22050 }) := rfl
  have ht : trimmed .dca (fun _ ↦ 0) .initial
      ({ dcaInit with desiredSampleRateHz := 22050 }.load
        (.silence 44100 1000 (by decide) (by decide))) = .ok _ := rfl
  obtain ⟨final, -, hfinal⟩ := exists_runMain_mono .silent hoptions ht (by decide) rfl
  exact ⟨_, final, ht, hfinal, dca_fits_iff _ _ _ _ hoptions rfl ht hfinal⟩

/-- Ten minutes of silence at 44100 Hz. They would fit at 108 Hz; they get 280 Hz, and 168000
samples. -/
theorem ten_minutes_do_not_fit : ∃ final,
    runMain [] (.silence 44100 26460000 (by decide) (by decide)) .dca (fun _ ↦ 0) .silent
        = .ok final ∧
      ¬(final.samplesLen ≤ dcacMaxSamples + 50 ∧
        ∀ out bytes, fDcaWrite final out ≠ .ok (.tooLong, bytes)) := by
  have hoptions : parseOptions [] = .ok (.initial, dcaInit) := rfl
  have ht : trimmed .dca (fun _ ↦ 0) .initial
      (dcaInit.load (.silence 44100 26460000 (by decide) (by decide))) = .ok _ := rfl
  obtain ⟨final, hrun, hfinal⟩ := exists_runMain_mono .silent hoptions ht (by decide) rfl
  refine ⟨final, hrun, fun h ↦ ?_⟩
  have hlen := converted_samplesLen (trimmed_inv hoptions ht).1 hfinal
  have hfits := (outputLength_le_iff (L := 26460000) (f := 44100) (r := 44100) (by norm_num)
    (by norm_num)).mp (hlen ▸ h.1)
  rw [RateFits, if_pos (by decide)] at hfits
  exact absurd hfits.1 (by decide)

/-- A sound with no samples left aborts the program: it has no file. -/
theorem fDcaWrite_of_vanished {options : List CliOption} {sound : Sound} {past : ℕ → Int16}
    {src : Resampler} (hoptions : parseOptions options = .ok (settings, dcac))
    (ht : trimmed .dca past settings (dcac.load sound) = .ok t)
    (hfinal : converted .dca src settings t = .ok final)
    (hvanish : fitLength settings t * fDcaToAICAFrequency t.desiredSampleRateHz < t.sampleRateHz)
    (hmax : final.channelCnt ≤ dcaFileMaxChannels) (out : Option FileSink) :
    ∃ fault, fDcaWrite final out = .error fault := by
  obtain ⟨hinv, -⟩ := trimmed_inv hoptions ht
  have hlen := converted_samplesLen hinv hfinal
  have hempty : ¬1 ≤ final.samplesLen := by
    rw [hlen, outputLength_pos_iff t.longSound hinv.rate_pos hinv.desired_mem.2]
    exact not_le.mpr hvanish
  exact fDcaWrite_empty (Nat.lt_one_iff.mp (not_le.mp hempty)) hmax out

/-- **Empty results.** A `.dca` conversion that reaches the writer has samples left exactly when the
source's rate is at most the length times the rounded requested rate. -/
theorem dca_nonempty_iff (options : List CliOption) (sound : Sound) (past : ℕ → Int16)
    (src : Resampler) (hoptions : parseOptions options = .ok (settings, dcac))
    (ht : trimmed .dca past settings (dcac.load sound) = .ok t)
    (hfinal : converted .dca src settings t = .ok final) :
    1 ≤ final.samplesLen ↔
      t.sampleRateHz ≤ fitLength settings t * fDcaToAICAFrequency t.desiredSampleRateHz := by
  obtain ⟨hinv, -⟩ := trimmed_inv hoptions ht
  have hlen := converted_samplesLen hinv hfinal
  rw [hlen]
  exact outputLength_pos_iff t.longSound hinv.rate_pos hinv.desired_mem.2

/-- A thousand frames of silence, asked for at half their rate. -/
theorem dca_nonempty_iff_silence : ∃ t final,
    trimmed .dca (fun _ ↦ 0) .initial
      ({ dcaInit with desiredSampleRateHz := 22050 }.load
        (.silence 44100 1000 (by decide) (by decide))) = .ok t ∧
      converted .dca .silent .initial t = .ok final ∧
      (1 ≤ final.samplesLen ↔
        t.sampleRateHz ≤ fitLength .initial t * fDcaToAICAFrequency t.desiredSampleRateHz) := by
  have hoptions : parseOptions [.rate (some 22050)]
      = .ok (.initial, { dcaInit with desiredSampleRateHz := 22050 }) := rfl
  have ht : trimmed .dca (fun _ ↦ 0) .initial
      ({ dcaInit with desiredSampleRateHz := 22050 }.load
        (.silence 44100 1000 (by decide) (by decide))) = .ok _ := rfl
  obtain ⟨final, -, hfinal⟩ := exists_runMain_mono .silent hoptions ht (by decide) rfl
  exact ⟨_, final, ht, hfinal, dca_nonempty_iff _ _ _ _ hoptions ht hfinal⟩

/-- A single sample at 44100 Hz, asked for at 22050 Hz, leaves none. -/
theorem single_sample_vanishes : ∃ final,
    runMain [.rate (some 22050)] (.silence 44100 1 (by decide) (by decide)) .dca (fun _ ↦ 0)
        .silent = .ok final ∧ ¬1 ≤ final.samplesLen := by
  have hoptions : parseOptions [.rate (some 22050)]
      = .ok (.initial, { dcaInit with desiredSampleRateHz := 22050 }) := rfl
  have ht : trimmed .dca (fun _ ↦ 0) .initial
      ({ dcaInit with desiredSampleRateHz := 22050 }.load
        (.silence 44100 1 (by decide) (by decide))) = .ok _ := rfl
  obtain ⟨final, hrun, hfinal⟩ := exists_runMain_mono .silent hoptions ht (by decide) rfl
  refine ⟨final, hrun, fun h ↦ ?_⟩
  have hlen := converted_samplesLen (trimmed_inv hoptions ht).1 hfinal
  have hrate := (outputLength_pos_iff false (L := 1) (f := 22050) (r := 44100) (by norm_num)
    (by norm_num)).mp (hlen ▸ h)
  have hbound := toAICA_le 22050 (by norm_num)
  omega

end Runs

end DcaConv
