import DcaConv.Pipeline.Buffers
import DcaConv.Pipeline.Exit
import DcaConv.Pipeline.Length

/-!
# Conversions that change nothing

Without trimming, at the source's rate and with all of its channels, a conversion hands the writer
the samples the loader left. For a WAV file that is the default; a `.dca` file has to ask for its
channels, and its rate has to be one the AICA has.
-/

namespace DcaConv

/-- The settings leave a sound as it is, and its loop points are in order. -/
structure Plain (settings : Settings) (dcac : DcAudioConverter) (sound : Sound) : Prop where
  keeps_start : settings.trimSilenceStart = false
  keeps_end : settings.trimSilenceEnd = false
  keeps_loopEnd : settings.trimLoopEnd = false
  rate_eq : dcac.desiredSampleRateHz = 0 ∨ dcac.desiredSampleRateHz = sound.sampleRateHz
  loopStart_lt : dcac.loopStart < sound.samplesLen
  loopEnd_gt : dcac.loopEnd = 0 ∨ dcac.loopStart < dcac.loopEnd

/-- A sound with the samples it was loaded with. -/
structure Verbatim (sound : Sound) (dcac : DcAudioConverter) : Prop where
  sampleRateHz_eq : dcac.sampleRateHz = sound.sampleRateHz
  channelCnt_eq : dcac.channelCnt = sound.channels.length
  samples_eq : dcac.samples = sound.channels
  samplesLen_eq : dcac.samplesLen = sound.samplesLen

theorem Verbatim.planar {sound : Sound} {dcac : DcAudioConverter} (h : Verbatim sound dcac) :
    Planar dcac sound.samplesLen sound.channels.length :=
  (planar_load dcac sound).of_eq h.channelCnt_eq h.samplesLen_eq h.samples_eq

/-- A run that resamples nothing and changes no sample. -/
structure LeavesSamples (options : List CliOption) (sound : Sound) (out : OutputType)
    (past : ℕ → Int16) (src : Resampler) (final : DcAudioConverter) : Prop where
  runMain_eq : runMain options sound out past src = .ok final
  idle : ∀ settings dcac, beforeResampling options sound out past = .ok (settings, dcac) →
    dcac.desiredSampleRateHz = dcac.sampleRateHz
  verbatim : Verbatim sound final

section Stages

variable {settings : Settings} {dcac : DcAudioConverter} {sound : Sound} {out : OutputType}

/-- The loop end behind the checks. -/
def checkedLoopEnd (dcac : DcAudioConverter) : ℕ :=
  if dcac.loopEnd = 0 then dcac.samplesLen else min dcac.loopEnd dcac.samplesLen

/-- Points in order pass the checks. -/
theorem checkLoopPoints_of_lt (hlen : dcac.samplesLen < 2 ^ 32)
    (hstart : dcac.loopStart < dcac.samplesLen)
    (hend : dcac.loopEnd = 0 ∨ dcac.loopStart < dcac.loopEnd) :
    checkLoopPoints dcac = .ok { dcac with loopEnd := checkedLoopEnd dcac } := by
  rw [checkLoopPoints, u32_of_lt hlen, checkedLoopEnd]
  by_cases hzero : dcac.loopEnd = 0
  · rw [if_pos hzero, if_neg (by omega), if_neg (by omega), if_neg (by omega),
      if_neg (lt_irrefl _), if_pos hzero]
  · rw [if_neg hzero, if_neg (by omega), if_neg (by omega), if_neg (by omega), if_neg hzero]
    by_cases hlate : dcac.samplesLen < dcac.loopEnd
    · rw [if_pos hlate, Nat.min_eq_right hlate.le]
    · rw [if_neg hlate, Nat.min_eq_left (not_lt.mp hlate)]

/-- The sound as the checks leave it. -/
def plainLoad (out : OutputType) (dcac : DcAudioConverter) (sound : Sound) : DcAudioConverter :=
  { dcac.load sound with
    desiredSampleRateHz := (defaultRate out (dcac.load sound)).desiredSampleRateHz
    loopEnd := checkedLoopEnd (dcac.load sound) }

/-- Nothing is trimmed. -/
theorem Plain.trimmed (h : Plain settings dcac sound) (past : ℕ → Int16) :
    trimmed out past settings (dcac.load sound) = .ok (plainLoad out dcac sound) := by
  have hno : ¬(settings.trimSilenceStart = true ∨ settings.trimSilenceEnd = true) := by
    rw [h.keeps_start, h.keeps_end]
    decide
  have hcheck : checkLoopPoints { dcac.load sound with
      desiredSampleRateHz := (defaultRate out (dcac.load sound)).desiredSampleRateHz }
        = .ok (plainLoad out dcac sound) :=
    checkLoopPoints_of_lt sound.samplesLen_lt h.loopStart_lt h.loopEnd_gt
  rw [DcaConv.trimmed, defaultRate_frame, hcheck, Fallible.ok_bind, trimSilence, if_neg hno]

/-- All channels are kept. -/
theorem convertChannels_all (h : dcac.channelCnt ≤ dcac.desiredChannels) :
    convertChannels dcac = .ok { dcac with desiredChannels := dcac.channelCnt } := by
  have hdesired : (if dcac.channelCnt < dcac.desiredChannels then dcac.channelCnt
      else dcac.desiredChannels) = dcac.channelCnt := by
    split
    · rfl
    · omega
  rw [convertChannels, hdesired]
  exact if_pos rfl

theorem finishLoop_samplesLen_eq (hkeep : settings.trimLoopEnd = false) :
    (finishLoop settings dcac).samplesLen = dcac.samplesLen := by
  have hno : ¬(settings.trimLoopEnd = true ∧ dcac.looping = true ∧
      dcac.loopEnd < dcac.samplesLen) := by
    rw [hkeep]
    exact fun h ↦ Bool.false_ne_true h.1
  rw [finishLoop_samplesLen, finalLength, if_neg hno]

/-- Prepared for its own rate and all of its channels, a sound comes to the writer as it was. -/
theorem Plain.leavesSamples {options : List CliOption} (h : Plain settings dcac sound)
    (hoptions : parseOptions options = .ok (settings, dcac)) {prepared : DcAudioConverter}
    (hprepare : prepareOutput out settings (plainLoad out dcac sound) = .ok prepared)
    (hrate : prepared.desiredSampleRateHz = sound.sampleRateHz)
    (hchannels : sound.channels.length ≤ prepared.desiredChannels)
    (hsame : Verbatim sound prepared) (past : ℕ → Int16) (src : Resampler) :
    ∃ final, LeavesSamples options sound out past src final ∧ final.format = prepared.format ∧
      final.longSound = prepared.longSound := by
  have hcnt := hsame.channelCnt_eq
  generalize hmixed : { prepared with desiredChannels := prepared.channelCnt } = mixed
  have hbefore : beforeResampling options sound out past = .ok (settings, mixed) := by
    rw [beforeResampling, hoptions, Fallible.ok_bind]
    dsimp only
    rw [h.trimmed past, Fallible.ok_bind, hprepare, Fallible.ok_bind,
      convertChannels_all (by omega), Fallible.ok_bind, hmixed]
  have hidle : mixed.desiredSampleRateHz = mixed.sampleRateHz := by
    rw [← hmixed]
    exact hrate.trans hsame.sampleRateHz_eq.symm
  obtain ⟨hfrate, hfcnt, hfsamples, hfformat⟩ := finishLoop_frame settings mixed
  refine ⟨finishLoop settings mixed, ⟨?_, ?_, ?_⟩, ?_, ?_⟩
  · rw [runMain_eq, hbefore, Except.map, resample, if_neg (not_not.mpr hidle)]
  · intro settings' mixed' h'
    rw [hbefore] at h'
    cases h'
    exact hidle
  · subst hmixed
    refine ⟨hfrate.trans hsame.sampleRateHz_eq, hfcnt.trans hcnt,
      hfsamples.trans hsame.samples_eq, ?_⟩
    rw [finishLoop_samplesLen_eq h.keeps_loopEnd]
    exact hsame.samplesLen_eq
  · subst hmixed
    exact hfformat
  · subst hmixed
    rw [finishLoop]
    generalize (if finalLength settings _ < _ then u32 (finalLength settings _) else _) = loopEnd
    split <;> rfl

/-- The default rate is the source's, except that a `.dca` file has none over 44100 Hz. -/
theorem Plain.defaultRate_eq (h : Plain settings dcac sound)
    (hrate : out = .dca → sound.sampleRateHz ≤ 44100) :
    (defaultRate out (dcac.load sound)).desiredSampleRateHz = sound.sampleRateHz := by
  have hno : ¬(out = .dca ∧ (dcac.load sound).desiredSampleRateHz = 0 ∧
      44100 < (dcac.load sound).sampleRateHz) := fun hc ↦ absurd (hrate hc.1) (not_le.mpr hc.2.2)
  rw [defaultRate, if_neg hno]
  split
  · rfl
  · next hne => exact h.rate_eq.resolve_left hne

variable {options : List CliOption}

theorem Plain.leavesSamples_wav (h : Plain settings dcac sound)
    (hoptions : parseOptions options = .ok (settings, dcac))
    (hchannels : dcac.desiredChannels = 0 ∨ sound.channels.length ≤ dcac.desiredChannels)
    (past : ℕ → Int16) (src : Resampler) :
    ∃ final, LeavesSamples options sound .wav past src final := by
  have hrate := @Plain.defaultRate_eq _ _ _ .wav h OutputType.noConfusion
  have hdesired : sound.channels.length
      ≤ if dcac.desiredChannels = 0 then sound.channels.length else dcac.desiredChannels := by
    split
    · exact le_rfl
    · next hne => exact hchannels.resolve_left hne
  have hprepare : prepareOutput .wav settings (plainLoad .wav dcac sound) = .ok _ := rfl
  obtain ⟨final, hleaves, -⟩ :=
    h.leavesSamples hoptions hprepare hrate hdesired ⟨rfl, rfl, rfl, rfl⟩ past src
  exact ⟨final, hleaves⟩

/-- The format a `.dca` file gets. -/
def writtenFormat (format : DcaFormat) : DcaFormat := if format = .auto then .adpcm else format

/-- A rate the AICA has, by the exact product, and a length it can play. -/
structure PlaysOnAica (dcac : DcAudioConverter) (sound : Sound) : Prop where
  rate_le : sound.sampleRateHz ≤ 44100
  rate_stable : fDcaToAICAFrequency sound.sampleRateHz = sound.sampleRateHz
  fits : dcac.longSound = false → sound.samplesLen ≤ dcacMaxSamples

theorem Plain.prepareDca (h : Plain settings dcac sound) (haica : PlaysOnAica dcac sound) :
    prepareDca settings (plainLoad .dca dcac sound) = .ok { plainLoad .dca dcac sound with
      desiredChannels := if dcac.desiredChannels = 0 then 1 else dcac.desiredChannels
      format := writtenFormat dcac.format
      desiredSampleRateHz := sound.sampleRateHz } := by
  have hrate := @Plain.defaultRate_eq _ _ _ .dca h fun _ ↦ haica.rate_le
  have hpos := sound.rate_pos
  have hle := haica.rate_le
  have hne : ¬(plainLoad .dca dcac sound).samplesLen = 0 :=
    Nat.ne_of_gt (Nat.zero_lt_of_lt h.loopStart_lt)
  have hlength : fitLength settings (plainLoad .dca dcac sound) = sound.samplesLen := by
    rw [fitLength, if_neg (by rw [h.keeps_loopEnd]; exact Bool.false_ne_true)]
    exact u32_of_lt sound.samplesLen_lt
  have hdesired : (plainLoad .dca dcac sound).desiredSampleRateHz = sound.sampleRateHz := hrate
  have hexpected : expectedSize settings (plainLoad .dca dcac sound) = sound.samplesLen := by
    rw [expectedSize, truncate_mul_div_assoc, hlength, hdesired]
    exact Nat.mul_div_cancel _ hpos
  have hfits : ¬((!(plainLoad .dca dcac sound).longSound) = true ∧
      dcacMaxSamples < expectedSize settings (plainLoad .dca dcac sound)) := by
    rintro ⟨hshort, hgt⟩
    rw [hexpected] at hgt
    exact absurd (haica.fits ((Bool.not_eq_true' _).mp hshort)) (not_le.mpr hgt)
  have hfit : fitRate settings (plainLoad .dca dcac sound) = .ok sound.sampleRateHz := by
    rw [fitRate, if_neg hfits]
    exact congrArg _ hrate
  rw [DcaConv.prepareDca, if_neg hne, hfit, Fallible.ok_bind,
    roundRate_eq _ (show sound.sampleRateHz ≤ 45000 by omega), haica.rate_stable]
  rfl

theorem Plain.leavesSamples_dca (h : Plain settings dcac sound)
    (hoptions : parseOptions options = .ok (settings, dcac)) (haica : PlaysOnAica dcac sound)
    (hchannels : sound.channels.length ≤ max 1 dcac.desiredChannels)
    (past : ℕ → Int16) (src : Resampler) :
    ∃ final, LeavesSamples options sound .dca past src final ∧
      final.format = writtenFormat dcac.format ∧
      final.longSound = dcac.longSound := by
  have hdesired : sound.channels.length
      ≤ if dcac.desiredChannels = 0 then 1 else dcac.desiredChannels := by
    split
    · omega
    · omega
  have hprepare : prepareOutput .dca settings (plainLoad .dca dcac sound) = .ok _ :=
    h.prepareDca haica
  exact h.leavesSamples hoptions hprepare rfl hdesired ⟨rfl, rfl, rfl, rfl⟩ past src

end Stages

end DcaConv
