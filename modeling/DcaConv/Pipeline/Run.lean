import DcaConv.Container.Safety
import DcaConv.Pipeline.LoopPoints
import DcaConv.Rate.Growth

/-!
# Runs of `main`

What each stage leaves alone, that every conversion is a `LoopRun`, and what holds of the state in
which a run leaves the trimming, for any command line.
-/

namespace DcaConv

/-! ## The input -/

/-- A `.dca` file that loads leaves a sound in the converter, whatever its header says. -/
theorem exists_sound_of_fDcaLoad {options : List CliOption} {settings : Settings}
    {dcac out : DcAudioConverter} {bytes : List UInt8}
    (hoptions : parseOptions options = .ok (settings, dcac))
    (h : fDcaLoad dcac (some (.whole bytes)) = .ok (.ok, out)) :
    ∃ sound : Sound, out = dcac.load sound ∧ 1 ≤ sound.samplesLen ∧ sound.channels.length ≤ 7 := by
  have hfresh := (parseOptions_inv hoptions).samples_nil
  obtain ⟨head, hhead⟩ : ∃ head, loadHeader bytes = .ok head := by
    have hread := h
    rw [fDcaLoad, FileSource.whole, if_neg (not_not.mpr rfl)] at hread
    obtain ⟨head, hhead, -⟩ := Fallible.bind_eq_ok.mp hread
    exact ⟨head, hhead⟩
  rw [fDcaLoad_whole dcac hhead] at h
  by_cases haccept : fDaValidateHeader head .host = true
  · have hv := (fDaValidateHeader_host_iff head).mp haccept
    rw [if_pos haccept] at h
    obtain ⟨samples, hsamples, hcount, hlength⟩ := exists_samples hv (lastSampleEnd_le hv h)
    rw [loadSamples_eq dcac hv, hsamples, Fallible.ok_bind, hfresh, List.drop_nil, List.append_nil,
      ← hcount] at h
    cases h
    have hrate : 0 < truncate (fDaCalcSampleRateHz head) :=
      lt_of_lt_of_le (by norm_num) (le_truncate_fDaUnconvertFrequency _)
    have hchannels : 0 < samples.length := hcount ▸ hv.channelCount_pos
    exact ⟨⟨_, samples, _, hrate, hchannels, hlength, totalLength_lt head⟩, rfl,
      hv.totalLength_pos, hcount ▸ channelCount_le head⟩
  · rw [if_neg haccept] at h
    cases h

/-! ## Frames of the stages -/

theorem prepareDca_eq_ok {settings : Settings} {dcac prepared : DcAudioConverter}
    (h : prepareDca settings dcac = .ok prepared) : ∃ rate, fitRate settings dcac = .ok rate ∧
      prepared.desiredSampleRateHz = roundRate prepared.format rate ∧
      SameLoop dcac prepared ∧ prepared.sampleRateHz = dcac.sampleRateHz := by
  rw [prepareDca] at h
  split at h
  · cases h
  · obtain ⟨rate, hrate, hok⟩ := Fallible.bind_eq_ok.mp h
    cases hok
    exact ⟨rate, hrate, rfl, ⟨rfl, rfl, rfl, rfl⟩, rfl⟩

theorem prepareOutput_frame {out : OutputType} {settings : Settings}
    {dcac prepared : DcAudioConverter} (h : prepareOutput out settings dcac = .ok prepared) :
    SameLoop dcac prepared ∧ prepared.sampleRateHz = dcac.sampleRateHz := by
  cases out with
  | dca =>
    obtain ⟨_, -, -, hsame, hrate⟩ := prepareDca_eq_ok h
    exact ⟨hsame, hrate⟩
  | wav => cases h; exact ⟨⟨rfl, rfl, rfl, rfl⟩, rfl⟩
  | unknown => cases h

theorem dcaDownmixMono_frame (dcac : DcAudioConverter) : SameLoop dcac (dcaDownmixMono dcac) ∧
    (dcaDownmixMono dcac).sampleRateHz = dcac.sampleRateHz ∧
    (dcaDownmixMono dcac).desiredSampleRateHz = dcac.desiredSampleRateHz := by
  rw [dcaDownmixMono]
  split <;> exact ⟨⟨rfl, rfl, rfl, rfl⟩, rfl, rfl⟩

theorem convertChannels_frame {dcac mixed : DcAudioConverter}
    (h : convertChannels dcac = .ok mixed) : SameLoop dcac mixed ∧
      mixed.sampleRateHz = dcac.sampleRateHz ∧
      mixed.desiredSampleRateHz = dcac.desiredSampleRateHz := by
  rw [convertChannels] at h
  generalize (if dcac.channelCnt < dcac.desiredChannels then dcac.channelCnt
    else dcac.desiredChannels) = desired at h
  by_cases heq : desired = dcac.channelCnt
  · rw [if_pos heq] at h
    cases h
    exact ⟨⟨rfl, rfl, rfl, rfl⟩, rfl, rfl⟩
  by_cases hone : desired = 1
  · rw [if_neg heq, if_pos hone] at h
    cases h
    have hframe := dcaDownmixMono_frame { dcac with desiredChannels := desired }
    exact ⟨⟨hframe.1.1, hframe.1.2, hframe.1.3, hframe.1.4⟩, hframe.2⟩
  · rw [if_neg heq, if_neg hone] at h
    split at h <;> cases h

theorem SameLoop.trans {a b c : DcAudioConverter} (hab : SameLoop a b) (hbc : SameLoop b c) :
    SameLoop a c :=
  ⟨hbc.1.trans hab.1, hbc.2.trans hab.2, hbc.3.trans hab.3, hbc.4.trans hab.4⟩

theorem defaultRate_frame (out : OutputType) (dcac : DcAudioConverter) :
    defaultRate out dcac
      = { dcac with desiredSampleRateHz := (defaultRate out dcac).desiredSampleRateHz } := by
  rw [defaultRate]
  split
  · rfl
  · split <;> rfl

theorem defaultRate_dca_mem (dcac : DcAudioConverter) (hrate : 0 < dcac.sampleRateHz)
    (hle : dcac.desiredSampleRateHz ≤ 44100) :
    1 ≤ (defaultRate .dca dcac).desiredSampleRateHz ∧
      (defaultRate .dca dcac).desiredSampleRateHz ≤ 44100 := by
  rw [defaultRate]
  split
  · exact ⟨by norm_num, le_refl _⟩
  · next hnot =>
    split
    · next hzero => exact ⟨hrate, not_lt.mp fun hlt ↦ hnot ⟨rfl, hzero, hlt⟩⟩
    · next hne => exact ⟨Nat.pos_of_ne_zero hne, hle⟩

/-- A loaded sound passes the checks with nothing but the default rate and its end filled in. -/
theorem checkLoopPoints_load {out : OutputType} {dcac checked : DcAudioConverter} {sound : Sound}
    (h : checkLoopPoints (defaultRate out (dcac.load sound)) = .ok checked) :
    Accepted { dcac.load sound with
      desiredSampleRateHz := (defaultRate out (dcac.load sound)).desiredSampleRateHz } checked ∧
      checked.samplesLen < 2 ^ 32 := by
  rw [defaultRate_frame] at h
  have haccept := checkLoopPoints_accepted sound.samplesLen_lt h
  refine ⟨haccept, ?_⟩
  rw [haccept.frame]
  exact sound.samplesLen_lt

/-! ## Conversions are loop runs -/

/-- The cut of `trimSilence` keeps a part of the sound. -/
theorem trimSilence_eq (past : ℕ → Int16) (settings : Settings) {dcac : DcAudioConverter}
    (h : LoopInOrder dcac) (hlen : dcac.samplesLen < 2 ^ 32) :
    trimSilence past settings dcac = dcac ∨ ∃ newStart newEnd, newStart ≤ dcac.samplesLen ∧
      newEnd ≤ dcac.samplesLen ∧ trimSilence past settings dcac = cutTo newStart newEnd dcac := by
  rw [trimSilence]
  split
  · exact Or.inr ⟨_, _, scanStart_le past settings h hlen, scanEnd_le past settings hlen, rfl⟩
  · exact Or.inl rfl

/-- Every conversion of a sound is a run the loop-point invariant speaks about, as long as the
resampled length is one the program can represent. -/
theorem exists_loopRun {options : List CliOption} {sound : Sound} {out : OutputType}
    {past : ℕ → Int16} {src : Resampler} {final : DcAudioConverter}
    (h : runMain options sound out past src = .ok final) :
    ∃ settings input checked cut prepared resampled, input.samplesLen = sound.samplesLen ∧
      (resampled.samplesLen < 2 ^ 32 →
        LoopRun settings src input checked cut prepared resampled final) := by
  obtain ⟨⟨settings, dcac⟩, -, h⟩ := Fallible.bind_eq_ok.mp h
  obtain ⟨cut, hcut, h⟩ := Fallible.bind_eq_ok.mp h
  obtain ⟨checked, hchecked, htrim⟩ := Fallible.bind_eq_ok.mp hcut
  obtain ⟨prepared, hprepared, h⟩ := Fallible.bind_eq_ok.mp h
  obtain ⟨mixed, hmixed, hok⟩ := Fallible.bind_eq_ok.mp h
  cases htrim
  cases hok
  obtain ⟨haccept, hcheckedLen⟩ := checkLoopPoints_load hchecked
  -- neither the output's settings nor the channel conversion touch the loop
  obtain ⟨hsame, hrate⟩ := prepareOutput_frame hprepared
  obtain ⟨hsame', hrate', -⟩ := convertChannels_frame hmixed
  refine ⟨settings, _, checked, _, mixed, _, by rw [defaultRate_frame]; rfl, fun hlt ↦ ⟨hchecked,
    trimSilence_eq past settings haccept.inOrder hcheckedLen, hsame.trans hsame', ?_, rfl, hlt,
    rfl⟩⟩
  rw [hrate', hrate]
  have hsource : (trimSilence past settings checked).sampleRateHz = checked.sampleRateHz := by
    rw [trimSilence]
    split <;> rfl
  rw [hsource, haccept.frame]
  exact sound.rate_pos

/-! ## The state after trimming -/

/-- What a run has established when it comes to the output's settings. -/
structure TrimmedInv (dcac : DcAudioConverter) : Prop where
  rate_pos : 0 < dcac.sampleRateHz
  desired_mem : 1 ≤ dcac.desiredSampleRateHz ∧ dcac.desiredSampleRateHz ≤ 44100
  samplesLen_lt : dcac.samplesLen < 2 ^ 32
  inOrder : LoopInOrder dcac
  plain : dcac.looping = false → dcac.loopEnd = dcac.samplesLen

theorem trimSilence_frame (past : ℕ → Int16) (settings : Settings) (dcac : DcAudioConverter) :
    (trimSilence past settings dcac).sampleRateHz = dcac.sampleRateHz ∧
      (trimSilence past settings dcac).desiredSampleRateHz = dcac.desiredSampleRateHz ∧
      (trimSilence past settings dcac).longSound = dcac.longSound ∧
      (trimSilence past settings dcac).looping = dcac.looping := by
  rw [trimSilence]
  split <;> exact ⟨rfl, rfl, rfl, rfl⟩

/-- Trimming keeps the points in order, and a loop over everything one. -/
theorem trimSilence_loop (past : ℕ → Int16) (settings : Settings) {dcac : DcAudioConverter}
    (h : LoopInOrder dcac) (hlen : dcac.samplesLen < 2 ^ 32) :
    LoopInOrder (trimSilence past settings dcac) ∧
      (trimSilence past settings dcac).samplesLen ≤ dcac.samplesLen ∧
      (HasLoop dcac (Window.full dcac.samplesLen) → (trimSilence past settings dcac).loopEnd
        = (trimSilence past settings dcac).samplesLen) := by
  have hcut := trimSilence_hasLoop past settings h hlen
  have hkept := keptEnd_le past settings h hlen
  refine ⟨hcut.inOrder, ?_, fun hfull ↦ ?_⟩
  · rw [hcut.samplesLen_eq]
    exact (Nat.sub_le _ _).trans hkept
  · have hwindow : h.window = Window.full dcac.samplesLen := by
      ext
      · exact hfull.loopStart_eq
      · exact hfull.loopEnd_eq
    rw [hwindow, Window.rebase_full hkept] at hcut
    rw [hcut.loopEnd_eq, hcut.samplesLen_eq]
    rfl

theorem trimmed_inv {options : List CliOption} {settings : Settings} {dcac t : DcAudioConverter}
    {sound : Sound} {past : ℕ → Int16} (hoptions : parseOptions options = .ok (settings, dcac))
    (ht : trimmed .dca past settings (dcac.load sound) = .ok t) :
    TrimmedInv t ∧ t.longSound = dcac.longSound := by
  have hinv := parseOptions_inv hoptions
  obtain ⟨checked, hchecked, hok⟩ := Fallible.bind_eq_ok.mp ht
  cases hok
  have hmem := defaultRate_dca_mem (dcac.load sound) sound.rate_pos hinv.rate_le
  obtain ⟨haccept, hcheckedLen⟩ := checkLoopPoints_load hchecked
  have hframe := haccept.frame
  obtain ⟨hrate, hdesired, hlong, hlooping⟩ := trimSilence_frame past settings checked
  obtain ⟨horder, hle, hfull⟩ := trimSilence_loop past settings haccept.inOrder hcheckedLen
  refine ⟨⟨?_, ?_, lt_of_le_of_lt hle hcheckedLen, horder, fun hplain ↦ hfull ?_⟩, ?_⟩
  · rw [hrate, hframe]
    exact sound.rate_pos
  · rw [hdesired, hframe]
    exact hmem
  · have hplainOpt : dcac.looping = false := by
      rw [hlooping, hframe] at hplain
      exact hplain
    obtain ⟨hstart, hend⟩ := hinv.plain_unset hplainOpt
    refine ⟨rfl, ?_, haccept.end_default (hinv.loopEnd_unset hend)⟩
    rw [hframe]
    exact hinv.loopStart_unset hstart
  · rw [hlong, hframe]
    rfl

end DcaConv
