import DcaConv.Pipeline.Run
import DcaConv.Wav.Interleave

/-!
# The buffers of a run

From the loader to the resampler the length and the channel count of a state are those of its
buffers. The last stage only shortens, so a writer finds at least the samples it is told of. With
the order of the loop points and a format that is one, this is what the writers rely on.
-/

namespace DcaConv

section Stages

variable {dcac dcac' : DcAudioConverter} {n k : ℕ}

theorem Planar.of_eq (h : Planar dcac n k) (hcnt : dcac'.channelCnt = dcac.channelCnt)
    (hlen : dcac'.samplesLen = dcac.samplesLen) (hsamples : dcac'.samples = dcac.samples) :
    Planar dcac' n k :=
  ⟨hcnt.trans h.channelCnt_eq, hlen.trans h.samplesLen_eq, hsamples ▸ h.set,
    hsamples ▸ h.length_eq⟩

theorem planar_load (dcac : DcAudioConverter) (sound : Sound) :
    Planar (dcac.load sound) sound.samplesLen sound.channels.length :=
  ⟨rfl, rfl, le_rfl, fun xs hxs ↦ sound.length_eq xs (List.mem_of_mem_take hxs)⟩

theorem Planar.length_take (h : Planar dcac n k) : (dcac.samples.take k).length = k := by
  rw [List.length_take, Nat.min_eq_left h.set]

/-- New buffers in the first slots. -/
theorem planar_of_append {channels rest : List (List Int16)} (hcnt : dcac.channelCnt = k)
    (hlen : dcac.samplesLen = n) (hsamples : dcac.samples = channels ++ rest)
    (hchannels : channels.length = k) (hlength : ∀ xs ∈ channels, xs.length = n) :
    Planar dcac n k := by
  refine ⟨hcnt, hlen, ?_, ?_⟩
  · rw [hsamples, List.length_append, hchannels]
    exact Nat.le_add_right _ _
  · rw [hsamples, List.take_left' hchannels]
    exact hlength

theorem Planar.cutTo (h : Planar dcac n k) {a b : ℕ} (ha : a ≤ n) (hb : b ≤ n) :
    ∃ m ≤ n, Planar (cutTo a b dcac) m k := by
  have hend : (if b < a then a else b) ≤ n := by
    split
    · exact ha
    · exact hb
  refine ⟨(if b < a then a else b) - a, (Nat.sub_le _ _).trans hend,
    planar_of_append h.channelCnt_eq rfl rfl ?_ ?_⟩
  · rw [h.channelCnt_eq, List.length_map, h.length_take]
  · intro xs hxs
    obtain ⟨ys, hys, rfl⟩ := List.mem_map.mp hxs
    rw [h.channelCnt_eq] at hys
    rw [List.length_take, List.length_drop, h.length_eq ys hys]
    exact Nat.min_eq_left (Nat.sub_le_sub_right hend a)

theorem Planar.trimSilence (h : Planar dcac n k) (past : ℕ → Int16) (settings : Settings)
    (horder : LoopInOrder dcac) (hlt : n < 2 ^ 32) :
    ∃ m ≤ n, Planar (trimSilence past settings dcac) m k := by
  have hlen := h.samplesLen_eq
  rcases trimSilence_eq past settings horder (hlen ▸ hlt) with hsame | ⟨a, b, ha, hb, hcut⟩
  · exact ⟨n, le_rfl, by rwa [hsame]⟩
  · rw [hcut]
    exact h.cutTo (hlen ▸ ha) (hlen ▸ hb)

theorem Planar.prepareOutput (h : Planar dcac n k) {out : OutputType} {settings : Settings}
    (hprepared : prepareOutput out settings dcac = .ok dcac') : Planar dcac' n k := by
  cases out with
  | dca =>
    rw [DcaConv.prepareOutput, prepareDca] at hprepared
    split at hprepared
    · cases hprepared
    · obtain ⟨rate, -, hok⟩ := Fallible.bind_eq_ok.mp hprepared
      cases hok
      exact h.of_eq rfl rfl rfl
  | wav =>
    cases hprepared
    exact h.of_eq rfl rfl rfl
  | unknown => cases hprepared

/-- The channels stay, or are mixed into one; the format stays. -/
theorem convertChannels_cases (h : convertChannels dcac = .ok dcac') :
    dcac'.format = dcac.format ∧
      ((dcac'.samples = dcac.samples ∧ dcac'.channelCnt = dcac.channelCnt) ∨
        dcac'.samples = [(List.range dcac.samplesLen).map (downmixFrame dcac)] ∧
          dcac'.channelCnt = 1) := by
  rw [convertChannels] at h
  dsimp only at h
  generalize (if dcac.channelCnt < dcac.desiredChannels then dcac.channelCnt
    else dcac.desiredChannels) = desired at h
  by_cases hsame : desired = dcac.channelCnt
  · rw [if_pos hsame] at h
    cases h
    exact ⟨rfl, Or.inl ⟨rfl, rfl⟩⟩
  by_cases hone : desired = 1
  · rw [if_neg hsame, if_pos hone] at h
    cases h
    rw [dcaDownmixMono, if_neg (by rw [← hone]; exact fun hc ↦ hsame hc.symm)]
    exact ⟨rfl, Or.inr ⟨rfl, rfl⟩⟩
  · rw [if_neg hsame, if_neg hone] at h
    split at h <;> cases h

theorem Planar.convertChannels (h : Planar dcac n k)
    (hmixed : convertChannels dcac = .ok dcac') : Planar dcac' n k ∨ Planar dcac' n 1 := by
  have hlen := (convertChannels_frame hmixed).1.samplesLen_eq
  rcases (convertChannels_cases hmixed).2 with ⟨hsamples, hcnt⟩ | ⟨hsamples, hcnt⟩
  · exact Or.inl (h.of_eq hcnt hlen hsamples)
  · refine Or.inr (planar_of_append hcnt (hlen.trans h.samplesLen_eq)
      (hsamples.trans (List.append_nil _).symm) rfl fun xs hxs ↦ ?_)
    rw [List.mem_singleton.mp hxs, List.length_map, List.length_range, h.samplesLen_eq]

theorem Planar.resample (h : Planar dcac n k) (src : Resampler) :
    Planar (resample src dcac) (resample src dcac).samplesLen k := by
  rw [DcaConv.resample]
  split
  · refine planar_of_append h.channelCnt_eq rfl rfl ?_ fun xs hxs ↦ ?_
    · rw [List.length_mapIdx, h.channelCnt_eq, h.length_take]
    · obtain ⟨c, hc, rfl⟩ := List.mem_mapIdx.mp hxs
      exact src.length_process _ _ _ _
  · rw [h.samplesLen_eq]
    exact h

end Stages

/-! ## What a writer is handed -/

/-- What every run has seen to when it comes to its writer. -/
structure WriterInv (out : OutputType) (dcac : DcAudioConverter) : Prop where
  one_le : 1 ≤ dcac.channelCnt
  set : dcac.channelCnt ≤ dcac.samples.length
  samplesLen_le : ∀ xs ∈ dcac.samples.take dcac.channelCnt, dcac.samplesLen ≤ xs.length
  inOrder : LoopInOrder dcac
  loop_nonempty : dcac.looping = true → dcac.loopStart < dcac.loopEnd
  format_ne : dcac.format ≠ .auto
  rate_mem : out = .dca → 172 ≤ dcac.sampleRateHz ∧
    (dcac.format = .adpcm → dcac.sampleRateHz ≤ dcaMaximumAdpcmSampleRateHz)

theorem roundRate_mem (format : DcaFormat) (rate : ℕ) : 172 ≤ roundRate format rate ∧
    (format = .adpcm → roundRate format rate ≤ dcaMaximumAdpcmSampleRateHz) := by
  rw [roundRate]
  split
  · exact ⟨le_rfl, fun _ ↦ by decide⟩
  · next hlow =>
    split
    · exact ⟨by decide, fun _ ↦ le_rfl⟩
    · next hhigh => exact ⟨not_lt.mp hlow, fun hf ↦ not_lt.mp fun hlt ↦ hhigh ⟨hf, hlt⟩⟩

/-- A `.dca` file or a WAV file has a format of its own. -/
theorem prepareOutput_format {out : OutputType} {settings : Settings}
    {dcac prepared : DcAudioConverter} (h : prepareOutput out settings dcac = .ok prepared) :
    prepared.format ≠ .auto ∧ (out = .dca → ∃ rate,
      prepared.desiredSampleRateHz = roundRate prepared.format rate) := by
  cases out with
  | dca =>
    obtain ⟨rate, -, hrate, -⟩ := prepareDca_eq_ok h
    refine ⟨?_, fun _ ↦ ⟨rate, hrate⟩⟩
    rw [prepareOutput, prepareDca] at h
    split at h
    · cases h
    · obtain ⟨_, -, hok⟩ := Fallible.bind_eq_ok.mp h
      cases hok
      dsimp only
      split
      · exact DcaFormat.noConfusion
      · next hne => exact hne
  | wav =>
    cases h
    refine ⟨?_, fun hout ↦ by cases hout⟩
    rw [prepareWav]
    dsimp only
    split
    · exact DcaFormat.noConfusion
    · next hne => exact hne
  | unknown => cases h

theorem resample_rate (src : Resampler) (dcac : DcAudioConverter) :
    (resample src dcac).sampleRateHz = dcac.desiredSampleRateHz ∧
      (resample src dcac).format = dcac.format := by
  rw [resample]
  split
  · exact ⟨rfl, rfl⟩
  · next hsame => exact ⟨(not_not.mp hsame).symm, rfl⟩

/-- The last stage looks at length and loop only. -/
theorem finishLoop_frame (settings : Settings) (dcac : DcAudioConverter) :
    (finishLoop settings dcac).sampleRateHz = dcac.sampleRateHz ∧
      (finishLoop settings dcac).channelCnt = dcac.channelCnt ∧
      (finishLoop settings dcac).samples = dcac.samples ∧
      (finishLoop settings dcac).format = dcac.format := by
  rw [finishLoop]
  generalize (if finalLength settings dcac < dcac.loopEnd then u32 (finalLength settings dcac)
    else dcac.loopEnd) = loopEnd
  split <;> exact ⟨rfl, rfl, rfl, rfl⟩

section Run

variable {options : List CliOption} {sound : Sound} {out : OutputType} {past : ℕ → Int16}
  {src : Resampler} {final : DcAudioConverter}

/-- What the resampler leaves behind in a run. -/
theorem exists_resampled (h : runMain options sound out past src = .ok final) :
    ∃ settings resampled k, final = finishLoop settings resampled ∧ 1 ≤ k ∧
      k ≤ sound.channels.length ∧ Planar resampled resampled.samplesLen k ∧
      LoopInOrder resampled ∧ resampled.format ≠ .auto ∧
      (out = .dca → ∃ rate, resampled.sampleRateHz = roundRate resampled.format rate) := by
  obtain ⟨⟨settings, dcac⟩, -, h⟩ := Fallible.bind_eq_ok.mp h
  obtain ⟨cut, hcut, h⟩ := Fallible.bind_eq_ok.mp h
  obtain ⟨checked, hchecked, htrim⟩ := Fallible.bind_eq_ok.mp hcut
  obtain ⟨prepared, hprepared, h⟩ := Fallible.bind_eq_ok.mp h
  obtain ⟨mixed, hmixed, hok⟩ := Fallible.bind_eq_ok.mp h
  cases htrim
  cases hok
  obtain ⟨haccept, hlt⟩ := checkLoopPoints_load hchecked
  have hframe := haccept.frame
  have hrate : 0 < checked.sampleRateHz := by
    rw [hframe]
    exact sound.rate_pos
  have hload : Planar checked sound.samplesLen sound.channels.length := by
    rw [hframe]
    exact (planar_load dcac sound).of_eq rfl rfl rfl
  obtain ⟨horder, -, -⟩ := trimSilence_loop past settings haccept.inOrder hlt
  obtain ⟨n, -, hcutPlanar⟩ := hload.trimSilence past settings haccept.inOrder sound.samplesLen_lt
  have hpreparedPlanar := hcutPlanar.prepareOutput hprepared
  obtain ⟨hsame, hsource⟩ := prepareOutput_frame hprepared
  obtain ⟨hsame', hsource', hdesired⟩ := convertChannels_frame hmixed
  have hmixedRate : 0 < mixed.sampleRateHz := by
    rw [hsource', hsource, (trimSilence_frame past settings checked).1]
    exact hrate
  obtain ⟨hformat, hround⟩ := prepareOutput_format hprepared
  have hresampled : ∃ k, 1 ≤ k ∧ k ≤ sound.channels.length ∧ Planar mixed n k := by
    rcases hpreparedPlanar.convertChannels hmixed with hk | hone
    · exact ⟨_, sound.channels_pos, le_rfl, hk⟩
    · exact ⟨1, le_rfl, sound.channels_pos, hone⟩
  obtain ⟨k, hk, hle, hplanar⟩ := hresampled
  refine ⟨settings, resample src mixed, k, rfl, hk, hle, hplanar.resample src, ?_, ?_, ?_⟩
  · exact ((hsame.trans hsame').hasLoop horder.hasLoop |>.resample hmixedRate src).inOrder
  · rw [(resample_rate src mixed).2, (convertChannels_cases hmixed).1]
    exact hformat
  · intro hout
    rw [(resample_rate src mixed).1, (resample_rate src mixed).2, hdesired,
      (convertChannels_cases hmixed).1]
    exact hround hout

theorem writerInv (h : runMain options sound out past src = .ok final) : WriterInv out final := by
  obtain ⟨settings, resampled, k, rfl, hk, -, hplanar, horder, hformat, hround⟩ :=
    exists_resampled h
  obtain ⟨hrate, hcnt, hsamples, hfmt⟩ := finishLoop_frame settings resampled
  obtain ⟨hfinal, hstrict⟩ := horder.finishLoop settings
  refine ⟨?_, ?_, ?_, hfinal, hstrict, hfmt ▸ hformat, fun hout ↦ ?_⟩
  · rw [hcnt, hplanar.channelCnt_eq]
    exact hk
  · rw [hcnt, hsamples, hplanar.channelCnt_eq]
    exact hplanar.set
  · intro xs hxs
    rw [hcnt, hsamples, hplanar.channelCnt_eq] at hxs
    rw [finishLoop_samplesLen, hplanar.length_eq xs hxs]
    exact finalLength_le settings resampled
  · obtain ⟨rate, hrounded⟩ := hround hout
    rw [hrate, hfmt, hrounded]
    exact roundRate_mem _ _

end Run

end DcaConv
