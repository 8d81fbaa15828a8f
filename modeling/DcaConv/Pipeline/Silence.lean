import DcaConv.Pipeline.Run

/-!
# What trimming removes

The documentation of `--trim` speaks of removing samples until one is loud. The upward scan does
that: `new_start` is the first loud frame. The downward scan begins at index `samples_len`, behind
every buffer, and takes the index it stops at for an exclusive end, so that the last loud frame is
cut off with the silence behind it.
-/

namespace DcaConv

/-! ## Loud frames of a sound -/

/-- Some channel of the sound exceeds the threshold in frame `i`. -/
def LoudFrame (sound : Sound) (i : ℕ) : Prop :=
  ∃ xs ∈ sound.channels, ∃ x, xs[i]? = some x ∧ trimThreshold < x.toInt.natAbs

theorem LoudFrame.lt {sound : Sound} {i : ℕ} (h : LoudFrame sound i) : i < sound.samplesLen := by
  obtain ⟨xs, hxs, x, hx, -⟩ := h
  obtain ⟨hlt, -⟩ := List.getElem?_eq_some_iff.mp hx
  rwa [sound.length_eq xs hxs] at hlt

/-! ## What the scans look at -/

section Visits

variable (past : ℕ → Int16) (settings : Settings) (dcac : DcAudioConverter)

/-- The frames the upward scan indexes. -/
def startVisits : List ℕ :=
  if settings.trimSilenceStart then
    Scan.visited (isLoud past dcac) (List.range (maxStartTrim settings dcac))
  else []

/-- The frames the downward scan indexes. -/
def endVisits : List ℕ :=
  if settings.trimSilenceEnd then
    Scan.visited (isLoud past dcac) (Scan.descending (maxEndTrim settings dcac)
      (u32 dcac.samplesLen))
  else []

end Visits

/-! ## The promise -/

/-- The scans stay inside the sound, keep every loud frame, and stop at loud ones. -/
structure TrimsOnlySilence (past : ℕ → Int16) (settings : Settings) (sound : Sound)
    (dcac : DcAudioConverter) : Prop where
  start_inside : ∀ i ∈ startVisits past settings dcac, i < sound.samplesLen
  end_inside : ∀ i ∈ endVisits past settings dcac, i < sound.samplesLen
  loud_kept : ∀ i, LoudFrame sound i →
    scanStart past settings dcac ≤ i ∧ i < keptEnd past settings dcac
  first_loud : settings.trimSilenceStart = true → (∃ i, LoudFrame sound i) →
    scanStart past settings dcac < keptEnd past settings dcac ∧
      LoudFrame sound (scanStart past settings dcac)
  last_loud : settings.trimSilenceEnd = true → (∃ i, LoudFrame sound i) →
    scanStart past settings dcac < keptEnd past settings dcac ∧
      LoudFrame sound (keptEnd past settings dcac - 1)

/-! ## A loaded sound -/

/-- The converter holds the sound. -/
structure Holds (dcac : DcAudioConverter) (sound : Sound) : Prop where
  channelCnt_eq : dcac.channelCnt = sound.channels.length
  samples_eq : dcac.samples = sound.channels
  samplesLen_eq : dcac.samplesLen = sound.samplesLen

/-- The default rate and the checks leave the loaded sound alone, and let no empty one pass. -/
theorem checkLoopPoints_holds {out : OutputType} {dcac checked : DcAudioConverter} {sound : Sound}
    (h : checkLoopPoints (defaultRate out (dcac.load sound)) = .ok checked) :
    Holds checked sound ∧ LoopInOrder checked ∧ 1 ≤ sound.samplesLen := by
  have haccept := (checkLoopPoints_load h).1
  have hholds : Holds checked sound := by
    rw [haccept.frame]
    exact ⟨rfl, rfl, rfl⟩
  refine ⟨hholds, haccept.inOrder, ?_⟩
  rw [← hholds.samplesLen_eq]
  exact Nat.one_le_of_lt (haccept.start_lt.trans_le haccept.end_le)

section Held

variable {past : ℕ → Int16} {settings : Settings} {dcac : DcAudioConverter} {sound : Sound}

/-- Inside the sound the scans see its loud frames. -/
theorem Holds.isLoud_iff (h : Holds dcac sound) {i : ℕ} (hi : i < sound.samplesLen) :
    isLoud past dcac i = true ↔ LoudFrame sound i := by
  have hsample : ∀ c xs, sound.channels[c]? = some xs →
      ∃ x, xs[i]? = some x ∧ sampleAt past dcac c i = x := by
    intro c xs hxs
    have hlt : i < xs.length := by
      rwa [sound.length_eq xs (List.mem_of_getElem? hxs)]
    refine ⟨xs[i], List.getElem?_eq_getElem hlt, ?_⟩
    rw [sampleAt, h.samples_eq, hxs, Option.bind_some, List.getElem?_eq_getElem hlt,
      Option.getD_some]
  rw [isLoud, List.any_eq_true, h.channelCnt_eq]
  constructor
  · rintro ⟨c, hc, hloud⟩
    have hxs := List.getElem?_eq_getElem (List.mem_range.mp hc)
    obtain ⟨x, hx, hsame⟩ := hsample c _ hxs
    rw [hsame, decide_eq_true_eq] at hloud
    exact ⟨_, List.mem_of_getElem? hxs, x, hx, hloud⟩
  · rintro ⟨xs, hmem, x, hx, hloud⟩
    obtain ⟨c, hc, rfl⟩ := List.getElem_of_mem hmem
    obtain ⟨y, hy, hsame⟩ := hsample c _ (List.getElem?_eq_getElem hc)
    rw [hx, Option.some.injEq] at hy
    refine ⟨c, List.mem_range.mpr hc, ?_⟩
    rw [hsame, ← hy, decide_eq_true_eq]
    exact hloud

/-- With no explicit loop start the upward scan covers the sound, and stops at its first loud
frame. -/
theorem Holds.scanStart_spec (h : Holds dcac sound) (past : ℕ → Int16)
    (hset : settings.loopStartSet = false) :
    (∀ i, LoudFrame sound i → scanStart past settings dcac ≤ i) ∧
      (settings.trimSilenceStart = true → (∃ i, LoudFrame sound i) →
        LoudFrame sound (scanStart past settings dcac)) := by
  have hmax : maxStartTrim settings dcac = sound.samplesLen := by
    rw [maxStartTrim, hset, if_neg Bool.false_ne_true, h.samplesLen_eq, u32_of_lt
      sound.samplesLen_lt]
  have hcases := scanStart_cases past settings dcac
  rw [hmax] at hcases
  rcases hcases with ⟨hzero, hsilent⟩ | ⟨-, hlt, hloud, hbefore⟩
  · rw [hzero]
    refine ⟨fun _ _ ↦ Nat.zero_le _, ?_⟩
    rintro htrim ⟨i, hi⟩
    have hquiet := hsilent htrim i hi.lt
    rw [(h.isLoud_iff hi.lt).mpr hi] at hquiet
    cases hquiet
  · refine ⟨fun i hi ↦ ?_, fun _ _ ↦ (h.isLoud_iff hlt).mp hloud⟩
    by_contra hgt
    have hquiet := hbefore i (not_le.mp hgt)
    rw [(h.isLoud_iff hi.lt).mpr hi] at hquiet
    cases hquiet

/-- With no explicit loop end the downward scan indexes the frame behind the sound. -/
theorem Holds.samplesLen_mem_endVisits (h : Holds dcac sound) (hpos : 1 ≤ sound.samplesLen)
    (hset : settings.loopEndSet = false) (htrim : settings.trimSilenceEnd = true) :
    sound.samplesLen ∈ endVisits past settings dcac := by
  rw [endVisits, if_pos htrim, maxEndTrim, hset, if_neg Bool.false_ne_true, h.samplesLen_eq,
    u32_of_lt sound.samplesLen_lt]
  exact Scan.start_mem_visited_descending _ hpos

/-- Unless what lies behind the sound is loud, the downward scan stops at the last loud frame,
and what is kept ends before it. -/
theorem Holds.scanEnd_eq_last (h : Holds dcac sound) (hset : settings.loopEndSet = false)
    (htrim : settings.trimSilenceEnd = true) (hpast : isLoud past dcac sound.samplesLen = false)
    {last : ℕ} (hpos : 1 ≤ last) (hloud : LoudFrame sound last)
    (hlast : ∀ i, LoudFrame sound i → i ≤ last) : scanEnd past settings dcac = last := by
  have hsilent : ∀ i, last < i → i ≤ sound.samplesLen → isLoud past dcac i = false := by
    intro i hi hle
    rcases hle.lt_or_eq with hlt | rfl
    · rw [← Bool.not_eq_true, h.isLoud_iff hlt]
      exact fun hi' ↦ absurd (hlast i hi') (not_le.mpr hi)
    · exact hpast
  have hscan : Scan.down (isLoud past dcac) 0 sound.samplesLen = some last :=
    Scan.down_eq_some_iff.mpr ⟨hpos, hloud.lt.le, (h.isLoud_iff hloud.lt).mpr hloud, hsilent⟩
  rw [scanEnd, if_pos htrim, maxEndTrim, hset, if_neg Bool.false_ne_true, h.samplesLen_eq,
    u32_of_lt sound.samplesLen_lt, hscan, Option.getD_some]

end Held

/-- **Trimming and silence.** Without explicit loop points, the promise holds exactly when the end
is not trimmed. -/
theorem trims_only_silence_iff {out : OutputType} {dcac checked : DcAudioConverter} {sound : Sound}
    (past : ℕ → Int16) (settings : Settings) (hstartSet : settings.loopStartSet = false)
    (hendSet : settings.loopEndSet = false)
    (hcheck : checkLoopPoints (defaultRate out (dcac.load sound)) = .ok checked) :
    TrimsOnlySilence past settings sound checked ↔ settings.trimSilenceEnd = false := by
  obtain ⟨hholds, horder, hpos⟩ := checkLoopPoints_holds hcheck
  constructor
  · intro h
    by_contra htrim
    rw [Bool.not_eq_false] at htrim
    exact lt_irrefl _ (h.end_inside _ (hholds.samplesLen_mem_endVisits hpos hendSet htrim))
  · intro htrim
    obtain ⟨hbefore, hfirst⟩ := hholds.scanStart_spec past hstartSet
    have hlen : checked.samplesLen < 2 ^ 32 := by
      rw [hholds.samplesLen_eq]
      exact sound.samplesLen_lt
    have hkept : keptEnd past settings checked = sound.samplesLen := by
      rw [keptEnd, scanEnd, htrim, if_neg Bool.false_ne_true, u32_of_lt hlen,
        max_eq_right (scanStart_le past settings horder hlen), hholds.samplesLen_eq]
    refine ⟨fun i hi ↦ ?_, fun i hi ↦ ?_, fun i hi ↦ ⟨hbefore i hi, hi.lt.trans_eq hkept.symm⟩,
      fun hstart hloud ↦ ⟨?_, hfirst hstart hloud⟩, fun h ↦ ?_⟩
    · rw [startVisits] at hi
      split at hi
      · have hrange := List.mem_range.mp (Scan.visited_subset _ _ hi)
        rwa [maxStartTrim, hstartSet, if_neg Bool.false_ne_true, u32_of_lt hlen,
          hholds.samplesLen_eq] at hrange
      · cases hi
    · rw [endVisits, htrim, if_neg Bool.false_ne_true] at hi
      cases hi
    · exact (hfirst hstart hloud).lt.trans_eq hkept.symm
    · rw [htrim] at h
      cases h

/-- A click of three frames, the middle one loud. -/
def clickSound : Sound where
  sampleRateHz := 44100
  channels := [[0, 900, 0]]
  samplesLen := 3
  rate_pos := by decide
  channels_pos := by decide
  length_eq := by decide
  samplesLen_lt := by decide

/-- With `--trim start` nothing but the silence before the click goes. -/
theorem trims_only_silence_click_start :
    TrimsOnlySilence (fun _ ↦ 0) ⟨true, false, false, false, false⟩ clickSound
      ⟨44100, 1, [[0, 900, 0]], 3, .auto, 0, 44100, false, false, 0, 3⟩ :=
  (@trims_only_silence_iff .wav dcaInit _ clickSound _ _ rfl rfl rfl).mpr rfl

/-- With `--trim end` the click goes as well. -/
theorem click_trimmed_off :
    checkLoopPoints (defaultRate .wav (dcaInit.load clickSound))
      = .ok ⟨44100, 1, [[0, 900, 0]], 3, .auto, 0, 44100, false, false, 0, 3⟩ ∧
    (trimSilence (fun _ ↦ 0) ⟨false, true, false, false, false⟩
      ⟨44100, 1, [[0, 900, 0]], 3, .auto, 0, 44100, false, false, 0, 3⟩).samples = [[0]] ∧
    ¬TrimsOnlySilence (fun _ ↦ 0) ⟨false, true, false, false, false⟩ clickSound
      ⟨44100, 1, [[0, 900, 0]], 3, .auto, 0, 44100, false, false, 0, 3⟩ := by
  refine ⟨rfl, by decide, fun h ↦ ?_⟩
  exact absurd (h.end_inside 3 (by decide)) (by decide)

end DcaConv
