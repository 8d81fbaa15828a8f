import DcaConv.Pipeline.LoopPoints

/-!
# Explicit loop points and trimming

The documentation promises that a loop point given on the command line is not trimmed off. Each scan
guards one point: the upward scan stops at an explicit loop start, the downward one at an explicit
loop end. The other point has no guard of its own. It is safe while both are explicit, because they
are in order; with only one of them explicit, the scan at the far side can pass it.
-/

namespace DcaConv

/-- A point keeps its place in what `main` keeps of the sound. -/
structure PointSurvives (newStart newLen before after : ℕ) : Prop where
  start_le : newStart ≤ before
  le_len : before - newStart ≤ newLen
  moved : after = before - newStart

/-- Every point given on the command line survives the trimming of an accepted sound. -/
structure ExplicitPointsSurvive (past : ℕ → Int16) (settings : Settings)
    (checked : DcAudioConverter) : Prop where
  loopStart : settings.loopStartSet = true → PointSurvives (scanStart past settings checked)
    (trimSilence past settings checked).samplesLen checked.loopStart
    (trimSilence past settings checked).loopStart
  loopEnd : settings.loopEndSet = true → PointSurvives (scanStart past settings checked)
    (trimSilence past settings checked).samplesLen checked.loopEnd
    (trimSilence past settings checked).loopEnd

/-- The upward scan passes an explicit loop end: the start is trimmed, only the end was given, and
the sound stays silent beyond it. -/
def StartScanPassesEnd (past : ℕ → Int16) (settings : Settings) (checked : DcAudioConverter) :
    Prop :=
  settings.trimSilenceStart = true ∧ settings.loopStartSet = false ∧
    settings.loopEndSet = true ∧ (∀ i ≤ checked.loopEnd, isLoud past checked i = false) ∧
    ∃ i < checked.samplesLen, isLoud past checked i = true

/-- The downward scan passes an explicit loop start: the end is trimmed, only the start was given,
and the last loud index, the one behind the buffer included, lies before it. -/
def EndScanPassesStart (past : ℕ → Int16) (settings : Settings) (checked : DcAudioConverter) :
    Prop :=
  settings.trimSilenceEnd = true ∧ settings.loopStartSet = true ∧ settings.loopEndSet = false ∧
    (∃ i, 1 ≤ i ∧ i < checked.loopStart ∧ isLoud past checked i = true) ∧
    ∀ i, checked.loopStart ≤ i → i ≤ checked.samplesLen → isLoud past checked i = false

section Survival

variable {past : ℕ → Int16} {settings : Settings} {checked : DcAudioConverter}

/-! ## Surviving is lying in the kept part -/

theorem pointSurvives_iff {a b : ℕ} (p after : ℕ) (hab : a ≤ b)
    (hafter : a ≤ p → p ≤ b → after = p - a) : PointSurvives a (b - a) p after ↔ a ≤ p ∧ p ≤ b := by
  constructor
  · rintro ⟨hle, hlen, -⟩
    exact ⟨hle, by omega⟩
  · rintro ⟨hle, hlen⟩
    exact ⟨hle, by omega, hafter hle hlen⟩

theorem explicitPointsSurvive_iff (h : LoopInOrder checked)
    (hlen : checked.samplesLen < 2 ^ 32) : ExplicitPointsSurvive past settings checked ↔
      (settings.loopStartSet = true → scanStart past settings checked ≤ checked.loopStart ∧
        checked.loopStart ≤ keptEnd past settings checked) ∧
      (settings.loopEndSet = true → scanStart past settings checked ≤ checked.loopEnd ∧
        checked.loopEnd ≤ keptEnd past settings checked) := by
  have hloop := trimSilence_hasLoop past settings h hlen
  have hab : scanStart past settings checked ≤ keptEnd past settings checked := le_max_left _ _
  have hstart := pointSurvives_iff checked.loopStart
    (trimSilence past settings checked).loopStart hab fun h₁ h₂ ↦ by
      rw [hloop.loopStart_eq]
      exact if_pos ⟨h₁, h₂⟩
  have hend := pointSurvives_iff checked.loopEnd
    (trimSilence past settings checked).loopEnd hab fun h₁ h₂ ↦ by
      rw [hloop.loopEnd_eq]
      exact if_pos ⟨h₁, h₂⟩
  rw [← hstart, ← hend, ← hloop.samplesLen_eq]
  exact ⟨fun hs ↦ ⟨hs.loopStart, hs.loopEnd⟩, fun hs ↦ ⟨hs.1, hs.2⟩⟩

/-! ## What the scans guard -/

/-- An explicit loop start is never trimmed off at the front. -/
theorem scanStart_le_loopStart (hset : settings.loopStartSet = true) :
    scanStart past settings checked ≤ checked.loopStart := by
  rcases scanStart_cases past settings checked with ⟨hzero, -⟩ | ⟨-, hlt, -⟩
  · rw [hzero]
    exact Nat.zero_le _
  · rw [maxStartTrim, if_pos hset] at hlt
    exact hlt.le

/-- An explicit loop end is never trimmed off at the back. -/
theorem loopEnd_le_keptEnd (h : LoopInOrder checked) (hlen : checked.samplesLen < 2 ^ 32)
    (hset : settings.loopEndSet = true) :
    checked.loopEnd ≤ keptEnd past settings checked := by
  refine le_trans ?_ (le_max_right _ _)
  rcases scanEnd_cases past settings checked with ⟨hend, -⟩ | ⟨-, hlt, -⟩
  · rw [hend, u32_of_lt hlen]
    exact h.end_le
  · rw [maxEndTrim, if_pos hset] at hlt
    exact hlt.le

/-- Where no explicit start stops the upward scan, it passes an explicit end exactly over
silence. -/
theorem scanStart_le_loopEnd_iff (h : LoopInOrder checked)
    (hlen : checked.samplesLen < 2 ^ 32) (hset : settings.loopEndSet = true) :
    scanStart past settings checked ≤ checked.loopEnd ↔
      ¬StartScanPassesEnd past settings checked := by
  cases hstartSet : settings.loopStartSet with
  | true =>
    exact iff_of_true ((scanStart_le_loopStart hstartSet).trans h.start_le)
      fun hpass ↦ Bool.false_ne_true (hpass.2.1.symm.trans hstartSet)
  | false =>
    have hmax : maxStartTrim settings checked = checked.samplesLen := by
      rw [maxStartTrim, hstartSet, if_neg Bool.false_ne_true, u32_of_lt hlen]
    rcases scanStart_cases past settings checked with ⟨hzero, hsilent⟩ | ⟨htrim, hlt, hloud, hfirst⟩
    · rw [hmax] at hsilent
      refine iff_of_true (hzero.trans_le (Nat.zero_le _)) ?_
      rintro ⟨htrim, -, -, -, i, hi, hloud⟩
      exact Bool.false_ne_true ((hsilent htrim i hi).symm.trans hloud)
    · rw [hmax] at hlt
      constructor
      · rintro hle ⟨-, -, -, hsilent, -⟩
        exact Bool.false_ne_true ((hsilent _ hle).symm.trans hloud)
      · intro hpass
        by_contra hgt
        exact hpass ⟨htrim, hstartSet, hset, fun i hi ↦ hfirst i (by omega), _, hlt, hloud⟩

/-- Where no explicit end stops the downward scan, it passes an explicit start exactly over
silence. -/
theorem loopStart_le_keptEnd_iff (h : LoopInOrder checked)
    (hlen : checked.samplesLen < 2 ^ 32) (hset : settings.loopStartSet = true) :
    checked.loopStart ≤ keptEnd past settings checked ↔
      ¬EndScanPassesStart past settings checked := by
  cases hendSet : settings.loopEndSet with
  | true =>
    exact iff_of_true (h.start_le.trans (loopEnd_le_keptEnd h hlen hendSet))
      fun hpass ↦ Bool.false_ne_true (hpass.2.2.1.symm.trans hendSet)
  | false =>
    have hmax : maxEndTrim settings checked = 0 := by
      rw [maxEndTrim, hendSet, if_neg Bool.false_ne_true]
    have hcases := scanEnd_cases past settings checked
    rw [u32_of_lt hlen, hmax] at hcases
    have hloopStart := h.start_le.trans h.end_le
    rcases hcases with ⟨hend, hsilent⟩ | ⟨htrim, hpos, hle, hloud, hlast⟩
    · refine iff_of_true (hloopStart.trans (hend.ge.trans (le_max_right _ _))) ?_
      rintro ⟨htrim, -, -, ⟨i, hi, hlt, hloud⟩, -⟩
      exact Bool.false_ne_true ((hsilent htrim i hi (by omega)).symm.trans hloud)
    · constructor
      · rintro hkept ⟨-, -, -, ⟨i, hi, hlt, -⟩, hsilent⟩
        -- the upward scan stops before the loop start, so the kept part ends at the last loud index
        have hbefore : scanStart past settings checked < checked.loopStart := by
          rcases scanStart_cases past settings checked with ⟨hzero, -⟩ | ⟨-, hlt', -⟩
          · omega
          · rw [maxStartTrim, if_pos hset] at hlt'
            exact hlt'
        have hloudAt : checked.loopStart ≤ scanEnd past settings checked := by
          rw [keptEnd] at hkept
          omega
        exact Bool.false_ne_true ((hsilent _ hloudAt hle).symm.trans hloud)
      · intro hpass
        refine le_trans ?_ (le_max_right _ _)
        by_contra hgt
        exact hpass ⟨htrim, hset, hendSet, ⟨_, hpos, not_le.mp hgt, hloud⟩,
          fun i hi hile ↦ hlast i (by omega) hile⟩

/-! ## The promise -/

/-- **Explicit loop points and trimming.** They survive exactly when neither scan passes the point
it does not guard. -/
theorem explicit_points_survive_iff (input : DcAudioConverter) (past : ℕ → Int16)
    (settings : Settings) (hlen : input.samplesLen < 2 ^ 32)
    (hcheck : checkLoopPoints input = .ok checked) :
    ExplicitPointsSurvive past settings checked ↔
      ¬StartScanPassesEnd past settings checked ∧ ¬EndScanPassesStart past settings checked := by
  have haccept := checkLoopPoints_accepted hlen hcheck
  have h := haccept.inOrder
  have hlen' : checked.samplesLen < 2 ^ 32 := by
    rw [haccept.frame]
    exact hlen
  rw [explicitPointsSurvive_iff h hlen']
  constructor
  · rintro ⟨hstart, hend⟩
    refine ⟨fun hpass ↦ ?_, fun hpass ↦ ?_⟩
    · exact (scanStart_le_loopEnd_iff h hlen' hpass.2.2.1).mp (hend hpass.2.2.1).1 hpass
    · exact (loopStart_le_keptEnd_iff h hlen' hpass.2.1).mp (hstart hpass.2.1).2 hpass
  · rintro ⟨hstart, hend⟩
    refine ⟨fun hset ↦ ⟨scanStart_le_loopStart hset, ?_⟩, fun hset ↦ ⟨?_, ?_⟩⟩
    · exact (loopStart_le_keptEnd_iff h hlen' hset).mpr hend
    · exact (scanStart_le_loopEnd_iff h hlen' hset).mpr hstart
    · exact loopEnd_le_keptEnd h hlen' hset

end Survival

/-- Eight frames, loud from the second to the seventh, with `--trim --loop-start 2`. -/
theorem explicit_points_survive_iff_loud :
    ExplicitPointsSurvive (fun _ ↦ 0) ⟨true, true, false, true, false⟩
        ⟨44100, 1, [[0, 900, 900, 900, 900, 900, 900, 0]], 8, .adpcm, 1, 44100, false, true, 2, 8⟩ ↔
      ¬StartScanPassesEnd (fun _ ↦ 0) ⟨true, true, false, true, false⟩
          ⟨44100, 1, [[0, 900, 900, 900, 900, 900, 900, 0]], 8, .adpcm, 1, 44100, false, true, 2,
            8⟩ ∧
        ¬EndScanPassesStart (fun _ ↦ 0) ⟨true, true, false, true, false⟩
          ⟨44100, 1, [[0, 900, 900, 900, 900, 900, 900, 0]], 8, .adpcm, 1, 44100, false, true, 2,
            8⟩ :=
  explicit_points_survive_iff
    ⟨44100, 1, [[0, 900, 900, 900, 900, 900, 900, 0]], 8, .adpcm, 1, 44100, false, true, 2, 0⟩ _ _
    (by decide) rfl

/-- Eight frames, silent up to the fifth, with `--trim start --loop-end 2`: the cut starts at 5,
and the loop end is reset to the new length 3. -/
theorem explicit_loop_end_reset :
    checkLoopPoints ⟨44100, 1, [[0, 0, 0, 0, 0, 900, 900, 900]], 8, .adpcm, 1, 44100, false, true,
        0, 2⟩
      = .ok ⟨44100, 1, [[0, 0, 0, 0, 0, 900, 900, 900]], 8, .adpcm, 1, 44100, false, true, 0, 2⟩ ∧
    (trimSilence (fun _ ↦ 0) ⟨true, false, false, false, true⟩ ⟨44100, 1,
        [[0, 0, 0, 0, 0, 900, 900, 900]], 8, .adpcm, 1, 44100, false, true, 0, 2⟩).loopEnd = 3 ∧
    ¬ExplicitPointsSurvive (fun _ ↦ 0) ⟨true, false, false, false, true⟩ ⟨44100, 1,
        [[0, 0, 0, 0, 0, 900, 900, 900]], 8, .adpcm, 1, 44100, false, true, 0, 2⟩ := by
  refine ⟨rfl, by decide, fun h ↦ ?_⟩
  exact absurd (h.loopEnd rfl).start_le (by decide)

end DcaConv
