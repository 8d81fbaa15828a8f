import DcaConv.Container.Write
import DcaConv.Library.Window
import DcaConv.Pipeline.Output

/-!
# The loop points through the stages

Every stage that touches the loop points or the length performs a window operation: the cut rebases,
the resampler scales by a monotone map, the end trim shortens. So the points stay in order and in
bounds without an argument about the numbers, and a loop over everything stays a loop over
everything.

## Wrap-around

The fix-up after the cut subtracts without looking. A point before the cut wraps to a value above
any length the sound can have, which is why the comparison that follows catches it.
-/

namespace DcaConv

/-! ## Windows of a converter state -/

/-- The loop points are in order and within the sound. -/
structure LoopInOrder (dcac : DcAudioConverter) : Prop where
  start_le : dcac.loopStart ≤ dcac.loopEnd
  end_le : dcac.loopEnd ≤ dcac.samplesLen

/-- The loop points are the ends of this window. -/
structure HasLoop (dcac : DcAudioConverter) {len : ℕ} (w : Window len) : Prop where
  samplesLen_eq : dcac.samplesLen = len
  loopStart_eq : dcac.loopStart = w.start
  loopEnd_eq : dcac.loopEnd = w.stop

theorem HasLoop.inOrder {dcac : DcAudioConverter} {len : ℕ} {w : Window len}
    (h : HasLoop dcac w) : LoopInOrder dcac := by
  refine ⟨?_, ?_⟩
  · rw [h.loopStart_eq, h.loopEnd_eq]
    exact w.start_le
  · rw [h.loopEnd_eq, h.samplesLen_eq]
    exact w.stop_le

/-- The window of loop points in order. -/
def LoopInOrder.window {dcac : DcAudioConverter} (h : LoopInOrder dcac) :
    Window dcac.samplesLen := ⟨dcac.loopStart, dcac.loopEnd, h.start_le, h.end_le⟩

theorem LoopInOrder.hasLoop {dcac : DcAudioConverter} (h : LoopInOrder dcac) :
    HasLoop dcac h.window := ⟨rfl, rfl, rfl⟩

/-! ## The stages -/

section Stages

variable {dcac : DcAudioConverter} {len : ℕ} {w : Window len}

theorem ite_lt_eq_max (a b : ℕ) : (if b < a then a else b) = max a b := by
  split <;> omega

/-- The wrapping fix-up of a start point is the window's. -/
theorem fixUpStart_eq {a b p : ℕ} (hp : p < 2 ^ 32) (hab : a ≤ b) (hb : b < 2 ^ 32) :
    (if b - a < subU32 p a then 0 else subU32 p a) = Window.rebaseStart a b p := by
  rw [Window.rebaseStart]
  rcases Nat.lt_or_ge p a with h | h
  · rw [subU32_of_lt h (by omega), if_pos (by omega), if_neg (by omega)]
  · rw [subU32_of_le h hp]
    split <;> split <;> omega

theorem fixUpStop_eq {a b p : ℕ} (hp : p < 2 ^ 32) (hab : a ≤ b) (hb : b < 2 ^ 32) :
    (if b - a < subU32 p a then b - a else subU32 p a) = Window.rebaseStop a b p := by
  rw [Window.rebaseStop]
  rcases Nat.lt_or_ge p a with h | h
  · rw [subU32_of_lt h (by omega), if_pos (by omega), if_neg (by omega)]
  · rw [subU32_of_le h hp]
    split <;> split <;> omega

/-- Cutting rebases the window. -/
theorem HasLoop.cutTo (h : HasLoop dcac w) {a b : ℕ} (ha : a ≤ len) (hb : b ≤ len)
    (hlen : len < 2 ^ 32) : HasLoop (cutTo a b dcac) (w.rebase a (max a b)) := by
  have hstop := w.stop_le
  have hstart := w.start_le
  refine ⟨?_, ?_, ?_⟩
  · rw [DcaConv.cutTo, ite_lt_eq_max]
  · rw [DcaConv.cutTo, ite_lt_eq_max, h.loopStart_eq]
    exact fixUpStart_eq (by omega) (le_max_left _ _) (by omega)
  · rw [DcaConv.cutTo, ite_lt_eq_max, h.loopEnd_eq]
    exact fixUpStop_eq (by omega) (le_max_left _ _) (by omega)

/-- Where the resampler puts a position. -/
def rateScale (desired source : ℕ) : ℕ →o ℕ where
  toFun n := n * desired / source
  monotone' _ _ h := Nat.div_le_div_right (Nat.mul_le_mul_right _ h)

@[simp] theorem rateScale_apply (desired source n : ℕ) :
    rateScale desired source n = n * desired / source := rfl

theorem rateScale_zero (desired source : ℕ) : rateScale desired source 0 = 0 := by
  rw [rateScale_apply, Nat.zero_mul, Nat.zero_div]

/-- Length and points are scaled alike, by one when the rates are equal. -/
theorem resample_scaled (hrate : 0 < dcac.sampleRateHz) (src : Resampler) :
    (resample src dcac).samplesLen
        = rateScale dcac.desiredSampleRateHz dcac.sampleRateHz dcac.samplesLen ∧
      (resample src dcac).loopStart
        = rateScale dcac.desiredSampleRateHz dcac.sampleRateHz dcac.loopStart ∧
      (resample src dcac).loopEnd
        = rateScale dcac.desiredSampleRateHz dcac.sampleRateHz dcac.loopEnd := by
  by_cases hne : dcac.desiredSampleRateHz ≠ dcac.sampleRateHz
  · rw [resample, if_pos hne]
    exact ⟨truncate_mul_div _ _ _, truncate_mul_div _ _ _, truncate_mul_div _ _ _⟩
  · have hid : ∀ n, rateScale dcac.desiredSampleRateHz dcac.sampleRateHz n = n := fun n ↦ by
      rw [rateScale_apply, not_not.mp hne, Nat.mul_div_cancel _ hrate]
    rw [resample, if_neg hne]
    exact ⟨(hid _).symm, (hid _).symm, (hid _).symm⟩

/-- Resampling scales the window. -/
theorem HasLoop.resample (h : HasLoop dcac w) (hrate : 0 < dcac.sampleRateHz) (src : Resampler) :
    HasLoop (resample src dcac)
      (w.scale (rateScale dcac.desiredSampleRateHz dcac.sampleRateHz)) := by
  obtain ⟨hlen, hstart, hend⟩ := resample_scaled hrate src
  exact ⟨by rw [hlen, h.samplesLen_eq], by rw [hstart, h.loopStart_eq]; rfl,
    by rw [hend, h.loopEnd_eq]; rfl⟩

theorem finalLength_le (settings : Settings) (dcac : DcAudioConverter) :
    finalLength settings dcac ≤ dcac.samplesLen := by
  rw [finalLength]
  split
  · next h => exact h.2.2.le
  · exact le_refl _

theorem finishLoop_samplesLen (settings : Settings) (dcac : DcAudioConverter) :
    (finishLoop settings dcac).samplesLen = finalLength settings dcac := by
  rw [finishLoop, apply_ite DcAudioConverter.samplesLen, ite_self]

theorem LoopInOrder.loopEnd_le_finalLength (h : LoopInOrder dcac) (settings : Settings) :
    dcac.loopEnd ≤ finalLength settings dcac := by
  have hend := h.end_le
  rw [finalLength]
  split
  · exact le_refl _
  · exact hend

theorem HasLoop.stop_le_finalLength (h : HasLoop dcac w) (settings : Settings) :
    w.stop ≤ finalLength settings dcac := by
  rw [← h.loopEnd_eq]
  exact h.inOrder.loopEnd_le_finalLength settings

/-- On loop points in order the last stage only shortens the sound and drops an empty loop. -/
theorem finishLoop_eq (h : LoopInOrder dcac) (settings : Settings) :
    finishLoop settings dcac = if dcac.loopEnd ≤ dcac.loopStart then
        { dcac with samplesLen := finalLength settings dcac, loopStart := 0, looping := false }
      else { dcac with samplesLen := finalLength settings dcac } := by
  have hend : (if finalLength settings dcac < dcac.loopEnd then u32 (finalLength settings dcac)
      else dcac.loopEnd) = dcac.loopEnd :=
    if_neg (not_lt.mpr (h.loopEnd_le_finalLength settings))
  rw [finishLoop, hend]

/-- Around a loop that is not empty the last stage only shortens. -/
theorem HasLoop.shorten (h : HasLoop dcac w) (settings : Settings) (hne : w.start < w.stop) :
    HasLoop (finishLoop settings dcac) (w.shorten (h.stop_le_finalLength settings)) ∧
      (finishLoop settings dcac).looping = dcac.looping := by
  have hne' : ¬dcac.loopEnd ≤ dcac.loopStart := by
    rw [h.loopStart_eq, h.loopEnd_eq]
    exact not_le.mpr hne
  rw [finishLoop_eq h.inOrder settings, if_neg hne']
  exact ⟨⟨rfl, h.loopStart_eq, h.loopEnd_eq⟩, rfl⟩

/-- The last stage, and what it adds: a sound that still loops has a loop. -/
theorem LoopInOrder.finishLoop (h : LoopInOrder dcac) (settings : Settings) :
    LoopInOrder (finishLoop settings dcac) ∧ ((finishLoop settings dcac).looping = true →
      (finishLoop settings dcac).loopStart < (finishLoop settings dcac).loopEnd) := by
  by_cases hempty : dcac.loopEnd ≤ dcac.loopStart
  · rw [finishLoop_eq h settings, if_pos hempty]
    exact ⟨⟨Nat.zero_le _, h.loopEnd_le_finalLength settings⟩,
      fun hl ↦ absurd hl Bool.false_ne_true⟩
  · obtain ⟨hshort, -⟩ := h.hasLoop.shorten settings (not_le.mp hempty)
    refine ⟨hshort.inOrder, fun _ ↦ ?_⟩
    rw [hshort.loopStart_eq, hshort.loopEnd_eq]
    exact not_le.mp hempty

/-- A loop over everything stays one. -/
theorem HasLoop.finishLoop_full (h : HasLoop dcac (Window.full len)) (hlen : 1 ≤ len)
    (settings : Settings) : HasLoop (finishLoop settings dcac) (Window.full len) ∧
      (finishLoop settings dcac).looping = dcac.looping := by
  have hfinal : finalLength settings dcac = len := by
    rw [finalLength, show dcac.loopEnd = len from h.loopEnd_eq, h.samplesLen_eq, ite_self]
  obtain ⟨hshort, hkeep⟩ := h.shorten settings (Nat.lt_of_succ_le hlen)
  exact ⟨⟨hshort.samplesLen_eq.trans hfinal, hshort.loopStart_eq, hshort.loopEnd_eq⟩, hkeep⟩

end Stages

/-! ## The whole pipeline -/

/-- Loop points, length and loop flag are the same. -/
structure SameLoop (dcac dcac' : DcAudioConverter) : Prop where
  samplesLen_eq : dcac'.samplesLen = dcac.samplesLen
  loopStart_eq : dcac'.loopStart = dcac.loopStart
  loopEnd_eq : dcac'.loopEnd = dcac.loopEnd
  looping_eq : dcac'.looping = dcac.looping

theorem SameLoop.hasLoop {dcac dcac' : DcAudioConverter} {len : ℕ} {w : Window len}
    (hsame : SameLoop dcac dcac') (h : HasLoop dcac w) : HasLoop dcac' w :=
  ⟨hsame.samplesLen_eq.trans h.samplesLen_eq, hsame.loopStart_eq.trans h.loopStart_eq,
    hsame.loopEnd_eq.trans h.loopEnd_eq⟩

/-- The states of a conversion between its stages, for whatever the scans find and whatever rates
and channels the output asks for. -/
structure LoopRun (settings : Settings) (src : Resampler)
    (input checked cut prepared resampled final : DcAudioConverter) : Prop where
  checked_eq : checkLoopPoints input = .ok checked
  cut_eq : cut = checked ∨ ∃ newStart newEnd, newStart ≤ checked.samplesLen ∧
    newEnd ≤ checked.samplesLen ∧ cut = cutTo newStart newEnd checked
  prepared_same : SameLoop cut prepared
  rate_pos : 0 < prepared.sampleRateHz
  resampled_eq : resampled = resample src prepared
  resampled_lt : resampled.samplesLen < 2 ^ 32
  final_eq : final = finishLoop settings resampled

section Run

variable {settings : Settings} {src : Resampler}
  {input checked cut prepared resampled final : DcAudioConverter}

theorem Accepted.inOrder (h : Accepted input checked) : LoopInOrder checked :=
  ⟨h.start_lt.le, h.end_le⟩

theorem resample_looping (src : Resampler) (dcac : DcAudioConverter) :
    (resample src dcac).looping = dcac.looping := by
  rw [resample]
  split <;> rfl

/-- The cut of a run, whatever part of the sound it keeps. -/
theorem LoopRun.cut_hasLoop (hrun : LoopRun settings src input checked cut prepared resampled final)
    (hlen : checked.samplesLen < 2 ^ 32) {len : ℕ} {w : Window len} (h : HasLoop checked w) :
    cut.looping = checked.looping ∧ (HasLoop cut w ∨
      ∃ a b, b ≤ len ∧ HasLoop cut (w.rebase a b)) := by
  rcases hrun.cut_eq with hcut | ⟨newStart, newEnd, hstart, hend, hcut⟩
  · rw [hcut]
    exact ⟨rfl, Or.inl h⟩
  · rw [h.samplesLen_eq] at hstart hend hlen
    rw [hcut]
    exact ⟨rfl, Or.inr ⟨newStart, max newStart newEnd, max_le hstart hend,
      h.cutTo hstart hend hlen⟩⟩

theorem LoopRun.cut_inOrder (hrun : LoopRun settings src input checked cut prepared resampled final)
    (hlen : checked.samplesLen < 2 ^ 32) (h : LoopInOrder checked) : LoopInOrder cut := by
  rcases (hrun.cut_hasLoop hlen h.hasLoop).2 with hcut | ⟨_, _, -, hcut⟩
  · exact hcut.inOrder
  · exact hcut.inOrder

theorem LoopRun.resampled_inOrder
    (hrun : LoopRun settings src input checked cut prepared resampled final)
    (h : LoopInOrder cut) : LoopInOrder resampled := by
  rw [hrun.resampled_eq]
  exact ((hrun.prepared_same.hasLoop h.hasLoop).resample hrun.rate_pos src).inOrder

/-- A loop over everything reaches the last stage as one. -/
theorem LoopRun.resampled_full
    (hrun : LoopRun settings src input checked cut prepared resampled final)
    (hlen : checked.samplesLen < 2 ^ 32) (h : HasLoop checked (Window.full checked.samplesLen)) :
    HasLoop resampled (Window.full resampled.samplesLen) ∧
      resampled.looping = checked.looping := by
  have hcut : ∃ len, HasLoop cut (Window.full len) := by
    rcases (hrun.cut_hasLoop hlen h).2 with hcut | ⟨a, b, hb, hcut⟩
    · exact ⟨_, hcut⟩
    · rw [Window.rebase_full hb] at hcut
      exact ⟨_, hcut⟩
  obtain ⟨len, hcut⟩ := hcut
  have hres := (hrun.prepared_same.hasLoop hcut).resample hrun.rate_pos src
  rw [Window.scale_full (rateScale_zero _ _), ← hrun.resampled_eq] at hres
  refine ⟨?_, ?_⟩
  · rw [hres.samplesLen_eq]
    exact hres
  · rw [hrun.resampled_eq, resample_looping, hrun.prepared_same.looping_eq,
      (hrun.cut_hasLoop hlen h).1]

theorem writeHeader_plain {cs : DcAudioConverter} (h : cs.looping = false) (channelsize : ℕ) :
    (writeHeader cs channelsize).loopStart = 0 ∧
      (writeHeader cs channelsize).loopEnd = (writeHeader cs channelsize).totalLength := by
  rw [writeHeader, if_neg (by rw [h]; exact Bool.false_ne_true),
    if_neg (by rw [h]; exact Bool.false_ne_true)]
  exact ⟨rfl, rfl⟩

/-- **Loop points over a run.** They are in order and in bounds after every stage, the written loop
is not empty, a sound without one has the whole-sound fields, and `--loop` alone loops
everything. -/
theorem loop_points_invariant
    (hrun : LoopRun settings src input checked cut prepared resampled final)
    (hlen : input.samplesLen < 2 ^ 32) :
    LoopInOrder checked ∧ LoopInOrder cut ∧ LoopInOrder resampled ∧ LoopInOrder final ∧
      (final.looping = true → final.loopStart < final.loopEnd ∧
        final.loopEnd ≤ final.samplesLen) ∧
      (final.looping = false → ∀ channelsize, (writeHeader final channelsize).loopStart = 0 ∧
        (writeHeader final channelsize).loopEnd = (writeHeader final channelsize).totalLength) ∧
      (input.looping = true → input.loopStart = 0 → input.loopEnd = 0 → 1 ≤ final.samplesLen →
        final.looping = true ∧ final.loopStart = 0 ∧ final.loopEnd = final.samplesLen) := by
  have haccept := checkLoopPoints_accepted hlen hrun.checked_eq
  have hframe := haccept.frame
  have hcheckedLen : checked.samplesLen = input.samplesLen := by rw [hframe]
  have hlen' : checked.samplesLen < 2 ^ 32 := by rw [hcheckedLen]; exact hlen
  have hchecked := haccept.inOrder
  have hcut := hrun.cut_inOrder hlen' hchecked
  have hresampled := hrun.resampled_inOrder hcut
  obtain ⟨hfinal, hstrict⟩ := hresampled.finishLoop settings
  rw [← hrun.final_eq] at hfinal hstrict
  refine ⟨hchecked, hcut, hresampled, hfinal, fun hl ↦ ⟨hstrict hl, hfinal.end_le⟩,
    fun hl channelsize ↦ writeHeader_plain hl channelsize, fun hl hstart hend hone ↦ ?_⟩
  have hfull : HasLoop checked (Window.full checked.samplesLen) := by
    refine ⟨rfl, ?_, haccept.end_default hend⟩
    rw [hframe]
    exact hstart
  obtain ⟨hres, hlooping⟩ := hrun.resampled_full hlen' hfull
  have hresLen : 1 ≤ resampled.samplesLen := by
    rw [hrun.final_eq, finishLoop_samplesLen] at hone
    exact hone.trans (finalLength_le settings resampled)
  obtain ⟨hwhole, hkeep⟩ := hres.finishLoop_full hresLen settings
  rw [← hrun.final_eq] at hwhole hkeep
  have hcheckedLoop : checked.looping = input.looping := by rw [hframe]
  refine ⟨?_, hwhole.loopStart_eq, ?_⟩
  · rw [hkeep, hlooping, hcheckedLoop, hl]
  · rw [hwhole.loopEnd_eq, hwhole.samplesLen_eq]
    rfl

/-- Four frames of silence with `--loop`, cut to two and brought from 44100 to 22050 Hz. -/
theorem loop_points_invariant_half_rate :
    let input : DcAudioConverter :=
      ⟨44100, 1, [[0, 0, 0, 0]], 4, .adpcm, 1, 22050, false, true, 0, 0⟩
    let checked : DcAudioConverter := { input with loopEnd := 4 }
    let resampled := resample .silent (cutTo 1 3 checked)
    let final := finishLoop .initial resampled
    LoopInOrder checked ∧ LoopInOrder (cutTo 1 3 checked) ∧ LoopInOrder resampled ∧
      LoopInOrder final ∧
      (final.looping = true → final.loopStart < final.loopEnd ∧
        final.loopEnd ≤ final.samplesLen) ∧
      (final.looping = false → ∀ channelsize, (writeHeader final channelsize).loopStart = 0 ∧
        (writeHeader final channelsize).loopEnd = (writeHeader final channelsize).totalLength) ∧
      (input.looping = true → input.loopStart = 0 → input.loopEnd = 0 → 1 ≤ final.samplesLen →
        final.looping = true ∧ final.loopStart = 0 ∧ final.loopEnd = final.samplesLen) :=
  loop_points_invariant ⟨rfl, Or.inr ⟨1, 3, by decide, by decide, rfl⟩, ⟨rfl, rfl, rfl, rfl⟩,
    by decide, rfl, by rw [(resample_scaled (by decide) .silent).1]; decide, rfl⟩ (by decide)

end Run

/-! ## The kept part of a trimmed sound -/

theorem scanStart_le (past : ℕ → Int16) (settings : Settings) {dcac : DcAudioConverter}
    (h : LoopInOrder dcac) (hlen : dcac.samplesLen < 2 ^ 32) :
    scanStart past settings dcac ≤ dcac.samplesLen := by
  have hmax : maxStartTrim settings dcac ≤ dcac.samplesLen := by
    rw [maxStartTrim, u32_of_lt hlen]
    split
    · exact h.start_le.trans h.end_le
    · exact le_refl _
  rcases scanStart_cases past settings dcac with ⟨hzero, -⟩ | ⟨-, hlt, -⟩
  · rw [hzero]
    exact Nat.zero_le _
  · exact hlt.le.trans hmax

theorem scanEnd_le (past : ℕ → Int16) (settings : Settings) {dcac : DcAudioConverter}
    (hlen : dcac.samplesLen < 2 ^ 32) : scanEnd past settings dcac ≤ dcac.samplesLen := by
  have hcases := scanEnd_cases past settings dcac
  rw [u32_of_lt hlen] at hcases
  rcases hcases with ⟨hend, -⟩ | ⟨-, -, hle, -⟩
  · exact hend.le
  · exact hle

/-- The end of the kept part. -/
def keptEnd (past : ℕ → Int16) (settings : Settings) (dcac : DcAudioConverter) : ℕ :=
  max (scanStart past settings dcac) (scanEnd past settings dcac)

theorem keptEnd_le (past : ℕ → Int16) (settings : Settings) {dcac : DcAudioConverter}
    (h : LoopInOrder dcac) (hlen : dcac.samplesLen < 2 ^ 32) :
    keptEnd past settings dcac ≤ dcac.samplesLen :=
  max_le (scanStart_le past settings h hlen) (scanEnd_le past settings hlen)

/-- Trimming rebases the loop to the kept part, also when it is everything. -/
theorem trimSilence_hasLoop (past : ℕ → Int16) (settings : Settings) {dcac : DcAudioConverter}
    (h : LoopInOrder dcac) (hlen : dcac.samplesLen < 2 ^ 32) :
    HasLoop (trimSilence past settings dcac) (h.window.rebase
      (scanStart past settings dcac) (keptEnd past settings dcac)) := by
  by_cases htrim : settings.trimSilenceStart = true ∨ settings.trimSilenceEnd = true
  · rw [trimSilence, if_pos htrim]
    exact h.hasLoop.cutTo (scanStart_le past settings h hlen) (scanEnd_le past settings hlen) hlen
  · obtain ⟨hstart, hend⟩ := not_or.mp htrim
    have hzero : scanStart past settings dcac = 0 := by rw [scanStart, if_neg hstart]
    have hkept : keptEnd past settings dcac = dcac.samplesLen := by
      rw [keptEnd, hzero, scanEnd, if_neg hend, u32_of_lt hlen, Nat.zero_max]
    have hloopEnd := h.end_le
    have hloopStart := h.start_le.trans h.end_le
    rw [trimSilence, if_neg htrim, hzero, hkept]
    refine ⟨rfl, ?_, ?_⟩
    · exact (if_pos ⟨Nat.zero_le _, hloopStart⟩).symm
    · exact (if_pos ⟨Nat.zero_le _, hloopEnd⟩).symm

end DcaConv
