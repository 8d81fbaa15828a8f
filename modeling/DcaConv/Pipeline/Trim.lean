import DcaConv.Library.Scan
import DcaConv.Pipeline.Options

/-!
# Loop checks and trimming

The first half of `main` behind the loader: the default rate, the checks on the loop points, the two
scans for silence, and the cut with its fix-up of the loop points.

The downward scan starts at index `samples_len`, one past the end of every buffer. What it finds
there is whatever lies behind the allocation, so the scans take that memory as an argument.
-/

namespace DcaConv

/-! ## The loaded sound -/

/-- A sound a loader has put into the converter. The buffers are filled by loops that count in
`unsigned`, so a length the buffers really have fits in 32 bits. -/
structure Sound where
  sampleRateHz : ℕ
  channels : List (List Int16)
  samplesLen : ℕ
  rate_pos : 0 < sampleRateHz
  channels_pos : 0 < channels.length
  length_eq : ∀ xs ∈ channels, xs.length = samplesLen
  samplesLen_lt : samplesLen < 2 ^ 32

/-- A mono sound of `n` zero samples. -/
def Sound.silence (rate n : ℕ) (hrate : 0 < rate) (hn : n < 2 ^ 32) : Sound where
  sampleRateHz := rate
  channels := [List.replicate n 0]
  samplesLen := n
  rate_pos := hrate
  channels_pos := Nat.one_pos
  length_eq _ hxs := by rw [List.mem_singleton.mp hxs, List.length_replicate]
  samplesLen_lt := hn

/-- The converter after a successful load. -/
def DcAudioConverter.load (dcac : DcAudioConverter) (sound : Sound) : DcAudioConverter :=
  { dcac with
    sampleRateHz := sound.sampleRateHz
    channelCnt := sound.channels.length
    samples := sound.channels
    samplesLen := sound.samplesLen }

/-- Replace the buffers of the channels in use. -/
def DcAudioConverter.mapChannels (dcac : DcAudioConverter) (f : List Int16 → List Int16) :
    List (List Int16) :=
  (dcac.samples.take dcac.channelCnt).map f ++ dcac.samples.drop dcac.channelCnt

/-! ## Default rate and loop checks -/

/-- The output types `main` knows by their extension. -/
inductive OutputType where
  | dca
  | wav
  | unknown
  deriving DecidableEq, Repr

def defaultRate (out : OutputType) (dcac : DcAudioConverter) : DcAudioConverter :=
  if out = .dca ∧ dcac.desiredSampleRateHz = 0 ∧ 44100 < dcac.sampleRateHz then
    { dcac with desiredSampleRateHz := 44100 }
  else if dcac.desiredSampleRateHz = 0 then
    { dcac with desiredSampleRateHz := dcac.sampleRateHz }
  else dcac

/-- The end defaults to the length, the three errors, and the clamp of a late end. -/
def checkLoopPoints (dcac : DcAudioConverter) : Except MainError DcAudioConverter :=
  -- an explicit end of 0 is taken for a missing one
  let loopEnd := if dcac.loopEnd = 0 then u32 dcac.samplesLen else dcac.loopEnd
  if dcac.samplesLen ≤ dcac.loopStart then .error .loopStartPastEnd
  else if dcac.loopStart = loopEnd then .error .loopStartEqualsEnd
  else if loopEnd < dcac.loopStart then .error .loopStartAfterEnd
  else .ok { dcac with
    loopEnd := if dcac.samplesLen < loopEnd then u32 dcac.samplesLen else loopEnd }

/-- What an accepted pair of points is. Nothing but the end changes. -/
structure Accepted (dcac checked : DcAudioConverter) : Prop where
  start_lt : checked.loopStart < checked.loopEnd
  end_le : checked.loopEnd ≤ checked.samplesLen
  end_default : dcac.loopEnd = 0 → checked.loopEnd = checked.samplesLen
  frame : checked = { dcac with loopEnd := checked.loopEnd }

theorem checkLoopPoints_accepted {dcac checked : DcAudioConverter}
    (hlen : dcac.samplesLen < 2 ^ 32) (h : checkLoopPoints dcac = .ok checked) :
    Accepted dcac checked := by
  rw [checkLoopPoints, u32_of_lt hlen] at h
  generalize hend : (if dcac.loopEnd = 0 then dcac.samplesLen else dcac.loopEnd) = loopEnd at h
  by_cases hpast : dcac.samplesLen ≤ dcac.loopStart
  · rw [if_pos hpast] at h
    cases h
  by_cases heq : dcac.loopStart = loopEnd
  · rw [if_neg hpast, if_pos heq] at h
    cases h
  by_cases hafter : loopEnd < dcac.loopStart
  · rw [if_neg hpast, if_neg heq, if_pos hafter] at h
    cases h
  rw [if_neg hpast, if_neg heq, if_neg hafter] at h
  cases h
  refine ⟨?_, ?_, fun hzero ↦ ?_, rfl⟩
  · show dcac.loopStart < if dcac.samplesLen < loopEnd then _ else _
    split <;> omega
  · show (if dcac.samplesLen < loopEnd then _ else _) ≤ dcac.samplesLen
    split <;> omega
  · show (if dcac.samplesLen < loopEnd then _ else _) = dcac.samplesLen
    rw [if_pos hzero] at hend
    rw [← hend, if_neg (lt_irrefl _)]

/-! ## Scans -/

def trimThreshold : ℕ := 1 * 256

/-- `samples[c][i]`, with `past c` right behind the buffer of channel `c`. -/
def sampleAt (past : ℕ → Int16) (dcac : DcAudioConverter) (c i : ℕ) : Int16 :=
  ((dcac.samples[c]?).bind fun xs ↦ xs[i]?).getD (past c)

/-- Some channel exceeds the threshold in frame `i`. -/
def isLoud (past : ℕ → Int16) (dcac : DcAudioConverter) (i : ℕ) : Bool :=
  (List.range dcac.channelCnt).any fun c ↦
    decide (trimThreshold < (sampleAt past dcac c i).toInt.natAbs)

def maxStartTrim (settings : Settings) (dcac : DcAudioConverter) : ℕ :=
  if settings.loopStartSet then dcac.loopStart else u32 dcac.samplesLen

def maxEndTrim (settings : Settings) (dcac : DcAudioConverter) : ℕ :=
  if settings.loopEndSet then dcac.loopEnd else 0

section Scans

variable (past : ℕ → Int16) (settings : Settings) (dcac : DcAudioConverter)

/-- `new_start`. -/
def scanStart : ℕ :=
  if settings.trimSilenceStart then
    (Scan.up (isLoud past dcac) (maxStartTrim settings dcac)).getD 0
  else 0

/-- `new_end`. -/
def scanEnd : ℕ :=
  if settings.trimSilenceEnd then
    (Scan.down (isLoud past dcac) (maxEndTrim settings dcac) (u32 dcac.samplesLen)).getD
      (u32 dcac.samplesLen)
  else u32 dcac.samplesLen

/-- The upward scan found nothing, or stopped at the first loud frame. -/
theorem scanStart_cases :
    (scanStart past settings dcac = 0 ∧ (settings.trimSilenceStart = true →
      ∀ i < maxStartTrim settings dcac, isLoud past dcac i = false)) ∨
    (settings.trimSilenceStart = true ∧
      scanStart past settings dcac < maxStartTrim settings dcac ∧
      isLoud past dcac (scanStart past settings dcac) = true ∧
      ∀ i < scanStart past settings dcac, isLoud past dcac i = false) := by
  rw [scanStart]
  by_cases htrim : settings.trimSilenceStart = true
  · rw [if_pos htrim]
    cases hscan : Scan.up (isLoud past dcac) (maxStartTrim settings dcac) with
    | none => exact Or.inl ⟨rfl, fun _ ↦ Scan.up_eq_none_iff.mp hscan⟩
    | some i => exact Or.inr ⟨htrim, Scan.up_eq_some_iff.mp hscan⟩
  · rw [if_neg htrim]
    exact Or.inl ⟨rfl, fun h ↦ absurd h htrim⟩

/-- The downward scan found nothing, or stopped at the last loud index. -/
theorem scanEnd_cases :
    (scanEnd past settings dcac = u32 dcac.samplesLen ∧ (settings.trimSilenceEnd = true →
      ∀ i, maxEndTrim settings dcac < i → i ≤ u32 dcac.samplesLen →
        isLoud past dcac i = false)) ∨
    (settings.trimSilenceEnd = true ∧ maxEndTrim settings dcac < scanEnd past settings dcac ∧
      scanEnd past settings dcac ≤ u32 dcac.samplesLen ∧
      isLoud past dcac (scanEnd past settings dcac) = true ∧
      ∀ i, scanEnd past settings dcac < i → i ≤ u32 dcac.samplesLen →
        isLoud past dcac i = false) := by
  rw [scanEnd]
  by_cases htrim : settings.trimSilenceEnd = true
  · rw [if_pos htrim]
    cases hscan : Scan.down (isLoud past dcac) (maxEndTrim settings dcac)
        (u32 dcac.samplesLen) with
    | none => exact Or.inl ⟨rfl, fun _ ↦ Scan.down_eq_none_iff.mp hscan⟩
    | some i => exact Or.inr ⟨htrim, Scan.down_eq_some_iff.mp hscan⟩
  · rw [if_neg htrim]
    exact Or.inl ⟨rfl, fun h ↦ absurd h htrim⟩

end Scans

/-! ## The cut -/

/-- Keep the samples from `newStart` to `newEnd` and fix up the loop points: a point outside the
kept part wraps around or stays too large, and is reset. -/
def cutTo (newStart newEnd : ℕ) (dcac : DcAudioConverter) : DcAudioConverter :=
  -- the downward scan can stop before the place where the upward one did
  let newEnd := if newEnd < newStart then newStart else newEnd
  let newLen := newEnd - newStart
  let loopStart := subU32 dcac.loopStart newStart
  let loopEnd := subU32 dcac.loopEnd newStart
  { dcac with
    samples := dcac.mapChannels fun xs ↦ (xs.drop newStart).take newLen
    samplesLen := newLen
    loopStart := if newLen < loopStart then 0 else loopStart
    loopEnd := if newLen < loopEnd then newLen else loopEnd }

def trimSilence (past : ℕ → Int16) (settings : Settings) (dcac : DcAudioConverter) :
    DcAudioConverter :=
  if settings.trimSilenceStart ∨ settings.trimSilenceEnd then
    cutTo (scanStart past settings dcac) (scanEnd past settings dcac) dcac
  else dcac

/-- `main` from the loaded sound to the end of the trimming. -/
def trimmed (out : OutputType) (past : ℕ → Int16) (settings : Settings) (dcac : DcAudioConverter) :
    Except MainError DcAudioConverter := do
  let dcac ← checkLoopPoints (defaultRate out dcac)
  .ok (trimSilence past settings dcac)

end DcaConv
