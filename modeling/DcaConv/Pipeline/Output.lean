import DcaConv.Pipeline.Trim
import DcaConv.Rate.Convert

/-!
# Rate, channels, resampling

The second half of `main` up to the write: what a `.dca` or `.wav` output makes of the settings, the
channel conversion, the resampler, and the last look at the loop points.

The samples the resampler produces are an argument. `main` sizes its output buffer itself and
converts all of it whatever `src_process` returns, so nothing but the buffer's size is fixed.
-/

namespace DcaConv

/-! ## The `.dca` rate -/

/-- The length the rate has to fit: what is left after `--trim-loop-end`. -/
def fitLength (settings : Settings) (dcac : DcAudioConverter) : ℕ :=
  if settings.trimLoopEnd then dcac.loopEnd else u32 dcac.samplesLen

def expectedSize (settings : Settings) (dcac : DcAudioConverter) : ℕ :=
  truncate ((fitLength settings dcac : ℚ) * dcac.desiredSampleRateHz / dcac.sampleRateHz)

/-- `desired_sample_rate_hz` after a sound that does not fit has had its rate reduced. -/
def fitRate (settings : Settings) (dcac : DcAudioConverter) : Except MainError ℕ :=
  if !dcac.longSound ∧ dcacMaxSamples < expectedSize settings dcac then
    let ratio : ℚ := (dcacMaxSamples - 64 : ℕ) / fitLength settings dcac
    let newRate := fDcaToAICAFrequency (truncate (dcac.sampleRateHz * ratio))
    if newRate < dcaMinimumSampleRateHz then .error .tooLong else .ok newRate
  else .ok dcac.desiredSampleRateHz

/-- The rounding to an AICA rate and the two limits. -/
def roundRate (format : DcaFormat) (rate : ℕ) : ℕ :=
  let rate := fDcaToAICAFrequency rate
  -- the source has the number here, not `DCA_MINIMUM_SAMPLE_RATE_HZ`
  if rate < 172 then 172
  else if format = .adpcm ∧ dcaMaximumAdpcmSampleRateHz < rate then dcaMaximumAdpcmSampleRateHz
  else rate

/-! ## Output types -/

def prepareDca (settings : Settings) (dcac : DcAudioConverter) :
    Except MainError DcAudioConverter :=
  if dcac.samplesLen = 0 then .error .zeroLength
  else do
    let format := if dcac.format = .auto then .adpcm else dcac.format
    let rate ← fitRate settings dcac
    .ok { dcac with
      desiredChannels := if dcac.desiredChannels = 0 then 1 else dcac.desiredChannels
      format := format
      desiredSampleRateHz := roundRate format rate }

def prepareWav (dcac : DcAudioConverter) : DcAudioConverter :=
  { dcac with
    desiredChannels := if dcac.desiredChannels = 0 then dcac.channelCnt else dcac.desiredChannels
    format := if dcac.format = .auto then .pcm16 else dcac.format }

def prepareOutput (out : OutputType) (settings : Settings) (dcac : DcAudioConverter) :
    Except MainError DcAudioConverter :=
  match out with
  | .dca => prepareDca settings dcac
  | .wav => .ok (prepareWav dcac)
  | .unknown => .error .unknownOutputType

/-! ## Channels -/

/-- One frame of `dcaDownmixMono`. The `int` sum is divided as `unsigned`, and the quotient cut to
16 bits. -/
def downmixFrame (dcac : DcAudioConverter) (i : ℕ) : Int16 :=
  let val : ℤ := ((dcac.samples.take dcac.channelCnt).map fun xs ↦ (xs.getD i 0).toInt).sum
  (UInt16.ofNat ((val % 2 ^ 32).toNat / dcac.channelCnt)).toInt16

def dcaDownmixMono (dcac : DcAudioConverter) : DcAudioConverter :=
  if dcac.channelCnt = 1 then dcac
  else { dcac with
    channelCnt := 1
    samples := [(List.range dcac.samplesLen).map (downmixFrame dcac)] }

def convertChannels (dcac : DcAudioConverter) : Except MainError DcAudioConverter :=
  let desired := if dcac.channelCnt < dcac.desiredChannels then dcac.channelCnt
    else dcac.desiredChannels
  let dcac := { dcac with desiredChannels := desired }
  if desired = dcac.channelCnt then .ok dcac
  else if desired = 1 then .ok (dcaDownmixMono dcac)
  else if desired = 2 ∧ dcac.channelCnt = 1 then .error .monoToStereo
  else .error (.cannotConvertChannels dcac.channelCnt)

/-! ## Resampling -/

/-- `src_process` on one channel and the conversion back to 16 bits: its return value, which `main`
drops, and the samples in the output buffer. -/
structure Resampler where
  process : (channel : ℕ) → List Int16 → (newSize : ℕ) → (ratio : ℚ) → ℤ × List Int16
  length_process : ∀ channel xs newSize ratio,
    (process channel xs newSize ratio).2.length = newSize

/-- What the resampler makes of silence. -/
def Resampler.silent : Resampler where
  process _ _ newSize _ := (0, List.replicate newSize 0)
  length_process _ _ _ _ := List.length_replicate

def resample (src : Resampler) (dcac : DcAudioConverter) : DcAudioConverter :=
  if dcac.desiredSampleRateHz ≠ dcac.sampleRateHz then
    let ratio : ℚ := dcac.desiredSampleRateHz / dcac.sampleRateHz
    let newSize := truncate (dcac.samplesLen * ratio)
    { dcac with
      samples := ((dcac.samples.take dcac.channelCnt).mapIdx fun c xs ↦
        (src.process c xs newSize ratio).2) ++ dcac.samples.drop dcac.channelCnt
      sampleRateHz := dcac.desiredSampleRateHz
      samplesLen := newSize
      loopStart := truncate (dcac.loopStart * ratio)
      loopEnd := truncate (dcac.loopEnd * ratio) }
  else dcac

/-! ## The last look at the loop -/

/-- The length `--trim-loop-end` leaves. -/
def finalLength (settings : Settings) (dcac : DcAudioConverter) : ℕ :=
  if settings.trimLoopEnd ∧ dcac.looping ∧ dcac.loopEnd < dcac.samplesLen then dcac.loopEnd
  else dcac.samplesLen

/-- `--trim-loop-end`, and the normalisation of the loop points. -/
def finishLoop (settings : Settings) (dcac : DcAudioConverter) : DcAudioConverter :=
  let samplesLen := finalLength settings dcac
  let loopEnd := if samplesLen < dcac.loopEnd then u32 samplesLen else dcac.loopEnd
  if loopEnd ≤ dcac.loopStart then
    { dcac with samplesLen := samplesLen, loopStart := 0, loopEnd := loopEnd, looping := false }
  else { dcac with samplesLen := samplesLen, loopEnd := loopEnd }

/-- `main` from the end of the trimming to the write. -/
def converted (out : OutputType) (src : Resampler) (settings : Settings) (dcac : DcAudioConverter) :
    Except MainError DcAudioConverter := do
  let dcac ← prepareOutput out settings dcac
  let dcac ← convertChannels dcac
  .ok (finishLoop settings (resample src dcac))

/-- `main` from the command line to the state it passes to the writer. -/
def runMain (options : List CliOption) (sound : Sound) (out : OutputType) (past : ℕ → Int16)
    (src : Resampler) : Except MainError DcAudioConverter := do
  let (settings, dcac) ← parseOptions options
  let dcac ← trimmed out past settings (dcac.load sound)
  converted out src settings dcac

end DcaConv
