import DcaConv.Header.Basic

/-!
# The converter state

`DcAudioConverter` carries one sound from loading to writing. Samples are always 16-bit in memory,
one buffer a channel; `samples` lists the buffers from slot 0 up to the last one set, every later
slot of the array being `NULL`.
-/

namespace DcaConv

/-- Max channels supported by the converter. -/
def dcacMaxChannels : ℕ := 8

/-- Max number of samples of a sound that is not marked long. -/
def dcacMaxSamples : ℕ := 64 * 1024 - 256

/-- Output formats. The first three match the AICA's. -/
inductive DcaFormat where
  | pcm16
  | pcm8
  | adpcm
  | auto
  deriving DecidableEq, Repr

/-- The enumerator's value. -/
def DcaFormat.value : DcaFormat → ℕ
  | .pcm16 => 0
  | .pcm8 => 1
  | .adpcm => 2
  | .auto => 3

@[simp] theorem payloadBytes_pcm16 (n : ℕ) : payloadBytes DcaFormat.pcm16.value n = n * 2 := rfl

@[simp] theorem payloadBytes_pcm8 (n : ℕ) : payloadBytes DcaFormat.pcm8.value n = n := rfl

@[simp] theorem payloadBytes_adpcm (n : ℕ) :
    payloadBytes DcaFormat.adpcm.value n = (n + 1) / 2 := rfl

inductive DcaError where
  | ok
  | readOpenError
  | writeOpenError
  | unsupportedFileType
  | noFileName
  | tooManyChannels
  | tooLong
  | readError
  | writeError
  | unknown
  deriving DecidableEq, Repr

structure DcAudioConverter where
  /-- Sample rate of `samples`. -/
  sampleRateHz : ℕ
  channelCnt : ℕ
  samples : List (List Int16)
  /-- Length of each channel, in samples. -/
  samplesLen : ℕ
  /-- Format to encode to. -/
  format : DcaFormat
  /-- Channels to convert to, 0 when the output type decides. -/
  desiredChannels : ℕ
  /-- Sample rate to convert to, 0 when the output type decides. -/
  desiredSampleRateHz : ℕ
  longSound : Bool
  looping : Bool
  loopStart : ℕ
  loopEnd : ℕ
  deriving DecidableEq, Repr

def dcaInit : DcAudioConverter :=
  ⟨0, 0, [], 0, .auto, 0, 0, false, false, 0, 0⟩

end DcaConv
