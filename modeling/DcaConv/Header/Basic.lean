import DcaConv.Machine
import DcaConv.Library.Memory
import Mathlib.Tactic.IntervalCases
import Mathlib.Tactic.NormNum

/-!
# The DCA header

The 32-byte header of a `.dca` file as the header library sees it: the fields some function reads,
the accessors, the size of one padded channel, and the validator. `padding0` and `padding1` are
written as zero and never read, so they have no field here; the file layer writes them.

Everything that computes in `size_t` takes the machine as an argument. On the 64-bit host nothing
below can wrap, and the validator then means the plain statement `ValidHeader`.
-/

namespace DcaConv

/-! ## Constants -/

/-- `sizeof(fDcAudioHeader)`. -/
def headerSize : ℕ := 32

def dcaAlignment : ℕ := 32

/-- Max channels supported by the file format. -/
def dcaFileMaxChannels : ℕ := 7

/-- "DcAF" loaded as a little-endian integer. -/
def dcaFourccUint : ℕ := 0x46416344

def dcaFlagFormatPcm16 : ℕ := 0x0
def dcaFlagFormatPcm8 : ℕ := 0x1
def dcaFlagFormatAdpcm : ℕ := 0x2
def dcaFlagFormatInvalid : ℕ := 0x3

def dcaMinimumSampleRateHz : ℕ := 172
def dcaMaximumAdpcmSampleRateHz : ℕ := 88200

/-- `n & ~DCA_ALIGNMENT_MASK`. -/
def clearAlignment (n : ℕ) : ℕ := n / dcaAlignment * dcaAlignment

/-! ## Fields and accessors -/

structure FDcAudioHeader where
  /-- The four character code, read as an integer. -/
  fourcc : UInt32
  /-- Size of the file, header included. -/
  chunkSize : UInt32
  version : UInt8
  flags : UInt16
  /-- The sample rate in the 15-bit format of the AICA. -/
  sampleRateAica : UInt16
  /-- Length in samples, including any past the end of the loop. -/
  totalLength : UInt32
  loopStart : UInt32
  loopEnd : UInt32
  deriving DecidableEq, Repr

section Accessors

variable (dca : FDcAudioHeader)

def fDaFourccMatches : Bool := dca.fourcc.toNat == dcaFourccUint

def fDaGetVersion : ℕ := dca.version.toNat

def fDaGetSampleFormat : ℕ := (dca.flags.toNat >>> 7) &&& 0x3

def fDaGetChannelCount : ℕ := (dca.flags.toNat >>> 0) &&& 0x7

/-- Nonzero when the sound has a loop. -/
def fDaIsLooping : ℕ := dca.flags.toNat &&& (1 <<< 9)

def fDaGetFileSize : ℕ := dca.chunkSize.toNat

/-- The size of all samples: file size minus header size, in `size_t`. -/
def fDaGetDataSize (t : Target) : ℕ := t.size (dca.chunkSize.toNat + 2 ^ t.sizeBits - headerSize)

def fDaGetLength : ℕ := dca.loopEnd.toNat

def fDaGetLoopEnd : ℕ := dca.loopEnd.toNat

def fDaGetLoopStart : ℕ := dca.loopStart.toNat

/-- The value for the AICA length register. The subtraction is done in `uint32_t`. -/
def fDaGetAICALength : ℕ := (dca.loopEnd - 1).toNat

/-- The value for the AICA length register when a looping sound is played without its loop. -/
def fDaGetAICALengthDisableLoop : ℕ := (dca.totalLength - 1).toNat

def fDaGetTotalLength : ℕ := dca.totalLength.toNat

def fDaGetSampleRateAICA : ℕ := dca.sampleRateAica.toNat

/-! ## Channel layout -/

/-- The size of one channel in bytes, padding included. -/
def fDaCalcChannelSizeBytes (t : Target) : ℕ :=
  let sz := fDaGetTotalLength dca
  let fmt := fDaGetSampleFormat dca
  let sz :=
    if fmt = dcaFlagFormatPcm16 then t.size (sz * 2)
    else if fmt = dcaFlagFormatAdpcm then t.size (sz + 1) / 2
    else sz
  clearAlignment (t.size (sz + 0x1f))

/-- `sz` before it is rounded up. -/
def unpaddedSizeBytes (t : Target) : ℕ :=
  if fDaGetSampleFormat dca = dcaFlagFormatPcm16 then t.size (fDaGetTotalLength dca * 2)
  else if fDaGetSampleFormat dca = dcaFlagFormatAdpcm then t.size (fDaGetTotalLength dca + 1) / 2
  else fDaGetTotalLength dca

theorem fDaCalcChannelSizeBytes_eq (t : Target) : fDaCalcChannelSizeBytes dca t
    = clearAlignment (t.size (unpaddedSizeBytes dca t + 0x1f)) := rfl

/-- Where the samples of a channel start, from the start of the file. -/
def fDaGetChannelSamples (t : Target) (channel : ℕ) : ℕ :=
  headerSize + t.size (fDaCalcChannelSizeBytes dca t * channel)

/-! ## The validator -/

def fDaValidateHeader (t : Target) : Bool :=
  decide (headerSize < fDaGetFileSize dca) &&
  fDaFourccMatches dca &&
  decide (fDaGetVersion dca < 50) &&
  decide (fDaGetFileSize dca % dcaAlignment = 0) &&
  decide (fDaGetSampleFormat dca ≠ dcaFlagFormatInvalid) &&
  decide (fDaGetFileSize dca
    = t.size (headerSize + t.size (fDaGetChannelCount dca * fDaCalcChannelSizeBytes dca t))) &&
  -- compared whether or not the sound loops
  decide (fDaGetLoopStart dca ≤ fDaGetLength dca) &&
  decide (fDaGetLength dca ≤ fDaGetTotalLength dca) &&
  decide (fDaGetSampleRateAICA dca &&& 0x8000 = 0)

end Accessors

/-! ## Sizes without machine arithmetic -/

/-- The bytes that hold `n` samples of a format, the last byte rounded up. -/
def payloadBytes (format n : ℕ) : ℕ :=
  if format = dcaFlagFormatPcm16 then n * 2
  else if format = dcaFlagFormatAdpcm then (n + 1) / 2
  else n

/-- A channel of `n` samples padded to the alignment. -/
def paddedChannelSize (format n : ℕ) : ℕ := Memory.roundUp dcaAlignment (payloadBytes format n)

theorem clearAlignment_add_mask (n : ℕ) : clearAlignment (n + 0x1f) = Memory.roundUp 32 n := rfl

theorem payloadBytes_le (format n : ℕ) : payloadBytes format n ≤ n * 2 := by
  rw [payloadBytes]
  split
  · exact le_refl _
  · split <;> omega

theorem payloadBytes_pos {format n : ℕ} (hn : 1 ≤ n) : 1 ≤ payloadBytes format n := by
  rw [payloadBytes]
  split
  · omega
  · split <;> omega

theorem payloadBytes_zero (format : ℕ) : payloadBytes format 0 = 0 := by
  rw [payloadBytes]
  split
  · rfl
  · split <;> rfl

theorem payloadBytes_le_padded (format n : ℕ) :
    payloadBytes format n ≤ paddedChannelSize format n :=
  Memory.le_roundUp (by norm_num [dcaAlignment]) _

theorem paddedChannelSize_lt (format n : ℕ) :
    paddedChannelSize format n < payloadBytes format n + 32 :=
  Memory.roundUp_lt (by norm_num [dcaAlignment]) _

theorem paddedChannelSize_zero (format : ℕ) : paddedChannelSize format 0 = 0 := by
  rw [paddedChannelSize, payloadBytes_zero]
  rfl

theorem paddedChannelSize_pos {format n : ℕ} (hn : 1 ≤ n) : 1 ≤ paddedChannelSize format n :=
  (payloadBytes_pos hn).trans (payloadBytes_le_padded format n)

theorem dvd_paddedChannelSize (format n : ℕ) : 32 ∣ paddedChannelSize format n :=
  Memory.dvd_roundUp _ _

theorem fDaGetFileSize_lt (dca : FDcAudioHeader) : fDaGetFileSize dca < 2 ^ 32 :=
  dca.chunkSize.toNat_lt

theorem totalLength_lt (dca : FDcAudioHeader) : fDaGetTotalLength dca < 2 ^ 32 :=
  dca.totalLength.toNat_lt

theorem channelCount_le (dca : FDcAudioHeader) : fDaGetChannelCount dca ≤ 7 := by
  rw [fDaGetChannelCount, show 0x7 = 2 ^ 3 - 1 from rfl, Nat.and_two_pow_sub_one_eq_mod]
  omega

theorem sampleFormat_le (dca : FDcAudioHeader) : fDaGetSampleFormat dca ≤ 3 := by
  rw [fDaGetSampleFormat, show 0x3 = 2 ^ 2 - 1 from rfl, Nat.and_two_pow_sub_one_eq_mod]
  omega

theorem unpaddedSizeBytes_host (dca : FDcAudioHeader) : unpaddedSizeBytes dca .host
    = payloadBytes (fDaGetSampleFormat dca) (fDaGetTotalLength dca) := by
  have hlen := totalLength_lt dca
  rw [unpaddedSizeBytes, payloadBytes, Target.size_host (by omega), Target.size_host (by omega)]

/-- On the host the size computation is exact for every header. -/
theorem fDaCalcChannelSizeBytes_host (dca : FDcAudioHeader) :
    fDaCalcChannelSizeBytes dca .host
      = paddedChannelSize (fDaGetSampleFormat dca) (fDaGetTotalLength dca) := by
  have hlen := totalLength_lt dca
  have hle := payloadBytes_le (fDaGetSampleFormat dca) (fDaGetTotalLength dca)
  rw [fDaCalcChannelSizeBytes_eq, unpaddedSizeBytes_host, Target.size_host (by omega),
    clearAlignment_add_mask, paddedChannelSize, dcaAlignment]

/-- What the validator asks of a header, in exact arithmetic. -/
structure ValidHeader (dca : FDcAudioHeader) : Prop where
  size_gt : headerSize < fDaGetFileSize dca
  fourcc_eq : dca.fourcc.toNat = dcaFourccUint
  version_lt : fDaGetVersion dca < 50
  size_mod : fDaGetFileSize dca % dcaAlignment = 0
  format_ne : fDaGetSampleFormat dca ≠ dcaFlagFormatInvalid
  size_eq : fDaGetFileSize dca = headerSize + fDaGetChannelCount dca
    * paddedChannelSize (fDaGetSampleFormat dca) (fDaGetTotalLength dca)
  loopStart_le : fDaGetLoopStart dca ≤ fDaGetLength dca
  loopEnd_le : fDaGetLength dca ≤ fDaGetTotalLength dca
  rate_bit : fDaGetSampleRateAICA dca &&& 0x8000 = 0

theorem fDaValidateHeader_host_iff (dca : FDcAudioHeader) :
    fDaValidateHeader dca .host = true ↔ ValidHeader dca := by
  have hlen := totalLength_lt dca
  have hpay := payloadBytes_le (fDaGetSampleFormat dca) (fDaGetTotalLength dca)
  have hpad := paddedChannelSize_lt (fDaGetSampleFormat dca) (fDaGetTotalLength dca)
  have hmul : fDaGetChannelCount dca
      * paddedChannelSize (fDaGetSampleFormat dca) (fDaGetTotalLength dca)
        ≤ 7 * paddedChannelSize (fDaGetSampleFormat dca) (fDaGetTotalLength dca) :=
    Nat.mul_le_mul_right _ (channelCount_le dca)
  have hsum : Target.host.size (headerSize + Target.host.size (fDaGetChannelCount dca
        * fDaCalcChannelSizeBytes dca .host))
      = headerSize + fDaGetChannelCount dca
        * paddedChannelSize (fDaGetSampleFormat dca) (fDaGetTotalLength dca) := by
    have hhead : headerSize = 32 := rfl
    have hin : Target.host.size (fDaGetChannelCount dca
        * paddedChannelSize (fDaGetSampleFormat dca) (fDaGetTotalLength dca))
        = fDaGetChannelCount dca
          * paddedChannelSize (fDaGetSampleFormat dca) (fDaGetTotalLength dca) :=
      Target.size_host (by omega)
    rw [fDaCalcChannelSizeBytes_host, hin, Target.size_host (by omega)]
  simp only [fDaValidateHeader, fDaFourccMatches, hsum, Bool.and_eq_true, decide_eq_true_eq,
    beq_iff_eq]
  constructor
  · rintro ⟨⟨⟨⟨⟨⟨⟨⟨h₁, h₂⟩, h₃⟩, h₄⟩, h₅⟩, h₆⟩, h₇⟩, h₈⟩, h₉⟩
    exact ⟨h₁, h₂, h₃, h₄, h₅, h₆, h₇, h₈, h₉⟩
  · rintro ⟨h₁, h₂, h₃, h₄, h₅, h₆, h₇, h₈, h₉⟩
    exact ⟨⟨⟨⟨⟨⟨⟨⟨h₁, h₂⟩, h₃⟩, h₄⟩, h₅⟩, h₆⟩, h₇⟩, h₈⟩, h₉⟩

end DcaConv
