import DcaConv.Adpcm.Codec
import DcaConv.Container.Converter
import DcaConv.Header.Basic
import DcaConv.Library.Fallible
import DcaConv.Library.LittleEndian
import DcaConv.Rate.Convert

/-!
# Writing a `.dca` file

`fDcaWrite`: size one channel in 32-bit arithmetic, encode every channel into a zeroed buffer of
that size, build the header, assert that the validator accepts it, and write header and buffers.
-/

namespace DcaConv

/-! ## Sample encodings -/

/-- A 16-bit sample in the host's memory. -/
def sampleBytes (x : Int16) : List UInt8 := LittleEndian.toBytes 2 x.toUInt16.toNat

/-- One sample of `ConvertTo8bit`. -/
def convertTo8bit (x : Int16) : UInt8 := (x >>> 8).toInt8.toUInt8

/-! ## Channel size and buffers -/

/-- `(n + DCA_ALIGNMENT_MASK) & ~DCA_ALIGNMENT_MASK` in 32 bits. -/
def alignU32 (n : ℕ) : ℕ := clearAlignment (u32 (n + 0x1f))

/-- `channelsize`. ADPCM asserts its rate limit on the way. -/
def writeChannelSize (cs : DcAudioConverter) : Except Fault ℕ :=
  let channelsize := u32 cs.samplesLen
  match cs.format with
  | .pcm16 => .ok (alignU32 (u32 (channelsize * 2)))
  | .pcm8 => .ok (alignU32 channelsize)
  | .adpcm =>
    if cs.sampleRateHz ≤ 88200 then .ok (alignU32 (u32 (channelsize + 1) / 2))
    else .error .assertion
  | .auto => .error .assertion

/-- `channelsize` before it is rounded up. -/
def unpaddedChannelSize (cs : DcAudioConverter) : ℕ :=
  match cs.format with
  | .pcm16 => u32 (u32 cs.samplesLen * 2)
  | .adpcm => u32 (u32 cs.samplesLen + 1) / 2
  | _ => u32 cs.samplesLen

theorem writeChannelSize_eq_ok {cs : DcAudioConverter} {channelsize : ℕ} :
    writeChannelSize cs = .ok channelsize ↔ cs.format ≠ .auto ∧
      (cs.format = .adpcm → cs.sampleRateHz ≤ 88200) ∧
        channelsize = alignU32 (unpaddedChannelSize cs) := by
  rw [writeChannelSize, unpaddedChannelSize]
  cases cs.format with
  | pcm16 => simp [eq_comm]
  | pcm8 => simp [eq_comm]
  | adpcm =>
    dsimp only
    split
    · next hrate => simp [hrate, eq_comm]
    · next hrate => simp [hrate]
  | auto => simp

/-- One channel in its output buffer of `channelsize` bytes. -/
def encodeChannel (cs : DcAudioConverter) (channelsize : ℕ) (src : List Int16) :
    Except Fault (List UInt8) :=
  match cs.format with
  | .pcm16 => do
    -- `memcpy` takes a number of bytes, `samples_len * 2` in `size_t`
    let data ← Memory.read .outOfBounds src 0 (Target.host.size (cs.samplesLen * 2) / 2)
    Memory.store .outOfBounds 0 channelsize (data.flatMap sampleBytes)
  | .pcm8 => do
    let data ← Memory.read .outOfBounds src 0 cs.samplesLen
    Memory.store .outOfBounds 0 channelsize (data.map convertTo8bit)
  | .adpcm => do
    let data ← pcm2adpcm src cs.samplesLen
    Memory.store .outOfBounds 0 channelsize data
  | .auto => .error .assertion

/-! ## The header -/

def writeFlags (cs : DcAudioConverter) : ℕ :=
  (((cs.format.value &&& 0x3) <<< 7) ||| (cs.channelCnt &&& 0x7)) |||
    (if cs.looping then 1 <<< 9 else 0)

def writeHeader (cs : DcAudioConverter) (channelsize : ℕ) : FDcAudioHeader where
  fourcc := UInt32.ofNat dcaFourccUint
  chunkSize := UInt32.ofNat (headerSize + u32 (channelsize * cs.channelCnt))
  version := 0
  flags := UInt16.ofNat (writeFlags cs)
  sampleRateAica := UInt16.ofNat (fDaConvertFrequency cs.sampleRateHz)
  totalLength := UInt32.ofNat cs.samplesLen
  loopStart := if cs.looping then UInt32.ofNat cs.loopStart else 0
  loopEnd := UInt32.ofNat (if cs.looping then cs.loopEnd else cs.samplesLen)

/-- The header in memory, `padding0` and `padding1` zeroed. -/
def headerBytes (head : FDcAudioHeader) : List UInt8 :=
  LittleEndian.toBytes 4 head.fourcc.toNat ++ LittleEndian.toBytes 4 head.chunkSize.toNat ++
  LittleEndian.toBytes 1 head.version.toNat ++ [0, 0, 0] ++
  LittleEndian.toBytes 2 head.flags.toNat ++ LittleEndian.toBytes 2 head.sampleRateAica.toNat ++
  LittleEndian.toBytes 4 head.totalLength.toNat ++ LittleEndian.toBytes 4 head.loopStart.toNat ++
  LittleEndian.toBytes 4 head.loopEnd.toNat ++ LittleEndian.toBytes 4 0

/-! ## The file -/

/-- An open output file: how many of the bytes of its `i`-th `fwrite` it takes. -/
structure FileSink where
  accepts : ℕ → ℕ → ℕ

/-- A file that takes everything. -/
def FileSink.whole : FileSink := ⟨fun _ n ↦ n⟩

/-- Consecutive `fwrite` calls, from the `i`-th on: what reaches the file. -/
def fwriteAll (sink : FileSink) : ℕ → List (List UInt8) → List UInt8
  | _, [] => []
  | i, chunk :: chunks => chunk.take (sink.accepts i chunk.length) ++ fwriteAll sink (i + 1) chunks

/-- Write the converter's sound; `none` when the file cannot be opened. The result is the returned
code and the bytes the file holds. -/
def fDcaWrite (cs : DcAudioConverter) (out : Option FileSink) :
    Except Fault (DcaError × List UInt8) :=
  if cs.channelCnt = 0 ∨ cs.samples.length < cs.channelCnt then .error .assertion
  -- the 50 is slack for the length check
  else if !cs.longSound ∧ dcacMaxSamples + 50 < cs.samplesLen then .ok (.tooLong, [])
  else if dcaFileMaxChannels < cs.channelCnt then .ok (.tooManyChannels, [])
  else do
    let channelsize ← writeChannelSize cs
    let samples ← (cs.samples.take cs.channelCnt).mapM (encodeChannel cs channelsize)
    let head := writeHeader cs channelsize
    if fDaValidateHeader head .host then
      match out with
      | none => .ok (.writeOpenError, [])
      | some sink =>
        let written := fwriteAll sink 0 (headerBytes head :: samples)
        -- the count of written bytes is an `unsigned`
        .ok (if u32 written.length = head.chunkSize.toNat then .ok else .writeError, written)
    else .error .assertion

/-! ## What a result means -/

/-- The writer is past its checks: the channels are sized and encoded, and the validator accepts the
header. -/
structure Encoded (cs : DcAudioConverter) (channelsize : ℕ) (blocks : List (List UInt8)) : Prop where
  channelCnt_mem : 1 ≤ cs.channelCnt ∧ cs.channelCnt ≤ dcaFileMaxChannels
  channelCnt_le : cs.channelCnt ≤ cs.samples.length
  fits : cs.longSound = false → cs.samplesLen ≤ dcacMaxSamples + 50
  size_eq : writeChannelSize cs = .ok channelsize
  blocks_eq : (cs.samples.take cs.channelCnt).mapM (encodeChannel cs channelsize) = .ok blocks
  accepted : fDaValidateHeader (writeHeader cs channelsize) .host = true

/-- What is returned from there on. -/
def writeResult (head : FDcAudioHeader) (blocks : List (List UInt8)) :
    Option FileSink → DcaError × List UInt8
  | none => (.writeOpenError, [])
  | some sink =>
    let written := fwriteAll sink 0 (headerBytes head :: blocks)
    (if u32 written.length = head.chunkSize.toNat then .ok else .writeError, written)

section Cases

variable {cs : DcAudioConverter} {out : Option FileSink}

/-- A writer that returns was stopped by one of its two checks, or has encoded the sound. -/
theorem fDcaWrite_cases {result : DcaError × List UInt8} (h : fDcaWrite cs out = .ok result) :
    (result = (.tooLong, []) ∧ dcacMaxSamples + 50 < cs.samplesLen) ∨
      (result = (.tooManyChannels, []) ∧ dcaFileMaxChannels < cs.channelCnt) ∨
      ∃ channelsize blocks, Encoded cs channelsize blocks ∧
        result = writeResult (writeHeader cs channelsize) blocks out := by
  rw [fDcaWrite] at h
  by_cases hchannels : cs.channelCnt = 0 ∨ cs.samples.length < cs.channelCnt
  · rw [if_pos hchannels] at h
    cases h
  by_cases hlong : (!cs.longSound) = true ∧ dcacMaxSamples + 50 < cs.samplesLen
  · rw [if_neg hchannels, if_pos hlong] at h
    cases h
    exact Or.inl ⟨rfl, hlong.2⟩
  by_cases hmax : dcaFileMaxChannels < cs.channelCnt
  · rw [if_neg hchannels, if_neg hlong, if_pos hmax] at h
    cases h
    exact Or.inr (Or.inl ⟨rfl, hmax⟩)
  rw [if_neg hchannels, if_neg hlong, if_neg hmax] at h
  obtain ⟨channelsize, hsize, h⟩ := Fallible.bind_eq_ok.mp h
  obtain ⟨blocks, hblocks, h⟩ := Fallible.bind_eq_ok.mp h
  by_cases haccept : fDaValidateHeader (writeHeader cs channelsize) .host = true
  · rw [if_pos haccept] at h
    refine Or.inr (Or.inr ⟨channelsize, blocks, ?_, ?_⟩)
    · refine ⟨⟨by omega, by omega⟩, by omega, fun hshort ↦ ?_, hsize, hblocks, haccept⟩
      by_contra hgt
      exact hlong ⟨by rw [hshort]; rfl, not_le.mp hgt⟩
    · cases out with
      | none => exact (Except.ok.inj h).symm
      | some sink => exact (Except.ok.inj h).symm
  · rw [if_neg haccept] at h
    cases h

/-- Only the length check at the start returns `DCAE_TOO_LONG`. -/
theorem fDcaWrite_tooLong {bytes : List UInt8} (h : fDcaWrite cs out = .ok (.tooLong, bytes)) :
    dcacMaxSamples + 50 < cs.samplesLen := by
  obtain ⟨-, hlong⟩ | ⟨hcode, -⟩ | ⟨channelsize, blocks, -, hresult⟩ := fDcaWrite_cases h
  · exact hlong
  · cases hcode
  · have hcode := congrArg Prod.fst hresult
    cases out with
    | none => cases hcode
    | some sink =>
      rw [writeResult] at hcode
      dsimp only at hcode
      split at hcode <;> cases hcode

end Cases

theorem writeChannelSize_empty {cs : DcAudioConverter} {channelsize : ℕ} (hlen : cs.samplesLen = 0)
    (h : writeChannelSize cs = .ok channelsize) : channelsize = 0 := by
  rw [(writeChannelSize_eq_ok.mp h).2.2, unpaddedChannelSize, hlen]
  cases cs.format <;> rfl

/-- An empty sound is never written: if no encoder faults, the header declares 32 bytes, and the
writer's own check refuses it. -/
theorem fDcaWrite_empty {cs : DcAudioConverter} (hlen : cs.samplesLen = 0)
    (hmax : cs.channelCnt ≤ dcaFileMaxChannels) (out : Option FileSink) :
    ∃ fault, fDcaWrite cs out = .error fault := by
  cases hresult : fDcaWrite cs out with
  | error fault => exact ⟨fault, rfl⟩
  | ok r =>
    exfalso
    obtain ⟨-, hlong⟩ | ⟨-, hmany⟩ | ⟨channelsize, blocks, hencoded, -⟩ := fDcaWrite_cases hresult
    · rw [hlen] at hlong
      exact Nat.not_lt_zero _ hlong
    · exact absurd hmany (not_lt.mpr hmax)
    · have hfile : fDaGetFileSize (writeHeader cs channelsize) = headerSize := by
        rw [fDaGetFileSize, writeHeader, writeChannelSize_empty hlen hencoded.size_eq, Nat.zero_mul]
        rfl
      have hvalid := (fDaValidateHeader_host_iff _).mp hencoded.accepted
      exact absurd hvalid.size_gt (by rw [hfile]; exact lt_irrefl _)

end DcaConv
