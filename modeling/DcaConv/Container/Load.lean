import DcaConv.Adpcm.Codec
import DcaConv.Container.Converter
import DcaConv.Header.Basic
import DcaConv.Library.LittleEndian
import DcaConv.Rate.Convert

/-!
# Loading a `.dca` file

`fDcaLoad`: read the whole file into one allocation, validate the header at its start, and decode
every channel from where the header says it is. The allocation is the list of the file's bytes, and
every access to it is checked, so a `Fault` is a read past the end of the file. An empty file has an
allocation of its own, of no bytes: the host's `malloc(0)` is not `NULL`.
-/

namespace DcaConv

/-- A file opened for reading: its contents, and how many bytes `fread` returned. -/
structure FileSource where
  contents : List UInt8
  amountRead : ℕ

/-- A file that is read in full. -/
def FileSource.whole (bytes : List UInt8) : FileSource := ⟨bytes, bytes.length⟩

/-! ## The header in memory -/

/-- A little-endian field of `width` bytes. -/
def readField (data : List UInt8) (off width : ℕ) : Except Fault ℕ :=
  (Memory.read .outOfBounds data off width).map LittleEndian.ofBytes

/-- The fields the validator reads; it tests all of them, whatever the earlier tests said. The
padding is not touched. -/
def loadHeader (data : List UInt8) : Except Fault FDcAudioHeader := do
  let fourcc ← readField data 0 4
  let chunkSize ← readField data 4 4
  let version ← readField data 8 1
  let flags ← readField data 12 2
  let sampleRateAica ← readField data 14 2
  let totalLength ← readField data 16 4
  let loopStart ← readField data 20 4
  let loopEnd ← readField data 24 4
  return {
    fourcc := UInt32.ofNat fourcc
    chunkSize := UInt32.ofNat chunkSize
    version := UInt8.ofNat version
    flags := UInt16.ofNat flags
    sampleRateAica := UInt16.ofNat sampleRateAica
    totalLength := UInt32.ofNat totalLength
    loopStart := UInt32.ofNat loopStart
    loopEnd := UInt32.ofNat loopEnd }

/-! ## Sample decodings -/

/-- The 16-bit samples stored in these bytes. -/
def samplesOfBytes : List UInt8 → List Int16
  | lo :: hi :: bs => (UInt16.ofNat (LittleEndian.ofBytes [lo, hi])).toInt16 :: samplesOfBytes bs
  | _ => []

/-- An 8-bit sample scaled to 16 bits. -/
def convertFrom8bit (b : UInt8) : Int16 := Int16.ofInt (b.toInt8.toInt * 256)

/-- `sampleCnt` samples of a format, from byte `off` of the file. -/
def decodeChannel (format : ℕ) (data : List UInt8) (sampleCnt off : ℕ) :
    Except Fault (List Int16) :=
  if format = DcaFormat.pcm16.value then
    (Memory.read .outOfBounds data off (sampleCnt * 2)).map samplesOfBytes
  else if format = DcaFormat.pcm8.value then
    (Memory.read .outOfBounds data off sampleCnt).map fun bs ↦ bs.map convertFrom8bit
  else adpcm2pcm (data.drop off) sampleCnt

/-! ## The loader -/

def fDaCalcSampleRateHz (dca : FDcAudioHeader) : ℚ := fDaUnconvertFrequency dca.sampleRateAica.toNat

/-- The part of `fDcaLoad` behind the validator. -/
def loadSamples (dcac : DcAudioConverter) (head : FDcAudioHeader) (data : List UInt8) :
    Except Fault (DcaError × DcAudioConverter) :=
  let channels := fDaGetChannelCount head
  let sampleCnt := fDaGetTotalLength head
  let dcac := { dcac with
    sampleRateHz := truncate (fDaCalcSampleRateHz head)
    channelCnt := channels
    samplesLen := sampleCnt }
  let format := fDaGetSampleFormat head
  if format = DcaFormat.pcm16.value ∨ format = DcaFormat.pcm8.value ∨
      format = DcaFormat.adpcm.value then do
    let samples ← (List.range channels).mapM fun c ↦
      decodeChannel format data sampleCnt (fDaGetChannelSamples head .host c)
    .ok (.ok, { dcac with samples := samples ++ dcac.samples.drop channels })
  else .ok (.readError, dcac)

/-- Load a sound into the converter; `none` when the file cannot be opened. -/
def fDcaLoad (dcac : DcAudioConverter) (file : Option FileSource) :
    Except Fault (DcaError × DcAudioConverter) :=
  match file with
  | none => .ok (.readOpenError, dcac)
  | some file =>
    if file.amountRead ≠ file.contents.length then .ok (.readError, dcac)
    else do
      let head ← loadHeader file.contents
      if fDaValidateHeader head .host then loadSamples dcac head file.contents
      else .ok (.readError, dcac)

end DcaConv
