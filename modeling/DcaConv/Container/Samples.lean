import DcaConv.Adpcm.Lockstep
import DcaConv.Container.Load
import DcaConv.Container.Write

/-!
# One channel, written and read back

The bytes a format stores for a channel, and the samples it gets back from them. The decoders are
stated on data with anything before and after those bytes, so that neither padding nor another
channel can show in a result.
-/

namespace DcaConv

/-! ## PCM -/

@[simp] theorem length_sampleBytes (x : Int16) : (sampleBytes x).length = 2 :=
  LittleEndian.length_toBytes 2 _

theorem samplesOfBytes_flatMap (xs : List Int16) :
    samplesOfBytes (xs.flatMap sampleBytes) = xs := by
  induction xs with
  | nil => rfl
  | cons x xs ih =>
    obtain ⟨lo, hi, hx⟩ : ∃ lo hi, sampleBytes x = [lo, hi] := ⟨_, _, rfl⟩
    have hback : LittleEndian.ofBytes [lo, hi] = x.toUInt16.toNat := by
      rw [← hx, sampleBytes, LittleEndian.ofBytes_toBytes x.toUInt16.toNat_lt]
    rw [List.flatMap_cons, hx, List.cons_append, List.cons_append, List.nil_append,
      samplesOfBytes, hback, UInt16.ofNat_toNat, Int16.toInt16_toUInt16, ih]

theorem toInt_shiftRight_eight (x : Int16) : (x >>> 8).toInt = x.toInt / 256 := by
  have hshift : (8 : Int16).toBitVec.smod 16 = 8 := by decide
  rw [← Int16.toInt_toBitVec, Int16.toBitVec_shiftRight, hshift, BitVec.sshiftRight',
    BitVec.toInt_sshiftRight, Int.shiftRight_eq_div_pow]
  rfl

theorem toInt_convertTo8bit (x : Int16) : (convertTo8bit x).toInt8.toInt = x.toInt / 256 := by
  have hlo := x.le_toInt
  have hhi := x.toInt_lt
  rw [convertTo8bit, Int8.toInt8_toUInt8, Int16.toInt_toInt8, toInt_shiftRight_eight]
  exact Int.bmod_eq_of_le (by omega) (by omega)

theorem toInt_convertFrom8bit_convertTo8bit (x : Int16) :
    (convertFrom8bit (convertTo8bit x)).toInt = x.toInt / 256 * 256 := by
  have hlo := x.le_toInt
  have hhi := x.toInt_lt
  rw [convertFrom8bit, toInt_convertTo8bit, Int16.toInt_ofInt_of_le] <;> omega

/-! ## A channel of any format -/

/-- The bytes of a channel in front of its padding. -/
def encodedSamples : DcaFormat → List Int16 → List UInt8
  | .pcm16, xs => xs.flatMap sampleBytes
  | .pcm8, xs => xs.map convertTo8bit
  | .adpcm, xs => adpcmBytes xs
  | .auto, _ => []

/-- The samples these bytes are read back as. -/
def reloadedSamples : DcaFormat → List Int16 → List Int16
  | .pcm16, xs => xs
  | .pcm8, xs => xs.map fun x ↦ convertFrom8bit (convertTo8bit x)
  | .adpcm, xs => (adpcmEncoder.states .initial xs).map fun s ↦ Int16.ofInt s.signal
  | .auto, _ => []

/-- What a format keeps of a channel: everything, the upper byte, or what its codec makes of it. -/
def RoundTripOf : DcaFormat → List Int16 → List Int16 → Prop
  | .pcm16, xs, ys => ys = xs
  | .pcm8, xs, ys => ys.map Int16.toInt = xs.map fun x ↦ x.toInt / 256 * 256
  | .adpcm, xs, ys => ∃ bytes, pcm2adpcm xs xs.length = .ok bytes ∧
      adpcm2pcm bytes xs.length = .ok ys
  | .auto, _, _ => False

section Channel

variable {format : DcaFormat} {xs : List Int16}

theorem adpcm2pcm_adpcmBytes (hne : xs ≠ []) (hlt : xs.length < 2 ^ 64) (rest : List UInt8) :
    adpcm2pcm (adpcmBytes xs ++ rest) xs.length = .ok (reloadedSamples .adpcm xs) := by
  rw [adpcm2pcm, adpcm2pcmTrace_adpcmBytes hne hlt]
  rfl

theorem reloadedSamples_roundTripOf (hformat : format ≠ .auto) (hne : xs ≠ [])
    (hlt : xs.length < 2 ^ 64) : RoundTripOf format xs (reloadedSamples format xs) := by
  cases format with
  | pcm16 => exact rfl
  | pcm8 =>
    rw [RoundTripOf, reloadedSamples, List.map_map]
    exact List.map_congr_left fun x _ ↦ toInt_convertFrom8bit_convertTo8bit x
  | adpcm =>
    refine ⟨adpcmBytes xs, pcm2adpcm_eq hne hlt, ?_⟩
    have h := adpcm2pcm_adpcmBytes hne hlt []
    rw [List.append_nil] at h
    exact h
  | auto => exact absurd rfl hformat

theorem length_encodedSamples (hformat : format ≠ .auto) :
    (encodedSamples format xs).length = payloadBytes format.value xs.length := by
  cases format with
  | pcm16 =>
    have hlen : ∀ x ∈ xs, (sampleBytes x).length = 2 := fun x _ ↦ length_sampleBytes x
    rw [encodedSamples, List.length_flatMap, List.map_congr_left hlen, List.map_const',
      List.sum_replicate_nat]
    rfl
  | pcm8 => exact List.length_map _
  | adpcm => exact length_adpcmBytes xs
  | auto => exact absurd rfl hformat

/-- How many samples of a channel are encoded. -/
def encodedLen (cs : DcAudioConverter) : ℕ :=
  match cs.format with
  | .pcm16 => Target.host.size (cs.samplesLen * 2) / 2
  | _ => cs.samplesLen

theorem encodedLen_of_lt {cs : DcAudioConverter} (hlt : cs.samplesLen < 2 ^ 63) :
    encodedLen cs = cs.samplesLen := by
  rw [encodedLen]
  cases cs.format with
  | pcm16 =>
    have hbytes : Target.host.size (cs.samplesLen * 2) = cs.samplesLen * 2 :=
      Target.size_host (by omega)
    rw [hbytes]
    exact Nat.mul_div_cancel _ (by norm_num)
  | pcm8 => rfl
  | adpcm => rfl
  | auto => rfl

/-- What the writer rounds up is the number of bytes it stores, narrowed, unless the encoder's
`length + 1` wraps. -/
theorem unpaddedChannelSize_eq {cs : DcAudioConverter}
    (h : cs.format = .adpcm → cs.samplesLen + 1 < 2 ^ 32) :
    unpaddedChannelSize cs = u32 (payloadBytes cs.format.value (encodedLen cs)) := by
  rw [unpaddedChannelSize, encodedLen]
  cases hf : cs.format with
  | pcm16 =>
    rw [payloadBytes_pcm16]
    dsimp only [Target.size, Target.sizeBits]
    rw [u32, u32, u32]
    omega
  | pcm8 => rfl
  | adpcm =>
    have hlen := h hf
    dsimp only
    rw [payloadBytes_adpcm, u32_of_lt (n := cs.samplesLen) (by omega), u32_of_lt hlen,
      u32_of_lt (by omega)]
  | auto => rfl

/-- The two PCM encoders differ in the number of samples and in the bytes of each. -/
theorem encodeChannel_pcm {cs : DcAudioConverter} (hformat : cs.format = .pcm16 ∨ cs.format = .pcm8)
    (channelsize : ℕ) (xs : List Int16) : encodeChannel cs channelsize xs
      = (Memory.read .outOfBounds xs 0 (encodedLen cs) >>= fun data ↦
        Memory.store .outOfBounds 0 channelsize (encodedSamples cs.format data)) := by
  rw [encodeChannel, encodedLen]
  rcases hformat with hf | hf
  · rw [hf]
    rfl
  · rw [hf]
    rfl

theorem encodeChannel_adpcm {cs : DcAudioConverter} (hformat : cs.format = .adpcm)
    (channelsize : ℕ) (xs : List Int16) : encodeChannel cs channelsize xs
      = (pcm2adpcm xs cs.samplesLen >>= Memory.store .outOfBounds 0 channelsize) := by
  rw [encodeChannel, hformat]

/-- Every encoder stores the bytes of its samples into the channel's buffer, where they must fit.
The buffer of samples may be longer. -/
theorem encodeChannel_of_le {cs : DcAudioConverter} {channelsize : ℕ} (hformat : cs.format ≠ .auto)
    (hpos : 1 ≤ cs.samplesLen) (hlt : cs.samplesLen < 2 ^ 64) (hlen : cs.samplesLen ≤ xs.length) :
    encodeChannel cs channelsize xs = Memory.store .outOfBounds 0 channelsize
      (encodedSamples cs.format (xs.take (encodedLen cs))) := by
  cases hf : cs.format with
  | pcm16 =>
    have hle : encodedLen cs ≤ xs.length := by
      have hmod := Nat.mod_le (cs.samplesLen * 2) (2 ^ 64)
      rw [encodedLen, hf, Target.size, Target.sizeBits]
      dsimp only
      omega
    rw [encodeChannel_pcm (Or.inl hf), Memory.read_of_le (by omega), List.drop_zero, hf]
    rfl
  | pcm8 =>
    have hle : encodedLen cs ≤ xs.length := by
      rw [encodedLen, hf]
      exact hlen
    rw [encodeChannel_pcm (Or.inr hf), Memory.read_of_le (by omega), List.drop_zero, hf]
    rfl
  | adpcm =>
    have htake : (xs.take cs.samplesLen).length = cs.samplesLen := List.length_take_of_le hlen
    have hloop := pcm2adpcmLoop_eq .initial (xs.take cs.samplesLen) (xs.drop cs.samplesLen)
      (List.ne_nil_of_length_pos (by omega)) (by omega)
    rw [List.take_append_drop, htake] at hloop
    rw [encodeChannel_adpcm hf, pcm2adpcm, hloop, encodedLen, hf]
    rfl
  | auto => exact absurd hf hformat

/-- The writer's buffer: the channel's bytes, then zeros. -/
theorem encodeChannel_eq {cs : DcAudioConverter} {channelsize : ℕ} (hformat : cs.format ≠ .auto)
    (hlen : xs.length = cs.samplesLen) (hpos : 1 ≤ cs.samplesLen) (hlt : cs.samplesLen < 2 ^ 63)
    (hfit : payloadBytes cs.format.value cs.samplesLen ≤ channelsize) :
    encodeChannel cs channelsize xs = .ok (encodedSamples cs.format xs ++
      List.replicate (channelsize - payloadBytes cs.format.value cs.samplesLen) 0) := by
  have hsize : (encodedSamples cs.format xs).length
      = payloadBytes cs.format.value cs.samplesLen := by
    rw [length_encodedSamples hformat, hlen]
  rw [encodeChannel_of_le hformat hpos (by omega) hlen.ge, encodedLen_of_lt hlt, ← hlen,
    List.take_length, Memory.store_of_le (hsize.trans_le hfit), hsize, hlen]

/-- The loader's decoder at these bytes, whatever else the file holds. -/
theorem decodeChannel_eq (hformat : format ≠ .auto) (hne : xs ≠ []) (hlt : xs.length < 2 ^ 64)
    {before after : List UInt8} {off : ℕ} (hoff : before.length = off) :
    decodeChannel format.value (before ++ (encodedSamples format xs ++ after)) xs.length off
      = .ok (reloadedSamples format xs) := by
  have hread : Memory.read Fault.outOfBounds (before ++ (encodedSamples format xs ++ after)) off
      (payloadBytes format.value xs.length) = .ok (encodedSamples format xs) :=
    Memory.read_middle hoff (length_encodedSamples hformat)
  rw [decodeChannel]
  cases format with
  | pcm16 =>
    rw [payloadBytes_pcm16] at hread
    rw [if_pos rfl, hread, Except.map, encodedSamples, samplesOfBytes_flatMap]
    rfl
  | pcm8 =>
    rw [if_neg (by decide), if_pos rfl]
    rw [payloadBytes_pcm8] at hread
    rw [hread, Except.map, encodedSamples, List.map_map]
    rfl
  | adpcm =>
    rw [if_neg (by decide), if_neg (by decide), ← hoff, List.drop_left]
    exact adpcm2pcm_adpcmBytes hne hlt after
  | auto => exact absurd rfl hformat

end Channel

end DcaConv
