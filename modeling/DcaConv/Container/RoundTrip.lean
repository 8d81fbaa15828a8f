import DcaConv.Container.Samples
import DcaConv.Header.Valid
import DcaConv.Library.Fallible
import Mathlib.Data.Nat.Bitwise

/-!
# Writing and loading

What `fDcaWrite` puts into a file is what `fDcaLoad` takes out of it. The writer sizes a channel in
32-bit arithmetic and the loader recomputes that size from the header in `size_t`; under `Writable`
both are `paddedChannelSize`, so every channel is read from where it was written.
-/

namespace DcaConv

/-- A converter state the writer can store. -/
structure Writable (cs : DcAudioConverter) : Prop where
  channelCnt_mem : 1 ≤ cs.channelCnt ∧ cs.channelCnt ≤ 7
  channels : cs.channelCnt ≤ cs.samples.length
  samples_length : ∀ xs ∈ cs.samples.take cs.channelCnt, xs.length = cs.samplesLen
  samplesLen_mem : 1 ≤ cs.samplesLen ∧ cs.samplesLen < 2 ^ 31
  not_too_long : cs.longSound = false → cs.samplesLen ≤ dcacMaxSamples + 50
  format_ne : cs.format ≠ .auto
  rate_pos : 1 ≤ cs.sampleRateHz
  rate_lt : cs.sampleRateHz < 2 ^ 32
  rate_adpcm : cs.format = .adpcm → cs.sampleRateHz ≤ 88200
  loop : cs.looping = true → cs.loopStart ≤ cs.loopEnd ∧ cs.loopEnd ≤ cs.samplesLen
  size_lt : 32 + cs.channelCnt * paddedChannelSize cs.format.value cs.samplesLen < 2 ^ 32

/-- What writing and loading need of it: the length can be anything its field and the encoder's
`length + 1` hold. -/
structure Storable (cs : DcAudioConverter) : Prop where
  channelCnt_mem : 1 ≤ cs.channelCnt ∧ cs.channelCnt ≤ 7
  channels : cs.channelCnt ≤ cs.samples.length
  samples_length : ∀ xs ∈ cs.samples.take cs.channelCnt, xs.length = cs.samplesLen
  samplesLen_mem : 1 ≤ cs.samplesLen ∧ cs.samplesLen + 1 < 2 ^ 32
  not_too_long : cs.longSound = false → cs.samplesLen ≤ dcacMaxSamples + 50
  format_ne : cs.format ≠ .auto
  rate_adpcm : cs.format = .adpcm → cs.sampleRateHz ≤ 88200
  loop : cs.looping = true → cs.loopStart ≤ cs.loopEnd ∧ cs.loopEnd ≤ cs.samplesLen
  size_lt : 32 + cs.channelCnt * paddedChannelSize cs.format.value cs.samplesLen < 2 ^ 32

theorem Writable.storable {cs : DcAudioConverter} (h : Writable cs) : Storable cs := by
  obtain ⟨hpos, hlt⟩ := h.samplesLen_mem
  exact ⟨h.channelCnt_mem, h.channels, h.samples_length, ⟨hpos, by omega⟩, h.not_too_long,
    h.format_ne, h.rate_adpcm, h.loop, h.size_lt⟩

/-! ## The header in memory -/

theorem readField_eq {data : List UInt8} {off width n : ℕ} (hin : off + width ≤ data.length)
    (hbytes : (data.drop off).take width = LittleEndian.toBytes width n) (hn : n < 256 ^ width) :
    readField data off width = .ok n := by
  rw [readField, Memory.read_of_le hin, Except.map, hbytes, LittleEndian.ofBytes_toBytes hn]

theorem length_headerBytes (head : FDcAudioHeader) : (headerBytes head).length = headerSize := by
  simp only [headerBytes, List.length_append, LittleEndian.length_toBytes]
  rfl

/-- The loader reads back the fields the writer stored. -/
theorem loadHeader_headerBytes (head : FDcAudioHeader) (rest : List UInt8) :
    loadHeader (headerBytes head ++ rest) = .ok head := by
  have hlen : (headerBytes head ++ rest).length = 32 + rest.length := by
    rw [List.length_append, length_headerBytes, headerSize]
  rw [loadHeader,
    readField_eq (n := head.fourcc.toNat) (by omega) rfl head.fourcc.toNat_lt,
    readField_eq (n := head.chunkSize.toNat) (by omega) rfl head.chunkSize.toNat_lt,
    readField_eq (n := head.version.toNat) (by omega) rfl head.version.toNat_lt,
    readField_eq (n := head.flags.toNat) (by omega) rfl head.flags.toNat_lt,
    readField_eq (n := head.sampleRateAica.toNat) (by omega) rfl head.sampleRateAica.toNat_lt,
    readField_eq (n := head.totalLength.toNat) (by omega) rfl head.totalLength.toNat_lt,
    readField_eq (n := head.loopStart.toNat) (by omega) rfl head.loopStart.toNat_lt,
    readField_eq (n := head.loopEnd.toNat) (by omega) rfl head.loopEnd.toNat_lt]
  change Except.ok _ = _
  simp only [UInt32.ofNat_toNat, UInt8.ofNat_toNat, UInt16.ofNat_toNat]

/-! ## The header the writer builds -/

theorem fDaConvertFrequency_lt (freqHz : ℕ) : fDaConvertFrequency freqHz < 2 ^ 15 := by
  rw [fDaConvertFrequency]
  refine Nat.or_lt_two_pow ?_ ?_
  · rw [Nat.shiftLeft_eq]
    omega
  · exact (Nat.and_lt_two_pow _ (by norm_num : 1023 < 2 ^ 10)).trans (by norm_num)

/-- The flag bits keep the format, the channel count and the loop apart. -/
theorem writeFlags_fields : ∀ format < 4, ∀ channels < 8, ∀ looping : Bool,
    let flags := (UInt16.ofNat ((((format &&& 0x3) <<< 7) ||| (channels &&& 0x7)) |||
      (if looping then 1 <<< 9 else 0))).toNat
    (flags >>> 7) &&& 0x3 = format ∧ (flags >>> 0) &&& 0x7 = channels ∧
      (flags &&& (1 <<< 9) ≠ 0 ↔ looping = true) := by
  decide

theorem alignU32_eq {n : ℕ} (h : n + 31 < 2 ^ 32) : alignU32 n = Memory.roundUp 32 n := by
  rw [alignU32, u32_of_lt h, clearAlignment_add_mask]

/-- A header that says what the state has. -/
structure Describes (head : FDcAudioHeader) (cs : DcAudioConverter) : Prop where
  fourcc_eq : head.fourcc.toNat = dcaFourccUint
  version_eq : head.version.toNat = 0
  fileSize_eq : fDaGetFileSize head
    = 32 + cs.channelCnt * paddedChannelSize cs.format.value cs.samplesLen
  format_eq : fDaGetSampleFormat head = cs.format.value
  channelCount_eq : fDaGetChannelCount head = cs.channelCnt
  looping_iff : fDaIsLooping head ≠ 0 ↔ cs.looping = true
  rate_eq : fDaGetSampleRateAICA head = fDaConvertFrequency cs.sampleRateHz
  totalLength_eq : fDaGetTotalLength head = cs.samplesLen
  loop_eq : cs.looping = true →
    fDaGetLoopStart head = cs.loopStart ∧ fDaGetLoopEnd head = cs.loopEnd
  plain_eq : cs.looping = false → fDaGetLoopStart head = 0 ∧ fDaGetLoopEnd head = cs.samplesLen

section Writer

variable {cs : DcAudioConverter}

theorem Storable.payload_lt (h : Storable cs) :
    payloadBytes cs.format.value cs.samplesLen + 63 < 2 ^ 32 := by
  have hsize := h.size_lt
  have hpad := payloadBytes_le_padded cs.format.value cs.samplesLen
  have hone : 1 * paddedChannelSize cs.format.value cs.samplesLen
      ≤ cs.channelCnt * paddedChannelSize cs.format.value cs.samplesLen :=
    Nat.mul_le_mul_right _ h.channelCnt_mem.1
  obtain ⟨k, hk⟩ := dvd_paddedChannelSize cs.format.value cs.samplesLen
  omega

/-- The writer's 32-bit channel size does not wrap. -/
theorem writeChannelSize_eq (h : Storable cs) :
    writeChannelSize cs = .ok (paddedChannelSize cs.format.value cs.samplesLen) := by
  have hpay := h.payload_lt
  have hlen := h.samplesLen_mem.2
  refine writeChannelSize_eq_ok.mpr ⟨h.format_ne, h.rate_adpcm, ?_⟩
  rw [unpaddedChannelSize_eq fun _ ↦ hlen, encodedLen_of_lt (by omega), u32_of_lt (by omega),
    alignU32_eq (by omega)]
  rfl

/-- The fields that do not depend on the channel size. -/
theorem writeHeader_fields (hchannels : cs.channelCnt < 8) (hlen : cs.samplesLen < 2 ^ 32)
    (channelsize : ℕ) :
    fDaGetSampleFormat (writeHeader cs channelsize) = cs.format.value ∧
      fDaGetChannelCount (writeHeader cs channelsize) = cs.channelCnt ∧
      (fDaIsLooping (writeHeader cs channelsize) ≠ 0 ↔ cs.looping = true) ∧
      fDaGetTotalLength (writeHeader cs channelsize) = cs.samplesLen := by
  have hformat : cs.format.value < 4 := by cases cs.format <;> decide
  obtain ⟨hf, hc, hl⟩ := writeFlags_fields _ hformat _ hchannels cs.looping
  exact ⟨hf, hc, hl, UInt32.toNat_ofNat_of_lt' hlen⟩

/-- The loop fields of a looping state. -/
theorem writeHeader_loop (hloop : cs.looping = true) (channelsize : ℕ) :
    fDaGetLoopStart (writeHeader cs channelsize) = u32 cs.loopStart ∧
      fDaGetLoopEnd (writeHeader cs channelsize) = u32 cs.loopEnd := by
  rw [fDaGetLoopStart, fDaGetLoopEnd, writeHeader, if_pos hloop, if_pos hloop]
  exact ⟨UInt32.toNat_ofNat', UInt32.toNat_ofNat'⟩

/-- The header of the file. -/
def headerOf (cs : DcAudioConverter) : FDcAudioHeader :=
  writeHeader cs (paddedChannelSize cs.format.value cs.samplesLen)

theorem headerOf_describes (h : Storable cs) : Describes (headerOf cs) cs := by
  have hsize := h.size_lt
  have hlen : cs.samplesLen < 2 ^ 32 := Nat.lt_of_succ_lt h.samplesLen_mem.2
  have hchannels : cs.channelCnt < 8 := by have := h.channelCnt_mem.2; omega
  obtain ⟨hf, hc, hl, htotal⟩ := writeHeader_fields hchannels hlen
    (paddedChannelSize cs.format.value cs.samplesLen)
  refine ⟨rfl, rfl, ?_, hf, hc, hl, ?_, htotal, fun hloop ↦ ?_, fun hloop ↦ ?_⟩
  · rw [fDaGetFileSize, headerOf, writeHeader, Nat.mul_comm, u32_of_lt (by omega), headerSize]
    exact UInt32.toNat_ofNat_of_lt' hsize
  · have hcode := fDaConvertFrequency_lt cs.sampleRateHz
    rw [fDaGetSampleRateAICA, headerOf, writeHeader]
    exact UInt16.toNat_ofNat_of_lt' (hcode.trans (by norm_num))
  · obtain ⟨hstart, hend⟩ := h.loop hloop
    have hfields := writeHeader_loop hloop (paddedChannelSize cs.format.value cs.samplesLen)
    rwa [u32_of_lt (by omega), u32_of_lt (by omega)] at hfields
  · have hplain : ¬cs.looping = true := by
      rw [hloop]
      exact Bool.false_ne_true
    rw [fDaGetLoopStart, fDaGetLoopEnd, headerOf, writeHeader, if_neg hplain, if_neg hplain]
    exact ⟨rfl, UInt32.toNat_ofNat_of_lt' hlen⟩

/-- All of the validator's conditions hold of the writer's header. -/
theorem Describes.valid {head : FDcAudioHeader} (hd : Describes head cs) (h : Storable cs) :
    ValidHeader head := by
  have hpos : 1 * 1 ≤ cs.channelCnt * paddedChannelSize cs.format.value cs.samplesLen :=
    Nat.mul_le_mul h.channelCnt_mem.1 (paddedChannelSize_pos h.samplesLen_mem.1)
  have hdvd : 32 ∣ cs.channelCnt * paddedChannelSize cs.format.value cs.samplesLen :=
    (dvd_paddedChannelSize _ _).mul_left _
  have hloops : fDaGetLoopStart head ≤ fDaGetLength head ∧
      fDaGetLength head ≤ fDaGetTotalLength head := by
    rw [hd.totalLength_eq]
    cases hl : cs.looping with
    | false =>
      obtain ⟨hstart, hend⟩ := hd.plain_eq hl
      exact ⟨hstart.trans_le (Nat.zero_le _), le_of_eq hend⟩
    | true =>
      obtain ⟨hstart, hend⟩ := hd.loop_eq hl
      obtain ⟨hle, hle'⟩ := h.loop hl
      exact ⟨hstart.trans_le (hle.trans_eq hend.symm), hend.trans_le hle'⟩
  refine ⟨?_, hd.fourcc_eq, ?_, ?_, ?_, ?_, hloops.1, hloops.2, ?_⟩
  · rw [hd.fileSize_eq, headerSize]
    omega
  · rw [fDaGetVersion, hd.version_eq]
    norm_num
  · rw [hd.fileSize_eq, dcaAlignment]
    omega
  · rw [hd.format_eq]
    have hne := h.format_ne
    cases hf : cs.format with
    | pcm16 => decide
    | pcm8 => decide
    | adpcm => decide
    | auto => exact absurd hf hne
  · rw [hd.fileSize_eq, hd.channelCount_eq, hd.format_eq, hd.totalLength_eq, headerSize]
  · rw [hd.rate_eq, show 0x8000 = 2 ^ 15 from rfl, Nat.and_two_pow,
      Nat.testBit_lt_two_pow (fDaConvertFrequency_lt _), Bool.toNat_false, Nat.zero_mul]

/-! ## The file -/

/-- A channel's buffer as the writer allocates and fills it. -/
def paddedBlock (cs : DcAudioConverter) (xs : List Int16) : List UInt8 :=
  encodedSamples cs.format xs ++ List.replicate (paddedChannelSize cs.format.value cs.samplesLen
    - payloadBytes cs.format.value cs.samplesLen) 0

def paddedBlocks (cs : DcAudioConverter) : List (List UInt8) :=
  (cs.samples.take cs.channelCnt).map (paddedBlock cs)

theorem length_of_mem_paddedBlocks (h : Storable cs) :
    ∀ b ∈ paddedBlocks cs, b.length = paddedChannelSize cs.format.value cs.samplesLen := by
  intro b hb
  obtain ⟨xs, hxs, rfl⟩ := List.mem_map.mp hb
  have hpad := payloadBytes_le_padded cs.format.value cs.samplesLen
  rw [paddedBlock, List.length_append, length_encodedSamples h.format_ne, h.samples_length xs hxs,
    List.length_replicate]
  omega

theorem length_take_samples (h : Storable cs) :
    (cs.samples.take cs.channelCnt).length = cs.channelCnt := by
  rw [List.length_take, Nat.min_eq_left h.channels]

theorem length_flatten_paddedBlocks (h : Storable cs) : (paddedBlocks cs).flatten.length
    = cs.channelCnt * paddedChannelSize cs.format.value cs.samplesLen := by
  rw [Memory.length_flatten_blocks (length_of_mem_paddedBlocks h), paddedBlocks, List.length_map,
    length_take_samples h]

theorem fwriteAll_whole (i : ℕ) (chunks : List (List UInt8)) :
    fwriteAll .whole i chunks = chunks.flatten := by
  induction chunks generalizing i with
  | nil => rfl
  | cons chunk chunks ih =>
    rw [fwriteAll, ih, List.flatten_cons, FileSink.whole, List.take_length]

/-- The writer succeeds, and the file is the header followed by the padded channels. -/
theorem fDcaWrite_eq (h : Storable cs) : fDcaWrite cs (some .whole)
    = .ok (.ok, headerBytes (headerOf cs) ++ (paddedBlocks cs).flatten) := by
  have hd := headerOf_describes h
  have hlen := h.samplesLen_mem.2
  have hmapM : (cs.samples.take cs.channelCnt).mapM
      (encodeChannel cs (paddedChannelSize cs.format.value cs.samplesLen))
        = .ok (paddedBlocks cs) :=
    Fallible.mapM_eq_ok_map fun xs hxs ↦ encodeChannel_eq h.format_ne (h.samples_length xs hxs)
      h.samplesLen_mem.1 (by omega) (payloadBytes_le_padded _ _)
  have hstart : ¬(cs.channelCnt = 0 ∨ cs.samples.length < cs.channelCnt) := by
    have := h.channelCnt_mem.1
    have := h.channels
    omega
  have hlong : ¬((!cs.longSound) = true ∧ dcacMaxSamples + 50 < cs.samplesLen) := by
    rintro ⟨hshort, hgt⟩
    exact absurd (h.not_too_long (by simpa using hshort)) (not_le.mpr hgt)
  have hmax : ¬dcaFileMaxChannels < cs.channelCnt := not_lt.mpr h.channelCnt_mem.2
  have hsize := hd.fileSize_eq
  rw [fDaGetFileSize] at hsize
  rw [fDcaWrite, if_neg hstart, if_neg hlong, if_neg hmax, writeChannelSize_eq h, Fallible.ok_bind,
    hmapM, Fallible.ok_bind]
  dsimp only
  rw [← headerOf, if_pos ((fDaValidateHeader_host_iff _).mpr (hd.valid h)), fwriteAll_whole,
    List.flatten_cons, List.length_append, length_headerBytes, length_flatten_paddedBlocks h,
    headerSize, u32_of_lt h.size_lt, hsize, if_pos rfl]

end Writer

/-! ## The round trip -/

/-- What the header of the written file says. -/
structure StoredHeader (cs : DcAudioConverter) (head : FDcAudioHeader) (bytes : List UInt8) :
    Prop where
  accepted : fDaValidateHeader head .host = true
  chunkSize_eq : head.chunkSize.toNat = bytes.length
  looping_iff : fDaIsLooping head ≠ 0 ↔ cs.looping = true
  loop_eq : cs.looping = true →
    fDaGetLoopStart head = cs.loopStart ∧ fDaGetLoopEnd head = cs.loopEnd
  plain_eq : cs.looping = false → fDaGetLoopStart head = 0 ∧ fDaGetLoopEnd head = cs.samplesLen

/-- What a written sound is loaded as. -/
structure Reloaded (cs out : DcAudioConverter) : Prop where
  channelCnt_eq : out.channelCnt = cs.channelCnt
  samplesLen_eq : out.samplesLen = cs.samplesLen
  sampleRateHz_eq : out.sampleRateHz = fDcaToAICAFrequency cs.sampleRateHz
  channel : ∀ c < cs.channelCnt, ∃ xs ys, cs.samples[c]? = some xs ∧ out.samples[c]? = some ys ∧
    RoundTripOf cs.format xs ys

section RoundTrip

variable {cs : DcAudioConverter} {head : FDcAudioHeader}

/-- Channel `c` is read from the block it was written to. -/
theorem decodeChannel_file (h : Storable cs) (hd : Describes head cs) {c : ℕ}
    (hc : c < (cs.samples.take cs.channelCnt).length) :
    decodeChannel cs.format.value (headerBytes head ++ (paddedBlocks cs).flatten) cs.samplesLen
      (fDaGetChannelSamples head .host c)
        = .ok (reloadedSamples cs.format (cs.samples.take cs.channelCnt)[c]) := by
  have hxs := h.samples_length _ (List.getElem_mem hc)
  have hpos := h.samplesLen_mem
  have hblock : (paddedBlocks cs)[c]?
      = some (paddedBlock cs (cs.samples.take cs.channelCnt)[c]) := by
    rw [paddedBlocks, List.getElem?_map, List.getElem?_eq_getElem hc, Option.map_some]
  obtain ⟨before, after, hsplit, hbefore⟩ :=
    Memory.exists_split_flatten_blocks (length_of_mem_paddedBlocks h) hblock
  rw [paddedBlock, List.append_assoc] at hsplit
  have hoff : (headerBytes head ++ before).length = fDaGetChannelSamples head .host c := by
    rw [length_take_samples h] at hc
    rw [fDaGetChannelSamples_host head (by rw [hd.channelCount_eq]; exact hc.le),
      fDaCalcChannelSizeBytes_host, hd.format_eq, hd.totalLength_eq, List.length_append,
      length_headerBytes, hbefore, headerSize]
  rw [hsplit, ← List.append_assoc, ← hxs]
  exact decodeChannel_eq h.format_ne (List.ne_nil_of_length_pos (by omega)) (by omega) hoff

/-- The loader takes the header and every channel out of the file. -/
theorem fDcaLoad_eq (h : Storable cs) (hd : Describes head cs) (dcac : DcAudioConverter) :
    fDcaLoad dcac (some (.whole (headerBytes head ++ (paddedBlocks cs).flatten))) = .ok (.ok,
      { dcac with
        sampleRateHz := fDcaToAICAFrequency cs.sampleRateHz
        channelCnt := cs.channelCnt
        samplesLen := cs.samplesLen
        samples := (cs.samples.take cs.channelCnt).map (reloadedSamples cs.format) ++
          dcac.samples.drop cs.channelCnt }) := by
  have hrate : truncate (fDaCalcSampleRateHz head) = fDcaToAICAFrequency cs.sampleRateHz := by
    rw [fDaCalcSampleRateHz, fDcaToAICAFrequency, ← hd.rate_eq, fDaGetSampleRateAICA]
  have hformat : cs.format.value = DcaFormat.pcm16.value ∨ cs.format.value = DcaFormat.pcm8.value ∨
      cs.format.value = DcaFormat.adpcm.value := by
    have hmem := (hd.valid h).format_mem
    rw [hd.format_eq] at hmem
    exact hmem
  have hmapM : (List.range cs.channelCnt).mapM (fun c ↦ decodeChannel cs.format.value
      (headerBytes head ++ (paddedBlocks cs).flatten) cs.samplesLen
        (fDaGetChannelSamples head .host c))
          = .ok ((cs.samples.take cs.channelCnt).map (reloadedSamples cs.format)) := by
    rw [Fallible.mapM_eq_ok_iff, List.forall₂_iff_get]
    refine ⟨by rw [List.length_range, List.length_map, length_take_samples h], fun c hc hc' ↦ ?_⟩
    rw [List.length_map] at hc'
    rw [List.get_eq_getElem, List.get_eq_getElem, List.getElem_range, List.getElem_map]
    exact decodeChannel_file h hd hc'
  rw [fDcaLoad, FileSource.whole, if_neg (not_not.mpr rfl), loadHeader_headerBytes,
    Fallible.ok_bind, if_pos ((fDaValidateHeader_host_iff head).mpr (hd.valid h)), loadSamples,
    hd.format_eq, if_pos hformat, hd.channelCount_eq, hd.totalLength_eq, hmapM, Fallible.ok_bind,
    hrate]

/-- **Container round trip.** The writer's own check accepts its header, the file has the declared
size, and loading it returns the sound, each channel as its format keeps it. -/
theorem fDcaLoad_fDcaWrite (cs dcac : DcAudioConverter) (h : Writable cs) :
    ∃ head bytes out, fDcaWrite cs (some .whole) = .ok (.ok, bytes) ∧
      loadHeader bytes = .ok head ∧ StoredHeader cs head bytes ∧
      fDcaLoad dcac (some (.whole bytes)) = .ok (.ok, out) ∧ Reloaded cs out := by
  have hs := h.storable
  have hd := headerOf_describes hs
  have hpos := h.samplesLen_mem
  refine ⟨headerOf cs, _, _, fDcaWrite_eq hs, loadHeader_headerBytes _ _, ?_,
    fDcaLoad_eq hs hd dcac, rfl, rfl, rfl, fun c hc ↦ ?_⟩
  · refine ⟨(fDaValidateHeader_host_iff _).mpr (hd.valid hs), ?_, hd.looping_iff, hd.loop_eq,
      hd.plain_eq⟩
    rw [List.length_append, length_headerBytes, length_flatten_paddedBlocks hs]
    exact hd.fileSize_eq
  · have hc' : c < (cs.samples.take cs.channelCnt).length := by rw [length_take_samples hs]; exact hc
    have hxs := h.samples_length _ (List.getElem_mem hc')
    refine ⟨(cs.samples.take cs.channelCnt)[c], reloadedSamples cs.format _, ?_, ?_,
      reloadedSamples_roundTripOf h.format_ne (List.ne_nil_of_length_pos (by omega)) (by omega)⟩
    · rw [List.getElem_take, List.getElem?_eq_getElem]
    · rw [List.getElem?_append_left (by rw [List.length_map]; exact hc'), List.getElem?_map,
        List.getElem?_eq_getElem hc', Option.map_some]

end RoundTrip

/-- Three samples of looping stereo ADPCM, loaded into a fresh converter. -/
theorem fDcaLoad_fDcaWrite_adpcm_stereo :
    ∃ head bytes out, fDcaWrite ⟨22050, 2, [[0, 4096, -1], [7, -32768, 32767]], 3, .adpcm, 0, 0,
        false, true, 1, 3⟩ (some .whole) = .ok (.ok, bytes) ∧
      loadHeader bytes = .ok head ∧
      StoredHeader ⟨22050, 2, [[0, 4096, -1], [7, -32768, 32767]], 3, .adpcm, 0, 0,
        false, true, 1, 3⟩ head bytes ∧
      fDcaLoad dcaInit (some (.whole bytes)) = .ok (.ok, out) ∧
      Reloaded ⟨22050, 2, [[0, 4096, -1], [7, -32768, 32767]], 3, .adpcm, 0, 0,
        false, true, 1, 3⟩ out :=
  fDcaLoad_fDcaWrite _ dcaInit ⟨by decide, by decide, by decide, by decide, by decide, by decide,
    by decide, by decide, by decide, by decide, by decide⟩

end DcaConv
