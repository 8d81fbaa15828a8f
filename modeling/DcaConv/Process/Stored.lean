import DcaConv.Container.Rewrite
import DcaConv.Pipeline.Fits
import DcaConv.Pipeline.Plain
import DcaConv.Wav.File

/-!
# The file a run leaves

A run hands the writer buffers that may be longer than the sound. The writer looks at their first
part only, so what it writes is the file of that part; and onto a disk that takes everything it
writes one exactly if the header can describe the sound.

A `.dca` file is about a length below `2 ^ 32 - 1`, behind which the encoder's `length + 1` wraps,
and a WAV file about fewer than `2 ^ 32` samples, behind which the interleaved index does. The rate
and the length are those `main` comes to with exact rationals in place of its `float`.
-/

namespace DcaConv

/-- A sound the fields of a header can describe. -/
structure FitsFile (cs : DcAudioConverter) : Prop where
  samplesLen_pos : 1 ≤ cs.samplesLen
  channelCnt_le : cs.channelCnt ≤ dcaFileMaxChannels
  not_too_long : cs.longSound = false → cs.samplesLen ≤ dcacMaxSamples + 50
  size_lt : headerSize + cs.channelCnt * paddedChannelSize cs.format.value cs.samplesLen < 2 ^ 32

section Stored

variable {cs : DcAudioConverter} {out : Option FileSink}

/-- The channel a buffer's first part is encoded as. -/
theorem encodeChannel_writtenPart (hformat : cs.format ≠ .auto) (hpos : 1 ≤ cs.samplesLen)
    (hlt : cs.samplesLen < 2 ^ 32) {xs : List Int16} (hlen : cs.samplesLen ≤ xs.length)
    (channelsize : ℕ) : encodeChannel (writtenPart cs) channelsize (xs.take (u32 cs.samplesLen))
      = encodeChannel cs channelsize xs := by
  have hu : u32 cs.samplesLen = cs.samplesLen := u32_of_lt hlt
  have hpart : (writtenPart cs).samplesLen = cs.samplesLen := hu
  have hall : encodedLen cs = cs.samplesLen := encodedLen_of_lt (by omega)
  have hall' : encodedLen (writtenPart cs) = cs.samplesLen := by
    rw [encodedLen_of_lt (by omega), hpart]
  have htake : (xs.take cs.samplesLen).length = cs.samplesLen := List.length_take_of_le hlen
  rw [hu, @encodeChannel_of_le _ (writtenPart cs) channelsize hformat (by omega) (by omega)
    (by omega), encodeChannel_of_le hformat hpos (by omega) hlen, hall, hall', List.take_take,
    Nat.min_self]
  rfl

/-- The writer does not look behind the first part. -/
theorem fDcaWrite_writtenPart (hinv : WriterInv .dca cs)
    (hpos : 1 ≤ cs.samplesLen) (hlt : cs.samplesLen < 2 ^ 32) :
    fDcaWrite (writtenPart cs) out = fDcaWrite cs out := by
  have hu : u32 cs.samplesLen = cs.samplesLen := u32_of_lt hlt
  have hpart : (writtenPart cs).samplesLen = cs.samplesLen := hu
  have hslots : (writtenPart cs).samples.length = cs.channelCnt := by
    rw [writtenPart, List.length_map, List.length_take, Nat.min_eq_left hinv.set]
  have hsize : writeChannelSize (writtenPart cs) = writeChannelSize cs := by
    rw [writeChannelSize, writeChannelSize, hpart]
    rfl
  have hblocks : ∀ channelsize, ((writtenPart cs).samples.take cs.channelCnt).mapM
      (encodeChannel (writtenPart cs) channelsize)
        = (cs.samples.take cs.channelCnt).mapM (encodeChannel cs channelsize) := by
    intro channelsize
    rw [take_writtenPart, List.mapM_map]
    exact Fallible.mapM_congr fun xs hxs ↦
      encodeChannel_writtenPart hinv.format_ne hpos hlt (hinv.samplesLen_le xs hxs) channelsize
  have hfirst : ¬(cs.channelCnt = 0 ∨ cs.samples.length < cs.channelCnt) := by
    have := hinv.one_le
    have := hinv.set
    omega
  have hfirst' : ¬(cs.channelCnt = 0 ∨ (writtenPart cs).samples.length < cs.channelCnt) := by
    have := hinv.one_le
    omega
  rw [fDcaWrite, fDcaWrite, hsize, hpart, if_neg hfirst]
  simp only [show (writtenPart cs).channelCnt = cs.channelCnt from rfl,
    show (writtenPart cs).longSound = cs.longSound from rfl, hblocks, writeHeader_writtenPart]
  rw [if_neg hfirst']

theorem storable_of_fitsFile (hinv : WriterInv .dca cs) (hlt : cs.samplesLen + 1 < 2 ^ 32)
    (h : FitsFile cs) : Storable (writtenPart cs) := by
  have hpart : (writtenPart cs).samplesLen = cs.samplesLen := u32_of_lt (by omega)
  have hend := hinv.inOrder.end_le
  have hstart := hinv.inOrder.start_le
  refine ⟨⟨hinv.one_le, h.channelCnt_le⟩, ?_, ?_, ?_, ?_, hinv.format_ne, (hinv.rate_mem rfl).2,
    fun _ ↦ ?_, ?_⟩
  · show cs.channelCnt ≤ ((cs.samples.take cs.channelCnt).map _).length
    rw [List.length_map, List.length_take, Nat.min_eq_left hinv.set]
  · intro xs hxs
    rw [show (writtenPart cs).channelCnt = cs.channelCnt from rfl, take_writtenPart] at hxs
    obtain ⟨ys, hys, rfl⟩ := List.mem_map.mp hxs
    rw [hpart, u32_of_lt (by omega)]
    exact List.length_take_of_le (hinv.samplesLen_le ys hys)
  · rw [hpart]
    exact ⟨h.samplesLen_pos, hlt⟩
  · rw [hpart]
    exact h.not_too_long
  · rw [hpart]
    show u32 cs.loopStart ≤ u32 cs.loopEnd ∧ u32 cs.loopEnd ≤ _
    rw [u32_of_lt (by omega), u32_of_lt (by omega)]
    exact ⟨hstart, hend⟩
  · rw [hpart]
    exact h.size_lt

/-- A file that is reported as written is the file of the first part, whatever the disk took. -/
theorem eq_of_fDcaWrite (hinv : WriterInv .dca cs) (hlt : cs.samplesLen + 1 < 2 ^ 32)
    (hfits : FitsFile cs) {sink : FileSink} {bytes : List UInt8}
    (h : fDcaWrite cs (some sink) = .ok (.ok, bytes)) :
    bytes = headerBytes (headerOf (writtenPart cs)) ++ (paddedBlocks (writtenPart cs)).flatten := by
  have hs := storable_of_fitsFile hinv hlt hfits
  have hpos := hs.samplesLen_mem
  rw [← fDcaWrite_writtenPart hinv hfits.samplesLen_pos (by omega)] at h
  obtain ⟨hcode, -⟩ | ⟨hcode, -⟩ | ⟨channelsize, blocks, hencoded, hresult⟩ := fDcaWrite_cases h
  · cases hcode
  · cases hcode
  have hsize := hencoded.size_eq
  rw [writeChannelSize_eq hs, Except.ok.injEq] at hsize
  subst hsize
  have hblocks : blocks = paddedBlocks (writtenPart cs) := by
    have hmap := hencoded.blocks_eq
    rw [@Fallible.mapM_eq_ok_map _ _ _ _ (paddedBlock (writtenPart cs)) _ fun xs hxs ↦
      encodeChannel_eq hs.format_ne (hs.samples_length xs hxs) hpos.1 (by omega)
        (payloadBytes_le_padded _ _)] at hmap
    exact (Except.ok.inj hmap).symm
  rw [hblocks] at hresult
  exact eq_of_writeResult hs hresult.symm

/-- What is encoded and accepted by the validator fits. -/
theorem Encoded.fitsFile {channelsize : ℕ} {blocks : List (List UInt8)}
    (h : Encoded cs channelsize blocks) (hlt : cs.samplesLen < 2 ^ 32) : FitsFile cs := by
  have hmax := h.channelCnt_mem.2
  have hvalid := (fDaValidateHeader_host_iff _).mp h.accepted
  have hsize := hvalid.size_eq
  have hpos := hvalid.totalLength_pos
  obtain ⟨hf, hc, -, htotal⟩ := writeHeader_fields (Nat.lt_succ_of_le hmax) hlt channelsize
  rw [hf, hc, htotal] at hsize
  rw [htotal] at hpos
  refine ⟨hpos, hmax, h.fits, ?_⟩
  rw [← hsize]
  exact fDaGetFileSize_lt _

theorem fitsFile_of_fDcaWrite (hlt : cs.samplesLen < 2 ^ 32) {result : List UInt8}
    (h : fDcaWrite cs out = .ok (.ok, result)) : FitsFile cs := by
  obtain ⟨hcode, -⟩ | ⟨hcode, -⟩ | ⟨channelsize, blocks, hencoded, -⟩ := fDcaWrite_cases h
  · cases hcode
  · cases hcode
  · exact hencoded.fitsFile hlt

/-- A file that was written could be opened. -/
theorem exists_sink_of_fDcaWrite {result : List UInt8} (h : fDcaWrite cs out = .ok (.ok, result)) :
    ∃ sink, out = some sink := by
  cases out with
  | some sink => exact ⟨sink, rfl⟩
  | none =>
    obtain ⟨hcode, -⟩ | ⟨hcode, -⟩ | ⟨channelsize, blocks, -, hresult⟩ := fDcaWrite_cases h
    · cases hcode
    · cases hcode
    · cases hresult

/-- The writer succeeds, on a disk that takes everything, exactly on the sounds a header can
describe. -/
theorem fDcaWrite_ok_iff (hinv : WriterInv .dca cs) (hlt : cs.samplesLen + 1 < 2 ^ 32) :
    (∃ bytes, fDcaWrite cs (some .whole) = .ok (.ok, bytes)) ↔ FitsFile cs := by
  constructor
  · rintro ⟨bytes, h⟩
    exact fitsFile_of_fDcaWrite (by omega) h
  · intro h
    rw [← fDcaWrite_writtenPart hinv h.samplesLen_pos (by omega)]
    exact ⟨_, fDcaWrite_eq (storable_of_fitsFile hinv hlt h)⟩

/-- Past its two checks the writer either encodes or faults, whatever file it has. -/
theorem fDcaWrite_faults_or_encodes (hcnt : 1 ≤ cs.channelCnt ∧ cs.channelCnt ≤ dcaFileMaxChannels)
    (hset : cs.channelCnt ≤ cs.samples.length)
    (hlong : cs.longSound = false → cs.samplesLen ≤ dcacMaxSamples + 50) :
    (∃ fault, ∀ out, fDcaWrite cs out = .error fault) ∨
      ∃ channelsize blocks, Encoded cs channelsize blocks ∧
        ∀ out, fDcaWrite cs out = .ok (writeResult (writeHeader cs channelsize) blocks out) := by
  have hstart : ¬(cs.channelCnt = 0 ∨ cs.samples.length < cs.channelCnt) := by omega
  have hshort : ¬((!cs.longSound) = true ∧ dcacMaxSamples + 50 < cs.samplesLen) := by
    rintro ⟨hshort, hgt⟩
    exact absurd (hlong (by simpa using hshort)) (not_le.mpr hgt)
  have htail : ∀ out, fDcaWrite cs out = _ := fun out ↦ by
    rw [fDcaWrite, if_neg hstart, if_neg hshort, if_neg (not_lt.mpr hcnt.2)]
  cases hsize : writeChannelSize cs with
  | error fault =>
    refine Or.inl ⟨fault, fun out ↦ ?_⟩
    rw [htail, hsize]
    rfl
  | ok channelsize =>
    cases hblocks : (cs.samples.take cs.channelCnt).mapM (encodeChannel cs channelsize) with
    | error fault =>
      refine Or.inl ⟨fault, fun out ↦ ?_⟩
      rw [htail, hsize, Fallible.ok_bind, hblocks]
      rfl
    | ok blocks =>
      by_cases haccept : fDaValidateHeader (writeHeader cs channelsize) .host = true
      · refine Or.inr ⟨channelsize, blocks, ⟨hcnt, hset, hlong, hsize, hblocks, haccept⟩,
          fun out ↦ ?_⟩
        rw [htail, hsize, Fallible.ok_bind, hblocks, Fallible.ok_bind]
        dsimp only
        rw [if_pos haccept]
        cases out <;> rfl
      · refine Or.inl ⟨.assertion, fun out ↦ ?_⟩
        rw [htail, hsize, Fallible.ok_bind, hblocks, Fallible.ok_bind]
        dsimp only
        rw [if_neg haccept]

/-- The writer aborts on the sounds its checks let through and a header cannot describe. -/
theorem fDcaWrite_error_iff (hinv : WriterInv .dca cs) (hlt : cs.samplesLen + 1 < 2 ^ 32) :
    (∃ fault, fDcaWrite cs out = .error fault) ↔
      (cs.longSound = false → cs.samplesLen ≤ dcacMaxSamples + 50) ∧
        cs.channelCnt ≤ dcaFileMaxChannels ∧ ¬FitsFile cs := by
  have hstart : ¬(cs.channelCnt = 0 ∨ cs.samples.length < cs.channelCnt) := by
    have := hinv.one_le
    have := hinv.set
    omega
  constructor
  · rintro ⟨fault, hfault⟩
    have hlong : ¬((!cs.longSound) = true ∧ dcacMaxSamples + 50 < cs.samplesLen) := by
      intro hlong
      rw [fDcaWrite, if_neg hstart, if_pos hlong] at hfault
      cases hfault
    have hmax : ¬dcaFileMaxChannels < cs.channelCnt := by
      intro hmax
      rw [fDcaWrite, if_neg hstart, if_neg hlong, if_pos hmax] at hfault
      cases hfault
    have hfits : cs.longSound = false → cs.samplesLen ≤ dcacMaxSamples + 50 := fun hshort ↦
      not_lt.mp fun hgt ↦ hlong ⟨by rw [hshort]; rfl, hgt⟩
    refine ⟨hfits, not_lt.mp hmax, fun h ↦ ?_⟩
    obtain ⟨fault', hall⟩ | ⟨channelsize, blocks, -, hall⟩ :=
      fDcaWrite_faults_or_encodes ⟨hinv.one_le, not_lt.mp hmax⟩ hinv.set hfits
    · obtain ⟨bytes, hwrite⟩ := (fDcaWrite_ok_iff hinv hlt).mpr h
      rw [hall] at hwrite
      cases hwrite
    · rw [hall] at hfault
      cases hfault
  · rintro ⟨hlong, hmax, hno⟩
    obtain ⟨fault, hall⟩ | ⟨channelsize, blocks, hencoded, -⟩ :=
      fDcaWrite_faults_or_encodes ⟨hinv.one_le, hmax⟩ hinv.set hlong
    · exact ⟨fault, hall out⟩
    · exact absurd (hencoded.fitsFile (by omega)) hno

/-! ## Reading it back -/

/-- The channels a listener gets. -/
def storedChannels (cs : DcAudioConverter) : List (List Int16) :=
  (cs.samples.take cs.channelCnt).map fun xs ↦
    reloadedSamples cs.format (xs.take cs.samplesLen)

theorem length_storedChannels (hinv : WriterInv .dca cs) :
    (storedChannels cs).length = cs.channelCnt := by
  rw [storedChannels, List.length_map, List.length_take, Nat.min_eq_left hinv.set]

/-- The sound in the file. -/
def storedSound (cs : DcAudioConverter) (hinv : WriterInv .dca cs) (hlt : cs.samplesLen < 2 ^ 32) :
    Sound where
  sampleRateHz := fDcaToAICAFrequency cs.sampleRateHz
  channels := storedChannels cs
  samplesLen := cs.samplesLen
  rate_pos := lt_of_lt_of_le (by norm_num) (le_truncate_fDaUnconvertFrequency _)
  channels_pos := by
    rw [length_storedChannels hinv]
    exact hinv.one_le
  length_eq xs hxs := by
    obtain ⟨ys, hys, rfl⟩ := List.mem_map.mp hxs
    rw [length_reloadedSamples _ hinv.format_ne]
    exact List.length_take_of_le (hinv.samplesLen_le ys hys)
  samplesLen_lt := hlt

/-- Loading what was written gives the sound, as its format keeps it. -/
theorem fDcaLoad_written {dcac : DcAudioConverter} (hinv : WriterInv .dca cs)
    (hlt : cs.samplesLen + 1 < 2 ^ 32) {sink : FileSink} {bytes : List UInt8}
    (h : fDcaWrite cs (some sink) = .ok (.ok, bytes)) (hfresh : dcac.samples = []) :
    fDcaLoad dcac (some (.whole bytes))
      = .ok (.ok, dcac.load (storedSound cs hinv (Nat.lt_of_succ_lt hlt))) := by
  have hfits := fitsFile_of_fDcaWrite (by omega) h
  have hs := storable_of_fitsFile hinv hlt hfits
  have hu : u32 cs.samplesLen = cs.samplesLen := u32_of_lt (by omega)
  have hpart : (writtenPart cs).samplesLen = cs.samplesLen := hu
  have hchannels : ((writtenPart cs).samples.take cs.channelCnt).map (reloadedSamples cs.format)
      = storedChannels cs := by
    rw [take_writtenPart, List.map_map, storedChannels, hu]
    rfl
  rw [eq_of_fDcaWrite hinv hlt hfits h, fDcaLoad_eq hs (headerOf_describes hs), hpart,
    show (writtenPart cs).channelCnt = cs.channelCnt from rfl,
    show (writtenPart cs).format = cs.format from rfl, hchannels, hfresh, List.drop_nil,
    List.append_nil, DcAudioConverter.load]
  dsimp only [storedSound]
  rw [length_storedChannels hinv]
  rfl

end Stored

/-! ## WAV files -/

/-- `fWavWrite`'s result, with these samples handed to the encoder. -/
def wavResult (encoder : WavEncoder) (format : WavFormat) (frames : ℕ) (interleaved : List Int16) :
    DcaError :=
  if encoder.opens format frames then
    if encoder.framesWritten frames interleaved = frames then .ok else .writeError
  else .writeOpenError

section Interleaved

variable {dcac : DcAudioConverter} {n k : ℕ}

/-- The state with its buffers cut to `n` samples. -/
def firstPart (dcac : DcAudioConverter) (n : ℕ) : DcAudioConverter :=
  { dcac with samples := dcac.samples.map (List.take n) }

theorem getD_firstPart (c : ℕ) :
    (firstPart dcac n).samples.getD c [] = (dcac.samples.getD c []).take n := by
  rw [firstPart, List.getD_eq_getElem?_getD, List.getD_eq_getElem?_getD, List.getElem?_map]
  cases dcac.samples[c]? with
  | none => exact List.take_nil.symm
  | some xs => rfl

theorem sampleOf_firstPart {i : ℕ} (hi : i < n) (c : ℕ) :
    sampleOf (firstPart dcac n) c i = sampleOf dcac c i := by
  rw [sampleOf, getD_firstPart, List.getD_eq_getElem?_getD, List.getElem?_take_of_lt hi,
    ← List.getD_eq_getElem?_getD, sampleOf]

theorem planar_firstPart (hcnt : dcac.channelCnt = k) (hlen : dcac.samplesLen = n)
    (hset : k ≤ dcac.samples.length) (hle : ∀ xs ∈ dcac.samples.take k, n ≤ xs.length) :
    Planar (firstPart dcac n) n k := by
  refine ⟨hcnt, hlen, ?_, fun xs hxs ↦ ?_⟩
  · rwa [firstPart, List.length_map]
  · rw [firstPart, ← List.map_take] at hxs
    obtain ⟨ys, hys, rfl⟩ := List.mem_map.mp hxs
    exact List.length_take_of_le (hle ys hys)

/-- One turn reads from the first part. -/
theorem interleaveSample_firstPart (hset : k ≤ dcac.samples.length)
    (hle : ∀ xs ∈ dcac.samples.take k, n ≤ xs.length) {i c : ℕ} (hi : i < n) (hc : c < k)
    (interleaved : Memory.Filling Int16) : interleaveSample dcac interleaved i c
      = interleaveSample (firstPart dcac n) interleaved i c := by
  have hslot : c < dcac.samples.length := hc.trans_le hset
  have hslot' : c < (firstPart dcac n).samples.length := by rwa [firstPart, List.length_map]
  have hlong : n ≤ (dcac.samples.getD c []).length :=
    hle _ (Interleave.getD_mem_take [] hc hset)
  have hpart : ((dcac.samples.getD c []).take n).length = n := List.length_take_of_le hlong
  rw [interleaveSample, Memory.readAt_of_lt [] hslot, Fallible.ok_bind,
    Memory.readAt_of_lt 0 (hi.trans_le hlong), Fallible.ok_bind, interleaveSample,
    Memory.readAt_of_lt [] hslot', Fallible.ok_bind, getD_firstPart,
    Memory.readAt_of_lt 0 (hi.trans_eq hpart.symm), Fallible.ok_bind, ← sampleOf,
    ← sampleOf_firstPart hi, sampleOf, getD_firstPart]
  rfl

/-- The interleaving does not look behind the length. -/
theorem interleaveSamples_of_le (hcnt : dcac.channelCnt = k) (hlen : dcac.samplesLen = n)
    (hset : k ≤ dcac.samples.length) (hle : ∀ xs ∈ dcac.samples.take k, n ≤ xs.length)
    (hk : 1 ≤ k) (hfit : n * k < 2 ^ 32) {heap : Heap} {fuel : ℕ} (hfuel : n < fuel) :
    interleaveSamples heap fuel dcac
      = some (.ok ⟨Interleave.pack n k (sampleOf dcac), List.range (n * k)⟩) := by
  have hn : n < 2 ^ 32 := (Nat.le_mul_of_pos_right n hk).trans_lt hfit
  have hframes : ∀ s, (List.range n).foldlM (interleaveFrame dcac) s
      = (List.range n).foldlM (interleaveFrame (firstPart dcac n)) s :=
    Fallible.foldlM_congr fun s i hi ↦ Fallible.foldlM_congr (fun s' c hc ↦
      interleaveSample_firstPart hset hle (List.mem_range.mp hi)
        (List.mem_range.mp hc |>.trans_eq hcnt) s') s
  have hpart := @interleaveSamples_eq heap _ n k (planar_firstPart hcnt hlen hset hle) hk hfit
    fuel hfuel
  rw [interleaveSamples, show (firstPart dcac n).samplesLen = n from hlen,
    show (firstPart dcac n).channelCnt = k from hcnt, CountedLoop.run_eq_range hn hfuel,
    ← hframes] at hpart
  rw [interleaveSamples, hlen, hcnt, CountedLoop.run_eq_range hn hfuel, hpart,
    Interleave.pack_congr fun c _ i hi ↦ sampleOf_firstPart hi c]

end Interleaved

/-! ## Runs -/

/-- **The WAV file of a run.** Whatever the sound and the settings, if they come to fewer than
`2 ^ 32` samples, the encoder is asked for 16-bit samples at the final rate and gets the final
samples, with nothing read outside a buffer. -/
theorem wav_run_file (options : List CliOption) (sound : Sound) (past : ℕ → Int16)
    (src : Resampler) {final : DcAudioConverter}
    (h : runMain options sound .wav past src = .ok final)
    (hfit : final.samplesLen * final.channelCnt < 2 ^ 32) (heap : Heap) (encoder : WavEncoder) :
    fWavWrite heap (final.samplesLen + 1) encoder final = some (.ok (wavResult encoder
      ⟨final.channelCnt, final.sampleRateHz, 16⟩ final.samplesLen
      (Interleave.pack final.samplesLen final.channelCnt (sampleOf final)))) := by
  have hinv := writerInv h
  rw [fWavWrite, interleaveSamples_of_le rfl rfl hinv.set hinv.samplesLen_le hinv.one_le hfit
    (Nat.lt_succ_self _), wavResult]
  split <;> rfl

/-- Four frames of silence, cut behind a loop of three. -/
theorem wav_run_file_silence :
    fWavWrite .zero 4 ⟨fun _ _ ↦ true, fun n _ ↦ n⟩
        ⟨8000, 1, [[0, 0, 0, 0]], 3, .pcm16, 1, 8000, false, true, 0, 3⟩
      = some (.ok (wavResult ⟨fun _ _ ↦ true, fun n _ ↦ n⟩ ⟨1, 8000, 16⟩ 3
        (Interleave.pack 3 1 (sampleOf
          ⟨8000, 1, [[0, 0, 0, 0]], 3, .pcm16, 1, 8000, false, true, 0, 3⟩)))) := by
  have hrun : runMain [.loopEnd (some 3), .trimLoopEnd] (.silence 8000 4 (by decide) (by decide))
      .wav (fun _ ↦ 0) .silent
        = .ok ⟨8000, 1, [[0, 0, 0, 0]], 3, .pcm16, 1, 8000, false, true, 0, 3⟩ := rfl
  exact wav_run_file _ _ _ _ hrun (by decide) .zero ⟨fun _ _ ↦ true, fun n _ ↦ n⟩

/-- **Runs that abort in the writer.** Whatever the sound, the settings and the disk, the writer of
a `.dca` conversion to a length below `2 ^ 32 - 1` aborts exactly on the results its two checks let
through that are empty or whose file would take `2 ^ 32` bytes. -/
theorem dca_run_aborts_iff (options : List CliOption) (sound : Sound) (past : ℕ → Int16)
    (src : Resampler) {final : DcAudioConverter}
    (h : runMain options sound .dca past src = .ok final) (hlt : final.samplesLen + 1 < 2 ^ 32)
    (out : Option FileSink) :
    (∃ fault, fDcaWrite final out = .error fault) ↔
      (final.longSound = false → final.samplesLen ≤ dcacMaxSamples + 50) ∧
        final.channelCnt ≤ dcaFileMaxChannels ∧
        (final.samplesLen = 0 ∨ 2 ^ 32 ≤ headerSize +
          final.channelCnt * paddedChannelSize final.format.value final.samplesLen) := by
  rw [fDcaWrite_error_iff (writerInv h) hlt]
  refine and_congr_right fun hlong ↦ and_congr_right fun hmax ↦ ?_
  constructor
  · intro hno
    by_contra hfits
    rw [not_or, not_le] at hfits
    exact hno ⟨Nat.one_le_iff_ne_zero.mpr hfits.1, hmax, hlong, hfits.2⟩
  · rintro (hzero | hsize) hfits
    · exact absurd hfits.samplesLen_pos (by omega)
    · exact absurd hfits.size_lt (not_lt.mpr hsize)

/-- A single sample at 44100 Hz, asked for at 22050 Hz. -/
theorem dca_run_aborts_single : ∃ final,
    runMain [.rate (some 22050)] (.silence 44100 1 (by decide) (by decide)) .dca (fun _ ↦ 0)
        .silent = .ok final ∧
      ∀ out, (∃ fault, fDcaWrite final out = .error fault) ↔
        (final.longSound = false → final.samplesLen ≤ dcacMaxSamples + 50) ∧
          final.channelCnt ≤ dcaFileMaxChannels ∧
          (final.samplesLen = 0 ∨ 2 ^ 32 ≤ headerSize +
            final.channelCnt * paddedChannelSize final.format.value final.samplesLen) := by
  have hoptions : parseOptions [.rate (some 22050)]
      = .ok (.initial, { dcaInit with desiredSampleRateHz := 22050 }) := rfl
  have ht : trimmed .dca (fun _ ↦ 0) .initial
      ({ dcaInit with desiredSampleRateHz := 22050 }.load
        (.silence 44100 1 (by decide) (by decide))) = .ok _ := rfl
  obtain ⟨final, hrun, hfinal⟩ := exists_runMain_mono .silent hoptions ht (by decide) rfl
  have hlen := converted_samplesLen (trimmed_inv hoptions ht).1 hfinal
  have hlt : final.samplesLen + 1 < 2 ^ 32 := by
    have hno : ¬1 ≤ final.samplesLen := by
      intro hpos
      have hrate := (outputLength_pos_iff false (L := 1) (f := 22050) (r := 44100) (by norm_num)
        (by norm_num)).mp (hlen ▸ hpos)
      have hbound := toAICA_le 22050 (by norm_num)
      omega
    omega
  exact ⟨final, hrun, fun out ↦ dca_run_aborts_iff _ _ _ _ hrun hlt out⟩

end DcaConv
