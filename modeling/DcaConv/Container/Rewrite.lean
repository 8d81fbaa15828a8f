import DcaConv.Container.RoundTrip
import DcaConv.Rate.RoundTrip

/-!
# Writing a loaded file again

A PCM file is loaded and written again in its own format. Every byte of the data comes back, and so
do length, channels and format. The loop does not: the loop of a `DcAudioConverter` is one of its
output settings, no loader touches it, and the file is written as the settings say.

## What a written file says about its state

A file the writer reports as written was sized without a wrap, whatever the state. The buffers may
be longer than the length, as `--trim-loop-end` leaves them, and the writer looks at their first
part only. Nor need the length be one its field holds: the header has it reduced, and `memcpy` too
is given a reduced number of bytes.
-/

namespace DcaConv

/-! ## Complete files -/

theorem length_fwriteAll_le (sink : FileSink) (i : ℕ) (chunks : List (List UInt8)) :
    (fwriteAll sink i chunks).length ≤ chunks.flatten.length := by
  induction chunks generalizing i with
  | nil => exact le_refl _
  | cons chunk chunks ih =>
    rw [fwriteAll, List.flatten_cons, List.length_append, List.length_append]
    exact Nat.add_le_add (List.length_take_le' _ _) (ih (i + 1))

/-- A file of full length holds everything. -/
theorem fwriteAll_of_length {sink : FileSink} {i : ℕ} {chunks : List (List UInt8)}
    (h : (fwriteAll sink i chunks).length = chunks.flatten.length) :
    fwriteAll sink i chunks = chunks.flatten := by
  induction chunks generalizing i with
  | nil => rfl
  | cons chunk chunks ih =>
    rw [fwriteAll, List.flatten_cons, List.length_append, List.length_append] at h
    have htake := List.length_take_le' (sink.accepts i chunk.length) chunk
    have hrest := length_fwriteAll_le sink (i + 1) chunks
    have hfull : (chunk.take (sink.accepts i chunk.length)).length = chunk.length := by omega
    rw [fwriteAll, List.flatten_cons, ih (by omega),
      List.IsPrefix.eq_of_length (List.take_prefix _ _) hfull]

/-! ## The part of a state that is written -/

/-- The state as far as the writer looks at it. -/
def writtenPart (cs : DcAudioConverter) : DcAudioConverter :=
  { cs with
    samples := (cs.samples.take cs.channelCnt).map (List.take (u32 cs.samplesLen))
    samplesLen := u32 cs.samplesLen
    loopStart := u32 cs.loopStart
    loopEnd := u32 cs.loopEnd }

section Written

variable {cs : DcAudioConverter}

theorem writeHeader_writtenPart (channelsize : ℕ) :
    writeHeader (writtenPart cs) channelsize = writeHeader cs channelsize := by
  have hmod : ∀ n, UInt32.ofNat (u32 n) = UInt32.ofNat n := fun n ↦ UInt32.ofNat_mod_size
  have hstart : (if cs.looping = true then UInt32.ofNat (u32 cs.loopStart) else 0)
      = if cs.looping = true then UInt32.ofNat cs.loopStart else 0 := by rw [hmod]
  have hend : UInt32.ofNat (if cs.looping = true then u32 cs.loopEnd else u32 cs.samplesLen)
      = UInt32.ofNat (if cs.looping = true then cs.loopEnd else cs.samplesLen) := by
    rw [apply_ite UInt32.ofNat, hmod, hmod, ← apply_ite UInt32.ofNat]
  have hlen := congrArg (fun n ↦ { writeHeader (writtenPart cs) channelsize with totalLength := n })
    (hmod cs.samplesLen)
  exact hlen.trans (congrArg₂ (fun a b ↦ { writeHeader cs channelsize with
    loopStart := a, loopEnd := b }) hstart hend)

/-- A PCM channel that is encoded fits its buffer, and is encoded from its first part. -/
theorem encodeChannel_eq_ok {channelsize : ℕ} {xs : List Int16} {block : List UInt8}
    (hformat : cs.format = .pcm16 ∨ cs.format = .pcm8)
    (h : encodeChannel cs channelsize xs = .ok block) :
    encodedLen cs ≤ xs.length ∧ payloadBytes cs.format.value (encodedLen cs) ≤ channelsize ∧
      block = encodedSamples cs.format (xs.take (encodedLen cs)) ++ List.replicate
        (channelsize - payloadBytes cs.format.value (encodedLen cs)) 0 := by
  rw [encodeChannel_pcm hformat] at h
  obtain ⟨data, hread, hstore⟩ := Fallible.bind_eq_ok.mp h
  obtain ⟨hle, rfl⟩ := Memory.read_eq_ok.mp hread
  obtain ⟨hfit, rfl⟩ := Memory.store_eq_ok.mp hstore
  rw [Nat.zero_add] at hle
  have hauto : cs.format ≠ .auto := by rcases hformat with hf | hf <;> rw [hf] <;> decide
  have hlen : (encodedSamples cs.format (xs.take (encodedLen cs))).length
      = payloadBytes cs.format.value (encodedLen cs) := by
    rw [length_encodedSamples hauto, List.length_take_of_le hle]
  rw [List.drop_zero, hlen] at hfit ⊢
  exact ⟨hle, hfit, rfl⟩

theorem clearAlignment_le (n : ℕ) : clearAlignment n ≤ n := Nat.div_mul_le_self n _

/-- A padded size that is not below the size itself has not wrapped. -/
theorem alignU32_u32_of_le {n : ℕ} (h : n ≤ alignU32 (u32 n)) :
    alignU32 (u32 n) = Memory.roundUp 32 n := by
  have hle := clearAlignment_le (u32 (u32 n + 0x1f))
  have hlt : u32 (u32 n + 0x1f) < 2 ^ 32 := Nat.mod_lt _ (by positivity)
  rw [← alignU32] at hle
  have hn : u32 n = n := u32_of_lt (by omega)
  rw [hn] at h hle ⊢
  have hsum : u32 (n + 0x1f) = (n + 0x1f) % 2 ^ 32 := rfl
  exact alignU32_eq (by omega)

theorem alignU32_lt (n : ℕ) : alignU32 n < 2 ^ 32 :=
  lt_of_le_of_lt (clearAlignment_le _) (Nat.mod_lt _ (by positivity))

/-- A PCM channel that fits was sized without a wrap, and its length in the header is the number of
samples it has. -/
theorem writeChannelSize_of_fit {channelsize : ℕ} (hformat : cs.format = .pcm16 ∨ cs.format = .pcm8)
    (h : writeChannelSize cs = .ok channelsize)
    (hfit : payloadBytes cs.format.value (encodedLen cs) ≤ channelsize) :
    encodedLen cs = u32 cs.samplesLen ∧
      channelsize = paddedChannelSize cs.format.value (encodedLen cs) := by
  have hunpadded : unpaddedChannelSize cs = u32 (payloadBytes cs.format.value (encodedLen cs)) :=
    unpaddedChannelSize_eq fun hadpcm ↦ by
      rcases hformat with hf | hf <;> rw [hf] at hadpcm <;> cases hadpcm
  have hsize := (writeChannelSize_eq_ok.mp h).2.2
  rw [hunpadded] at hsize
  rw [hsize] at hfit ⊢
  have hlt := hfit.trans_lt (alignU32_lt _)
  refine ⟨?_, alignU32_u32_of_le hfit⟩
  rw [encodedLen] at hlt ⊢
  rcases hformat with hf | hf
  · rw [hf, payloadBytes_pcm16, Target.size, Target.sizeBits] at hlt
    rw [hf, u32, Target.size, Target.sizeBits]
    dsimp only at hlt ⊢
    omega
  · rw [hf] at hlt ⊢
    exact (u32_of_lt hlt).symm

theorem le_payloadBytes_of_pcm (hformat : cs.format = .pcm16 ∨ cs.format = .pcm8) :
    cs.samplesLen ≤ payloadBytes cs.format.value cs.samplesLen := by
  rcases hformat with hf | hf
  · rw [hf, payloadBytes_pcm16]
    omega
  · rw [hf, payloadBytes_pcm8]

/-- All channels of a written state. -/
theorem encodedBlocks_eq {channelsize : ℕ} {blocks : List (List UInt8)}
    (hformat : cs.format = .pcm16 ∨ cs.format = .pcm8) (hne : cs.samples.take cs.channelCnt ≠ [])
    (h : (cs.samples.take cs.channelCnt).mapM (encodeChannel cs channelsize) = .ok blocks) :
    payloadBytes cs.format.value (encodedLen cs) ≤ channelsize ∧
      (∀ xs ∈ cs.samples.take cs.channelCnt, encodedLen cs ≤ xs.length) ∧
      blocks = (cs.samples.take cs.channelCnt).map fun xs ↦
        encodedSamples cs.format (xs.take (encodedLen cs)) ++ List.replicate
          (channelsize - payloadBytes cs.format.value (encodedLen cs)) 0 := by
  have hmap := Fallible.eq_map_of_mapM_eq_ok
    (fun xs block hok ↦ (encodeChannel_eq_ok hformat hok).2.2) h
  rw [Fallible.mapM_eq_ok_iff] at h
  have hchannel := h.imp fun xs block hok ↦ encodeChannel_eq_ok hformat hok
  refine ⟨?_, ?_, hmap⟩
  · obtain ⟨xs, rest, hfirst⟩ := List.exists_cons_of_ne_nil hne
    rw [hfirst, List.forall₂_cons_left_iff] at hchannel
    obtain ⟨block, blocks', hok, -⟩ := hchannel
    exact hok.2.1
  · intro xs hxs
    obtain ⟨i, hi, rfl⟩ := List.getElem_of_mem hxs
    rw [List.forall₂_iff_get] at hchannel
    exact (hchannel.2 i hi (hchannel.1 ▸ hi)).1

theorem take_writtenPart : (writtenPart cs).samples.take cs.channelCnt
    = (cs.samples.take cs.channelCnt).map (List.take (u32 cs.samplesLen)) := by
  rw [writtenPart, List.take_of_length_le]
  rw [List.length_map]
  exact List.length_take_le _ _

/-- A state whose header is accepted can be stored, as far as it is written. -/
theorem storable_writtenPart (hformat : cs.format = .pcm16 ∨ cs.format = .pcm8)
    (hcnt : 1 ≤ cs.channelCnt ∧ cs.channelCnt ≤ 7) (hchannels : cs.channelCnt ≤ cs.samples.length)
    (hlong : cs.longSound = false → cs.samplesLen ≤ dcacMaxSamples + 50)
    (hlengths : ∀ xs ∈ cs.samples.take cs.channelCnt, u32 cs.samplesLen ≤ xs.length)
    {channelsize : ℕ} (hvalid : ValidHeader (writeHeader cs channelsize)) :
    Storable (writtenPart cs) := by
  rw [← writeHeader_writtenPart] at hvalid
  have hpcm : (writtenPart cs).format = .pcm16 ∨ (writtenPart cs).format = .pcm8 := hformat
  have hlen : (writtenPart cs).samplesLen < 2 ^ 32 := Nat.mod_lt _ (by positivity)
  obtain ⟨hf, hc, hl, htotal⟩ := @writeHeader_fields (writtenPart cs) (by
    show cs.channelCnt < 8
    omega) hlen channelsize
  have hpos := hvalid.totalLength_pos
  have hsize := hvalid.size_eq
  have hfile : fDaGetFileSize (writeHeader (writtenPart cs) channelsize) < 2 ^ 32 :=
    fDaGetFileSize_lt _
  rw [htotal] at hpos
  rw [hf, hc, htotal, headerSize] at hsize
  rw [hsize] at hfile
  have hpayload := @le_payloadBytes_of_pcm (writtenPart cs) hformat
  have hpadded := payloadBytes_le_padded (writtenPart cs).format.value (writtenPart cs).samplesLen
  have hone : 1 * paddedChannelSize (writtenPart cs).format.value (writtenPart cs).samplesLen
      ≤ (writtenPart cs).channelCnt
        * paddedChannelSize (writtenPart cs).format.value (writtenPart cs).samplesLen :=
    Nat.mul_le_mul_right _ hcnt.1
  refine ⟨hcnt, ?_, ?_, ⟨hpos, by omega⟩, fun hshort ↦ ?_, ?_, ?_, fun hloop ↦ ?_, hfile⟩
  · show cs.channelCnt ≤ ((cs.samples.take cs.channelCnt).map _).length
    rw [List.length_map, List.length_take, Nat.min_eq_left hchannels]
  · intro xs hxs
    rw [show (writtenPart cs).channelCnt = cs.channelCnt from rfl, take_writtenPart] at hxs
    obtain ⟨ys, hys, rfl⟩ := List.mem_map.mp hxs
    exact List.length_take_of_le (hlengths ys hys)
  · exact (Nat.mod_le _ _).trans (hlong hshort)
  · rcases hpcm with hf | hf <;> rw [hf] <;> decide
  · intro hadpcm
    rcases hpcm with hf | hf <;> rw [hf] at hadpcm <;> cases hadpcm
  · have hmod : ∀ n, u32 (u32 n) = u32 n := fun n ↦ Nat.mod_mod _ _
    obtain ⟨hs, he⟩ := writeHeader_loop hloop channelsize
    rw [show (writtenPart cs).loopStart = u32 cs.loopStart from rfl, hmod] at hs
    rw [show (writtenPart cs).loopEnd = u32 cs.loopEnd from rfl, hmod] at he
    have hle := hvalid.loopStart_le
    have hle' := hvalid.loopEnd_le
    rw [fDaGetLength, ← fDaGetLoopEnd, he] at hle hle'
    rw [hs] at hle
    rw [htotal] at hle'
    exact ⟨hle, hle'⟩

/-- What is encoded of a state is the file of its written part. -/
theorem Encoded.written {channelsize : ℕ} {blocks : List (List UInt8)}
    (hformat : cs.format = .pcm16 ∨ cs.format = .pcm8) (h : Encoded cs channelsize blocks) :
    Storable (writtenPart cs) ∧ writeHeader cs channelsize = headerOf (writtenPart cs) ∧
      blocks = paddedBlocks (writtenPart cs) := by
  have hmem := h.channelCnt_mem
  have hle := h.channelCnt_le
  rw [dcaFileMaxChannels] at hmem
  have hset : cs.samples.take cs.channelCnt ≠ [] := by
    intro hnil
    have hzero := congrArg List.length hnil
    rw [List.length_take, List.length_nil] at hzero
    omega
  obtain ⟨hfit, hlengths, rfl⟩ := encodedBlocks_eq hformat hset h.blocks_eq
  obtain ⟨hlen, hpadded⟩ := writeChannelSize_of_fit hformat h.size_eq hfit
  have hvalid := (fDaValidateHeader_host_iff _).mp h.accepted
  rw [hlen] at hlengths hpadded ⊢
  refine ⟨storable_writtenPart hformat hmem hle h.fits hlengths hvalid, ?_, ?_⟩
  · rw [headerOf, writeHeader_writtenPart, hpadded]
    rfl
  · rw [paddedBlocks, show (writtenPart cs).channelCnt = cs.channelCnt from rfl, take_writtenPart,
      List.map_map, hpadded]
    rfl

/-- A file as long as its header says holds the header and all channels: no write was cut short. -/
theorem eq_of_writeResult (hs : Storable cs) {sink : FileSink} {bytes : List UInt8}
    (h : writeResult (headerOf cs) (paddedBlocks cs) (some sink) = (.ok, bytes)) :
    bytes = headerBytes (headerOf cs) ++ (paddedBlocks cs).flatten := by
  obtain ⟨hcode, rfl⟩ := Prod.mk.inj h
  have htotal := length_flatten_paddedBlocks hs
  have hfile := (headerOf_describes hs).fileSize_eq
  have hbound := hs.size_lt
  have hle := length_fwriteAll_le sink 0 (headerBytes (headerOf cs) :: paddedBlocks cs)
  rw [← List.flatten_cons]
  apply fwriteAll_of_length
  rw [List.flatten_cons, List.length_append, length_headerBytes, htotal, headerSize] at hle ⊢
  split at hcode
  · next hwritten =>
    rw [fDaGetFileSize] at hfile
    rw [u32_of_lt (by omega)] at hwritten
    omega
  · cases hcode

/-- What a reported success says: the written part can be stored, and the file is its header and
its padded channels. -/
theorem storable_of_fDcaWrite {sink : FileSink} {bytes : List UInt8}
    (hformat : cs.format = .pcm16 ∨ cs.format = .pcm8)
    (h : fDcaWrite cs (some sink) = .ok (.ok, bytes)) :
    Storable (writtenPart cs) ∧ bytes = headerBytes (headerOf (writtenPart cs)) ++
      (paddedBlocks (writtenPart cs)).flatten := by
  obtain ⟨hcode, -⟩ | ⟨hcode, -⟩ | ⟨channelsize, blocks, hencoded, hresult⟩ := fDcaWrite_cases h
  · cases hcode
  · cases hcode
  obtain ⟨hs, hheader, rfl⟩ := hencoded.written hformat
  rw [hheader] at hresult
  exact ⟨hs, eq_of_writeResult hs hresult.symm⟩

end Written

/-! ## Loading and writing again -/

/-- Decoding and encoding again is idle for PCM. -/
theorem encodedSamples_reloadedSamples {format : DcaFormat} (xs : List Int16)
    (hformat : format = .pcm16 ∨ format = .pcm8) :
    encodedSamples format (reloadedSamples format xs) = encodedSamples format xs := by
  rcases hformat with rfl | rfl
  · rfl
  · have hbyte : ∀ x, convertTo8bit (convertFrom8bit (convertTo8bit x)) = convertTo8bit x := by
      intro x
      have h := toInt_convertTo8bit (convertFrom8bit (convertTo8bit x))
      rw [toInt_convertFrom8bit_convertTo8bit, Int.mul_ediv_cancel _ (by norm_num),
        ← toInt_convertTo8bit] at h
      have hbytes := congrArg Int8.toUInt8 (Int8.toInt_inj.mp h)
      rwa [UInt8.toUInt8_toInt8, UInt8.toUInt8_toInt8] at hbytes
    rw [encodedSamples, reloadedSamples, List.map_map]
    exact List.map_congr_left fun x _ ↦ hbyte x

theorem length_reloadedSamples {format : DcaFormat} (xs : List Int16) (hformat : format ≠ .auto) :
    (reloadedSamples format xs).length = xs.length := by
  cases format with
  | pcm16 => rfl
  | pcm8 => exact List.length_map _
  | adpcm => rw [reloadedSamples, List.length_map, Transducer.length_states]
  | auto => exact absurd rfl hformat

/-- The state of a fresh converter that has loaded the file, set to the file's format. -/
def reloaded (cs : DcAudioConverter) (longSound : Bool) : DcAudioConverter :=
  { dcaInit with
    sampleRateHz := fDcaToAICAFrequency cs.sampleRateHz
    channelCnt := cs.channelCnt
    samples := (cs.samples.take cs.channelCnt).map (reloadedSamples cs.format)
    samplesLen := cs.samplesLen
    format := cs.format
    longSound := longSound }

section Reload

variable {cs : DcAudioConverter} {longSound : Bool}

theorem take_reloaded : (reloaded cs longSound).samples.take cs.channelCnt
    = (cs.samples.take cs.channelCnt).map (reloadedSamples cs.format) := by
  rw [reloaded, List.take_of_length_le]
  rw [List.length_map]
  exact List.length_take_le _ _

theorem storable_reloaded (h : Storable cs) (hformat : cs.format = .pcm16 ∨ cs.format = .pcm8)
    (hlong : longSound = false → cs.samplesLen ≤ dcacMaxSamples + 50) :
    Storable (reloaded cs longSound) := by
  refine ⟨h.channelCnt_mem, ?_, ?_, h.samplesLen_mem, hlong, h.format_ne, ?_, ?_, h.size_lt⟩
  · show cs.channelCnt ≤ ((cs.samples.take cs.channelCnt).map (reloadedSamples cs.format)).length
    rw [List.length_map, length_take_samples h]
  · intro xs hxs
    rw [show (reloaded cs longSound).channelCnt = cs.channelCnt from rfl, take_reloaded] at hxs
    obtain ⟨ys, hys, rfl⟩ := List.mem_map.mp hxs
    exact (length_reloadedSamples ys h.format_ne).trans (h.samples_length ys hys)
  · intro hadpcm
    have hadpcm' : cs.format = .adpcm := hadpcm
    rcases hformat with hf | hf <;> rw [hf] at hadpcm' <;> cases hadpcm'
  · intro hloop
    cases hloop

theorem paddedBlocks_reloaded (hformat : cs.format = .pcm16 ∨ cs.format = .pcm8) :
    paddedBlocks (reloaded cs longSound) = paddedBlocks cs := by
  rw [paddedBlocks, show (reloaded cs longSound).channelCnt = cs.channelCnt from rfl,
    take_reloaded, List.map_map, paddedBlocks]
  refine List.map_congr_left fun xs _ ↦ ?_
  exact congrArg (· ++ _) (encodedSamples_reloadedSamples xs hformat)

/-- The two files, with the same data behind their headers. -/
theorem rewrite_eq (h : Storable cs) (hformat : cs.format = .pcm16 ∨ cs.format = .pcm8)
    (hlong : longSound = false → cs.samplesLen ≤ dcacMaxSamples + 50) :
    ∃ out, fDcaLoad dcaInit (some (.whole (headerBytes (headerOf cs) ++
        (paddedBlocks cs).flatten))) = .ok (.ok, out) ∧
      fDcaWrite { out with format := cs.format, longSound := longSound } (some .whole) = .ok (.ok,
        headerBytes (headerOf (reloaded cs longSound)) ++ (paddedBlocks cs).flatten) := by
  have hwrite := fDcaWrite_eq (storable_reloaded h hformat hlong)
  rw [paddedBlocks_reloaded hformat] at hwrite
  refine ⟨_, fDcaLoad_eq h (headerOf_describes h) dcaInit, ?_⟩
  rw [← hwrite]
  have hempty : dcaInit.samples.drop cs.channelCnt = [] := List.drop_nil
  rw [hempty, List.append_nil]
  rfl

end Reload

/-! ## The two headers -/

/-- What the second header has of the first. -/
structure RewrittenHeader (freqHz : ℕ) (head head' : FDcAudioHeader) : Prop where
  fileSize_eq : fDaGetFileSize head' = fDaGetFileSize head
  format_eq : fDaGetSampleFormat head' = fDaGetSampleFormat head
  channelCount_eq : fDaGetChannelCount head' = fDaGetChannelCount head
  totalLength_eq : fDaGetTotalLength head' = fDaGetTotalLength head
  rate_eq : KeepsCode freqHz → fDaGetSampleRateAICA head' = fDaGetSampleRateAICA head
  looping_eq : fDaIsLooping head' = 0
  loop_eq : fDaGetLoopStart head' = 0 ∧ fDaGetLoopEnd head' = fDaGetTotalLength head'
  plain_eq : fDaIsLooping head = 0 → fDaGetLoopStart head' = fDaGetLoopStart head ∧
    fDaGetLoopEnd head' = fDaGetLoopEnd head

section Headers

variable {cs : DcAudioConverter} {longSound : Bool}

theorem rewrittenHeader (hlo : 172 ≤ cs.sampleRateHz) (hhi : cs.sampleRateHz ≤ 88200)
    (hd : Describes (headerOf cs) cs)
    (hd' : Describes (headerOf (reloaded cs longSound)) (reloaded cs longSound)) :
    RewrittenHeader cs.sampleRateHz (headerOf cs) (headerOf (reloaded cs longSound)) := by
  obtain ⟨hstart, hend⟩ := hd'.plain_eq rfl
  refine ⟨hd'.fileSize_eq.trans hd.fileSize_eq.symm, hd'.format_eq.trans hd.format_eq.symm,
    hd'.channelCount_eq.trans hd.channelCount_eq.symm,
    hd'.totalLength_eq.trans hd.totalLength_eq.symm, fun hkeeps ↦ ?_, ?_,
    ⟨hstart, hend.trans hd'.totalLength_eq.symm⟩, fun hplain ↦ ?_⟩
  · rw [hd'.rate_eq, hd.rate_eq]
    exact ((code_eq_iff_keepsCode hlo (by omega)).mpr hkeeps).symm
  · by_contra hlooping
    cases hd'.looping_iff.mp hlooping
  · have hnot : cs.looping = false := by
      rw [← Bool.not_eq_true, ← hd.looping_iff]
      exact not_not.mpr hplain
    obtain ⟨hstart', hend'⟩ := hd.plain_eq hnot
    exact ⟨hstart.trans hstart'.symm, hend.trans hend'.symm⟩

/-- The two files are the same exactly when the first does not loop and its rate keeps its code. -/
theorem headerOf_reloaded_eq_iff (h : Storable cs) (hformat : cs.format = .pcm16 ∨ cs.format = .pcm8)
    (hlong : longSound = false → cs.samplesLen ≤ dcacMaxSamples + 50)
    (hlo : 172 ≤ cs.sampleRateHz) (hhi : cs.sampleRateHz ≤ 88200) :
    headerOf (reloaded cs longSound) = headerOf cs ↔
      cs.looping = false ∧ KeepsCode cs.sampleRateHz := by
  have hd := headerOf_describes h
  have hd' := headerOf_describes (storable_reloaded h hformat hlong)
  rw [← code_eq_iff_keepsCode hlo (by omega)]
  constructor
  · intro hsame
    rw [hsame] at hd'
    refine ⟨?_, hd.rate_eq.symm.trans hd'.rate_eq⟩
    rw [← Bool.not_eq_true, ← hd.looping_iff, hd'.looping_iff]
    exact Bool.false_ne_true
  · rintro ⟨hplain, hcode⟩
    have hflags : writeFlags (reloaded cs longSound) = writeFlags cs := by
      rw [writeFlags, writeFlags, hplain]
      rfl
    rw [headerOf, headerOf, writeHeader, writeHeader, hflags, hplain]
    exact congrArg (fun code ↦ { writeHeader cs (paddedChannelSize cs.format.value cs.samplesLen) with
      sampleRateAica := UInt16.ofNat code
      loopStart := 0
      loopEnd := UInt32.ofNat cs.samplesLen }) hcode.symm

end Headers

/-- **Rewriting a PCM file.** The data comes back byte for byte, under a header that differs in its
loop fields, and in the rate where the rounded rate has another code. -/
theorem rewritten_pcm {cs : DcAudioConverter} {sink : FileSink} {bytes : List UInt8}
    (hformat : cs.format = .pcm16 ∨ cs.format = .pcm8) (hlo : 172 ≤ cs.sampleRateHz)
    (hhi : cs.sampleRateHz ≤ 88200) (hwrite : fDcaWrite cs (some sink) = .ok (.ok, bytes))
    (longSound : Bool) (hlong : longSound = false → cs.samplesLen ≤ dcacMaxSamples + 50) :
    ∃ head head' data out, bytes = headerBytes head ++ data ∧
      fDcaLoad dcaInit (some (.whole bytes)) = .ok (.ok, out) ∧
      fDcaWrite { out with format := cs.format, longSound := longSound } (some .whole)
        = .ok (.ok, headerBytes head' ++ data) ∧
      RewrittenHeader cs.sampleRateHz head head' := by
  obtain ⟨hs, rfl⟩ := storable_of_fDcaWrite hformat hwrite
  have hformat' : (writtenPart cs).format = .pcm16 ∨ (writtenPart cs).format = .pcm8 := hformat
  have hlong' : longSound = false → (writtenPart cs).samplesLen ≤ dcacMaxSamples + 50 :=
    fun hshort ↦ (Nat.mod_le _ _).trans (hlong hshort)
  obtain ⟨out, hload, hwrite'⟩ := rewrite_eq hs hformat' hlong'
  exact ⟨_, _, _, out, rfl, hload, hwrite', @rewrittenHeader (writtenPart cs) longSound hlo hhi
    (headerOf_describes hs) (headerOf_describes (storable_reloaded hs hformat' hlong'))⟩

/-- A looping square wave of four samples. -/
def loopingSquare : DcAudioConverter :=
  ⟨22050, 1, [[900, 900, -900, -900]], 4, .pcm16, 0, 0, false, true, 1, 3⟩

theorem storable_loopingSquare : Storable loopingSquare :=
  ⟨by decide, by decide, by decide, by decide, by decide, by decide, by decide, by decide,
    by decide⟩

theorem rewritten_pcm_square : ∃ bytes head head' data out,
    fDcaWrite loopingSquare (some .whole) = .ok (.ok, bytes) ∧ bytes = headerBytes head ++ data ∧
      fDcaLoad dcaInit (some (.whole bytes)) = .ok (.ok, out) ∧
      fDcaWrite { out with format := loopingSquare.format, longSound := false } (some .whole)
        = .ok (.ok, headerBytes head' ++ data) ∧
      RewrittenHeader loopingSquare.sampleRateHz head head' := by
  have hwrite := fDcaWrite_eq storable_loopingSquare
  obtain ⟨head, head', data, out, hrest⟩ :=
    rewritten_pcm (Or.inl rfl) (by decide) (by decide) hwrite false (by decide)
  exact ⟨_, head, head', data, out, hwrite, hrest⟩

/-- Its loop is gone from the second file. -/
theorem loop_not_rewritten : ∃ head head' data out,
    fDcaWrite loopingSquare (some .whole) = .ok (.ok, headerBytes head ++ data) ∧
      fDcaLoad dcaInit (some (.whole (headerBytes head ++ data))) = .ok (.ok, out) ∧
      fDcaWrite { out with format := loopingSquare.format, longSound := false } (some .whole)
        = .ok (.ok, headerBytes head' ++ data) ∧
      fDaIsLooping head ≠ 0 ∧ fDaIsLooping head' = 0 ∧
      headerBytes head' ++ data ≠ headerBytes head ++ data := by
  have hd := headerOf_describes storable_loopingSquare
  have hd' := headerOf_describes
    (@storable_reloaded _ false storable_loopingSquare (Or.inl rfl) (by decide))
  obtain ⟨out, hload, hwrite⟩ :=
    @rewrite_eq _ false storable_loopingSquare (Or.inl rfl) (by decide)
  have hplain : fDaIsLooping (headerOf (reloaded loopingSquare false)) = 0 := by
    by_contra hlooping
    cases hd'.looping_iff.mp hlooping
  have hlooping : fDaIsLooping (headerOf loopingSquare) ≠ 0 := hd.looping_iff.mpr rfl
  refine ⟨_, _, _, out, fDcaWrite_eq storable_loopingSquare, hload, hwrite, hlooping, hplain, ?_⟩
  intro hsame
  have hfields := loadHeader_headerBytes (headerOf (reloaded loopingSquare false))
    (paddedBlocks loopingSquare).flatten
  rw [hsame, loadHeader_headerBytes, Except.ok.injEq] at hfields
  rw [hfields] at hlooping
  exact hlooping hplain

end DcaConv
