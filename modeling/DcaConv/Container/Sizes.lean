import DcaConv.Adpcm.Extent
import DcaConv.Container.Rewrite

/-!
# The writer's sizes

`fDcaWrite` computes in `unsigned` from a length that is a `size_t`. It is narrowed, doubled or
rounded to bytes, rounded up to the alignment, multiplied by the channels, and narrowed once more
for the header. Every one of these steps wraps from its own length on. None did when the file with
its padding and its header is smaller than 4 GiB and the length leaves room for the encoder's
`length + 1`, and the header is then one the validator accepts.

The last section compares the size of an ADPCM channel with what the codec's loops touch.
-/

namespace DcaConv

open Program

/-! ## Getting to the encoders -/

/-- The checks before the encoders are passed, with buffers of `channelsize` bytes. -/
structure ReachesEncoders (cs : DcAudioConverter) (channelsize : ℕ) : Prop where
  channelCnt_mem : 1 ≤ cs.channelCnt ∧ cs.channelCnt ≤ dcaFileMaxChannels
  channelCnt_le : cs.channelCnt ≤ cs.samples.length
  fits : cs.longSound = false → cs.samplesLen ≤ dcacMaxSamples + 50
  size_eq : writeChannelSize cs = .ok channelsize

/-- The writer from there on. -/
theorem ReachesEncoders.fDcaWrite_eq {cs : DcAudioConverter} {channelsize : ℕ}
    (h : ReachesEncoders cs channelsize) (out : Option FileSink) :
    fDcaWrite cs out = (do
      let blocks ← (cs.samples.take cs.channelCnt).mapM (encodeChannel cs channelsize)
      if fDaValidateHeader (writeHeader cs channelsize) .host then
        .ok (writeResult (writeHeader cs channelsize) blocks out)
      else .error .assertion) := by
  obtain ⟨hpos, hmax⟩ := h.channelCnt_mem
  have hle := h.channelCnt_le
  have hlong : ¬((!cs.longSound) = true ∧ dcacMaxSamples + 50 < cs.samplesLen) := by
    rintro ⟨hshort, hlt⟩
    have hfits := h.fits (by simpa using hshort)
    omega
  rw [fDcaWrite, if_neg (by omega), if_neg hlong, if_neg (by omega), h.size_eq, Fallible.ok_bind]
  cases out with
  | none => rfl
  | some sink => rfl

/-! ## Exact sizes -/

/-- Each channel's bytes fit its buffer, and the header counts bytes and samples as they are. -/
structure ExactSizes (cs : DcAudioConverter) (channelsize : ℕ) : Prop where
  fits : ∀ xs : List Int16, cs.samplesLen ≤ xs.length →
    ∃ block, encodeChannel cs channelsize xs = .ok block
  chunkSize_eq : (writeHeader cs channelsize).chunkSize.toNat = 32 + channelsize * cs.channelCnt
  totalLength_eq : (writeHeader cs channelsize).totalLength.toNat = cs.samplesLen
  accepted : fDaValidateHeader (writeHeader cs channelsize) .host = true

/-- The writer stops early or its sizes are exact. -/
def SizesExact (cs : DcAudioConverter) : Prop :=
  ∀ channelsize, ReachesEncoders cs channelsize → ExactSizes cs channelsize

/-- A length and a file that 32 bits hold, and a loop that lies inside the sound. -/
structure SizesFit (cs : DcAudioConverter) : Prop where
  samplesLen_mem : 1 ≤ cs.samplesLen ∧ cs.samplesLen + 1 < 2 ^ 32
  size_lt : 32 + cs.channelCnt * paddedChannelSize cs.format.value cs.samplesLen < 2 ^ 32
  loop : cs.looping = true →
    u32 cs.loopStart ≤ u32 cs.loopEnd ∧ u32 cs.loopEnd ≤ cs.samplesLen

section Sizes

variable {cs : DcAudioConverter} {channelsize : ℕ}

/-- The state with silence in its buffers: it has the same sizes. -/
def silenced (cs : DcAudioConverter) : DcAudioConverter :=
  { cs with
    samples := List.replicate cs.channelCnt (List.replicate cs.samplesLen 0)
    loopStart := u32 cs.loopStart
    loopEnd := u32 cs.loopEnd }

theorem writeHeader_silenced (hlen : cs.samplesLen < 2 ^ 32) (channelsize : ℕ) :
    writeHeader (silenced cs) channelsize = writeHeader cs channelsize := by
  have hpart : writeHeader (silenced cs) channelsize = writeHeader (writtenPart cs) channelsize := by
    rw [writtenPart, u32_of_lt hlen]
    rfl
  exact hpart.trans (writeHeader_writtenPart channelsize)

theorem SizesFit.storable_silenced (h : SizesFit cs) (hreach : ReachesEncoders cs channelsize) :
    Storable (silenced cs) := by
  obtain ⟨hauto, hrate, -⟩ := writeChannelSize_eq_ok.mp hreach.size_eq
  refine ⟨hreach.channelCnt_mem, List.length_replicate.ge, fun xs hxs ↦ ?_, h.samplesLen_mem,
    hreach.fits, hauto, hrate, h.loop, h.size_lt⟩
  rw [List.eq_of_mem_replicate (List.mem_of_mem_take hxs)]
  exact List.length_replicate

/-- Sizes that fit are exact. -/
theorem SizesFit.exactSizes (h : SizesFit cs) (hreach : ReachesEncoders cs channelsize) :
    ExactSizes cs channelsize := by
  obtain ⟨hpos, hlt⟩ := h.samplesLen_mem
  have hs := h.storable_silenced hreach
  have hd := headerOf_describes hs
  obtain ⟨hauto, -, -⟩ := writeChannelSize_eq_ok.mp hreach.size_eq
  have hsize := writeChannelSize_eq hs
  have hpadded : channelsize = paddedChannelSize cs.format.value cs.samplesLen :=
    Except.ok.inj (hreach.size_eq.symm.trans hsize)
  have hheader : writeHeader cs channelsize = headerOf (silenced cs) := by
    rw [← writeHeader_silenced (by omega), hpadded]
    rfl
  rw [← hheader] at hd
  refine ⟨fun xs hxs ↦ ?_, ?_, hd.totalLength_eq,
    (fDaValidateHeader_host_iff _).mpr (hd.valid hs)⟩
  · have hbytes : (encodedSamples cs.format (xs.take (encodedLen cs))).length ≤ channelsize := by
      rw [length_encodedSamples hauto, encodedLen_of_lt (by omega), List.length_take_of_le hxs,
        hpadded]
      exact payloadBytes_le_padded _ _
    rw [encodeChannel_of_le hauto hpos (by omega) hxs, Memory.store_of_le hbytes]
    exact ⟨_, rfl⟩
  · rw [Nat.mul_comm]
    exact hd.fileSize_eq.trans (by rw [hpadded]; rfl)

/-- At the last length the encoder's `length + 1` wraps; PCM overflows before it. -/
theorem length_lt_of_fits (hauto : cs.format ≠ .auto) (hlen : cs.samplesLen < 2 ^ 32)
    (hfit : payloadBytes cs.format.value cs.samplesLen ≤ alignU32 (unpaddedChannelSize cs)) :
    cs.samplesLen + 1 < 2 ^ 32 := by
  have hlt := hfit.trans_lt (alignU32_lt _)
  by_contra hlast
  have hn : cs.samplesLen = 2 ^ 32 - 1 := by omega
  cases hf : cs.format with
  | pcm16 =>
    rw [hf, payloadBytes_pcm16] at hlt
    omega
  | pcm8 =>
    rw [unpaddedChannelSize, hf, hn] at hfit
    exact absurd hfit (by decide)
  | adpcm =>
    rw [unpaddedChannelSize, hf, hn] at hfit
    exact absurd hfit (by decide)
  | auto => exact hauto hf

/-- Exact sizes fit. -/
theorem ExactSizes.sizesFit (h : ExactSizes cs channelsize)
    (hreach : ReachesEncoders cs channelsize) : SizesFit cs := by
  obtain ⟨hauto, -, hsize⟩ := writeChannelSize_eq_ok.mp hreach.size_eq
  have htotal := h.totalLength_eq
  have hlen : cs.samplesLen < 2 ^ 32 := htotal ▸ UInt32.toNat_lt _
  have hvalid := (fDaValidateHeader_host_iff _).mp h.accepted
  have hpos : 1 ≤ cs.samplesLen := htotal ▸ hvalid.totalLength_pos
  have hfit : payloadBytes cs.format.value cs.samplesLen ≤ channelsize := by
    obtain ⟨block, hblock⟩ := h.fits (List.replicate cs.samplesLen 0) List.length_replicate.ge
    rw [encodeChannel_of_le hauto hpos (by omega) List.length_replicate.ge] at hblock
    have hstore := (Memory.store_eq_ok.mp hblock).1
    rwa [length_encodedSamples hauto, encodedLen_of_lt (by omega),
      List.length_take_of_le List.length_replicate.ge] at hstore
  have hlen' := length_lt_of_fits hauto hlen (hsize ▸ hfit)
  have hpadded : channelsize = paddedChannelSize cs.format.value cs.samplesLen := by
    have hunpadded := @unpaddedChannelSize_eq cs fun _ ↦ hlen'
    rw [encodedLen_of_lt (by omega)] at hunpadded
    rw [hsize, hunpadded] at hfit ⊢
    exact alignU32_u32_of_le hfit
  refine ⟨⟨hpos, hlen'⟩, ?_, fun hloop ↦ ?_⟩
  · have hchunk := UInt32.toNat_lt (writeHeader cs channelsize).chunkSize
    rw [h.chunkSize_eq, Nat.mul_comm] at hchunk
    rwa [hpadded] at hchunk
  · obtain ⟨hstart, hend⟩ := writeHeader_loop hloop channelsize
    have hle := hvalid.loopStart_le
    have hle' := hvalid.loopEnd_le
    rw [fDaGetLength, ← fDaGetLoopEnd, hend] at hle hle'
    rw [hstart] at hle
    rw [fDaGetTotalLength, htotal] at hle'
    exact ⟨hle, hle'⟩

/-- **Sizes.** The 32-bit arithmetic of a long sound is exact when the writer stops before it
encodes, and otherwise exactly when length, file and loop fit. -/
theorem sizesExact_iff (cs : DcAudioConverter) (hlong : cs.longSound = true)
    (hchannels : 1 ≤ cs.channelCnt ∧ cs.channelCnt ≤ 7) (hformat : cs.format ≠ .auto) :
    SizesExact cs ↔ cs.samples.length < cs.channelCnt ∨
      (cs.format = .adpcm ∧ 88200 < cs.sampleRateHz) ∨ SizesFit cs := by
  constructor
  · intro h
    by_contra hnot
    push Not at hnot
    obtain ⟨hbuffers, hrate, hfit⟩ := hnot
    have hsize : writeChannelSize cs = .ok (alignU32 (unpaddedChannelSize cs)) :=
      writeChannelSize_eq_ok.mpr ⟨hformat, hrate, rfl⟩
    have hreach : ReachesEncoders cs (alignU32 (unpaddedChannelSize cs)) :=
      ⟨hchannels, hbuffers, fun hshort ↦ (by rw [hlong] at hshort; cases hshort), hsize⟩
    exact hfit ((h _ hreach).sizesFit hreach)
  · rintro (hbuffers | ⟨hadpcm, hrate⟩ | hfit) channelsize hreach
    · exact absurd hreach.channelCnt_le (not_le.mpr hbuffers)
    · exact absurd ((writeChannelSize_eq_ok.mp hreach.size_eq).2.1 hadpcm) (not_le.mpr hrate)
    · exact hfit.exactSizes hreach

end Sizes

/-- Three looping samples of a sound that is marked long. -/
def threeSamples : DcAudioConverter := ⟨44100, 1, [[1, 2, 3]], 3, .pcm8, 0, 0, true, true, 1, 3⟩

theorem sizesExact_iff_three : SizesExact threeSamples :=
  (sizesExact_iff threeSamples rfl (by decide) (by decide)).mpr
    (Or.inr (Or.inr ⟨by decide, by decide, fun _ ↦ by decide⟩))

/-- 2 ^ 31 samples of 16 bits, for which the writer allocates no bytes. -/
def wrappedSound : DcAudioConverter :=
  ⟨44100, 1, [List.replicate (2 ^ 31) 0], 2 ^ 31, .pcm16, 0, 0, true, false, 0, 0⟩

theorem wrappedSound_reachesEncoders : ReachesEncoders wrappedSound 0 :=
  ⟨by decide, Nat.le_refl 1, fun h ↦ (by cases h),
    writeChannelSize_eq_ok.mpr ⟨by decide, by decide, by decide⟩⟩

theorem sizes_wrap : ¬∀ cs : DcAudioConverter, cs.longSound = true →
    1 ≤ cs.channelCnt ∧ cs.channelCnt ≤ 7 → cs.samplesLen < 2 ^ 64 → cs.format ≠ .auto →
      SizesExact cs := by
  intro h
  have hexact := h wrappedSound rfl (by decide) (by decide) (by decide) 0
    wrappedSound_reachesEncoders
  exact absurd (hexact.sizesFit wrappedSound_reachesEncoders).size_lt (by decide)

/-! ## The extents of the ADPCM loops -/

/-- For `n` samples both loops touch exactly the samples and their bytes, and both size computations
arrive at that number of bytes before they pad it. -/
structure ExtentsExact (n : ℕ) : Prop where
  encodes : EncodesExactly n
  decodes : DecodesExactly n
  sizes : ∀ cs : DcAudioConverter, cs.format = .adpcm → cs.samplesLen = n →
    1 ≤ cs.channelCnt ∧ cs.channelCnt ≤ dcaFileMaxChannels →
      unpaddedChannelSize cs = (n + 1) / 2 ∧
        ∀ channelsize t, unpaddedSizeBytes (writeHeader cs channelsize) t = (n + 1) / 2

section Extents

variable {n : ℕ}

theorem adpcmSizes_eq (hn : n + 1 < 2 ^ 32) {cs : DcAudioConverter} (hformat : cs.format = .adpcm)
    (hlen : cs.samplesLen = n)
    (hchannels : 1 ≤ cs.channelCnt ∧ cs.channelCnt ≤ dcaFileMaxChannels) :
    unpaddedChannelSize cs = (n + 1) / 2 ∧
      ∀ channelsize t, unpaddedSizeBytes (writeHeader cs channelsize) t = (n + 1) / 2 := by
  subst hlen
  refine ⟨?_, fun channelsize t ↦ ?_⟩
  · rw [unpaddedChannelSize_eq fun _ ↦ hn, encodedLen_of_lt (by omega), hformat,
      payloadBytes_adpcm, u32_of_lt (by omega)]
  · obtain ⟨hf, -, -, htotal⟩ := writeHeader_fields (Nat.lt_succ_of_le hchannels.2) (by omega)
      channelsize
    rw [unpaddedSizeBytes, hf, htotal, hformat, if_neg (by decide),
      if_pos (by decide), t.size_of_lt hn]

theorem ExtentsExact.length_lt (h : ExtentsExact n) : n + 1 < 2 ^ 32 := by
  have hsize := (h.sizes { dcaInit with format := .adpcm, samplesLen := n, channelCnt := 1 } rfl rfl
    ⟨Nat.le_refl 1, by norm_num [dcaFileMaxChannels]⟩).1
  have hlt : u32 (u32 n + 1) < 2 ^ 32 := Nat.mod_lt _ (by norm_num)
  rw [unpaddedChannelSize] at hsize
  dsimp only at hsize
  omega

/-- **Extents.** Both loops touch exactly what belongs to their length, whatever it is; the sizes
the container computes are theirs as long as the writer's `length + 1` does not wrap. -/
theorem extentsExact_iff (n : ℕ) (hpos : 1 ≤ n) (hlt : n < 2 ^ 64) :
    ExtentsExact n ↔ n + 1 < 2 ^ 32 :=
  ⟨ExtentsExact.length_lt, fun hn ↦
    ⟨encodesExactly hpos hlt, decodesExactly hpos hlt, fun _ ↦ adpcmSizes_eq hn⟩⟩

theorem extentsExact_iff_five : ExtentsExact 5 :=
  (extentsExact_iff 5 (by norm_num) (by norm_num)).mpr (by norm_num)

/-- The last length of 32 bits: the writer sizes its 2 ^ 31 bytes as 0. -/
theorem extents_wrap : ¬∀ n, 1 ≤ n → n < 2 ^ 64 → ExtentsExact n := by
  intro h
  have hlt := (h (2 ^ 32 - 1) (by norm_num) (by norm_num)).length_lt
  omega

end Extents

end DcaConv
