import DcaConv.Header.Basic

/-!
# What an accepted header guarantees

The validator never tests the channel count, the length or the position of any channel. They follow
from its size equation: an empty sound or a header without channels would declare 32 bytes, which
the minimum-size test refuses, and every other count puts the channels one after another from byte
32 to the end of the file.

The playback fields are another matter. They are compared with weak inequalities only, so an
accepted header may have an empty loop range, or a partial one without the loop flag.
-/

namespace DcaConv

/-- The bytes that hold the samples of channel `c`. -/
def channelBytes (dca : FDcAudioHeader) (c : ℕ) : Set ℕ :=
  Set.Ico (fDaGetChannelSamples dca .host c) (fDaGetChannelSamples dca .host c
    + payloadBytes (fDaGetSampleFormat dca) (fDaGetTotalLength dca))

/-- The bytes of channel `c` with its padding. -/
def paddedChannelBytes (dca : FDcAudioHeader) (c : ℕ) : Set ℕ :=
  Set.Ico (fDaGetChannelSamples dca .host c)
    (fDaGetChannelSamples dca .host c + fDaCalcChannelSizeBytes dca .host)

/-- A header whose declared layout can be trusted. -/
structure LayoutSound (dca : FDcAudioHeader) : Prop where
  channelCount_mem : 1 ≤ fDaGetChannelCount dca ∧ fDaGetChannelCount dca ≤ 7
  totalLength_pos : 1 ≤ fDaGetTotalLength dca
  format_mem : fDaGetSampleFormat dca = dcaFlagFormatPcm16 ∨
    fDaGetSampleFormat dca = dcaFlagFormatPcm8 ∨ fDaGetSampleFormat dca = dcaFlagFormatAdpcm
  start_eq : ∀ c < fDaGetChannelCount dca,
    fDaGetChannelSamples dca .host c = 32 + c * fDaCalcChannelSizeBytes dca .host
  aligned : ∀ c < fDaGetChannelCount dca, 32 ∣ fDaGetChannelSamples dca .host c
  inside : ∀ c < fDaGetChannelCount dca,
    channelBytes dca c ⊆ Set.Ico 32 (fDaGetFileSize dca)
  disjoint : ∀ c < fDaGetChannelCount dca, ∀ c' < fDaGetChannelCount dca, c ≠ c' →
    Disjoint (channelBytes dca c) (channelBytes dca c')
  fills : fDaGetChannelCount dca * fDaCalcChannelSizeBytes dca .host = fDaGetDataSize dca .host
  tiles : ⋃ c ∈ Set.Iio (fDaGetChannelCount dca), paddedChannelBytes dca c
    = Set.Ico 32 (32 + fDaGetDataSize dca .host)

/-! ## Consequences of the size equation -/

theorem ValidHeader.channelCount_pos {dca : FDcAudioHeader} (h : ValidHeader dca) :
    1 ≤ fDaGetChannelCount dca := by
  by_contra hzero
  have hcount : fDaGetChannelCount dca = 0 := by omega
  have hsize := h.size_eq
  rw [hcount, Nat.zero_mul] at hsize
  have := h.size_gt
  omega

theorem ValidHeader.totalLength_pos {dca : FDcAudioHeader} (h : ValidHeader dca) :
    1 ≤ fDaGetTotalLength dca := by
  by_contra hzero
  have hlen : fDaGetTotalLength dca = 0 := by omega
  have hsize := h.size_eq
  rw [hlen, paddedChannelSize_zero, Nat.mul_zero] at hsize
  have := h.size_gt
  omega

theorem ValidHeader.format_mem {dca : FDcAudioHeader} (h : ValidHeader dca) :
    fDaGetSampleFormat dca = dcaFlagFormatPcm16 ∨ fDaGetSampleFormat dca = dcaFlagFormatPcm8 ∨
      fDaGetSampleFormat dca = dcaFlagFormatAdpcm := by
  have hne := h.format_ne
  have hle := sampleFormat_le dca
  simp only [dcaFlagFormatInvalid, dcaFlagFormatPcm16, dcaFlagFormatPcm8,
    dcaFlagFormatAdpcm] at hne ⊢
  omega

/-- Channel offsets on the host are exact. -/
theorem fDaGetChannelSamples_host (dca : FDcAudioHeader) {c : ℕ}
    (hc : c ≤ fDaGetChannelCount dca) :
    fDaGetChannelSamples dca .host c = 32 + fDaCalcChannelSizeBytes dca .host * c := by
  have hlen := totalLength_lt dca
  have hpay := payloadBytes_le (fDaGetSampleFormat dca) (fDaGetTotalLength dca)
  have hpad := paddedChannelSize_lt (fDaGetSampleFormat dca) (fDaGetTotalLength dca)
  have hmul : fDaCalcChannelSizeBytes dca .host * c ≤ fDaCalcChannelSizeBytes dca .host * 7 :=
    Nat.mul_le_mul_left _ (hc.trans (channelCount_le dca))
  rw [fDaCalcChannelSizeBytes_host] at hmul ⊢
  rw [fDaGetChannelSamples, fDaCalcChannelSizeBytes_host, Target.size_host (by omega), headerSize]

theorem ValidHeader.fileSize_eq {dca : FDcAudioHeader} (h : ValidHeader dca) :
    fDaGetFileSize dca
      = 32 + fDaCalcChannelSizeBytes dca .host * fDaGetChannelCount dca := by
  rw [h.size_eq, fDaCalcChannelSizeBytes_host, headerSize, Nat.mul_comm]

theorem ValidHeader.dataSize_eq {dca : FDcAudioHeader} (h : ValidHeader dca) :
    fDaGetDataSize dca .host
      = fDaCalcChannelSizeBytes dca .host * fDaGetChannelCount dca := by
  have hsize := h.fileSize_eq
  have hlt : dca.chunkSize.toNat < 2 ^ 32 := dca.chunkSize.toNat_lt
  rw [fDaGetFileSize] at hsize
  rw [fDaGetDataSize, Target.size, Target.sizeBits, headerSize]
  omega

/-- **Layout of an accepted header.** Its channels are real, aligned, inside the file, pairwise
disjoint, and together they are the data. -/
theorem validated_layout_sound (dca : FDcAudioHeader)
    (haccept : fDaValidateHeader dca .host = true) : LayoutSound dca := by
  have h := (fDaValidateHeader_host_iff dca).mp haccept
  have hpay : payloadBytes (fDaGetSampleFormat dca) (fDaGetTotalLength dca)
      ≤ fDaCalcChannelSizeBytes dca .host := by
    rw [fDaCalcChannelSizeBytes_host]
    exact payloadBytes_le_padded _ _
  have hdvd : 32 ∣ fDaCalcChannelSizeBytes dca .host := by
    rw [fDaCalcChannelSizeBytes_host]
    exact dvd_paddedChannelSize _ _
  have hstart : ∀ c < fDaGetChannelCount dca,
      fDaGetChannelSamples dca .host c = 32 + fDaCalcChannelSizeBytes dca .host * c :=
    fun c hc ↦ fDaGetChannelSamples_host dca hc.le
  refine ⟨⟨h.channelCount_pos, channelCount_le dca⟩, h.totalLength_pos, h.format_mem,
    ?_, ?_, ?_, ?_, ?_, ?_⟩
  · intro c hc
    rw [hstart c hc, Nat.mul_comm]
  · intro c hc
    rw [hstart c hc]
    exact Nat.dvd_add (dvd_refl 32) (hdvd.mul_right c)
  · intro c hc
    have hlast : fDaCalcChannelSizeBytes dca .host * (c + 1)
        ≤ fDaCalcChannelSizeBytes dca .host * fDaGetChannelCount dca := Nat.mul_le_mul_left _ hc
    rw [Nat.mul_succ] at hlast
    rw [channelBytes, hstart c hc, h.fileSize_eq]
    exact Set.Ico_subset_Ico (by omega) (by omega)
  · intro c hc c' hc' hne
    rw [channelBytes, channelBytes, hstart c hc, hstart c' hc']
    exact Memory.disjoint_Ico_blocks hpay hne
  · rw [h.dataSize_eq, Nat.mul_comm]
  · have hunion : ⋃ c ∈ Set.Iio (fDaGetChannelCount dca), paddedChannelBytes dca c
        = ⋃ c ∈ Set.Iio (fDaGetChannelCount dca),
          Set.Ico (32 + fDaCalcChannelSizeBytes dca .host * c)
            (32 + fDaCalcChannelSizeBytes dca .host * (c + 1)) := by
      refine Set.iUnion₂_congr fun c hc ↦ ?_
      rw [paddedChannelBytes, hstart c hc, Nat.mul_succ, Nat.add_assoc]
    rw [hunion, Memory.biUnion_Ico_blocks, h.dataSize_eq]

/-- A header of three samples of stereo ADPCM in 96 bytes. -/
theorem validated_layout_sound_adpcm_stereo :
    LayoutSound ⟨0x46416344, 96, 0, 0x0102, 0, 3, 0, 3⟩ :=
  validated_layout_sound _ (by decide)

/-! ## Playback fields -/

/-- What the accessors' documentation promises a player. -/
structure PlaybackPromises (dca : FDcAudioHeader) : Prop where
  aicaLength_no_wrap : fDaGetAICALength dca + 1 = fDaGetLoopEnd dca
  aicaLength_le : fDaGetAICALength dca ≤ fDaGetTotalLength dca - 1
  disableLoop_no_wrap : fDaGetAICALengthDisableLoop dca + 1 = fDaGetTotalLength dca
  disableLoop_le : fDaGetAICALengthDisableLoop dca ≤ fDaGetTotalLength dca - 1
  plain : fDaIsLooping dca = 0 →
    fDaGetLength dca = fDaGetTotalLength dca ∧ fDaGetLoopStart dca = 0
  looped : fDaIsLooping dca ≠ 0 →
    fDaGetLoopStart dca < fDaGetLength dca ∧ fDaGetLength dca ≤ fDaGetTotalLength dca

/-- The condition the validator leaves out: a flagged loop is not empty, and the fields of an
unflagged sound hold the whole sound. -/
structure LoopFieldsCanonical (dca : FDcAudioHeader) : Prop where
  looped : fDaIsLooping dca ≠ 0 → dca.loopStart ≠ dca.loopEnd
  plain : fDaIsLooping dca = 0 → dca.loopStart = 0 ∧ dca.loopEnd = dca.totalLength

theorem toNat_sub_one_add_one {x : UInt32} (h : 1 ≤ x.toNat) : (x - 1).toNat + 1 = x.toNat := by
  have hle : (1 : UInt32) ≤ x := UInt32.le_iff_toNat_le.mpr h
  rw [UInt32.toNat_sub_of_le x 1 hle]
  exact Nat.sub_add_cancel h

/-- **Playback fields of an accepted header** keep their documented promises exactly when they are
canonical. -/
theorem validated_playback_iff (dca : FDcAudioHeader)
    (haccept : fDaValidateHeader dca .host = true) :
    PlaybackPromises dca ↔ LoopFieldsCanonical dca := by
  have h := (fDaValidateHeader_host_iff dca).mp haccept
  have htotal := h.totalLength_pos
  have hstart : dca.loopStart.toNat ≤ dca.loopEnd.toNat := h.loopStart_le
  have hend : dca.loopEnd.toNat ≤ dca.totalLength.toNat := h.loopEnd_le
  constructor
  · intro hp
    refine ⟨fun hl heq ↦ ?_, fun hl ↦ ?_⟩
    · have hlt : dca.loopStart.toNat < dca.loopEnd.toNat := (hp.looped hl).1
      rw [heq] at hlt
      exact lt_irrefl _ hlt
    · obtain ⟨hlen, hzero⟩ := hp.plain hl
      exact ⟨UInt32.toNat_inj.mp hzero, UInt32.toNat_inj.mp hlen⟩
  · intro hc
    have hpos : 1 ≤ dca.loopEnd.toNat := by
      by_cases hl : fDaIsLooping dca = 0
      · rw [(hc.plain hl).2]
        exact htotal
      · have hne : dca.loopStart.toNat ≠ dca.loopEnd.toNat := fun heq ↦
          hc.looped hl (UInt32.toNat_inj.mp heq)
        omega
    have haica : fDaGetAICALength dca + 1 = dca.loopEnd.toNat := toNat_sub_one_add_one hpos
    have hdisable : fDaGetAICALengthDisableLoop dca + 1 = fDaGetTotalLength dca :=
      toNat_sub_one_add_one htotal
    refine ⟨haica, ?_, hdisable, by omega, fun hl ↦ ?_, fun hl ↦ ?_⟩
    · rw [fDaGetTotalLength]
      omega
    · obtain ⟨hzero, hlen⟩ := hc.plain hl
      rw [fDaGetLength, fDaGetTotalLength, fDaGetLoopStart, hzero, hlen]
      exact ⟨rfl, rfl⟩
    · have hne : dca.loopStart.toNat ≠ dca.loopEnd.toNat := fun heq ↦
        hc.looped hl (UInt32.toNat_inj.mp heq)
      exact ⟨by rw [fDaGetLoopStart, fDaGetLength]; omega, hend⟩

/-- Sixteen mono 16-bit samples, looping over their first half. -/
theorem validated_playback_iff_half_loop :
    PlaybackPromises ⟨0x46416344, 64, 0, 0x0201, 0, 16, 0, 8⟩ ↔
      LoopFieldsCanonical ⟨0x46416344, 64, 0, 0x0201, 0, 16, 0, 8⟩ :=
  validated_playback_iff _ (by decide)

/-- The same sound without the loop flag and with its loop fields zero is accepted, and the value
for the AICA length register wraps. -/
theorem accepted_header_length_wraps :
    fDaValidateHeader ⟨0x46416344, 64, 0, 0x0001, 0, 16, 0, 0⟩ .host = true ∧
      fDaGetAICALength ⟨0x46416344, 64, 0, 0x0001, 0, 16, 0, 0⟩ = 0xffffffff ∧
      ¬PlaybackPromises ⟨0x46416344, 64, 0, 0x0001, 0, 16, 0, 0⟩ := by
  refine ⟨by decide, by decide, fun h ↦ ?_⟩
  have hlen := (h.plain (by decide)).1
  exact absurd hlen (by decide)

end DcaConv
