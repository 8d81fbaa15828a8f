import DcaConv.Adpcm.Lockstep
import DcaConv.Container.Load
import DcaConv.Header.Valid
import DcaConv.Library.Fallible

/-!
# Loading an arbitrary file

The loader compares the number of bytes it read with the file's size, and the header with itself,
but never the header with the file. Its reads stay in the file exactly when the header's fields and
the last sample of the last channel do; everything else about it is atomic.
-/

namespace DcaConv

/-! ## Reads of the header -/

theorem readField_of_le (data : List UInt8) (off width : ℕ) (h : off + width ≤ data.length) :
    ∃ n, readField data off width = .ok n := by
  rw [readField, Memory.read_of_le h]
  exact ⟨_, rfl⟩

theorem le_of_readField_eq_ok {data : List UInt8} {off width n : ℕ}
    (h : readField data off width = .ok n) : off + width ≤ data.length := by
  by_contra hlt
  rw [readField, Memory.read_of_lt (not_le.mp hlt)] at h
  cases h

/-- The validator's last field ends at byte 28, four bytes short of the header. -/
theorem exists_loadHeader_iff {data : List UInt8} :
    (∃ head, loadHeader data = .ok head) ↔ 28 ≤ data.length := by
  constructor
  · rintro ⟨head, h⟩
    rw [loadHeader] at h
    obtain ⟨_, -, h⟩ := Fallible.bind_eq_ok.mp h
    obtain ⟨_, -, h⟩ := Fallible.bind_eq_ok.mp h
    obtain ⟨_, -, h⟩ := Fallible.bind_eq_ok.mp h
    obtain ⟨_, -, h⟩ := Fallible.bind_eq_ok.mp h
    obtain ⟨_, -, h⟩ := Fallible.bind_eq_ok.mp h
    obtain ⟨_, -, h⟩ := Fallible.bind_eq_ok.mp h
    obtain ⟨_, -, h⟩ := Fallible.bind_eq_ok.mp h
    obtain ⟨_, h, -⟩ := Fallible.bind_eq_ok.mp h
    exact le_of_readField_eq_ok h
  · intro h
    obtain ⟨_, h₁⟩ := readField_of_le data 0 4 (by omega)
    obtain ⟨_, h₂⟩ := readField_of_le data 4 4 (by omega)
    obtain ⟨_, h₃⟩ := readField_of_le data 8 1 (by omega)
    obtain ⟨_, h₄⟩ := readField_of_le data 12 2 (by omega)
    obtain ⟨_, h₅⟩ := readField_of_le data 14 2 (by omega)
    obtain ⟨_, h₆⟩ := readField_of_le data 16 4 (by omega)
    obtain ⟨_, h₇⟩ := readField_of_le data 20 4 (by omega)
    obtain ⟨_, h₈⟩ := readField_of_le data 24 4 (by omega)
    rw [loadHeader, h₁, h₂, h₃, h₄, h₅, h₆, h₇, h₈]
    exact ⟨_, rfl⟩

/-! ## Reads of the samples -/

theorem length_samplesOfBytes : ∀ bs : List UInt8, (samplesOfBytes bs).length = bs.length / 2
  | [] => rfl
  | [_] => by simp [samplesOfBytes]
  | _ :: _ :: bs => by
    rw [samplesOfBytes, List.length_cons, length_samplesOfBytes bs, List.length_cons,
      List.length_cons]
    omega

theorem adpcm2pcm_of_le {src : List UInt8} {length : ℕ} (hpos : 1 ≤ length)
    (hlt : length < 2 ^ 64) (h : (length + 1) / 2 ≤ src.length) :
    ∃ ys, adpcm2pcm src length = .ok ys ∧ ys.length = length := by
  have htake : (src.take ((length + 1) / 2)).length = (length + 1) / 2 := by
    rw [List.length_take, Nat.min_eq_left h]
  have hrun := adpcm2pcmLoop_eq .initial _ (src.drop ((length + 1) / 2)) length hpos hlt htake
  rw [List.take_append_drop] at hrun
  rw [adpcm2pcm, adpcm2pcmTrace, hrun]
  refine ⟨_, rfl, ?_⟩
  rw [List.length_map, Transducer.length_states, List.length_take, unpackNibbles,
    Transducer.length_unpackPairs, htake]
  omega

theorem adpcm2pcm_of_lt {src : List UInt8} {length : ℕ} (hlt : length < 2 ^ 64)
    (h : src.length < (length + 1) / 2) : adpcm2pcm src length = .error .outOfBounds := by
  rw [adpcm2pcm, adpcm2pcmTrace, adpcm2pcmLoop_short .initial src length hlt h]
  rfl

section Decode

variable {format sampleCnt off : ℕ} {data : List UInt8}

/-- The three formats of a header the validator accepts. -/
def KnownFormat (format : ℕ) : Prop :=
  format = DcaFormat.pcm16.value ∨ format = DcaFormat.pcm8.value ∨ format = DcaFormat.adpcm.value

/-- With a channel's bytes in the file, it decodes to its declared length. -/
theorem decodeChannel_of_le (hformat : KnownFormat format) (hpos : 1 ≤ sampleCnt)
    (hlt : sampleCnt < 2 ^ 64) (h : off + payloadBytes format sampleCnt ≤ data.length) :
    ∃ ys, decodeChannel format data sampleCnt off = .ok ys ∧ ys.length = sampleCnt := by
  rcases hformat with rfl | rfl | rfl
  · rw [payloadBytes_pcm16] at h
    rw [decodeChannel, if_pos rfl, Memory.read_of_le h]
    refine ⟨_, rfl, ?_⟩
    rw [length_samplesOfBytes, List.length_take, List.length_drop]
    omega
  · rw [payloadBytes_pcm8] at h
    rw [decodeChannel, if_neg (by decide), if_pos rfl, Memory.read_of_le h]
    refine ⟨_, rfl, ?_⟩
    rw [List.length_map, List.length_take, List.length_drop]
    omega
  · rw [payloadBytes_adpcm] at h
    rw [decodeChannel, if_neg (by decide), if_neg (by decide)]
    exact adpcm2pcm_of_le hpos hlt (by rw [List.length_drop]; omega)

/-- Otherwise the decoder leaves the file. -/
theorem decodeChannel_of_lt (hformat : KnownFormat format) (hpos : 1 ≤ sampleCnt)
    (hlt : sampleCnt < 2 ^ 64) (h : data.length < off + payloadBytes format sampleCnt) :
    decodeChannel format data sampleCnt off = .error .outOfBounds := by
  rcases hformat with rfl | rfl | rfl
  · rw [payloadBytes_pcm16] at h
    rw [decodeChannel, if_pos rfl, Memory.read_of_lt h]
    rfl
  · rw [payloadBytes_pcm8] at h
    rw [decodeChannel, if_neg (by decide), if_pos rfl, Memory.read_of_lt h]
    rfl
  · rw [payloadBytes_adpcm] at h
    rw [decodeChannel, if_neg (by decide), if_neg (by decide)]
    exact adpcm2pcm_of_lt hlt (by rw [List.length_drop]; omega)

end Decode

/-! ## The loader -/

/-- What a caller may rely on: the file is rejected and the converter left as it was, or it is
loaded, into whatever converter, as 1 to 7 channels of the declared length that depend on the file
alone. -/
def LoadsSafely (bytes : List UInt8) : Prop :=
  (∀ dcac, fDcaLoad dcac (some (.whole bytes)) = .ok (.readError, dcac)) ∨
    ∃ head samples, loadHeader bytes = .ok head ∧
      1 ≤ fDaGetTotalLength head ∧ 1 ≤ samples.length ∧ samples.length ≤ 7 ∧
      (∀ xs ∈ samples, xs.length = fDaGetTotalLength head) ∧
      ∀ dcac, fDcaLoad dcac (some (.whole bytes)) = .ok (.ok,
        { dcac with
          sampleRateHz := truncate (fDaCalcSampleRateHz head)
          channelCnt := samples.length
          samplesLen := fDaGetTotalLength head
          samples := samples ++ dcac.samples.drop samples.length })

/-- One past the last sample byte of the last channel. -/
def lastSampleEnd (head : FDcAudioHeader) : ℕ :=
  32 + fDaCalcChannelSizeBytes head .host * (fDaGetChannelCount head - 1)
    + payloadBytes (fDaGetSampleFormat head) (fDaGetTotalLength head)

/-- The file has the fields the validator reads and, if they are accepted, the samples they
declare. -/
structure HoldsDeclared (bytes : List UInt8) : Prop where
  fields : 28 ≤ bytes.length
  samples : ∀ head, loadHeader bytes = .ok head → fDaValidateHeader head .host = true →
    lastSampleEnd head ≤ bytes.length

section Load

variable {bytes : List UInt8} {head : FDcAudioHeader}

theorem fDcaLoad_whole (dcac : DcAudioConverter) (h : loadHeader bytes = .ok head) :
    fDcaLoad dcac (some (.whole bytes))
      = if fDaValidateHeader head .host then loadSamples dcac head bytes
        else .ok (.readError, dcac) := by
  rw [fDcaLoad, FileSource.whole, if_neg (not_not.mpr rfl), h, Fallible.ok_bind]

theorem loadSamples_eq (dcac : DcAudioConverter) (hv : ValidHeader head) :
    loadSamples dcac head bytes = (do
      let samples ← (List.range (fDaGetChannelCount head)).mapM fun c ↦
        decodeChannel (fDaGetSampleFormat head) bytes (fDaGetTotalLength head)
          (fDaGetChannelSamples head .host c)
      .ok (.ok, { dcac with
        sampleRateHz := truncate (fDaCalcSampleRateHz head)
        channelCnt := fDaGetChannelCount head
        samplesLen := fDaGetTotalLength head
        samples := samples ++ dcac.samples.drop (fDaGetChannelCount head) })) :=
  if_pos hv.format_mem

/-- Every channel decodes when the last one's samples are in the file. -/
theorem exists_samples (hv : ValidHeader head) (h : lastSampleEnd head ≤ bytes.length) :
    ∃ samples, (List.range (fDaGetChannelCount head)).mapM (fun c ↦
        decodeChannel (fDaGetSampleFormat head) bytes (fDaGetTotalLength head)
          (fDaGetChannelSamples head .host c)) = .ok samples ∧
      samples.length = fDaGetChannelCount head ∧
      ∀ xs ∈ samples, xs.length = fDaGetTotalLength head := by
  have hlen := totalLength_lt head
  have hdecode : ∀ c ∈ List.range (fDaGetChannelCount head), ∃ ys,
      decodeChannel (fDaGetSampleFormat head) bytes (fDaGetTotalLength head)
        (fDaGetChannelSamples head .host c) = .ok ys ∧ ys.length = fDaGetTotalLength head := by
    intro c hc
    rw [List.mem_range] at hc
    -- no channel reaches further than the last one
    have hmul : fDaCalcChannelSizeBytes head .host * c
        ≤ fDaCalcChannelSizeBytes head .host * (fDaGetChannelCount head - 1) :=
      Nat.mul_le_mul_left _ (by omega)
    rw [lastSampleEnd] at h
    refine decodeChannel_of_le hv.format_mem hv.totalLength_pos (by omega) ?_
    rw [fDaGetChannelSamples_host head hc.le]
    omega
  obtain ⟨samples, hsamples⟩ := Fallible.exists_mapM_eq_ok.mpr fun c hc ↦
    ⟨_, (hdecode c hc).choose_spec.1⟩
  refine ⟨samples, hsamples, ?_, fun xs hxs ↦ ?_⟩
  · have hforall := (Fallible.mapM_eq_ok_iff.mp hsamples).length_eq
    rw [← hforall, List.length_range]
  · obtain ⟨c, hc, hxs'⟩ := Fallible.exists_of_mem_of_mapM_eq_ok hsamples hxs
    obtain ⟨ys, hys, hlength⟩ := hdecode c hc
    rw [hys] at hxs'
    cases hxs'
    exact hlength

/-- An accepted header's samples are all read, the last byte of the last channel included. -/
theorem lastSampleEnd_le (hv : ValidHeader head) {dcac : DcAudioConverter}
    {r : DcaError × DcAudioConverter} (h : loadSamples dcac head bytes = .ok r) :
    lastSampleEnd head ≤ bytes.length := by
  have hlen := totalLength_lt head
  have hpos := hv.channelCount_pos
  rw [loadSamples_eq dcac hv] at h
  obtain ⟨samples, hsamples, -⟩ := Fallible.bind_eq_ok.mp h
  by_contra hlt
  -- the last channel's decoder is the one that would leave the file
  obtain ⟨ys, hys⟩ := Fallible.exists_mapM_eq_ok.mp ⟨samples, hsamples⟩
    (fDaGetChannelCount head - 1) (List.mem_range.mpr (by omega))
  rw [decodeChannel_of_lt hv.format_mem hv.totalLength_pos (by omega)
    (by rw [fDaGetChannelSamples_host head (Nat.sub_le _ _)]; exact not_le.mp hlt)] at hys
  cases hys

end Load

/-- **Loading a file.** It is safe and atomic exactly when the file holds what its header
declares. -/
theorem fDcaLoad_safe_iff (bytes : List UInt8) : LoadsSafely bytes ↔ HoldsDeclared bytes := by
  constructor
  · intro h
    obtain ⟨r, hr⟩ : ∃ r, fDcaLoad dcaInit (some (.whole bytes)) = .ok r := by
      rcases h with h | ⟨_, _, -, -, -, -, -, h⟩
      · exact ⟨_, h dcaInit⟩
      · exact ⟨_, h dcaInit⟩
    refine ⟨?_, fun head hhead haccept ↦ ?_⟩
    · rw [fDcaLoad, FileSource.whole, if_neg (not_not.mpr rfl)] at hr
      obtain ⟨head, hhead, -⟩ := Fallible.bind_eq_ok.mp hr
      exact exists_loadHeader_iff.mp ⟨head, hhead⟩
    · rw [fDcaLoad_whole dcaInit hhead, if_pos haccept] at hr
      exact lastSampleEnd_le ((fDaValidateHeader_host_iff head).mp haccept) hr
  · intro h
    obtain ⟨head, hhead⟩ := exists_loadHeader_iff.mpr h.fields
    by_cases haccept : fDaValidateHeader head .host = true
    · have hv := (fDaValidateHeader_host_iff head).mp haccept
      obtain ⟨samples, hsamples, hcount, hlength⟩ :=
        exists_samples hv (h.samples head hhead haccept)
      refine Or.inr ⟨head, samples, hhead, hv.totalLength_pos, hcount ▸ hv.channelCount_pos,
        hcount ▸ channelCount_le head, hlength, fun dcac ↦ ?_⟩
      rw [fDcaLoad_whole dcac hhead, if_pos haccept, loadSamples_eq dcac hv, hsamples,
        Fallible.ok_bind, hcount]
    · refine Or.inl fun dcac ↦ ?_
      rw [fDcaLoad_whole dcac hhead, if_neg haccept]

/-- A file that is only a header, of sixteen 16-bit samples: accepted, and read past its end. -/
theorem header_only_file_not_safe :
    ¬LoadsSafely [0x44, 0x63, 0x41, 0x46, 64, 0, 0, 0, 0, 0, 0, 0, 1, 0, 0, 0,
      16, 0, 0, 0, 0, 0, 0, 0, 16, 0, 0, 0, 0, 0, 0, 0] := by
  have hload : fDcaLoad dcaInit (some (.whole [0x44, 0x63, 0x41, 0x46, 64, 0, 0, 0, 0, 0, 0, 0,
      1, 0, 0, 0, 16, 0, 0, 0, 0, 0, 0, 0, 16, 0, 0, 0, 0, 0, 0, 0]))
        = .error .outOfBounds := by rfl
  rintro (h | ⟨_, _, -, -, -, -, -, h⟩)
  · have := h dcaInit
    rw [hload] at this
    cases this
  · have := h dcaInit
    rw [hload] at this
    cases this

end DcaConv
