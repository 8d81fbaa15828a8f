import DcaConv.Header.Valid

/-!
# The header library on two machines

The size computation doubles, rounds up and multiplies in `size_t`. On the 64-bit host none of it
wraps. On the Dreamcast's SH-4 it wraps as a whole, modulo `2 ^ 32`, except for one ADPCM length
whose round-up to whole bytes wraps before it is halved. So the two machines disagree exactly on the
headers whose exact size does not fit in 32 bits and whose `chunk_size` is what is left of it, and
on one header more for that length.
-/

namespace DcaConv

/-! ## The exact size -/

/-- The file size that the length, format and channel count of a header ask for. -/
def declaredSize (dca : FDcAudioHeader) : ℕ :=
  headerSize + fDaGetChannelCount dca
    * paddedChannelSize (fDaGetSampleFormat dca) (fDaGetTotalLength dca)

/-- The tests of the validator that compute no size. -/
structure PlainTestsPass (dca : FDcAudioHeader) : Prop where
  size_gt : headerSize < fDaGetFileSize dca
  fourcc_eq : dca.fourcc.toNat = dcaFourccUint
  version_lt : fDaGetVersion dca < 50
  size_mod : fDaGetFileSize dca % dcaAlignment = 0
  format_ne : fDaGetSampleFormat dca ≠ dcaFlagFormatInvalid
  loopStart_le : fDaGetLoopStart dca ≤ fDaGetLength dca
  loopEnd_le : fDaGetLength dca ≤ fDaGetTotalLength dca
  rate_bit : fDaGetSampleRateAICA dca &&& 0x8000 = 0

/-- The ADPCM length whose round-up to bytes is `2 ^ 32`. -/
def LongestAdpcm (dca : FDcAudioHeader) : Prop :=
  fDaGetSampleFormat dca = dcaFlagFormatAdpcm ∧ fDaGetTotalLength dca = 2 ^ 32 - 1

/-- The size test is passed on the SH-4 by what is left of a size that does not fit, or, at the
longest ADPCM length, on the host only. -/
def SizeTestDiffers (dca : FDcAudioHeader) : Prop :=
  (¬LongestAdpcm dca ∧ 2 ^ 32 ≤ declaredSize dca ∧
      fDaGetFileSize dca = declaredSize dca % 2 ^ 32) ∨
    (LongestAdpcm dca ∧ fDaGetChannelCount dca = 1 ∧ fDaGetFileSize dca = 2 ^ 31 + 32)

section Targets

variable {dca : FDcAudioHeader}

theorem sizeTestDiffers_of_longest (h : LongestAdpcm dca) : SizeTestDiffers dca ↔
    fDaGetChannelCount dca = 1 ∧ fDaGetFileSize dca = 2 ^ 31 + 32 := by
  simp [SizeTestDiffers, h]

theorem sizeTestDiffers_of_not_longest (h : ¬LongestAdpcm dca) : SizeTestDiffers dca ↔
    2 ^ 32 ≤ declaredSize dca ∧ fDaGetFileSize dca = declaredSize dca % 2 ^ 32 := by
  simp [SizeTestDiffers, h]

/-! ## The validator, test by test -/

/-- On either machine the validator is the plain tests and the size test. -/
theorem fDaValidateHeader_iff (t : Target) : fDaValidateHeader dca t = true ↔
    PlainTestsPass dca ∧ fDaGetFileSize dca = t.size (headerSize
      + t.size (fDaGetChannelCount dca * fDaCalcChannelSizeBytes dca t)) := by
  simp only [fDaValidateHeader, fDaFourccMatches, Bool.and_eq_true, decide_eq_true_eq, beq_iff_eq]
  constructor
  · rintro ⟨⟨⟨⟨⟨⟨⟨⟨h₁, h₂⟩, h₃⟩, h₄⟩, h₅⟩, h₆⟩, h₇⟩, h₈⟩, h₉⟩
    exact ⟨⟨h₁, h₂, h₃, h₄, h₅, h₇, h₈, h₉⟩, h₆⟩
  · rintro ⟨⟨h₁, h₂, h₃, h₄, h₅, h₇, h₈, h₉⟩, h₆⟩
    exact ⟨⟨⟨⟨⟨⟨⟨⟨h₁, h₂⟩, h₃⟩, h₄⟩, h₅⟩, h₆⟩, h₇⟩, h₈⟩, h₉⟩

theorem fDaValidateHeader_host_iff_plain : fDaValidateHeader dca .host = true ↔
    PlainTestsPass dca ∧ fDaGetFileSize dca = declaredSize dca := by
  rw [fDaValidateHeader_host_iff]
  constructor
  · rintro ⟨h₁, h₂, h₃, h₄, h₅, h₆, h₇, h₈, h₉⟩
    exact ⟨⟨h₁, h₂, h₃, h₄, h₅, h₇, h₈, h₉⟩, h₆⟩
  · rintro ⟨⟨h₁, h₂, h₃, h₄, h₅, h₇, h₈, h₉⟩, h₆⟩
    exact ⟨h₁, h₂, h₃, h₄, h₅, h₆, h₇, h₈, h₉⟩

/-! ## Sizes on the SH-4 -/

/-- The SH-4 wraps the exact channel size, whichever step of the computation wrapped. -/
theorem fDaCalcChannelSizeBytes_sh4 (h : ¬LongestAdpcm dca) : fDaCalcChannelSizeBytes dca .sh4
    = paddedChannelSize (fDaGetSampleFormat dca) (fDaGetTotalLength dca) % 2 ^ 32 := by
  have hlen := totalLength_lt dca
  have hround : ∀ sz payload : ℕ, sz % 2 ^ 32 = payload % 2 ^ 32 →
      clearAlignment (Target.sh4.size (sz + 0x1f)) = Memory.roundUp 32 payload % 2 ^ 32 := by
    intro sz payload hsz
    rw [clearAlignment, Target.size_sh4, Memory.roundUp, dcaAlignment]
    omega
  rw [fDaCalcChannelSizeBytes, paddedChannelSize, payloadBytes]
  refine hround _ _ ?_
  simp only [Target.size_sh4]
  split
  · omega
  · split
    · next hformat =>
      have hshort : fDaGetTotalLength dca ≠ 2 ^ 32 - 1 := fun hlong ↦ h ⟨hformat, hlong⟩
      omega
    · rfl

/-- At the longest ADPCM length the SH-4 finds no bytes to store. -/
theorem fDaCalcChannelSizeBytes_sh4_longest (h : LongestAdpcm dca) :
    fDaCalcChannelSizeBytes dca .sh4 = 0 := by
  rw [fDaCalcChannelSizeBytes, h.1, h.2]
  decide

theorem paddedChannelSize_longest (h : LongestAdpcm dca) :
    paddedChannelSize (fDaGetSampleFormat dca) (fDaGetTotalLength dca) = 2 ^ 31 := by
  rw [h.1, h.2]
  decide

theorem fDaValidateHeader_sh4_iff (h : ¬LongestAdpcm dca) : fDaValidateHeader dca .sh4 = true ↔
    PlainTestsPass dca ∧ fDaGetFileSize dca = declaredSize dca % 2 ^ 32 := by
  have hsize : Target.sh4.size (headerSize + Target.sh4.size (fDaGetChannelCount dca
      * fDaCalcChannelSizeBytes dca .sh4)) = declaredSize dca % 2 ^ 32 := by
    rw [fDaCalcChannelSizeBytes_sh4 h, Target.size_sh4, Target.size_sh4, Nat.mul_mod_mod,
      Nat.add_mod_mod, declaredSize]
  rw [fDaValidateHeader_iff, hsize]

/-- No size passes the test at the longest ADPCM length: it would have to be the header's. -/
theorem fDaValidateHeader_sh4_longest (h : LongestAdpcm dca) :
    fDaValidateHeader dca .sh4 = false := by
  rw [← Bool.not_eq_true, fDaValidateHeader_iff, fDaCalcChannelSizeBytes_sh4_longest h, Nat.mul_zero]
  rintro ⟨hplain, hsize⟩
  exact absurd hplain.size_gt (by rw [hsize]; decide)

/-! ## Agreement -/

/-- What a player may rely on: both machines accept the same headers, find the channels of an
accepted one in the same places, and leave its samples room. -/
structure TargetsAgree (dca : FDcAudioHeader) : Prop where
  validate_eq : fDaValidateHeader dca .sh4 = fDaValidateHeader dca .host
  channelSize_eq : ∀ t, fDaValidateHeader dca t = true →
    fDaCalcChannelSizeBytes dca .sh4 = fDaCalcChannelSizeBytes dca .host
  channelSamples_eq : ∀ t, fDaValidateHeader dca t = true → ∀ c < fDaGetChannelCount dca,
    fDaGetChannelSamples dca .sh4 c = fDaGetChannelSamples dca .host c
  payload_le : ∀ t, fDaValidateHeader dca t = true →
    payloadBytes (fDaGetSampleFormat dca) (fDaGetTotalLength dca) ≤ fDaCalcChannelSizeBytes dca t

/-- Headers that both machines reject agree in everything. -/
theorem TargetsAgree.of_rejected (hhost : fDaValidateHeader dca .host = false)
    (hsh4 : fDaValidateHeader dca .sh4 = false) : TargetsAgree dca := by
  have hreject : ∀ t, fDaValidateHeader dca t ≠ true := by
    intro t
    cases t with
    | host => rw [hhost]; exact Bool.false_ne_true
    | sh4 => rw [hsh4]; exact Bool.false_ne_true
  exact ⟨hsh4.trans hhost.symm, fun t h ↦ absurd h (hreject t), fun t h ↦ absurd h (hreject t),
    fun t h ↦ absurd h (hreject t)⟩

/-- Where one machine rejects, they agree as soon as the other does. -/
theorem targetsAgree_iff_of_rejected {t t' : Target} (hne : t ≠ t')
    (h : fDaValidateHeader dca t' = false) :
    TargetsAgree dca ↔ ¬fDaValidateHeader dca t = true := by
  rw [Bool.not_eq_true]
  cases t with
  | host =>
    cases t' with
    | host => exact absurd rfl hne
    | sh4 => exact ⟨fun hagree ↦ hagree.validate_eq.symm.trans h, fun h' ↦ .of_rejected h' h⟩
  | sh4 =>
    cases t' with
    | host => exact ⟨fun hagree ↦ hagree.validate_eq.trans h, fun h' ↦ .of_rejected h h'⟩
    | sh4 => exact absurd rfl hne

/-- A header whose exact size fits has one layout. -/
theorem TargetsAgree.of_fits (hshort : ¬LongestAdpcm dca) (hfits : declaredSize dca < 2 ^ 32) :
    TargetsAgree dca := by
  have hmod : declaredSize dca % 2 ^ 32 = declaredSize dca := Nat.mod_eq_of_lt hfits
  have hsame : fDaValidateHeader dca .sh4 = true ↔ fDaValidateHeader dca .host = true := by
    rw [fDaValidateHeader_sh4_iff hshort, fDaValidateHeader_host_iff_plain, hmod]
  have hhost : ∀ t, fDaValidateHeader dca t = true → fDaValidateHeader dca .host = true := by
    intro t h
    cases t with
    | host => exact h
    | sh4 => exact hsame.mp h
  have hsize : ∀ t, fDaValidateHeader dca t = true →
      fDaCalcChannelSizeBytes dca .sh4 = fDaCalcChannelSizeBytes dca .host := by
    intro t h
    have hpos := ((fDaValidateHeader_host_iff dca).mp (hhost t h)).channelCount_pos
    have hone : 1 * paddedChannelSize (fDaGetSampleFormat dca) (fDaGetTotalLength dca)
        ≤ fDaGetChannelCount dca
          * paddedChannelSize (fDaGetSampleFormat dca) (fDaGetTotalLength dca) :=
      Nat.mul_le_mul_right _ hpos
    rw [declaredSize] at hfits
    rw [fDaCalcChannelSizeBytes_sh4 hshort, fDaCalcChannelSizeBytes_host,
      Nat.mod_eq_of_lt (by omega)]
  refine ⟨Bool.eq_iff_iff.mpr hsame, hsize, ?_, ?_⟩
  · intro t h c hc
    have hlast : fDaCalcChannelSizeBytes dca .host * c
        ≤ fDaGetChannelCount dca * fDaCalcChannelSizeBytes dca .host := by
      rw [Nat.mul_comm]
      exact Nat.mul_le_mul_right _ hc.le
    rw [declaredSize, ← fDaCalcChannelSizeBytes_host] at hfits
    rw [fDaGetChannelSamples_host dca hc.le, fDaGetChannelSamples, hsize t h, Target.size_sh4,
      Nat.mod_eq_of_lt (by omega)]
    rfl
  · intro t h
    have hpay := payloadBytes_le_padded (fDaGetSampleFormat dca) (fDaGetTotalLength dca)
    rw [← fDaCalcChannelSizeBytes_host] at hpay
    cases t with
    | host => exact hpay
    | sh4 => rw [hsize .sh4 h]; exact hpay

/-- At the longest ADPCM length only the host accepts anything, one channel in 2 GiB. -/
theorem fDaValidateHeader_host_longest (h : LongestAdpcm dca) :
    fDaValidateHeader dca .host = true ↔ PlainTestsPass dca ∧
      fDaGetChannelCount dca = 1 ∧ fDaGetFileSize dca = 2 ^ 31 + 32 := by
  have hlt := fDaGetFileSize_lt dca
  rw [fDaValidateHeader_host_iff_plain, declaredSize, paddedChannelSize_longest h, headerSize]
  constructor
  · rintro ⟨hplain, hsize⟩
    have hgt := hplain.size_gt
    rw [headerSize] at hgt
    exact ⟨hplain, by omega, by omega⟩
  · rintro ⟨hplain, hcount, hsize⟩
    refine ⟨hplain, ?_⟩
    rw [hcount]
    omega

/-- **One header library, two machines.** They agree on a header exactly when it does not pass every
other test with a size that only one of them computes. -/
theorem targetsAgree_iff (dca : FDcAudioHeader) :
    TargetsAgree dca ↔ ¬(PlainTestsPass dca ∧ SizeTestDiffers dca) := by
  by_cases hlong : LongestAdpcm dca
  · have hhost := fDaValidateHeader_host_longest hlong
    rw [sizeTestDiffers_of_longest hlong, ← hhost]
    exact targetsAgree_iff_of_rejected Target.noConfusion (fDaValidateHeader_sh4_longest hlong)
  rw [sizeTestDiffers_of_not_longest hlong]
  by_cases hfits : declaredSize dca < 2 ^ 32
  · refine iff_of_true (TargetsAgree.of_fits hlong hfits) ?_
    rintro ⟨-, hwraps, -⟩
    exact absurd hfits (not_lt.mpr hwraps)
  · have hhost : fDaValidateHeader dca .host = false := by
      have hlt := fDaGetFileSize_lt dca
      rw [← Bool.not_eq_true, fDaValidateHeader_host_iff_plain]
      rintro ⟨-, hsize⟩
      omega
    have hsh4 := fDaValidateHeader_sh4_iff hlong
    rw [and_iff_right (not_lt.mp hfits), ← hsh4]
    exact targetsAgree_iff_of_rejected Target.noConfusion hhost

end Targets

/-- A mono 16-bit header of 4 GiB and 32 bytes of samples in a file of 64 bytes: the SH-4 accepts it
and finds room for 16 of its samples. -/
theorem wrapped_header_accepted_on_sh4 :
    fDaValidateHeader ⟨0x46416344, 64, 0, 0x0001, 0, 2147483664, 0, 2147483664⟩ .sh4 = true ∧
      fDaValidateHeader ⟨0x46416344, 64, 0, 0x0001, 0, 2147483664, 0, 2147483664⟩ .host = false ∧
      ¬TargetsAgree ⟨0x46416344, 64, 0, 0x0001, 0, 2147483664, 0, 2147483664⟩ := by
  refine ⟨by decide, by decide, fun h ↦ ?_⟩
  exact absurd h.validate_eq (by decide)

end DcaConv
