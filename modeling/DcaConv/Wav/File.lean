import DcaConv.Wav.Interleave

/-!
# WAV files

`fWavLoad` and `fWavWrite` around the decoder and the encoder they call. The decoder is asked for
every frame it has announced and may deliver fewer; what it delivers goes into a buffer whose size
is computed as a `size_t`. Behind the loader every loop over `samples` relies on the channel count,
which the loader takes from the decoder as it is: the decoder allows 256 channels and the array has
room for eight.
-/

namespace DcaConv

/-! ## The decoder -/

/-- `DRWAV_MAX_CHANNELS`. -/
def drwavMaxChannels : ℕ := 256

/-- An opened WAV file: what the decoder announces, and what it delivers. -/
structure WavStream where
  channels : ℕ
  sampleRate : ℕ
  totalPcmFrameCount : ℕ
  /-- How many frames a request for all of them returns. -/
  framesRead : ℕ
  samples : List Int16
  one_le_channels : 1 ≤ channels
  channels_le : channels ≤ drwavMaxChannels
  totalPcmFrameCount_lt : totalPcmFrameCount < 2 ^ 64
  framesRead_le : framesRead ≤ totalPcmFrameCount
  length_samples : samples.length = framesRead * channels

/-- The samples `fWavLoad` makes room for. -/
def WavStream.cells (wav : WavStream) : ℕ :=
  Target.host.size (wav.totalPcmFrameCount * wav.channels * 2) / 2

/-! ## The loader -/

/-- The allocations behind the first. -/
def Heap.rest (heap : Heap) : Heap := ⟨fun call ↦ heap.block (call + 1), fun _ ↦ heap.length_block _⟩

/-- What a full read leaves behind: the fields of the sound, and its channels. -/
def takeStream (heap : Heap) (dcac : DcAudioConverter) (wav : WavStream)
    (interleaved : List Int16) : Except Fault DcAudioConverter :=
  dcaDeinterleaveSamples heap
    { dcac with
      sampleRateHz := wav.sampleRate
      channelCnt := wav.channels
      samplesLen := wav.framesRead }
    interleaved (u32 wav.framesRead) wav.channels

/-- Load a sound into the converter; `none` when the file cannot be opened. -/
def fWavLoad (heap : Heap) (dcac : DcAudioConverter) (file : Option WavStream) :
    Except Fault (DcaError × DcAudioConverter) :=
  match file with
  | none => .ok (.readOpenError, dcac)
  | some wav =>
    if wav.cells < wav.samples.length then .error .outOfBounds
    else
      let interleaved := wav.samples ++ (heap.block 0 wav.cells).drop wav.samples.length
      if wav.framesRead ≠ wav.totalPcmFrameCount then .ok (.readError, dcac)
      else do
        let dcac ← takeStream heap.rest dcac wav interleaved
        .ok (.ok, dcac)

/-! ## The array of channels -/

/-- A sound in a converter whose settings are still those of `dcac`. -/
structure ChannelsSet (dcac loaded : DcAudioConverter) : Prop where
  one_le : 1 ≤ loaded.channelCnt
  le_max : loaded.channelCnt ≤ dcacMaxChannels
  channel : ∀ c < loaded.channelCnt,
    ∃ xs, loaded.samples[c]? = some xs ∧ xs.length = loaded.samplesLen
  settings : loaded = { dcac with
    sampleRateHz := loaded.sampleRateHz
    channelCnt := loaded.channelCnt
    samples := loaded.samples
    samplesLen := loaded.samplesLen }

/-- The loader returns, with an error or with a sound that fits the array. -/
def RespectsSlots (heap : Heap) (dcac : DcAudioConverter) (file : Option WavStream) : Prop :=
  ∃ code loaded, fWavLoad heap dcac file = .ok (code, loaded) ∧
    (code ≠ .ok ∨ ChannelsSet dcac loaded)

/-- A stream the loader can take: what it delivers fits the buffer, and if it is complete, its
channels fit the array and its length fits an `unsigned`. -/
def WavStream.Loadable (wav : WavStream) : Prop :=
  wav.framesRead * wav.channels ≤ wav.cells ∧ (wav.framesRead < wav.totalPcmFrameCount ∨
    wav.channels ≤ dcacMaxChannels ∧ wav.totalPcmFrameCount < 2 ^ 32)

section Slots

variable {heap : Heap} {dcac : DcAudioConverter} {wav : WavStream}

/-- Returning at all takes eight channels or fewer: the ninth turn has no slot to store to. -/
theorem le_max_of_deinterleaved {samples : List Int16} {sampleCnt channels : ℕ}
    {planar : DcAudioConverter}
    (h : dcaDeinterleaveSamples heap dcac samples sampleCnt channels = .ok planar) :
    channels ≤ dcacMaxChannels := by
  by_contra hlt
  obtain ⟨before, after, hturn⟩ :=
    Fallible.exists_step_of_foldlM h (List.mem_range.mpr (Nat.lt_of_not_le hlt))
  obtain ⟨dst, -, hset⟩ := Fallible.bind_eq_ok.mp hturn
  rw [setChannel, if_neg (Nat.lt_irrefl _)] at hset
  cases hset

/-- The channels a complete stream leaves in the first slots. -/
theorem takeStream_eq (hcnt : wav.channels ≤ dcacMaxChannels) {interleaved : List Int16}
    (hlen : wav.framesRead * wav.channels ≤ interleaved.length) :
    takeStream heap dcac wav interleaved = .ok { dcac with
      sampleRateHz := wav.sampleRate
      channelCnt := wav.channels
      samplesLen := wav.framesRead
      samples := (List.range wav.channels).map
          (channelOf interleaved (u32 wav.framesRead) wav.channels)
        ++ dcac.samples.drop wav.channels } :=
  dcaDeinterleaveSamples_eq hcnt
    ((Nat.mul_le_mul_right _ (Nat.mod_le _ _)).trans hlen)

/-- They have the length the loader records as long as that is an `unsigned`. -/
theorem exists_channelsSet_iff {interleaved : List Int16}
    (hlen : wav.framesRead * wav.channels ≤ interleaved.length) :
    (∃ loaded, takeStream heap dcac wav interleaved = .ok loaded ∧ ChannelsSet dcac loaded) ↔
      wav.channels ≤ dcacMaxChannels ∧ wav.framesRead < 2 ^ 32 := by
  have hget : ∀ c < wav.channels, ∀ rest : List (List Int16),
      ((List.range wav.channels).map (channelOf interleaved (u32 wav.framesRead) wav.channels)
        ++ rest)[c]? = some (channelOf interleaved (u32 wav.framesRead) wav.channels c) := by
    intro c hc rest
    rw [List.getElem?_append_left (by rwa [List.length_map, List.length_range]),
      List.getElem?_map, List.getElem?_range hc, Option.map_some]
  constructor
  · rintro ⟨loaded, htake, hset⟩
    have hcnt := le_max_of_deinterleaved htake
    rw [takeStream_eq hcnt hlen] at htake
    cases htake
    obtain ⟨xs, hxs, hlength⟩ := hset.channel 0 wav.one_le_channels
    rw [hget 0 wav.one_le_channels] at hxs
    cases hxs
    rw [length_channelOf] at hlength
    exact ⟨hcnt, lt_of_eq_of_lt hlength.symm (Nat.mod_lt _ (by positivity))⟩
  · rintro ⟨hcnt, hlt⟩
    refine ⟨_, takeStream_eq hcnt hlen, wav.one_le_channels, hcnt, fun c hc ↦ ?_, rfl⟩
    refine ⟨_, hget c hc _, ?_⟩
    rw [length_channelOf, u32_of_lt hlt]

/-- A stream the loader can take leaves an error or a sound, and no other does. -/
theorem respectsSlots_some_iff : RespectsSlots heap dcac (some wav) ↔ wav.Loadable := by
  have hsamples := wav.length_samples
  have hle := wav.framesRead_le
  rw [RespectsSlots, fWavLoad, WavStream.Loadable, ← hsamples]
  by_cases hover : wav.cells < wav.samples.length
  · rw [if_pos hover]
    refine iff_of_false ?_ fun h ↦ absurd h.1 (Nat.not_le_of_lt hover)
    rintro ⟨code, loaded, h, -⟩
    cases h
  have hfit : wav.samples.length ≤ wav.cells := Nat.le_of_not_lt hover
  rw [if_neg hover]
  dsimp only
  by_cases hshort : wav.framesRead < wav.totalPcmFrameCount
  · rw [if_pos hshort.ne]
    exact iff_of_true ⟨_, _, rfl, Or.inl DcaError.noConfusion⟩ ⟨hfit, Or.inl hshort⟩
  have hfull : wav.framesRead = wav.totalPcmFrameCount := by omega
  have hinterleaved : wav.framesRead * wav.channels
      ≤ (wav.samples ++ (heap.block 0 wav.cells).drop wav.samples.length).length := by
    rw [← hsamples, List.length_append]
    exact Nat.le_add_right _ _
  rw [if_neg (not_not.mpr hfull), ← hfull]
  simp only [hfit, lt_irrefl, false_or, true_and]
  rw [← @exists_channelsSet_iff heap.rest dcac wav _ hinterleaved]
  constructor
  · rintro ⟨code, loaded, h, hcode⟩
    obtain ⟨planar, htake, hok⟩ := Fallible.bind_eq_ok.mp h
    cases hok
    exact ⟨_, htake, hcode.resolve_left fun h ↦ h rfl⟩
  · rintro ⟨loaded, htake, hset⟩
    exact ⟨.ok, loaded, Fallible.bind_eq_ok.mpr ⟨loaded, htake, rfl⟩, Or.inr hset⟩

/-- **The array of channels.** The loader respects it exactly when the file does not open or the
stream is one it can take. -/
theorem respectsSlots_iff (heap : Heap) (dcac : DcAudioConverter) (file : Option WavStream) :
    RespectsSlots heap dcac file ↔ ∀ wav, file = some wav → wav.Loadable := by
  cases file with
  | none => exact iff_of_true ⟨_, _, rfl, Or.inl DcaError.noConfusion⟩ fun wav h ↦ by cases h
  | some wav =>
    rw [respectsSlots_some_iff]
    exact ⟨fun h wav' hwav ↦ Option.some.inj hwav ▸ h, fun h ↦ h wav rfl⟩

end Slots

/-- One frame of nine channels, all of it delivered. -/
def nineChannelStream : WavStream where
  channels := 9
  sampleRate := 44100
  totalPcmFrameCount := 1
  framesRead := 1
  samples := List.replicate 9 0
  one_le_channels := by decide
  channels_le := by decide
  totalPcmFrameCount_lt := by decide
  framesRead_le := le_rfl
  length_samples := rfl

/-- A heap of zeros. -/
def Heap.zero : Heap := ⟨fun _ cells ↦ List.replicate cells 0, fun _ _ ↦ List.length_replicate⟩

/-- The ninth channel is stored behind the array. -/
theorem nine_channels_overrun : ¬RespectsSlots .zero dcaInit (some nineChannelStream) := by
  rintro ⟨code, loaded, h, -⟩
  have hfault : fWavLoad .zero dcaInit (some nineChannelStream) = .error .outOfBounds := rfl
  rw [hfault] at h
  cases h

/-! ## The writer -/

/-- The format `fWavWrite` asks for, of PCM in a RIFF file. -/
structure WavFormat where
  channels : ℕ
  sampleRate : ℕ
  bitsPerSample : ℕ

/-- The encoder: whether it opens the output file, and how many frames of a buffer it writes. -/
structure WavEncoder where
  opens : WavFormat → (totalSampleCount : ℕ) → Bool
  framesWritten : (framesToWrite : ℕ) → (interleaved : List Int16) → ℕ

def fWavWrite (heap : Heap) (fuel : ℕ) (encoder : WavEncoder) (dcac : DcAudioConverter) :
    Option (Except Fault DcaError) :=
  if encoder.opens ⟨dcac.channelCnt, dcac.sampleRateHz, 16⟩ dcac.samplesLen then
    (interleaveSamples heap fuel dcac).map fun run ↦ run.map fun interleaved ↦
      if encoder.framesWritten dcac.samplesLen interleaved.cells = dcac.samplesLen then .ok
      else .writeError
  else some (.ok .writeOpenError)

section Write

variable {heap : Heap} {encoder : WavEncoder} {dcac : DcAudioConverter} {n k fuel : ℕ}

/-- The encoder gets the packed samples, and decides the result. -/
theorem fWavWrite_eq (h : Planar dcac n k) (hk : 1 ≤ k) (hfit : n * k < 2 ^ 32) (hfuel : n < fuel) :
    fWavWrite heap fuel encoder dcac = some (.ok (
      if encoder.opens ⟨k, dcac.sampleRateHz, 16⟩ n then
        if encoder.framesWritten n (Interleave.pack n k (sampleOf dcac)) = n then .ok
        else .writeError
      else .writeOpenError)) := by
  rw [fWavWrite, h.channelCnt_eq, h.samplesLen_eq, interleaveSamples_eq h hk hfit hfuel]
  split <;> rfl

end Write

end DcaConv
