import DcaConv.CommandLine.Optparse
import DcaConv.Pipeline.Trim
import DcaConv.Wav.File

/-!
# Input files

The loader of a file goes by the extension of its name. Ogg, FLAC and MP3 files are decoded in one
call, which leaves one interleaved buffer; their loaders take its channel count as it is, like
`fWavLoad`, and the Ogg decoder allows sixteen channels where the array has eight slots.
-/

namespace DcaConv

/-! ## Extensions -/

/-- From the last `.` on, nothing if there is none. -/
def getExtension : CString → CString
  | [] => []
  | c :: name => if '.' ∈ name then getExtension name else if c = '.' then c :: name else []

/-- `strcasecmp` with an extension. -/
def extensionIs (extension : CString) (name : String) : Bool :=
  strcaseeq (String.ofList extension) name

/-! ## Compressed files -/

/-- A file decoded in one call. -/
structure Decoded where
  channels : ℕ
  sampleRate : ℕ
  frames : ℕ
  output : List Int16
  one_le_channels : 1 ≤ channels
  frames_le : frames * channels ≤ output.length

/-- What `stb_vorbis_decode_filename` leaves, with its length as the `int` it returns. -/
structure DecodedVorbis extends Decoded where
  channels_le : channels ≤ 16
  sampleRate_pos : 0 < sampleRate
  frames_lt : frames < 2 ^ 31

/-- What the three loaders do with the output. -/
def takeDecoded (heap : Heap) (dcac : DcAudioConverter) (file : Decoded) :
    Except Fault (DcaError × DcAudioConverter) := do
  let dcac ← dcaDeinterleaveSamples heap
    { dcac with
      samplesLen := file.frames
      sampleRateHz := file.sampleRate
      channelCnt := file.channels }
    file.output (u32 file.frames) file.channels
  .ok (.ok, dcac)

/-- Load a sound into the converter; `none` when the decoder returns a negative length. -/
def fVorbisLoad (heap : Heap) (dcac : DcAudioConverter) (file : Option DecodedVorbis) :
    Except Fault (DcaError × DcAudioConverter) :=
  match file with
  | none => .ok (.readOpenError, dcac)
  | some file =>
    -- an empty file is taken for one that does not open
    if file.frames = 0 then .ok (.readOpenError, dcac) else takeDecoded heap dcac file.toDecoded

/-- Load a sound into the converter; `none` when the decoder returns `NULL`. -/
def fFlacLoad (heap : Heap) (dcac : DcAudioConverter) (file : Option Decoded) :
    Except Fault (DcaError × DcAudioConverter) :=
  match file with
  | none => .ok (.readOpenError, dcac)
  | some file => takeDecoded heap dcac file

/-- Load a sound into the converter; `none` when the decoder returns `NULL`. -/
def fMp3Load (heap : Heap) (dcac : DcAudioConverter) (file : Option Decoded) :
    Except Fault (DcaError × DcAudioConverter) :=
  match file with
  | none => .ok (.readOpenError, dcac)
  | some file => takeDecoded heap dcac file

/-! ## What is a sound -/

/-- A loader has left a sound in a converter. -/
def LeavesSound (dcac : DcAudioConverter) (result : Except Fault (DcaError × DcAudioConverter)) :
    Prop :=
  ∃ sound : Sound, result = .ok (.ok, dcac.load sound)

/-- The sound in an interleaved buffer. -/
def soundOf (buf : List Int16) (rate n k : ℕ) (hrate : 0 < rate) (hk : 0 < k) (hn : n < 2 ^ 32) :
    Sound where
  sampleRateHz := rate
  channels := (List.range k).map (channelOf buf n k)
  samplesLen := n
  rate_pos := hrate
  channels_pos := by rwa [List.length_map, List.length_range]
  length_eq xs hxs := by
    obtain ⟨c, -, rfl⟩ := List.mem_map.mp hxs
    exact length_channelOf
  samplesLen_lt := hn

@[simp] theorem length_channels_soundOf {buf : List Int16} {rate n k : ℕ} {hrate : 0 < rate}
    {hk : 0 < k} {hn : n < 2 ^ 32} : (soundOf buf rate n k hrate hk hn).channels.length = k := by
  rw [soundOf, List.length_map, List.length_range]

section Sound

variable {heap : Heap} {dcac : DcAudioConverter} {file : Decoded}

theorem takeDecoded_eq (hfresh : dcac.samples = []) (hcnt : file.channels ≤ dcacMaxChannels)
    (hrate : 0 < file.sampleRate) (hlt : file.frames < 2 ^ 32) :
    takeDecoded heap dcac file = .ok (.ok, dcac.load (soundOf file.output file.sampleRate
      file.frames file.channels hrate file.one_le_channels hlt)) := by
  rw [takeDecoded, u32_of_lt hlt, dcaDeinterleaveSamples_eq hcnt file.frames_le, Fallible.ok_bind]
  dsimp only
  rw [hfresh, List.drop_nil, List.append_nil, DcAudioConverter.load, soundOf]
  dsimp only
  rw [List.length_map, List.length_range]

/-- A decoded file is a sound exactly if it fits the array, has a rate, and its length fits the
`unsigned` the buffers are filled with. -/
theorem takeDecoded_iff (hfresh : dcac.samples = []) :
    LeavesSound dcac (takeDecoded heap dcac file) ↔
      file.channels ≤ dcacMaxChannels ∧ 0 < file.sampleRate ∧ file.frames < 2 ^ 32 := by
  constructor
  · rintro ⟨sound, h⟩
    obtain ⟨loaded, hload, hok⟩ := Fallible.bind_eq_ok.mp h
    cases hok
    have hcnt := le_max_of_deinterleaved hload
    have hbuf : u32 file.frames * file.channels ≤ file.output.length :=
      (Nat.mul_le_mul_right _ (Nat.mod_le _ _)).trans file.frames_le
    rw [dcaDeinterleaveSamples_eq hcnt hbuf] at hload
    have hsame := Except.ok.inj hload
    have hrate : file.sampleRate = sound.sampleRateHz := congrArg (·.sampleRateHz) hsame
    have hframes : file.frames = sound.samplesLen := congrArg (·.samplesLen) hsame
    exact ⟨hcnt, hrate ▸ sound.rate_pos, hframes ▸ sound.samplesLen_lt⟩
  · rintro ⟨hcnt, hrate, hlt⟩
    exact ⟨_, takeDecoded_eq hfresh hcnt hrate hlt⟩

/-- **Compressed files.** Into a converter without buffers, a decoded file loads as a sound exactly
if it has at most eight channels, a rate, and a length the loader's loop can count to, which every
length of an Ogg file but zero is. -/
theorem compressed_loaders_iff (hfresh : dcac.samples = []) (vorbis : DecodedVorbis)
    (flac mp3 : Decoded) :
    (LeavesSound dcac (fVorbisLoad heap dcac (some vorbis)) ↔
      vorbis.channels ≤ dcacMaxChannels ∧ 0 < vorbis.frames) ∧
    (LeavesSound dcac (fFlacLoad heap dcac (some flac)) ↔
      flac.channels ≤ dcacMaxChannels ∧ 0 < flac.sampleRate ∧ flac.frames < 2 ^ 32) ∧
    (LeavesSound dcac (fMp3Load heap dcac (some mp3)) ↔
      mp3.channels ≤ dcacMaxChannels ∧ 0 < mp3.sampleRate ∧ mp3.frames < 2 ^ 32) := by
  refine ⟨?_, takeDecoded_iff hfresh, takeDecoded_iff hfresh⟩
  rw [fVorbisLoad]
  by_cases hzero : vorbis.frames = 0
  · rw [if_pos hzero]
    refine iff_of_false ?_ fun h ↦ h.2.ne' hzero
    rintro ⟨sound, h⟩
    cases h
  · have hlt := vorbis.frames_lt
    rw [if_neg hzero, takeDecoded_iff hfresh]
    refine and_congr_right fun _ ↦ ?_
    exact iff_of_true ⟨vorbis.sampleRate_pos, by omega⟩ (Nat.pos_of_ne_zero hzero)

end Sound

/-- One silent frame. -/
def silentFrame (channels : ℕ) (h : 1 ≤ channels) : Decoded where
  channels := channels
  sampleRate := 44100
  frames := 1
  output := List.replicate channels 0
  one_le_channels := h
  frames_le := by rw [List.length_replicate, Nat.one_mul]

/-- An Ogg file of nine channels and a FLAC file of eight. -/
theorem compressed_loaders_nine :
    (LeavesSound dcaInit (fVorbisLoad .zero dcaInit (some
      { silentFrame 9 (by decide) with
        channels_le := by decide
        sampleRate_pos := by decide
        frames_lt := by decide })) ↔ 9 ≤ dcacMaxChannels ∧ 0 < 1) ∧
    (LeavesSound dcaInit (fFlacLoad .zero dcaInit (some (silentFrame 8 (by decide)))) ↔
      8 ≤ dcacMaxChannels ∧ 0 < 44100 ∧ 1 < 2 ^ 32) ∧
    (LeavesSound dcaInit (fMp3Load .zero dcaInit (some (silentFrame 2 (by decide)))) ↔
      2 ≤ dcacMaxChannels ∧ 0 < 44100 ∧ 1 < 2 ^ 32) :=
  compressed_loaders_iff rfl _ _ _

end DcaConv
