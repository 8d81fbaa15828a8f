import DcaConv.Pipeline.Plain
import DcaConv.Process.Runs
import DcaConv.Process.Stored
import DcaConv.Rate.Float

/-!
# Files through the program

What the encoder of an output file gets, for whole runs: from a WAV file to a WAV file, from a
`.dca` file that was just written, and from a WAV file over a `.dca` file back to one. All of this
is about sounds of fewer than `2 ^ 32` samples; beyond that the interleaved index wraps.

The ratio, the products and the rates that `main` computes as `float` are exact rationals here. A
file that is resampled has the length of the exact ratio. Where a rate has to survive the AICA's
format it is also one that the `float` leaves as it is.
-/

namespace DcaConv

/-! ## WAV output -/

section Encoder

variable {world : World} {dcac final : DcAudioConverter} {sound : Sound} {n k : ℕ}

theorem writeWav_planar (h : Planar dcac n k) (hk : 1 ≤ k) (hfit : n * k < 2 ^ 32)
    (fname : CString) : writeWav world dcac fname = .ok (wavResult (world.encoder fname)
      ⟨k, dcac.sampleRateHz, 16⟩ n (Interleave.pack n k (sampleOf dcac))) := by
  have hfuel : n < dcac.samplesLen + 1 := by
    rw [h.samplesLen_eq]
    exact Nat.lt_succ_self n
  rw [writeWav, fWavWrite_eq h hk hfit hfuel]
  rfl

/-- Two states with the same sound are written alike. -/
theorem writeWav_of_verbatim (h : Verbatim sound final) (hdcac : Verbatim sound dcac)
    (fname : CString) : writeWav world final fname = writeWav world dcac fname := by
  have hnest : interleaveFrame final = interleaveFrame dcac := by
    funext interleaved i
    rw [interleaveFrame, interleaveFrame, h.channelCnt_eq, hdcac.channelCnt_eq]
    refine Fallible.foldlM_congr (fun s c _ ↦ ?_) interleaved
    rw [interleaveSample, interleaveSample, h.samples_eq, hdcac.samples_eq, h.channelCnt_eq,
      hdcac.channelCnt_eq]
  rw [writeWav, writeWav, fWavWrite, fWavWrite, interleaveSamples, interleaveSamples, hnest,
    h.channelCnt_eq, hdcac.channelCnt_eq, h.sampleRateHz_eq, hdcac.sampleRateHz_eq,
    h.samplesLen_eq, hdcac.samplesLen_eq]

/-- A sound that was taken apart goes to the encoder put together. -/
theorem writeWav_soundOf {buf : List Int16} {rate : ℕ} {hrate : 0 < rate} {hk : 0 < k}
    {hn : n < 2 ^ 32} (h : Verbatim (soundOf buf rate n k hrate hk hn) final)
    (hbuf : buf.length = n * k) (hfit : n * k < 2 ^ 32) (fname : CString) :
    writeWav world final fname
      = .ok (wavResult (world.encoder fname) ⟨k, rate, 16⟩ n buf) := by
  have hplanar : Planar final n k := by
    have hplanar := h.planar
    rwa [length_channels_soundOf] at hplanar
  have hsample : ∀ c < k, ∀ i < n, sampleOf final c i
      = (Interleave.member n k (buf.getD · 0) c).getD i 0 := by
    intro c hc i _
    have hsame : sampleOf final c i = sampleOf { dcaInit with
        samples := (List.range k).map (channelOf buf n k) ++ [] } c i := by
      rw [sampleOf, sampleOf, h.samples_eq, List.append_nil]
      rfl
    exact hsame.trans (sampleOf_deinterleaved hc hfit i)
  rw [writeWav_planar hplanar hk hfit, h.sampleRateHz_eq, Interleave.pack_congr hsample,
    Interleave.pack_member 0 hbuf]
  rfl

end Encoder

/-! ## WAV input -/

/-- A stream that delivers what it announces, with channels the array has slots for and fewer than
`2 ^ 32` samples. -/
structure WavStream.Whole (wav : WavStream) : Prop where
  complete : wav.framesRead = wav.totalPcmFrameCount
  channels_le : wav.channels ≤ dcacMaxChannels
  sampleRate_pos : 0 < wav.sampleRate
  size_lt : wav.framesRead * wav.channels < 2 ^ 32

theorem WavStream.Whole.framesRead_lt {wav : WavStream} (h : wav.Whole) :
    wav.framesRead < 2 ^ 32 :=
  (Nat.le_mul_of_pos_right _ wav.one_le_channels).trans_lt h.size_lt

/-- The sound in a stream. -/
def WavStream.sound (wav : WavStream) (h : wav.Whole) : Sound :=
  soundOf wav.samples wav.sampleRate wav.framesRead wav.channels h.sampleRate_pos
    wav.one_le_channels h.framesRead_lt

@[simp] theorem WavStream.length_channels_sound (wav : WavStream) (h : wav.Whole) :
    (wav.sound h).channels.length = wav.channels := length_channels_soundOf

theorem fWavLoad_whole {heap : Heap} {dcac : DcAudioConverter} {wav : WavStream} (h : wav.Whole)
    (hfresh : dcac.samples = []) :
    fWavLoad heap dcac (some wav) = .ok (.ok, dcac.load (wav.sound h)) := by
  have hsize := h.size_lt
  have hlength := wav.length_samples
  have hcells : wav.cells = wav.framesRead * wav.channels := by
    rw [WavStream.cells, ← h.complete, Target.size_host (by omega),
      Nat.mul_div_cancel _ Nat.two_pos]
  have hrest : (heap.block 0 wav.cells).drop wav.samples.length = [] := by
    rw [List.drop_eq_nil_iff, heap.length_block, hlength, hcells]
  rw [fWavLoad, if_neg (by omega)]
  dsimp only
  rw [if_neg (not_not.mpr h.complete), hrest, List.append_nil,
    takeStream_eq h.channels_le hlength.ge, Fallible.ok_bind, u32_of_lt h.framesRead_lt, hfresh,
    List.drop_nil, List.append_nil, DcAudioConverter.load, WavStream.length_channels_sound]
  rfl

/-! ## Extensions -/

/-- A name has one of the extensions the program knows, up to case. -/
theorem extensionIs_eq_false {ext : CString} {a b : String} (h : extensionIs ext a = true)
    (hne : a.toList.map Char.toLower ≠ b.toList.map Char.toLower) : extensionIs ext b = false := by
  rw [extensionIs, strcaseeq, beq_iff_eq] at h
  rw [extensionIs, strcaseeq, beq_eq_false_iff_ne, h]
  exact hne

section Names

variable {world : World} {dcac : DcAudioConverter} {fname : CString}

theorem outputType_wav (h : extensionIs (getExtension fname) ".wav" = true) :
    outputType fname = .wav := by
  rw [outputType, extensionIs_eq_false h (by decide), h]
  rfl

theorem outputType_dca (h : extensionIs (getExtension fname) ".dca" = true) :
    outputType fname = .dca := by
  rw [outputType, h]
  rfl

theorem loadInput_wav (h : extensionIs (getExtension fname) ".wav" = true) :
    loadInput world dcac fname
      = (fWavLoad world.heap dcac (world.wav fname)).mapError .aborted := by
  rw [loadInput, h]
  rfl

theorem loadInput_dca (h : extensionIs (getExtension fname) ".dca" = true) :
    loadInput world dcac fname = (fDcaLoad dcac (world.dca fname)).mapError .aborted := by
  rw [loadInput, extensionIs_eq_false h (by decide), h]
  rfl

/-- A preview is made of a `.dca` file only. -/
theorem exists_makePreview_of_ne (h : outputType fname ≠ .dca)
    (preview : Option CString) (written : DcaError × List UInt8) :
    ∃ made, makePreview world preview fname written = .ok made := by
  have hno : extensionIs (getExtension fname) ".dca" = false :=
    Bool.eq_false_iff.mpr fun hdca ↦ h (outputType_dca hdca)
  cases preview with
  | none => exact ⟨_, rfl⟩
  | some name =>
    rw [makePreview]
    split
    · exact ⟨_, rfl⟩
    · rw [generatePreview, hno]
      exact ⟨_, rfl⟩

end Names

/-! ## Plain runs -/

/-- A command line that names a file to read and changes nothing about the sound in it. -/
structure PlainInput (world : World) (argv : List CString) (sound : Sound) where
  locals : Locals
  inFname : CString
  accepts : Accepts argv locals
  inFname_eq : locals.inFname = some inFname
  loads : loadInput world locals.dcac inFname = .ok (.ok, locals.dcac.load sound)
  plain : Plain locals.settings locals.dcac sound

section Input

variable {world : World} {argv : List CString} {sound : Sound}

def PlainInput.conversion (input : PlainInput world argv sound) {outFname : CString}
    (hout : input.locals.outFname = some outFname) : Conversion world argv :=
  ⟨input.locals, input.inFname, outFname, sound, input.accepts, input.inFname_eq, hout,
    input.loads⟩

/-- A run that changes no sample, behind its writer. -/
theorem PlainInput.mainProcess_eq (input : PlainInput world argv sound) {outFname : CString}
    (hout : input.locals.outFname = some outFname) {final : DcAudioConverter}
    (hleaves : LeavesSamples ((mainReading argv).found.filterMap cliOption) sound
      (outputType outFname) world.past world.src final) {written : DcaError × List UInt8}
    (hwrite : writeFile world final outFname = .ok written)
    {made : Option (DcaError × DcAudioConverter)}
    (hmade : makePreview world input.locals.preview outFname written = .ok made) :
    mainProcess world argv = .ok ⟨final, written.1, written.2, made⟩ :=
  Conversion.Ends.mainProcess_eq (c := input.conversion hout) ⟨⟨hleaves.runMain_eq,
    fun settings dcac h ↦ Or.inl (hleaves.idle settings dcac h)⟩, hwrite, hmade⟩

/-- The encoder of a WAV file gets the sound. -/
theorem PlainInput.to_wav (input : PlainInput world argv sound) {outFname : CString}
    (hout : input.locals.outFname = some outFname)
    (hwav : extensionIs (getExtension outFname) ".wav" = true)
    (hchannels : input.locals.dcac.desiredChannels = 0 ∨
      sound.channels.length ≤ input.locals.dcac.desiredChannels)
    (hfit : sound.samplesLen * sound.channels.length < 2 ^ 32) :
    ∃ outcome, mainProcess world argv = .ok outcome ∧
      writeWav world (dcaInit.load sound) outFname = .ok outcome.writeError := by
  obtain ⟨final, hleaves⟩ := input.plain.leavesSamples_wav input.accepts.options_eq hchannels
    world.past world.src
  have htype := outputType_wav hwav
  have hverbatim : Verbatim sound (dcaInit.load sound) := ⟨rfl, rfl, rfl, rfl⟩
  obtain ⟨code, hwrite⟩ : ∃ code, writeWav world (dcaInit.load sound) outFname = .ok code :=
    ⟨_, writeWav_planar hverbatim.planar sound.channels_pos hfit outFname⟩
  obtain ⟨made, hmade⟩ := exists_makePreview_of_ne (by rw [htype]; exact OutputType.noConfusion)
    input.locals.preview (code, [])
  rw [← htype] at hleaves
  have hfile : writeFile world final outFname = .ok (code, []) := by
    rw [writeFile, htype]
    dsimp only
    rw [writeWav_of_verbatim hleaves.verbatim hverbatim, hwrite]
    rfl
  exact ⟨_, input.mainProcess_eq hout hleaves hfile hmade, hwrite⟩

/-- A `.dca` file of the sound is written, if the AICA can play it as it is. -/
theorem PlainInput.to_dca (input : PlainInput world argv sound)
    (haica : PlaysOnAica input.locals.dcac sound)
    (hchannels : sound.channels.length ≤ max 1 input.locals.dcac.desiredChannels)
    (hmax : sound.channels.length ≤ dcaFileMaxChannels) (hlt : sound.samplesLen + 1 < 2 ^ 32)
    (hsize : headerSize + sound.channels.length * paddedChannelSize
      (writtenFormat input.locals.dcac.format).value
        sound.samplesLen < 2 ^ 32) {outFname : CString}
    (hdca : extensionIs (getExtension outFname) ".dca" = true)
    (hsink : world.sink outFname = some .whole) :
    ∃ final bytes, LeavesSamples ((mainReading argv).found.filterMap cliOption) sound
        (outputType outFname) world.past world.src final ∧
      final.format = writtenFormat input.locals.dcac.format ∧
      fDcaWrite final (some .whole) = .ok (.ok, bytes) ∧
      writeFile world final outFname = .ok (.ok, bytes) := by
  obtain ⟨final, hleaves, hformat, hlong⟩ := input.plain.leavesSamples_dca
    input.accepts.options_eq haica hchannels world.past world.src
  have hsame := hleaves.verbatim
  have hinv := writerInv hleaves.runMain_eq
  have hfits : FitsFile final := by
    refine ⟨?_, ?_, fun hshort ↦ ?_, ?_⟩
    · rw [hsame.samplesLen_eq]
      exact Nat.zero_lt_of_lt input.plain.loopStart_lt
    · rw [hsame.channelCnt_eq]
      exact hmax
    · rw [hsame.samplesLen_eq]
      exact (haica.fits (hlong ▸ hshort)).trans (Nat.le_add_right _ _)
    · rw [hsame.channelCnt_eq, hsame.samplesLen_eq, hformat]
      exact hsize
  obtain ⟨bytes, hwrite⟩ := (fDcaWrite_ok_iff hinv (hsame.samplesLen_eq ▸ hlt)).mpr hfits
  have htype := outputType_dca hdca
  refine ⟨final, bytes, htype.symm ▸ hleaves, hformat, hwrite, ?_⟩
  rw [writeFile, htype]
  dsimp only
  rw [hsink, hwrite]
  rfl

end Input

/-! ## From WAV to WAV -/

/-- A command line that names a WAV file to read. -/
structure WavInput (world : World) (argv : List CString) where
  locals : Locals
  inFname : CString
  wav : WavStream
  whole : wav.Whole
  accepts : Accepts argv locals
  inFname_eq : locals.inFname = some inFname
  isWav : extensionIs (getExtension inFname) ".wav" = true
  opens : world.wav inFname = some wav

section Wav

variable {world : World} {argv : List CString}

def WavInput.sound (input : WavInput world argv) : Sound := input.wav.sound input.whole

/-- With settings that change nothing about it. -/
def WavInput.plainInput (input : WavInput world argv)
    (hplain : Plain input.locals.settings input.locals.dcac input.sound) :
    PlainInput world argv input.sound where
  locals := input.locals
  inFname := input.inFname
  accepts := input.accepts
  inFname_eq := input.inFname_eq
  loads := by
    rw [loadInput_wav input.isWav, input.opens,
      fWavLoad_whole input.whole (parseOptions_inv input.accepts.options_eq).samples_nil]
    rfl
  plain := hplain

/-- The sound goes to an encoder as the samples it was read as. -/
theorem WavInput.writeWav_sound (input : WavInput world argv) (world' : World) (fname : CString) :
    writeWav world' (dcaInit.load input.sound) fname = .ok (wavResult (world'.encoder fname)
      ⟨input.wav.channels, input.wav.sampleRate, 16⟩ input.wav.framesRead input.wav.samples) := by
  have hverbatim : Verbatim input.sound (dcaInit.load input.sound) := ⟨rfl, rfl, rfl, rfl⟩
  exact @writeWav_soundOf world' _ _ _ _ _ input.whole.sampleRate_pos input.wav.one_le_channels
    input.whole.framesRead_lt hverbatim input.wav.length_samples input.whole.size_lt fname

/-- **WAV to WAV.** The encoder gets the decoder's samples, at the same rate and with the same
channels, of a complete file with a rate, at most eight channels and fewer than `2 ^ 32` samples. -/
theorem wav_to_wav_lossless (input : WavInput world argv)
    (hplain : Plain input.locals.settings input.locals.dcac input.sound) {outFname : CString}
    (hout : input.locals.outFname = some outFname)
    (hwav : extensionIs (getExtension outFname) ".wav" = true)
    (hchannels : input.locals.dcac.desiredChannels = 0 ∨
      input.wav.channels ≤ input.locals.dcac.desiredChannels) :
    ∃ outcome, mainProcess world argv = .ok outcome ∧ outcome.writeError
      = wavResult (world.encoder outFname) ⟨input.wav.channels, input.wav.sampleRate, 16⟩
        input.wav.framesRead input.wav.samples := by
  have hcnt : input.sound.channels.length = input.wav.channels :=
    input.wav.length_channels_sound input.whole
  obtain ⟨outcome, hrun, hwrite⟩ := (input.plainInput hplain).to_wav hout hwav
    (hcnt.symm ▸ hchannels) (hcnt.symm ▸ input.whole.size_lt)
  rw [input.writeWav_sound world outFname] at hwrite
  exact ⟨outcome, hrun, (Except.ok.inj hwrite).symm⟩

end Wav

/-! ## Over a `.dca` file -/

/-- A command line that names a `.dca` file of these bytes. -/
structure DcaInput (world : World) (argv : List CString) (bytes : List UInt8) where
  locals : Locals
  inFname : CString
  accepts : Accepts argv locals
  inFname_eq : locals.inFname = some inFname
  isDca : extensionIs (getExtension inFname) ".dca" = true
  opens : world.dca inFname = some (.whole bytes)

section Dca

variable {world world' : World} {argv argv' : List CString}

/-- Of a file that was written. -/
def DcaInput.plainInput {final : DcAudioConverter} {sink : FileSink} {bytes : List UInt8}
    (input : DcaInput world argv bytes) (hinv : WriterInv .dca final)
    (hlt : final.samplesLen + 1 < 2 ^ 32) (hwrite : fDcaWrite final (some sink) = .ok (.ok, bytes))
    (hplain : Plain input.locals.settings input.locals.dcac
      (storedSound final hinv (Nat.lt_of_succ_lt hlt))) :
    PlainInput world argv (storedSound final hinv (Nat.lt_of_succ_lt hlt)) where
  locals := input.locals
  inFname := input.inFname
  accepts := input.accepts
  inFname_eq := input.inFname_eq
  loads := by
    rw [loadInput_dca input.isDca, input.opens, fDcaLoad_written hinv hlt hwrite
      (parseOptions_inv input.accepts.options_eq).samples_nil]
    rfl
  plain := hplain

/-- A sound is its rate, its channels and its length. -/
theorem Sound.eq_of {a b : Sound} (hrate : a.sampleRateHz = b.sampleRateHz)
    (hchannels : a.channels = b.channels) (hlen : a.samplesLen = b.samplesLen) : a = b := by
  cases a
  cases b
  cases hrate
  cases hchannels
  cases hlen
  rfl

/-- Sixteen bits keep a sound whose rate the AICA has. -/
theorem storedSound_pcm16 {sound : Sound} {final : DcAudioConverter} (h : Verbatim sound final)
    (hformat : final.format = .pcm16)
    (hstable : fDcaToAICAFrequency sound.sampleRateHz = sound.sampleRateHz)
    (hinv : WriterInv .dca final) (hlt : final.samplesLen < 2 ^ 32) :
    storedSound final hinv hlt = sound := by
  refine Sound.eq_of ?_ ?_ h.samplesLen_eq
  · exact (congrArg fDcaToAICAFrequency h.sampleRateHz_eq).trans hstable
  · show storedChannels final = sound.channels
    rw [storedChannels, hformat, h.samples_eq, h.channelCnt_eq, List.take_length]
    refine (List.map_congr_left fun xs hxs ↦ ?_).trans (List.map_id _)
    exact List.take_of_length_le (by rw [sound.length_eq xs hxs, h.samplesLen_eq])

/-- What a listener gets of a state that was written as a `.dca` file. -/
def listening (world : World) (final : DcAudioConverter) (fname : CString) : DcaError :=
  wavResult (world.encoder fname)
    ⟨final.channelCnt, fDcaToAICAFrequency final.sampleRateHz, 16⟩ final.samplesLen
    (Interleave.pack final.samplesLen final.channelCnt fun c i ↦
      ((storedChannels final).getD c []).getD i 0)

theorem writeWav_storedSound {final : DcAudioConverter} (hinv : WriterInv .dca final)
    (hlt : final.samplesLen < 2 ^ 32) (hfit : final.samplesLen * final.channelCnt < 2 ^ 32)
    (fname : CString) : writeWav world (dcaInit.load (storedSound final hinv hlt)) fname
      = .ok (listening world final fname) := by
  have hplanar := planar_load dcaInit (storedSound final hinv hlt)
  have hcnt : (storedSound final hinv hlt).channels.length = final.channelCnt :=
    length_storedChannels hinv
  rw [hcnt] at hplanar
  exact writeWav_planar hplanar hinv.one_le hfit fname

/-- A preview of a file that loads. -/
theorem generatePreview_eq {dcac : DcAudioConverter} {bytes : List UInt8}
    {srcFname previewFname : CString} (hdca : extensionIs (getExtension srcFname) ".dca" = true)
    (hwav : extensionIs (getExtension previewFname) ".wav" = true)
    (hload : fDcaLoad dcaInit (world.reopen bytes) = .ok (.ok, dcac)) :
    generatePreview world bytes srcFname previewFname
      = (writeWav world dcac previewFname).map (·, dcac) := by
  rw [generatePreview, hdca, hwav, hload]
  change (writeWav world dcac previewFname >>= fun code ↦ .ok (code, dcac)) = _
  cases writeWav world dcac previewFname <;> rfl

/-- **The preview.** Of a `.dca` file of fewer than `2 ^ 32` samples that was written and can be
opened again, it is what a second run makes of that file without any settings of its own: neither
fails to read it, and their encoders get the same. -/
theorem preview_eq_second_run (c : Conversion world argv) {outcome : Outcome}
    (hends : c.Ends outcome) (hdca : extensionIs (getExtension c.outFname) ".dca" = true)
    (hok : outcome.writeError = .ok) (hlt : outcome.final.samplesLen + 1 < 2 ^ 32)
    (hfit : outcome.final.samplesLen * outcome.final.channelCnt < 2 ^ 32)
    (hreopen : ∀ bytes, world.reopen bytes = some (.whole bytes)) {fname : CString}
    (hpreview : c.locals.preview = some fname)
    (hwav : extensionIs (getExtension fname) ".wav" = true) :
    (∃ shown, outcome.preview = some (listening world outcome.final fname, shown)) ∧
      ∀ (back : DcaInput world' argv' outcome.bytes) (backFname : CString),
        back.locals.outFname = some backFname →
        extensionIs (getExtension backFname) ".wav" = true →
        back.locals.settings = .initial → back.locals.dcac = dcaInit →
        ∃ outcome', mainProcess world' argv' = .ok outcome' ∧
          outcome'.writeError = listening world' outcome.final backFname := by
  have hrun := hends.writes.final_eq
  have hwrite := hends.written
  have hshown := hends.preview_eq
  rw [Conversion.out, outputType_dca hdca] at hrun
  rw [writeFile, outputType_dca hdca, hok] at hwrite
  have hinv := writerInv hrun
  have hwritten := Fallible.mapError_eq_ok.mp hwrite
  obtain ⟨sink, hsink⟩ := exists_sink_of_fDcaWrite hwritten
  rw [hsink] at hwritten
  constructor
  · rw [hpreview, hok, makePreview] at hshown
    dsimp only at hshown
    rw [if_neg (not_not.mpr rfl), Fallible.map_eq_ok] at hshown
    obtain ⟨result, hresult, hsome⟩ := hshown
    have hload := @fDcaLoad_written _ dcaInit hinv hlt _ _ hwritten rfl
    rw [← hreopen] at hload
    rw [generatePreview_eq hdca hwav hload, writeWav_storedSound hinv _ hfit] at hresult
    cases hresult
    exact ⟨_, hsome.symm⟩
  · intro back backFname hout hbackWav hsettings hdcac
    have hpos := (fitsFile_of_fDcaWrite (by omega) hwritten).samplesLen_pos
    have hplain : Plain back.locals.settings back.locals.dcac
        (storedSound outcome.final hinv (Nat.lt_of_succ_lt hlt)) := by
      rw [hsettings, hdcac]
      exact ⟨rfl, rfl, rfl, Or.inl rfl, hpos, Or.inl rfl⟩
    have hcnt : (storedSound outcome.final hinv (Nat.lt_of_succ_lt hlt)).channels.length
        = outcome.final.channelCnt := length_storedChannels hinv
    obtain ⟨outcome', hrun', hwrite'⟩ :=
      (back.plainInput hinv hlt hwritten hplain).to_wav hout hbackWav
        (Or.inl (congrArg DcAudioConverter.desiredChannels hdcac)) (by rw [hcnt]; exact hfit)
    rw [writeWav_storedSound hinv _ hfit] at hwrite'
    exact ⟨outcome', hrun', (Except.ok.inj hwrite').symm⟩

/-- A rate of at most 44100 Hz that the AICA has as the program reads it, and not by the rounding of
its `float` alone; and a length the AICA can play, or `--long`. -/
structure StaysOnAica (dcac : DcAudioConverter) (sound : Sound) : Prop where
  rate_le : sound.sampleRateHz ≤ 44100
  rate_stable : fDcaToAICAFrequencyFloat sound.sampleRateHz = sound.sampleRateHz
  rate_exact : ¬FloatRoundsUp sound.sampleRateHz
  fits : dcac.longSound = false → sound.samplesLen ≤ dcacMaxSamples

/-- Its rate is stable in either reading. -/
theorem StaysOnAica.playsOnAica {dcac : DcAudioConverter} {sound : Sound}
    (h : StaysOnAica dcac sound) : PlaysOnAica dcac sound where
  rate_le := h.rate_le
  rate_stable := ((toAICAFloat_eq_iff_common h.rate_le).mpr h.rate_exact).symm.trans h.rate_stable
  fits := h.fits

/-- **WAV over `.dca` to WAV.** A complete file of at most seven channels, stored as 16-bit samples
with all of its channels at its own rate, comes back unchanged. -/
theorem archive_lossless (input : WavInput world argv)
    (hplain : Plain input.locals.settings input.locals.dcac input.sound)
    (hstays : StaysOnAica input.locals.dcac input.sound)
    (hformat : input.locals.dcac.format = .pcm16)
    (hchannels : input.wav.channels ≤ max 1 input.locals.dcac.desiredChannels)
    (hmax : input.wav.channels ≤ dcaFileMaxChannels)
    (hsize : headerSize + input.wav.channels
      * paddedChannelSize DcaFormat.pcm16.value input.wav.framesRead < 2 ^ 32)
    (hnone : input.locals.preview = none) {outFname : CString}
    (hout : input.locals.outFname = some outFname)
    (hdca : extensionIs (getExtension outFname) ".dca" = true)
    (hsink : world.sink outFname = some .whole) :
    ∃ outcome, mainProcess world argv = .ok outcome ∧ outcome.writeError = .ok ∧
      ∀ (back : DcaInput world' argv' outcome.bytes) (backFname : CString),
        back.locals.outFname = some backFname →
        extensionIs (getExtension backFname) ".wav" = true →
        Plain back.locals.settings back.locals.dcac input.sound →
        back.locals.dcac.desiredChannels = 0 ∨
          input.wav.channels ≤ back.locals.dcac.desiredChannels →
        ∃ outcome', mainProcess world' argv' = .ok outcome' ∧ outcome'.writeError
          = wavResult (world'.encoder backFname) ⟨input.wav.channels, input.wav.sampleRate, 16⟩
            input.wav.framesRead input.wav.samples := by
  have haica := hstays.playsOnAica
  have hcnt : input.sound.channels.length = input.wav.channels :=
    input.wav.length_channels_sound input.whole
  have hlt : input.wav.framesRead + 1 < 2 ^ 32 := by
    have hpad := payloadBytes_le_padded DcaFormat.pcm16.value input.wav.framesRead
    have hone := Nat.le_mul_of_pos_left
      (paddedChannelSize DcaFormat.pcm16.value input.wav.framesRead) input.wav.one_le_channels
    rw [payloadBytes_pcm16] at hpad
    rw [headerSize] at hsize
    omega
  have hwritten : writtenFormat (input.plainInput hplain).locals.dcac.format = .pcm16 :=
    congrArg writtenFormat hformat
  obtain ⟨final, bytes, hleaves, hfinalFormat, hwrite, hfile⟩ :=
    (input.plainInput hplain).to_dca haica (hcnt.symm ▸ hchannels) (hcnt.symm ▸ hmax) hlt
      (by rw [hcnt, hwritten]; exact hsize) hdca hsink
  have hmade : makePreview world (input.plainInput hplain).locals.preview outFname (.ok, bytes)
      = .ok none := by
    rw [show (input.plainInput hplain).locals.preview = none from hnone]
    rfl
  refine ⟨_, (input.plainInput hplain).mainProcess_eq hout hleaves hfile hmade, rfl,
    fun back backFname hback hwav hbackPlain hbackChannels ↦ ?_⟩
  have hsame := hleaves.verbatim
  have hrun := hleaves.runMain_eq
  rw [outputType_dca hdca] at hrun
  have hinv := writerInv hrun
  have hfinalLt : final.samplesLen + 1 < 2 ^ 32 := hsame.samplesLen_eq ▸ hlt
  have hstored := storedSound_pcm16 hsame (hfinalFormat.trans hwritten) haica.rate_stable hinv
    (Nat.lt_of_succ_lt hfinalLt)
  have hstoredCnt : (storedSound final hinv (Nat.lt_of_succ_lt hfinalLt)).channels.length
      = input.wav.channels := by
    rw [hstored]
    exact hcnt
  have hstoredFit : (storedSound final hinv (Nat.lt_of_succ_lt hfinalLt)).samplesLen
      * (storedSound final hinv (Nat.lt_of_succ_lt hfinalLt)).channels.length < 2 ^ 32 := by
    rw [hstored, hcnt]
    exact input.whole.size_lt
  rw [← hstored] at hbackPlain
  obtain ⟨outcome', hrun', hwrite'⟩ := (back.plainInput hinv hfinalLt hwrite hbackPlain).to_wav
    hback hwav (hbackChannels.imp_right hstoredCnt.trans_le) hstoredFit
  rw [hstored, input.writeWav_sound world' backFname] at hwrite'
  exact ⟨outcome', hrun', (Except.ok.inj hwrite').symm⟩

end Dca

/-! ## One file, on each of the ways -/

/-- A command line that names it. -/
def quietInput (argv : List CString) (locals : Locals) (haccepts : Accepts argv locals)
    (hin : locals.inFname = some "in.wav".toList) : WavInput quietWorld argv where
  locals := locals
  inFname := "in.wav".toList
  wav := quietStream
  whole := ⟨rfl, by decide, by decide, by decide⟩
  accepts := haccepts
  inFname_eq := hin
  isWav := rfl
  opens := rfl

theorem quietArgs_accepts : Accepts quietArgs ⟨some "in.wav".toList, some "out.wav".toList, none,
    .initial, dcaInit⟩ :=
  ⟨rfl, List.forall_mem_cons.mpr ⟨rfl, List.forall_mem_cons.mpr ⟨rfl, List.forall_mem_nil _⟩⟩,
    rfl, rfl, rfl, rfl⟩

theorem wav_to_wav_lossless_quiet : ∃ outcome, mainProcess quietWorld quietArgs = .ok outcome ∧
    outcome.writeError = wavResult (quietWorld.encoder "out.wav".toList) ⟨2, 44100, 16⟩ 3
      [1, 2, 3, 4, 5, 6] :=
  wav_to_wav_lossless (quietInput quietArgs _ quietArgs_accepts rfl)
    ⟨rfl, rfl, rfl, Or.inl rfl, by decide, Or.inl rfl⟩ rfl rfl (Or.inl rfl)

/-- As 16-bit stereo. -/
def storeArgs : List CString :=
  ["dcaconv".toList, "-Sfpcm16".toList, "-i".toList, "in.wav".toList, "-oout.dca".toList]

def storeLocals : Locals :=
  ⟨some "in.wav".toList, some "out.dca".toList, none, .initial,
    { dcaInit with format := .pcm16, desiredChannels := 2 }⟩

theorem storeArgs_accepts : Accepts storeArgs storeLocals :=
  ⟨rfl, List.forall_mem_cons.mpr ⟨rfl, List.forall_mem_cons.mpr ⟨rfl,
    List.forall_mem_cons.mpr ⟨rfl, List.forall_mem_cons.mpr ⟨rfl, List.forall_mem_nil _⟩⟩⟩⟩,
    rfl, rfl, rfl, rfl⟩

theorem toAICA_44100 : fDcaToAICAFrequency 44100 = 44100 := by
  have hoctave : InOctave 44100 8 := ⟨by decide, by decide, by decide⟩
  rw [fDcaToAICAFrequency_eq hoctave (by norm_num)]
  rfl

theorem archive_lossless_quiet : ∃ outcome, mainProcess quietWorld storeArgs = .ok outcome ∧
    outcome.writeError = .ok ∧
      ∀ (back : DcaInput quietWorld quietArgs outcome.bytes) (backFname : CString),
        back.locals.outFname = some backFname →
        extensionIs (getExtension backFname) ".wav" = true →
        Plain back.locals.settings back.locals.dcac
          (quietInput storeArgs storeLocals storeArgs_accepts rfl).sound →
        back.locals.dcac.desiredChannels = 0 ∨ 2 ≤ back.locals.dcac.desiredChannels →
        ∃ outcome', mainProcess quietWorld quietArgs = .ok outcome' ∧ outcome'.writeError
          = wavResult (quietWorld.encoder backFname) ⟨2, 44100, 16⟩ 3 [1, 2, 3, 4, 5, 6] :=
  archive_lossless (quietInput storeArgs storeLocals storeArgs_accepts rfl)
    ⟨rfl, rfl, rfl, Or.inl rfl, by decide, Or.inl rfl⟩
    ⟨by decide, toAICAFloat_44100.trans toAICA_44100, by decide, fun _ ↦ by decide⟩ rfl (by decide)
    (by decide) (by decide) rfl rfl rfl rfl

/-- The same, with a preview. -/
def showArgs : List CString := storeArgs ++ ["-pshow.wav".toList]

def showLocals : Locals := { storeLocals with preview := some "show.wav".toList }

theorem showArgs_accepts : Accepts showArgs showLocals :=
  ⟨rfl, List.forall_mem_cons.mpr ⟨rfl, List.forall_mem_cons.mpr ⟨rfl,
    List.forall_mem_cons.mpr ⟨rfl, List.forall_mem_cons.mpr ⟨rfl,
      List.forall_mem_cons.mpr ⟨rfl, List.forall_mem_nil _⟩⟩⟩⟩⟩, rfl, rfl, rfl, rfl⟩

/-- The conversion, up to its end. -/
theorem exists_shown : ∃ (c : Conversion quietWorld showArgs) (outcome : Outcome),
    c.Ends outcome ∧ c.outFname = "out.dca".toList ∧ c.locals = showLocals ∧
      outcome.writeError = .ok ∧ outcome.final.samplesLen = 3 ∧ outcome.final.channelCnt = 2 := by
  have hplain : Plain showLocals.settings showLocals.dcac
      (quietInput showArgs showLocals showArgs_accepts rfl).sound :=
    ⟨rfl, rfl, rfl, Or.inl rfl, by decide, Or.inl rfl⟩
  generalize hinput : (quietInput showArgs showLocals showArgs_accepts rfl).plainInput hplain
    = input
  have hlocals : input.locals = showLocals := by
    rw [← hinput]
    rfl
  have hdca : extensionIs (getExtension "out.dca".toList) ".dca" = true := rfl
  obtain ⟨final, bytes, hleaves, -, hwrite, hfile⟩ := input.to_dca
    ⟨by decide, toAICA_44100, fun _ ↦ by decide⟩ (by rw [hlocals]; decide) (by decide) (by decide)
    (by rw [hlocals]; decide) hdca rfl
  have hsame := hleaves.verbatim
  have hrun := hleaves.runMain_eq
  rw [outputType_dca hdca] at hrun
  have hinv := writerInv hrun
  have hlt : final.samplesLen + 1 < 2 ^ 32 := by
    rw [hsame.samplesLen_eq]
    decide
  have hfit : final.samplesLen * final.channelCnt < 2 ^ 32 := by
    rw [hsame.samplesLen_eq, hsame.channelCnt_eq]
    decide
  have hload := @fDcaLoad_written _ dcaInit hinv hlt _ _ hwrite rfl
  obtain ⟨made, hmade⟩ : ∃ made, makePreview quietWorld input.locals.preview "out.dca".toList
      (.ok, bytes) = .ok made := by
    rw [hlocals]
    show ∃ made, (generatePreview quietWorld bytes _ "show.wav".toList).map some = .ok made
    rw [generatePreview_eq hdca rfl hload, writeWav_storedSound hinv _ hfit]
    exact ⟨_, rfl⟩
  have hout : input.locals.outFname = some "out.dca".toList := by
    rw [hlocals]
    rfl
  exact ⟨input.conversion hout, ⟨final, .ok, bytes, made⟩,
    ⟨⟨hleaves.runMain_eq, fun settings dcac h ↦ Or.inl (hleaves.idle settings dcac h)⟩, hfile,
      hmade⟩, rfl, hlocals, rfl, hsame.samplesLen_eq, hsame.channelCnt_eq⟩

theorem preview_eq_second_run_quiet : ∃ (c : Conversion quietWorld showArgs) (outcome : Outcome),
    c.Ends outcome ∧
    (∃ shown, outcome.preview
      = some (listening quietWorld outcome.final "show.wav".toList, shown)) ∧
      ∀ (back : DcaInput quietWorld quietArgs outcome.bytes) (backFname : CString),
        back.locals.outFname = some backFname →
        extensionIs (getExtension backFname) ".wav" = true →
        back.locals.settings = .initial → back.locals.dcac = dcaInit →
        ∃ outcome', mainProcess quietWorld quietArgs = .ok outcome' ∧
          outcome'.writeError = listening quietWorld outcome.final backFname := by
  obtain ⟨c, outcome, hends, hout, hlocals, hok, hlen, hcnt⟩ := exists_shown
  refine ⟨c, outcome, hends, preview_eq_second_run c hends (by rw [hout]; rfl) hok ?_ ?_
    (fun _ ↦ rfl) (by rw [hlocals]; rfl) rfl⟩
  · rw [hlen]
    decide
  · rw [hlen, hcnt]
    decide

end DcaConv
