import DcaConv.CommandLine.Meaning
import DcaConv.Process.Main

/-!
# Runs of the program

Every way through `main` to its last line is a conversion: a command line that is accepted, a file
that loads as a sound, `runMain` on the two, and the writer. Whatever holds of every `runMain` holds
of every such run, since no loader succeeds without leaving a sound.

The lengths are those the loaders can count to; a longer one leaves buffers shorter than the length
says. As in `runMain`, the ratio and the products that `main` computes as `float` are exact
rationals, and so is the rate it reads from an AICA code: a state in front of the writer has the
rate and the length of exact arithmetic.
-/

namespace DcaConv

/-- No file has `2 ^ 32` frames. -/
structure World.Short (world : World) : Prop where
  wav : ∀ fname wav, world.wav fname = some wav → wav.totalPcmFrameCount < 2 ^ 32
  flac : ∀ fname file, world.flac fname = some file → file.frames < 2 ^ 32
  mp3 : ∀ fname file, world.mp3 fname = some file → file.frames < 2 ^ 32

/-! ## Loaders leave sounds -/

section Loaders

variable {heap : Heap} {dcac loaded : DcAudioConverter}

theorem exists_sound_of_takeDecoded {file : Decoded} (hfresh : dcac.samples = [])
    (hlt : file.frames < 2 ^ 32) (hrate : loaded.sampleRateHz ≠ 0)
    (h : takeDecoded heap dcac file = .ok (.ok, loaded)) :
    ∃ sound : Sound, loaded = dcac.load sound ∧ sound.channels.length ≤ dcacMaxChannels := by
  obtain ⟨planar, hplanar, hok⟩ := Fallible.bind_eq_ok.mp h
  cases hok
  have hcnt := le_max_of_deinterleaved hplanar
  have hbuf : u32 file.frames * file.channels ≤ file.output.length :=
    (Nat.mul_le_mul_right _ (Nat.mod_le _ _)).trans file.frames_le
  have hsame := hplanar
  rw [dcaDeinterleaveSamples_eq hcnt hbuf, Except.ok.injEq] at hsame
  have hpos : 0 < file.sampleRate := by
    rw [← hsame] at hrate
    exact Nat.pos_of_ne_zero hrate
  have htake := @takeDecoded_eq heap _ _ hfresh hcnt hpos hlt
  rw [h] at htake
  cases htake
  exact ⟨_, rfl, length_channels_soundOf.trans_le hcnt⟩

theorem exists_sound_of_fWavLoad {wav : WavStream} (hfresh : dcac.samples = [])
    (hlt : wav.totalPcmFrameCount < 2 ^ 32) (hrate : loaded.sampleRateHz ≠ 0)
    (h : fWavLoad heap dcac (some wav) = .ok (.ok, loaded)) :
    ∃ sound : Sound, loaded = dcac.load sound ∧ sound.channels.length ≤ dcacMaxChannels := by
  rw [fWavLoad] at h
  by_cases hover : wav.cells < wav.samples.length
  · rw [if_pos hover] at h
    cases h
  rw [if_neg hover] at h
  dsimp only at h
  by_cases hread : wav.framesRead ≠ wav.totalPcmFrameCount
  · rw [if_pos hread] at h
    cases h
  rw [if_neg hread] at h
  generalize hbuf : wav.samples ++ (heap.block 0 wav.cells).drop wav.samples.length = buf at h
  obtain ⟨taken, htake, hok⟩ := Fallible.bind_eq_ok.mp h
  cases hok
  have hcnt := le_max_of_deinterleaved htake
  have hlen : wav.framesRead * wav.channels ≤ buf.length := by
    rw [← hbuf, List.length_append, wav.length_samples]
    exact Nat.le_add_right _ _
  have hframes : wav.framesRead < 2 ^ 32 := lt_of_le_of_lt wav.framesRead_le hlt
  rw [takeStream_eq hcnt hlen, u32_of_lt hframes, hfresh, List.drop_nil, List.append_nil,
    Except.ok.injEq] at htake
  have hpos : 0 < wav.sampleRate := by
    rw [← htake] at hrate
    exact Nat.pos_of_ne_zero hrate
  refine ⟨soundOf buf wav.sampleRate wav.framesRead wav.channels hpos wav.one_le_channels hframes,
    ?_, length_channels_soundOf.trans_le hcnt⟩
  rw [← htake, DcAudioConverter.load, soundOf]
  dsimp only
  rw [List.length_map, List.length_range]

/-- A file that loads was read to its end. -/
theorem whole_of_fDcaLoad {file : FileSource}
    (h : fDcaLoad dcac (some file) = .ok (.ok, loaded)) : file = .whole file.contents := by
  obtain ⟨contents, amountRead⟩ := file
  rw [fDcaLoad] at h
  split at h
  · cases h
  · next hread =>
    rw [not_not] at hread
    rw [FileSource.whole, FileSource.mk.injEq]
    exact ⟨rfl, hread⟩

variable {world : World} {options : List CliOption} {settings : Settings} {fname : CString}

/-- A loader that succeeds has left a sound, as far as `main`'s assertion on the rate lets it. -/
theorem exists_sound_of_loadInput (hshort : world.Short)
    (hoptions : parseOptions options = .ok (settings, dcac)) (hrate : loaded.sampleRateHz ≠ 0)
    (h : loadInput world dcac fname = .ok (.ok, loaded)) :
    ∃ sound : Sound, loaded = dcac.load sound ∧ sound.channels.length ≤ dcacMaxChannels := by
  have hfresh := (parseOptions_inv hoptions).samples_nil
  rw [loadInput] at h
  split at h
  · cases hfile : world.wav fname with
    | none =>
      rw [hfile] at h
      cases h
    | some wav =>
      rw [hfile] at h
      exact exists_sound_of_fWavLoad hfresh (hshort.wav _ _ hfile) hrate
        (Fallible.mapError_eq_ok.mp h)
  split at h
  · cases hfile : world.dca fname with
    | none =>
      rw [hfile] at h
      cases h
    | some file =>
      rw [hfile] at h
      have hload := Fallible.mapError_eq_ok.mp h
      rw [whole_of_fDcaLoad hload] at hload
      obtain ⟨sound, hsound, -, hcnt⟩ := exists_sound_of_fDcaLoad hoptions hload
      exact ⟨sound, hsound, hcnt.trans (by decide)⟩
  split at h
  · cases hfile : world.vorbis fname with
    | none =>
      rw [hfile] at h
      cases h
    | some file =>
      rw [hfile] at h
      have hload := Fallible.mapError_eq_ok.mp h
      rw [fVorbisLoad] at hload
      split at hload
      · cases hload
      · have hlt := file.frames_lt
        exact exists_sound_of_takeDecoded hfresh (by omega) hrate hload
  split at h
  · cases hfile : world.flac fname with
    | none =>
      rw [hfile] at h
      cases h
    | some file =>
      rw [hfile] at h
      exact exists_sound_of_takeDecoded hfresh (hshort.flac _ _ hfile) hrate
        (Fallible.mapError_eq_ok.mp h)
  split at h
  · cases hfile : world.mp3 fname with
    | none =>
      rw [hfile] at h
      cases h
    | some file =>
      rw [hfile] at h
      exact exists_sound_of_takeDecoded hfresh (hshort.mp3 _ _ hfile) hrate
        (Fallible.mapError_eq_ok.mp h)
  · cases h

/-- A sound passes `main`'s assertions, and nothing else gets behind them. -/
theorem checkLoaded_iff {result : DcaError × DcAudioConverter} {checked : DcAudioConverter} :
    checkLoaded result = .ok checked ↔ result = (.ok, checked) ∧ checked.channelCnt ≠ 0 ∧
      checked.sampleRateHz ≠ 0 ∧ checked.samples ≠ [] := by
  obtain ⟨code, loaded⟩ := result
  rw [checkLoaded]
  dsimp only
  by_cases hcode : code = .ok
  · rw [if_neg (not_not.mpr hcode)]
    by_cases hset : loaded.channelCnt = 0 ∨ loaded.sampleRateHz = 0 ∨ loaded.samples = []
    · rw [if_pos hset]
      refine iff_of_false (fun h ↦ by cases h) ?_
      rintro ⟨hsame, hassert⟩
      cases hsame
      exact absurd hset (by simpa only [not_or] using hassert)
    · rw [if_neg hset, Except.ok.injEq, hcode, Prod.mk.injEq]
      constructor
      · rintro rfl
        exact ⟨⟨rfl, rfl⟩, by simpa only [not_or] using hset⟩
      · exact fun h ↦ h.1.2
  · rw [if_pos hcode]
    refine iff_of_false (fun h ↦ by cases h) ?_
    rintro ⟨hsame, -⟩
    cases hsame
    exact hcode rfl

end Loaders

/-! ## The conversion in a run -/

/-- A command line and a file that get `main` to its conversion. -/
structure Conversion (world : World) (argv : List CString) where
  locals : Locals
  inFname : CString
  outFname : CString
  sound : Sound
  accepts : Accepts argv locals
  inFname_eq : locals.inFname = some inFname
  outFname_eq : locals.outFname = some outFname
  loads : loadInput world locals.dcac inFname = .ok (.ok, locals.dcac.load sound)

variable {world : World} {argv : List CString}

def Conversion.options (_ : Conversion world argv) : List CliOption :=
  (mainReading argv).found.filterMap cliOption

def Conversion.out (c : Conversion world argv) : OutputType := outputType c.outFname

/-- It comes to its writer with this state. -/
structure Conversion.Writes (c : Conversion world argv) (final : DcAudioConverter) : Prop where
  final_eq : runMain c.options c.sound c.out world.past world.src = .ok final
  /-- A resampler can be had if one is needed. -/
  opens : ∀ settings dcac, beforeResampling c.options c.sound c.out world.past
    = .ok (settings, dcac) → dcac.desiredSampleRateHz = dcac.sampleRateHz ∨ world.srcNew = some 0

/-- It reaches `main`'s last line with this outcome. -/
structure Conversion.Ends (c : Conversion world argv) (outcome : Outcome) : Prop where
  writes : c.Writes outcome.final
  written : writeFile world outcome.final c.outFname = .ok (outcome.writeError, outcome.bytes)
  preview_eq : makePreview world c.locals.preview c.outFname (outcome.writeError, outcome.bytes)
    = .ok outcome.preview

section Stages

variable {locals : Locals} {out : OutputType} {options : List CliOption} {sound : Sound}
  {dcac final : DcAudioConverter} {fname : CString}

theorem required_eq_ok {name : Option CString} {halt : Halt} :
    required name halt = .ok fname ↔ name = some fname := by
  cases name with
  | none => exact iff_of_false (fun h ↦ by cases h) fun h ↦ by cases h
  | some name => exact ⟨fun h ↦ by cases h; rfl, fun h ↦ by cases h; rfl⟩

theorem requireExtension_eq (halt : Halt) (h : getExtension fname ≠ []) :
    requireExtension fname halt = .ok () := if_neg h

/-- A name without an extension names no file type. -/
theorem extensionIs_nil {name : String} (h : name ≠ "") (hfname : getExtension fname = []) :
    extensionIs (getExtension fname) name = false := by
  have hne : name.toList ≠ [] := fun hnil ↦ h (String.toList_eq_nil_iff.mp hnil)
  rw [hfname, extensionIs, strcaseeq]
  simpa using hne

theorem getExtension_ne_nil_of_load {result : DcaError × DcAudioConverter}
    (h : loadInput world dcac fname = .ok result) : getExtension fname ≠ [] := by
  intro hnil
  have hno := fun name hne ↦ @extensionIs_nil fname name hne hnil
  rw [loadInput, hno _ (by decide), hno _ (by decide), hno _ (by decide), hno _ (by decide),
    hno _ (by decide)] at h
  cases h

/-- There is no conversion to a type the program does not know. -/
theorem runMain_unknown {past : ℕ → Int16} {src : Resampler}
    (h : runMain options sound .unknown past src = .ok final) : False := by
  obtain ⟨state, -, h⟩ := Fallible.bind_eq_ok.mp h
  obtain ⟨cut, -, h⟩ := Fallible.bind_eq_ok.mp h
  cases h

theorem outputType_of_nil (hnil : getExtension fname = []) : outputType fname = .unknown := by
  have hno := fun name hne ↦ @extensionIs_nil fname name hne hnil
  rw [outputType, hno _ (by decide), hno _ (by decide)]
  rfl

theorem getExtension_ne_nil_of_run {past : ℕ → Int16} {src : Resampler}
    (h : runMain options sound (outputType fname) past src = .ok final) :
    getExtension fname ≠ [] := by
  intro hnil
  rw [outputType_of_nil hnil] at h
  exact runMain_unknown h

theorem resampleOrHalt_eq_ok {resampled : DcAudioConverter} :
    resampleOrHalt world dcac = .ok resampled ↔
      (dcac.desiredSampleRateHz = dcac.sampleRateHz ∨ world.srcNew = some 0) ∧
        resample world.src dcac = resampled := by
  rw [resampleOrHalt]
  by_cases hrate : dcac.desiredSampleRateHz = dcac.sampleRateHz
  · rw [if_neg (not_not.mpr hrate), resample, if_neg (not_not.mpr hrate), Except.ok.injEq]
    exact ⟨fun h ↦ ⟨Or.inl hrate, h⟩, fun h ↦ h.2⟩
  · rw [if_pos hrate]
    cases hnew : world.srcNew with
    | none => exact iff_of_false (fun h ↦ by cases h) fun h ↦ by simp [hrate] at h
    | some srcErr =>
      dsimp only
      by_cases hzero : srcErr = 0
      · rw [if_neg (not_not.mpr hzero), hzero, Except.ok.injEq]
        exact ⟨fun h ↦ ⟨Or.inr rfl, h⟩, fun h ↦ h.2⟩
      · rw [if_pos hzero]
        exact iff_of_false (fun h ↦ by cases h) fun h ↦ by simp [hrate, hzero] at h

/-- The conversion behind a load, up to the resampling and behind it. -/
theorem convertLoaded_eq (hoptions : parseOptions options = .ok (locals.settings, locals.dcac)) :
    convertLoaded world out locals.settings (locals.dcac.load sound) = (do
      let (settings, dcac) ← (beforeResampling options sound out world.past).mapError .error
      let resampled ← resampleOrHalt world dcac
      .ok (finishLoop settings resampled)) := by
  rw [convertLoaded, beforeResampling, hoptions, Fallible.ok_bind]
  dsimp only
  cases trimmed out world.past locals.settings (locals.dcac.load sound) with
  | error e => rfl
  | ok cut =>
    rw [Fallible.ok_bind, Except.mapError, Fallible.ok_bind]
    cases prepareOutput out locals.settings cut with
    | error e => rfl
    | ok prepared =>
      rw [Fallible.ok_bind, Except.mapError, Fallible.ok_bind]
      cases convertChannels prepared <;> rfl

/-- The conversion behind a load is `runMain`, if there is a resampler for it. -/
theorem convertLoaded_eq_ok (hoptions : parseOptions options = .ok (locals.settings, locals.dcac)) :
    convertLoaded world out locals.settings (locals.dcac.load sound) = .ok final ↔
      runMain options sound out world.past world.src = .ok final ∧
        ∀ settings dcac, beforeResampling options sound out world.past = .ok (settings, dcac) →
          dcac.desiredSampleRateHz = dcac.sampleRateHz ∨ world.srcNew = some 0 := by
  rw [runMain_eq, Fallible.map_eq_ok, convertLoaded_eq hoptions]
  simp only [Fallible.bind_eq_ok, Fallible.mapError_eq_ok, resampleOrHalt_eq_ok, Except.ok.injEq]
  constructor
  · rintro ⟨state, hstate, resampled, ⟨hopens, rfl⟩, rfl⟩
    refine ⟨⟨state, hstate, rfl⟩, fun settings dcac hsame ↦ ?_⟩
    rw [hstate] at hsame
    cases hsame
    exact hopens
  · rintro ⟨⟨state, hstate, rfl⟩, hopens⟩
    exact ⟨state, hstate, _, ⟨hopens _ _ hstate, rfl⟩, rfl⟩

end Stages

/-! ## How the stages in front of the writer end -/

/-- The halts of a loop, which no stage in front of the writer has. -/
def Halt.OfLoop : Halt → Prop
  | .stop _ => True
  | .hangs => True
  | _ => False

section Halts

variable {halt : Halt} (hloop : halt.OfLoop)

include hloop

theorem mapError_ne_of_loop {α ε : Type} {f : ε → Halt} (hf : ∀ e, ¬(f e).OfLoop)
    (x : Except ε α) : x.mapError f ≠ .error halt :=
  Fallible.mapError_ne_error fun e he ↦ hf e (he ▸ hloop)

theorem loadInput_ne_of_loop (dcac : DcAudioConverter) (fname : CString) :
    loadInput world dcac fname ≠ .error halt := by
  have hload : ∀ x : Except Fault (DcaError × DcAudioConverter),
      x.mapError .aborted ≠ .error halt := mapError_ne_of_loop hloop fun _ h ↦ h
  rw [loadInput]
  repeat' split
  all_goals first
    | exact hload _
    | exact fun h ↦ by cases h; exact hloop

theorem checkLoaded_ne_of_loop (result : DcaError × DcAudioConverter) :
    checkLoaded result ≠ .error halt := by
  rw [checkLoaded]
  split
  · exact fun h ↦ by cases h; exact hloop
  · split
    · exact fun h ↦ by cases h; exact hloop
    · exact fun h ↦ by cases h

theorem resampleOrHalt_ne_of_loop (dcac : DcAudioConverter) :
    resampleOrHalt world dcac ≠ .error halt := by
  rw [resampleOrHalt]
  split
  · split
    · exact fun h ↦ by cases h; exact hloop
    · split
      · exact fun h ↦ by cases h; exact hloop
      · exact fun h ↦ by cases h
  · exact fun h ↦ by cases h

theorem convertLoaded_ne_of_loop (out : OutputType) (settings : Settings)
    (dcac : DcAudioConverter) : convertLoaded world out settings dcac ≠ .error halt := by
  have hstage : ∀ x : Except MainError DcAudioConverter, x.mapError .error ≠ .error halt :=
    mapError_ne_of_loop hloop fun _ h ↦ h
  refine Fallible.bind_ne_error (hstage _) fun cut ↦ ?_
  refine Fallible.bind_ne_error (hstage _) fun prepared ↦ ?_
  refine Fallible.bind_ne_error (hstage _) fun mixed ↦ ?_
  refine Fallible.bind_ne_error (resampleOrHalt_ne_of_loop hloop _) fun resampled h ↦ ?_
  cases h

theorem required_ne_of_loop (name : Option CString) (missing : Halt) (hmissing : ¬missing.OfLoop) :
    required name missing ≠ .error halt := by
  cases name with
  | none => exact fun h ↦ by cases h; exact hmissing hloop
  | some name => exact fun h ↦ by cases h

theorem requireExtension_ne_of_loop (fname : CString) (missing : Halt)
    (hmissing : ¬missing.OfLoop) : requireExtension fname missing ≠ .error halt := by
  rw [requireExtension]
  split
  · exact fun h ↦ by cases h; exact hmissing hloop
  · exact fun h ↦ by cases h

end Halts

/-! ## Up to the writer and behind it -/

/-- Behind its options the process looks at what they left only. -/
theorem mainProcess_of_accepts (world : World) {locals : Locals} (h : Accepts argv locals) :
    mainProcess world argv = mainRun world locals := by
  obtain ⟨final, hoptions⟩ :=
    (exists_mainOptions_iff argv locals).mpr ((outcome_eq_ok_iff argv locals).mpr h)
  rw [mainProcess, hoptions]

/-- `convertLoaded` in a conversion. -/
theorem Conversion.convertLoaded_eq (c : Conversion world argv) :
    convertLoaded world c.out c.locals.settings (c.locals.dcac.load c.sound) = (do
      let (settings, dcac) ← (beforeResampling c.options c.sound c.out world.past).mapError .error
      let resampled ← resampleOrHalt world dcac
      .ok (finishLoop settings resampled)) :=
  DcaConv.convertLoaded_eq c.accepts.options_eq

theorem Conversion.writes_iff (c : Conversion world argv) {final : DcAudioConverter} :
    c.Writes final ↔
      convertLoaded world c.out c.locals.settings (c.locals.dcac.load c.sound) = .ok final := by
  rw [convertLoaded_eq_ok c.accepts.options_eq]
  exact ⟨fun h ↦ ⟨h.final_eq, h.opens⟩, fun h ↦ ⟨h.1, h.2⟩⟩

/-- Behind its option loop the process of a conversion looks at the output file's name. -/
theorem Conversion.mainProcess_eq_named (c : Conversion world argv) : mainProcess world argv = (do
    requireExtension c.outFname .noOutputExtension
    let loaded ← loadInput world c.locals.dcac c.inFname
    let dcac ← checkLoaded loaded
    let final ← convertLoaded world (outputType c.outFname) c.locals.settings dcac
    let written ← writeFile world final c.outFname
    let preview ← makePreview world c.locals.preview c.outFname written
    .ok ⟨final, written.1, written.2, preview⟩) := by
  rw [mainProcess_of_accepts world c.accepts, mainRun, c.inFname_eq, c.outFname_eq, required,
    Fallible.ok_bind, required, Fallible.ok_bind,
    requireExtension_eq _ (getExtension_ne_nil_of_load c.loads), Fallible.ok_bind]

theorem Conversion.mainProcess_of_nil (c : Conversion world argv)
    (hnil : getExtension c.outFname = []) :
    mainProcess world argv = .error .noOutputExtension := by
  rw [c.mainProcess_eq_named, requireExtension, if_pos hnil]
  rfl

/-- Behind a load the process is its conversion, its writer and its preview. -/
theorem Conversion.mainProcess_eq (c : Conversion world argv)
    (hext : getExtension c.outFname ≠ []) : mainProcess world argv = (do
      let final ← convertLoaded world c.out c.locals.settings (c.locals.dcac.load c.sound)
      let written ← writeFile world final c.outFname
      let preview ← makePreview world c.locals.preview c.outFname written
      .ok ⟨final, written.1, written.2, preview⟩) := by
  have hload : checkLoaded (.ok, c.locals.dcac.load c.sound) = .ok (c.locals.dcac.load c.sound) :=
    checkLoaded_iff.mpr ⟨rfl, c.sound.channels_pos.ne', c.sound.rate_pos.ne',
      List.ne_nil_of_length_pos c.sound.channels_pos⟩
  rw [c.mainProcess_eq_named, requireExtension_eq _ hext, Fallible.ok_bind, c.loads,
    Fallible.ok_bind, hload, Fallible.ok_bind]
  rfl

/-- Behind a conversion it is its writer and its preview. -/
theorem Conversion.Writes.mainProcess_eq {c : Conversion world argv} {final : DcAudioConverter}
    (h : c.Writes final) : mainProcess world argv = (do
      let written ← writeFile world final c.outFname
      let preview ← makePreview world c.locals.preview c.outFname written
      .ok ⟨final, written.1, written.2, preview⟩) := by
  rw [c.mainProcess_eq (getExtension_ne_nil_of_run h.final_eq), c.writes_iff.mp h,
    Fallible.ok_bind]

/-- A run that is not stopped in front of its writer is a conversion that comes to it. -/
theorem exists_writes (hshort : world.Short) {locals : Locals} (haccepts : Accepts argv locals)
    {halt : Halt} (hloop : halt.OfLoop)
    (hlate : ∀ halt', mainRun world locals = .error halt' → halt' = halt) :
    ∃ (c : Conversion world argv) (final : DcAudioConverter), c.Writes final := by
  obtain ⟨inFname, hin, hlate⟩ :=
    Fallible.exists_ok_of_bind (required_ne_of_loop hloop _ .noInput id) hlate
  obtain ⟨outFname, hout, hlate⟩ :=
    Fallible.exists_ok_of_bind (required_ne_of_loop hloop _ .noOutput id) hlate
  obtain ⟨-, -, hlate⟩ :=
    Fallible.exists_ok_of_bind (requireExtension_ne_of_loop hloop _ .noInputExtension id) hlate
  obtain ⟨-, -, hlate⟩ :=
    Fallible.exists_ok_of_bind (requireExtension_ne_of_loop hloop _ .noOutputExtension id) hlate
  obtain ⟨result, hload, hlate⟩ :=
    Fallible.exists_ok_of_bind (loadInput_ne_of_loop hloop _ _) hlate
  obtain ⟨dcac, hcheck, hlate⟩ := Fallible.exists_ok_of_bind (checkLoaded_ne_of_loop hloop _) hlate
  obtain ⟨final, hfinal, -⟩ :=
    Fallible.exists_ok_of_bind (convertLoaded_ne_of_loop hloop _ _ _) hlate
  obtain ⟨rfl, -, hrate, -⟩ := checkLoaded_iff.mp hcheck
  obtain ⟨sound, rfl, -⟩ := exists_sound_of_loadInput hshort haccepts.options_eq hrate hload
  obtain ⟨hrun, hopens⟩ := (convertLoaded_eq_ok haccepts.options_eq).mp hfinal
  exact ⟨⟨locals, inFname, outFname, sound, haccepts, required_eq_ok.mp hin,
    required_eq_ok.mp hout, hload⟩, final, hrun, hopens⟩

/-- The options end the process, or it goes on behind them. -/
theorem mainProcess_cases (world : World) (argv : List CString) :
    (∃ stop, mainOptions argv = some (.error stop) ∧
      mainProcess world argv = .error (.stop stop)) ∨
      ∃ locals, Accepts argv locals ∧ mainProcess world argv = mainRun world locals := by
  obtain ⟨parser, hparse⟩ := mainOptions_eq argv
  cases hout : (mainBody argv.length).outcome (mainReading argv) .initial with
  | error stop =>
    rw [hout] at hparse
    exact Or.inl ⟨stop, hparse, by rw [mainProcess, hparse]; rfl⟩
  | ok locals =>
    rw [hout] at hparse
    refine Or.inr ⟨locals, (outcome_eq_ok_iff argv locals).mp hout, ?_⟩
    rw [mainProcess, hparse]
    rfl

/-- A run to the last line has converted a sound. -/
theorem exists_conversion (hshort : world.Short) {outcome : Outcome}
    (h : mainProcess world argv = .ok outcome) : ∃ c : Conversion world argv, c.Ends outcome := by
  obtain ⟨stop, -, hstop⟩ | ⟨locals, haccepts, hrun⟩ := mainProcess_cases world argv
  · rw [h] at hstop
    cases hstop
  have hlate : ∀ halt, mainRun world locals = .error halt → halt = .hangs := by
    intro halt hhalt
    rw [← hrun, h] at hhalt
    cases hhalt
  obtain ⟨c, final, hwrites⟩ :=
    exists_writes hshort haccepts (show Halt.OfLoop .hangs from trivial) hlate
  rw [hwrites.mainProcess_eq] at h
  obtain ⟨written, hwritten, h⟩ := Fallible.bind_eq_ok.mp h
  obtain ⟨preview, hpreview, hok⟩ := Fallible.bind_eq_ok.mp h
  cases hok
  exact ⟨c, hwrites, hwritten, hpreview⟩

theorem Conversion.Ends.mainProcess_eq {c : Conversion world argv} {outcome : Outcome}
    (h : c.Ends outcome) : mainProcess world argv = .ok outcome := by
  rw [h.writes.mainProcess_eq, h.written, Fallible.ok_bind, h.preview_eq, Fallible.ok_bind]

/-- **Runs are conversions.** `main` reaches its last line exactly by converting a sound. -/
theorem mainProcess_eq_ok_iff (hshort : world.Short) (argv : List CString) (outcome : Outcome) :
    mainProcess world argv = .ok outcome ↔ ∃ c : Conversion world argv, c.Ends outcome :=
  ⟨exists_conversion hshort, fun ⟨_, h⟩ ↦ h.mainProcess_eq⟩

/-! ## Other command lines -/

/-- **The same switches.** However its switches are spelled, and in whatever order that keeps those
for one variable, the process runs in the same way, or its options end it in both. -/
theorem mainProcess_rearranged (world : World) {program program' : CString}
    {args args' : List CString} {found found' : List Found}
    (h : SpellsAll mainLongopts (· == 't') args found)
    (h' : SpellsAll mainLongopts (· == 't') args' found')
    (hswitches : LastWrite.Rearranged variableOf found found')
    (hargc : args.length = 1 ↔ args'.length = 1) :
    mainProcess world (program :: args) = mainProcess world (program' :: args') ∨
      ∃ stop stop', mainProcess world (program :: args) = .error (.stop stop) ∧
        mainProcess world (program' :: args') = .error (.stop stop') := by
  have hread : mainReading (program :: args) = ⟨found, none, args, []⟩ := h.readArgs_eq
  have hread' : mainReading (program' :: args') = ⟨found', none, args', []⟩ := h'.readArgs_eq
  have hlength : (program :: args).length = 2 ↔ (program' :: args').length = 2 := by
    simpa only [List.length_cons, Nat.succ_inj] using hargc
  have hforth : ∀ locals, Accepts (program :: args) locals → Accepts (program' :: args') locals :=
    fun locals haccepts ↦ haccepts.rearranged (by rw [hread']) hlength
      (by rw [hread, hread']; exact hswitches)
  have hback : ∀ locals, Accepts (program' :: args') locals → Accepts (program :: args) locals :=
    fun locals haccepts ↦ haccepts.rearranged (by rw [hread]) hlength.symm
      (by rw [hread, hread']; exact hswitches.symm)
  obtain ⟨stop, -, hstop⟩ | ⟨locals, haccepts, hrun⟩ := mainProcess_cases world (program :: args)
  · obtain ⟨stop', -, hstop'⟩ | ⟨locals, haccepts, -⟩ := mainProcess_cases world (program' :: args')
    · exact Or.inr ⟨stop, stop', hstop, hstop'⟩
    · rw [mainProcess_of_accepts world haccepts, mainProcess_of_accepts world (hback _ haccepts)]
      exact Or.inl rfl
  · rw [hrun, mainProcess_of_accepts world (hforth _ haccepts)]
    exact Or.inl rfl

/-! ## One file -/

/-- Three quiet frames of two channels. -/
def quietStream : WavStream where
  channels := 2
  sampleRate := 44100
  totalPcmFrameCount := 3
  framesRead := 3
  samples := [1, 2, 3, 4, 5, 6]
  one_le_channels := by decide
  channels_le := by decide
  totalPcmFrameCount_lt := by decide
  framesRead_le := le_rfl
  length_samples := rfl

/-- Every WAV file there is has these frames, and what is written can be read back. -/
def quietWorld : World where
  wav _ := some quietStream
  dca _ := none
  vorbis _ := none
  flac _ := none
  mp3 _ := none
  sink _ := some .whole
  encoder _ := ⟨fun _ _ ↦ true, fun n _ ↦ n⟩
  reopen bytes := some (.whole bytes)
  srcNew := some 0
  src := .silent
  heap := .zero
  past _ := 0

theorem quietWorld_short : quietWorld.Short where
  wav _ wav h := by cases h; decide
  flac _ _ h := by cases h
  mp3 _ _ h := by cases h

def quietArgs : List CString :=
  ["dcaconv".toList, "-i".toList, "in.wav".toList, "-o".toList, "out.wav".toList]

theorem quietWorld_runs : ∃ c : Conversion quietWorld quietArgs,
    c.Ends ⟨⟨44100, 2, [[1, 3, 5], [2, 4, 6]], 3, .pcm16, 2, 44100, false, false, 0, 3⟩, .ok, [],
      none⟩ :=
  (mainProcess_eq_ok_iff quietWorld_short _ _).mp rfl

theorem quietArgs_spelled : SpellsAll mainLongopts (· == 't') quietArgs.tail
    [('i', some "in.wav".toList), ('o', some "out.wav".toList)] := by
  have hin : Names mainLongopts "-i".toList [] 'i' .required :=
    @Names.short mainLongopts [] 'i' .required (List.forall_mem_nil _) rfl (by decide)
  have hout : Names mainLongopts "-o".toList [] 'o' .required :=
    @Names.short mainLongopts [] 'o' .required (List.forall_mem_nil _) rfl (by decide)
  exact .cons (.behind hin) (.cons (.behind hout) .nil)

/-- The same files, long and attached. -/
theorem mainProcess_rearranged_quiet :
    mainProcess quietWorld quietArgs = mainProcess quietWorld
        ["dcaconv".toList, "--out=out.wav".toList, "-iin.wav".toList] ∨
      ∃ stop stop', mainProcess quietWorld quietArgs = .error (.stop stop) ∧
        mainProcess quietWorld ["dcaconv".toList, "--out=out.wav".toList, "-iin.wav".toList]
          = .error (.stop stop') := by
  have hout : Carries mainLongopts "--out=out.wav".toList [] 'o' "out.wav".toList :=
    @Carries.long mainLongopts "out".toList ⟨some "out".toList, 'o', .required⟩ "out.wav".toList
      rfl OptparseArgtype.noConfusion (by decide)
  have hin : Carries mainLongopts "-iin.wav".toList [] 'i' "in.wav".toList :=
    @Carries.short mainLongopts [] 'i' .required "in.wav".toList (List.forall_mem_nil _) rfl
      OptparseArgtype.noConfusion (List.cons_ne_nil _ _) (by decide)
  refine mainProcess_rearranged quietWorld quietArgs_spelled
    (.cons (.holding hout) (.cons (.holding hin) .nil)) ⟨List.Perm.swap _ _ _, fun v ↦ ?_⟩
    (by decide)
  cases v <;> rfl

end DcaConv
