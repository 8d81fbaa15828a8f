import DcaConv.CommandLine.Switches
import DcaConv.Pipeline.Exit
import DcaConv.Process.Loaders

/-!
# `main`

From `argv` to the return: the option loop, the two file names, the loader, the conversion, the
writer and the preview. What `main` finds outside is a `World`.

Behind a loader that leaves a sound the conversion is `runMain`, on the switches the command line
was read as; so what holds of every `runMain` holds of every run of the program, with its `float`
arithmetic read as that of exact rationals.
-/

namespace DcaConv

/-! ## Outside -/

/-- The files, the resampling library, and the memory. -/
structure World where
  wav : (fname : CString) → Option WavStream
  dca : (fname : CString) → Option FileSource
  vorbis : (fname : CString) → Option DecodedVorbis
  flac : (fname : CString) → Option Decoded
  mp3 : (fname : CString) → Option Decoded
  sink : (fname : CString) → Option FileSink
  encoder : (fname : CString) → WavEncoder
  /-- What opening a file again gives that holds these bytes. -/
  reopen : List UInt8 → Option FileSource
  srcNew : Option ℤ
  src : Resampler
  heap : Heap
  past : ℕ → Int16

/-- How `main` can end before its last line. -/
inductive Halt where
  | stop (stop : Stop)
  | noInput
  | noOutput
  | noInputExtension
  | noOutputExtension
  | unknownInputType
  | loading (error : DcaError)
  | error (error : MainError)
  | resampling
  | aborted (fault : Fault)
  /-- A loop that does not end. -/
  | hangs
  deriving DecidableEq, Repr

/-- `dcaErrorString`, which has the text for reading twice. -/
def dcaErrorString : DcaError → String
  | .ok => "Ok"
  | .readOpenError => "Could not open file for reading"
  | .writeOpenError => "Could not open file for reading"
  | .unsupportedFileType => "Unsupported file format"
  | .noFileName => "File name not specified"
  | .tooManyChannels => "Too many channels"
  | .tooLong => "Sound is too long"
  | .readError => "Error while reading file"
  | .writeError => "Error while writing file"
  | .unknown => "Unknown error"

/-- The text of the `ErrorExit`. That of a failing `src_new` is its library's. -/
def Halt.message : Halt → Option String
  | .stop (.error e) => some e.message
  | .stop (.unknownOption errmsg) => some ("Unknown option: " ++ String.ofList errmsg ++ "\n")
  | .noInput => some "No input file specified\n"
  | .noOutput => some "No output file specified\n"
  | .noInputExtension => some "Unknown input file type (no extension)\n"
  | .noOutputExtension => some "Unknown output file type (no extension)\n"
  | .unknownInputType => some "Unknown input file type\n"
  | .loading e => some ("While loading input file: " ++ dcaErrorString e ++ "\n")
  | .error e => some e.message
  | _ => none

/-- The exit status, if the process ends. -/
def Halt.exit : Halt → Option Exit
  | .stop .printed => some (.status 0)
  | .stop (.aborted fault) => some (.aborted fault)
  | .aborted fault => some (.aborted fault)
  | .hangs => none
  | _ => some .error

/-! ## The stages -/

/-- The input file, by its extension. -/
def loadInput (world : World) (dcac : DcAudioConverter) (fname : CString) :
    Except Halt (DcaError × DcAudioConverter) :=
  let ext := getExtension fname
  if extensionIs ext ".wav" then (fWavLoad world.heap dcac (world.wav fname)).mapError .aborted
  else if extensionIs ext ".dca" then (fDcaLoad dcac (world.dca fname)).mapError .aborted
  else if extensionIs ext ".ogg" then
    (fVorbisLoad world.heap dcac (world.vorbis fname)).mapError .aborted
  else if extensionIs ext ".flac" then
    (fFlacLoad world.heap dcac (world.flac fname)).mapError .aborted
  else if extensionIs ext ".mp3" then
    (fMp3Load world.heap dcac (world.mp3 fname)).mapError .aborted
  else .error .unknownInputType

def outputType (fname : CString) : OutputType :=
  let ext := getExtension fname
  if extensionIs ext ".dca" then .dca else if extensionIs ext ".wav" then .wav else .unknown

/-- The checks on what a loader has returned. -/
def checkLoaded (result : DcaError × DcAudioConverter) : Except Halt DcAudioConverter :=
  if result.1 ≠ .ok then .error (.loading result.1)
  else if result.2.channelCnt = 0 ∨ result.2.sampleRateHz = 0 ∨ result.2.samples = [] then
    .error (.aborted .assertion)
  else .ok result.2

def resampleOrHalt (world : World) (dcac : DcAudioConverter) : Except Halt DcAudioConverter :=
  if dcac.desiredSampleRateHz ≠ dcac.sampleRateHz then
    match world.srcNew with
    | none => .error (.aborted .assertion)
    | some srcErr => if srcErr ≠ 0 then .error .resampling else .ok (resample world.src dcac)
  else .ok dcac

/-- The loaded sound up to the writer. -/
def convertLoaded (world : World) (out : OutputType) (settings : Settings)
    (dcac : DcAudioConverter) : Except Halt DcAudioConverter := do
  let dcac ← (trimmed out world.past settings dcac).mapError .error
  let dcac ← (prepareOutput out settings dcac).mapError .error
  let dcac ← (convertChannels dcac).mapError .error
  let dcac ← resampleOrHalt world dcac
  .ok (finishLoop settings dcac)

def writeWav (world : World) (dcac : DcAudioConverter) (fname : CString) : Except Halt DcaError :=
  match fWavWrite world.heap (dcac.samplesLen + 1) (world.encoder fname) dcac with
  | none => .error .hangs
  | some run => run.mapError .aborted

/-- The writer's code, and what a `.dca` file holds then. -/
def writeFile (world : World) (dcac : DcAudioConverter) (fname : CString) :
    Except Halt (DcaError × List UInt8) :=
  match outputType fname with
  | .dca => (fDcaWrite dcac (world.sink fname)).mapError .aborted
  | .wav => do
    let code ← writeWav world dcac fname
    .ok (code, [])
  -- stopped before the channels are converted
  | .unknown => .error (.error .unknownOutputType)

/-- The result for a preview of a file of these bytes, and the converter it was made in. -/
def generatePreview (world : World) (bytes : List UInt8) (srcFname previewFname : CString) :
    Except Halt (DcaError × DcAudioConverter) :=
  if !extensionIs (getExtension srcFname) ".dca" then .ok (.unsupportedFileType, dcaInit)
  else if !extensionIs (getExtension previewFname) ".wav" then .ok (.unsupportedFileType, dcaInit)
  else do
    let (retval, dcac) ← (fDcaLoad dcaInit (world.reopen bytes)).mapError .aborted
    if retval ≠ .ok then .ok (retval, dcac)
    else do
      let retval ← writeWav world dcac previewFname
      .ok (retval, dcac)

/-! ## The whole -/

/-- What `main` has done when it comes to its last line. -/
structure Outcome where
  /-- The state the writer was handed. -/
  final : DcAudioConverter
  writeError : DcaError
  bytes : List UInt8
  preview : Option (DcaError × DcAudioConverter)
  deriving DecidableEq, Repr

/-- A name that has to be given. -/
def required (fname : Option CString) (halt : Halt) : Except Halt CString :=
  match fname with
  | none => .error halt
  | some fname => .ok fname

/-- The extension of a name, which has to have one. -/
def requireExtension (fname : CString) (halt : Halt) : Except Halt Unit :=
  if getExtension fname = [] then .error halt else .ok ()

/-- The preview `main` makes when it is asked for one and the file was written. -/
def makePreview (world : World) (preview : Option CString) (outFname : CString)
    (written : DcaError × List UInt8) : Except Halt (Option (DcaError × DcAudioConverter)) :=
  match preview with
  | none => .ok none
  | some fname =>
    if written.1 ≠ .ok then .ok none
    else (generatePreview world written.2 outFname fname).map some

/-- `main` behind its option loop. -/
def mainRun (world : World) (locals : Locals) : Except Halt Outcome := do
  let inFname ← required locals.inFname .noInput
  let outFname ← required locals.outFname .noOutput
  requireExtension inFname .noInputExtension
  requireExtension outFname .noOutputExtension
  let loaded ← loadInput world locals.dcac inFname
  let dcac ← checkLoaded loaded
  let final ← convertLoaded world (outputType outFname) locals.settings dcac
  let written ← writeFile world final outFname
  let preview ← makePreview world locals.preview outFname written
  .ok ⟨final, written.1, written.2, preview⟩

/-- `main`. -/
def mainProcess (world : World) (argv : List CString) : Except Halt Outcome :=
  match mainOptions argv with
  | none => .error .hangs
  | some (.error stop) => .error (.stop stop)
  | some (.ok (locals, _)) => mainRun world locals

/-- The exit status of the process, `none` if it does not end. -/
def processExit (world : World) (argv : List CString) : Option Exit :=
  match mainProcess world argv with
  | .error halt => halt.exit
  | .ok _ => some (.status 0)

end DcaConv
