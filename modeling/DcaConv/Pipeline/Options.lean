import DcaConv.Container.Converter
import DcaConv.Library.Fallible

/-!
# The command line

The switches of `main` as they reach its `switch`: an argument that `sscanf` reads with `%u` is
given by what it read, and one looked up in an `OptionMap` by its text. These are the switches that
set something of the conversion. The option loop that reads them from `argv`, the file names, and
the switches that print are in `CommandLine/Switches`.

What later stages rely on is `OptionsInv`: a loop point that was not given is zero, giving one
implies `--loop`, a requested rate is in range, and no buffer has been set.
-/

namespace DcaConv

/-! ## Errors -/

/-- The calls of `ErrorExit` and `ErrorExitOn`. -/
inductive MainError where
  | invalidFormat
  | invalidLoopStart
  | invalidLoopEnd
  | invalidChannels
  | invalidRate
  | invalidTrim
  | loopStartPastEnd
  | loopStartEqualsEnd
  | loopStartAfterEnd
  | zeroLength
  | tooLong
  | unknownOutputType
  | monoToStereo
  | cannotConvertChannels (channelCnt : ℕ)
  deriving DecidableEq, Repr

def MainError.message : MainError → String
  | .invalidFormat => "invalid format\n"
  | .invalidLoopStart =>
    "Invalid loop start. Must be in sample position. The first sample is 0.\n"
  | .invalidLoopEnd => "Invalid loop end. Must be in sample position. The first sample is 0.\n"
  | .invalidChannels => "invalid number of channels, should be in the range [0, 8]\n"
  | .invalidRate => "invalid sample rate, should be in the range [0, 44100]\n"
  | .invalidTrim => "invalid trim setting\n"
  | .loopStartPastEnd => "Loop start is past end of file\n"
  | .loopStartEqualsEnd => "Loop start is equal to loop end\n"
  | .loopStartAfterEnd => "Loop start is after loop end\n"
  | .zeroLength => "zero length sound probably doesn't work well on AICA\n"
  | .tooLong => "This sound is too long for the AICA to handle directly.\n" ++
    "To allow long sounds, use the --long option\n"
  | .unknownOutputType => "Unknown output file type\n"
  | .monoToStereo => "Converting from mono to stereo is not currently supported\n"
  -- both counts printed are the source's
  | .cannotConvertChannels n =>
    let plural := if 1 < n then "s" else ""
    "Cannot convert from " ++ toString n ++ " channel" ++ plural ++ " to " ++ toString n ++
      " channel" ++ plural ++ "\n"

/-! ## Option maps -/

inductive TrimType where
  | start
  | atEnd
  | both
  deriving DecidableEq, Repr

def outSoundFormat : List (String × DcaFormat) :=
  [("auto", .auto), ("pcm16", .pcm16), ("pcm8", .pcm8), ("adpcm", .adpcm)]

def trimType : List (String × TrimType) :=
  [("start", .start), ("end", .atEnd), ("both", .both)]

/-- Equality up to the case of letters. -/
def strcaseeq (a b : String) : Bool := a.toList.map Char.toLower == b.toList.map Char.toLower

/-- The value of a name, or the error given for names that are not in the map. -/
def getOptMap {α : Type} (map : List (String × α)) (name : String) (invalid : MainError) :
    Except MainError α :=
  match map.find? fun entry ↦ strcaseeq entry.1 name with
  | some entry => .ok entry.2
  | none => .error invalid

/-! ## Parsing -/

/-- The local variables of `main` that its switches set. -/
structure Settings where
  trimSilenceStart : Bool
  trimSilenceEnd : Bool
  trimLoopEnd : Bool
  loopStartSet : Bool
  loopEndSet : Bool
  deriving DecidableEq, Repr

def Settings.initial : Settings := ⟨false, false, false, false, false⟩

inductive CliOption where
  | format (name : String)
  | stereo
  | long
  | loop
  | loopStart (scanned : Option UInt32)
  | loopEnd (scanned : Option UInt32)
  | channels (scanned : Option UInt32)
  | rate (scanned : Option UInt32)
  | trim (ends : Option String)
  | trimLoopEnd
  deriving DecidableEq, Repr

/-- One turn of the option loop. -/
def parseOption (state : Settings × DcAudioConverter) (option : CliOption) :
    Except MainError (Settings × DcAudioConverter) :=
  let (settings, dcac) := state
  match option with
  | .format name => do
    let format ← getOptMap outSoundFormat name .invalidFormat
    .ok (settings, { dcac with format := format })
  | .stereo => .ok (settings, { dcac with desiredChannels := 2 })
  | .long => .ok (settings, { dcac with longSound := true })
  | .loop => .ok (settings, { dcac with looping := true })
  | .loopStart none => .error .invalidLoopStart
  | .loopStart (some p) =>
    .ok ({ settings with loopStartSet := true },
      { dcac with looping := true, loopStart := p.toNat })
  | .loopEnd none => .error .invalidLoopEnd
  | .loopEnd (some p) =>
    .ok ({ settings with loopEndSet := true }, { dcac with looping := true, loopEnd := p.toNat })
  | .channels none => .error .invalidChannels
  | .channels (some n) =>
    if n.toNat = 0 ∨ dcacMaxChannels < n.toNat then .error .invalidChannels
    else .ok (settings, { dcac with desiredChannels := n.toNat })
  | .rate none => .error .invalidRate
  | .rate (some r) =>
    if r.toNat = 0 ∨ 44100 < r.toNat then .error .invalidRate
    else .ok (settings, { dcac with desiredSampleRateHz := r.toNat })
  | .trim none => .ok ({ settings with trimSilenceStart := true, trimSilenceEnd := true }, dcac)
  | .trim (some ends) => do
    let trim ← getOptMap trimType ends .invalidTrim
    match trim with
    | .both => .ok ({ settings with trimSilenceStart := true, trimSilenceEnd := true }, dcac)
    | .start => .ok ({ settings with trimSilenceStart := true }, dcac)
    | .atEnd => .ok ({ settings with trimSilenceEnd := true }, dcac)
  | .trimLoopEnd => .ok ({ settings with trimLoopEnd := true }, dcac)

def parseOptions (options : List CliOption) : Except MainError (Settings × DcAudioConverter) :=
  options.foldlM parseOption (Settings.initial, dcaInit)

/-! ## What the options leave behind -/

structure OptionsInv (state : Settings × DcAudioConverter) : Prop where
  loopStart_unset : state.1.loopStartSet = false → state.2.loopStart = 0
  loopEnd_unset : state.1.loopEndSet = false → state.2.loopEnd = 0
  plain_unset : state.2.looping = false →
    state.1.loopStartSet = false ∧ state.1.loopEndSet = false
  loopStart_lt : state.2.loopStart < 2 ^ 32
  loopEnd_lt : state.2.loopEnd < 2 ^ 32
  rate_le : state.2.desiredSampleRateHz ≤ 44100
  samples_nil : state.2.samples = []

theorem optionsInv_initial : OptionsInv (Settings.initial, dcaInit) :=
  ⟨fun _ ↦ rfl, fun _ ↦ rfl, fun _ ↦ ⟨rfl, rfl⟩, by decide, by decide, by decide, rfl⟩

/-- The invariant looks at seven variables only. -/
theorem OptionsInv.of_eq {state state' : Settings × DcAudioConverter} (h : OptionsInv state)
    (hset : (state'.1.loopStartSet, state'.1.loopEndSet)
      = (state.1.loopStartSet, state.1.loopEndSet))
    (hloop : (state'.2.looping, state'.2.loopStart, state'.2.loopEnd, state'.2.desiredSampleRateHz)
      = (state.2.looping, state.2.loopStart, state.2.loopEnd, state.2.desiredSampleRateHz))
    (hsamples : state'.2.samples = state.2.samples) : OptionsInv state' := by
  simp only [Prod.mk.injEq] at hset hloop
  obtain ⟨hs, he⟩ := hset
  obtain ⟨hl, hstart, hend, hrate⟩ := hloop
  refine ⟨?_, ?_, ?_, ?_, ?_, ?_, hsamples.trans h.samples_nil⟩
  · rw [hs, hstart]; exact h.loopStart_unset
  · rw [he, hend]; exact h.loopEnd_unset
  · rw [hl, hs, he]; exact h.plain_unset
  · rw [hstart]; exact h.loopStart_lt
  · rw [hend]; exact h.loopEnd_lt
  · rw [hrate]; exact h.rate_le

/-- One option keeps the invariant, whatever came before it. -/
theorem parseOption_inv (state : Settings × DcAudioConverter) (option : CliOption)
    (state' : Settings × DcAudioConverter) (h : OptionsInv state)
    (hstep : parseOption state option = .ok state') : OptionsInv state' := by
  obtain ⟨settings, dcac⟩ := state
  cases option with
  | format name =>
    obtain ⟨format, -, hok⟩ := Fallible.bind_eq_ok.mp hstep
    cases hok
    exact h.of_eq rfl rfl rfl
  | stereo => cases hstep; exact h.of_eq rfl rfl rfl
  | long => cases hstep; exact h.of_eq rfl rfl rfl
  | loop => cases hstep; exact ⟨h.1, h.2, fun hl ↦ (by cases hl), h.4, h.5, h.6, h.7⟩
  | loopStart scanned =>
    cases scanned with
    | none => cases hstep
    | some p =>
      cases hstep
      exact ⟨fun hs ↦ (by cases hs), h.2, fun hl ↦ (by cases hl), p.toNat_lt, h.5, h.6, h.7⟩
  | loopEnd scanned =>
    cases scanned with
    | none => cases hstep
    | some p =>
      cases hstep
      exact ⟨h.1, fun hs ↦ (by cases hs), fun hl ↦ (by cases hl), h.4, p.toNat_lt, h.6, h.7⟩
  | channels scanned =>
    cases scanned with
    | none => cases hstep
    | some n =>
      rw [parseOption] at hstep
      split at hstep
      · cases hstep
      · cases hstep
        exact h.of_eq rfl rfl rfl
  | rate scanned =>
    cases scanned with
    | none => cases hstep
    | some r =>
      rw [parseOption] at hstep
      split at hstep
      · cases hstep
      · next hr =>
        cases hstep
        exact ⟨h.1, h.2, h.3, h.4, h.5, not_lt.mp fun hlt ↦ hr (Or.inr hlt), h.7⟩
  | trim ends =>
    cases ends with
    | none => cases hstep; exact h.of_eq rfl rfl rfl
    | some ends =>
      obtain ⟨trim, -, hok⟩ := Fallible.bind_eq_ok.mp hstep
      cases trim <;> cases hok <;> exact h.of_eq rfl rfl rfl
  | trimLoopEnd => cases hstep; exact h.of_eq rfl rfl rfl

theorem parseOptions_inv {options : List CliOption} {state : Settings × DcAudioConverter}
    (h : parseOptions options = .ok state) : OptionsInv state :=
  Fallible.foldlM_invariant parseOption_inv optionsInv_initial h

end DcaConv
