import DcaConv.CommandLine.Spelling
import DcaConv.CommandLine.Switches
import DcaConv.Library.LastWrite
import Mathlib.Data.List.Induction

/-!
# What the switches come to

The switches set a handful of variables, some of them for good and the others until the next switch
that sets them. So the settings are known from the last switch for each variable, and the switches
can be given in any order that keeps those for one variable.
-/

namespace DcaConv

open LastWrite

/-! ## One switch -/

namespace CliOption

/-! What a switch writes, `none` where it leaves a variable as it is. -/

@[simp] def format? : CliOption → Option DcaFormat
  | .format name => (getOptMap outSoundFormat name .invalidFormat).toOption
  | _ => none

@[simp] def channels? : CliOption → Option ℕ
  | .stereo => some 2
  | .channels scanned => scanned.map (·.toNat)
  | _ => none

@[simp] def rate? : CliOption → Option ℕ
  | .rate scanned => scanned.map (·.toNat)
  | _ => none

@[simp] def loopStart? : CliOption → Option ℕ
  | .loopStart scanned => scanned.map (·.toNat)
  | _ => none

@[simp] def loopEnd? : CliOption → Option ℕ
  | .loopEnd scanned => scanned.map (·.toNat)
  | _ => none

@[simp] def trim? : CliOption → Option TrimType
  | .trim none => some .both
  | .trim (some ends) => (getOptMap trimType ends .invalidTrim).toOption
  | _ => none

/-! What it switches on. -/

@[simp] def trimsStart (option : CliOption) : Bool :=
  match option.trim? with
  | some .start => true
  | some .both => true
  | _ => false

@[simp] def trimsEnd (option : CliOption) : Bool :=
  match option.trim? with
  | some .atEnd => true
  | some .both => true
  | _ => false

@[simp] def trimsLoopEnd : CliOption → Bool
  | .trimLoopEnd => true
  | _ => false

@[simp] def isLong : CliOption → Bool
  | .long => true
  | _ => false

@[simp] def loops : CliOption → Bool
  | .loop => true
  | .loopStart _ => true
  | .loopEnd _ => true
  | _ => false

/-- Its argument is one that `main` takes. -/
@[simp] def valid : CliOption → Bool
  | .format name => (getOptMap outSoundFormat name .invalidFormat).toOption.isSome
  | .loopStart scanned => scanned.isSome
  | .loopEnd scanned => scanned.isSome
  | .channels scanned => scanned.any fun n ↦ n.toNat ≠ 0 ∧ n.toNat ≤ dcacMaxChannels
  | .rate scanned => scanned.any fun r ↦ r.toNat ≠ 0 ∧ r.toNat ≤ 44100
  | .trim (some ends) => (getOptMap trimType ends .invalidTrim).toOption.isSome
  | _ => true

/-- What a switch does to all of the variables. -/
def write (option : CliOption) (state : Settings × DcAudioConverter) :
    Settings × DcAudioConverter :=
  ({ trimSilenceStart := state.1.trimSilenceStart || option.trimsStart
     trimSilenceEnd := state.1.trimSilenceEnd || option.trimsEnd
     trimLoopEnd := state.1.trimLoopEnd || option.trimsLoopEnd
     loopStartSet := state.1.loopStartSet || option.loopStart?.isSome
     loopEndSet := state.1.loopEndSet || option.loopEnd?.isSome },
   { state.2 with
     format := option.format?.getD state.2.format
     desiredChannels := option.channels?.getD state.2.desiredChannels
     desiredSampleRateHz := option.rate?.getD state.2.desiredSampleRateHz
     longSound := state.2.longSound || option.isLong
     looping := state.2.looping || option.loops
     loopStart := option.loopStart?.getD state.2.loopStart
     loopEnd := option.loopEnd?.getD state.2.loopEnd })

end CliOption

section One

variable {state state' : Settings × DcAudioConverter} {option : CliOption}
  {options : List CliOption}

/-- Whether a switch is taken does not depend on those before it. -/
theorem parseOption_eq_ok_iff : parseOption state option = .ok state' ↔
    option.valid = true ∧ option.write state = state' := by
  obtain ⟨settings, dcac⟩ := state
  cases option with
  | format name =>
    rw [parseOption, Fallible.bind_eq_ok]
    cases hname : getOptMap outSoundFormat name .invalidFormat with
    | error e => simp [hname, Except.toOption]
    | ok format => simp [hname, Except.toOption, CliOption.write]
  | channels scanned =>
    cases scanned with
    | none => simp [parseOption]
    | some n =>
      by_cases hn : n.toNat = 0 ∨ dcacMaxChannels < n.toNat
      · simp only [parseOption, if_pos hn, CliOption.valid, Option.any_some, decide_eq_true_eq]
        refine iff_of_false (fun h ↦ by cases h) fun h ↦ ?_
        exact hn.elim h.1.1 (not_lt.mpr h.1.2)
      · simp only [parseOption, if_neg hn]
        rw [not_or, not_lt] at hn
        simp [CliOption.write, hn]
  | rate scanned =>
    cases scanned with
    | none => simp [parseOption]
    | some r =>
      by_cases hr : r.toNat = 0 ∨ 44100 < r.toNat
      · simp only [parseOption, if_pos hr, CliOption.valid, Option.any_some, decide_eq_true_eq]
        refine iff_of_false (fun h ↦ by cases h) fun h ↦ ?_
        exact hr.elim h.1.1 (not_lt.mpr h.1.2)
      · simp only [parseOption, if_neg hr]
        rw [not_or, not_lt] at hr
        simp [CliOption.write, hr]
  | trim ends =>
    cases ends with
    | none => simp [parseOption, CliOption.write]
    | some ends =>
      rw [parseOption, Fallible.bind_eq_ok]
      cases hends : getOptMap trimType ends .invalidTrim with
      | error e => simp [hends, Except.toOption]
      | ok trim => cases trim <;> simp [hends, Except.toOption, CliOption.write]
  | loopStart scanned => cases scanned <;> simp [parseOption, CliOption.write]
  | loopEnd scanned => cases scanned <;> simp [parseOption, CliOption.write]
  | _ => simp [parseOption, CliOption.write]

end One

/-! ## All of them -/

/-- The last switch for each variable. -/
def settingsOf (options : List CliOption) : Settings × DcAudioConverter :=
  ({ trimSilenceStart := options.any (·.trimsStart)
     trimSilenceEnd := options.any (·.trimsEnd)
     trimLoopEnd := options.any (·.trimsLoopEnd)
     loopStartSet := options.any (·.loopStart?.isSome)
     loopEndSet := options.any (·.loopEnd?.isSome) },
   { dcaInit with
     format := lastOf CliOption.format? .auto options
     desiredChannels := lastOf CliOption.channels? 0 options
     desiredSampleRateHz := lastOf CliOption.rate? 0 options
     longSound := options.any (·.isLong)
     looping := options.any (·.loops)
     loopStart := lastOf CliOption.loopStart? 0 options
     loopEnd := lastOf CliOption.loopEnd? 0 options })

theorem settingsOf_concat (options : List CliOption) (option : CliOption) :
    settingsOf (options ++ [option]) = option.write (settingsOf options) := by
  simp only [settingsOf, CliOption.write, lastOf_concat, List.any_append, List.any_cons,
    List.any_nil, Bool.or_false]

/-- `main` takes the switches whose arguments are valid, and is left with the last one for each
variable. -/
theorem parseOptions_eq_ok_iff {options : List CliOption} {state : Settings × DcAudioConverter} :
    parseOptions options = .ok state ↔
      (∀ option ∈ options, option.valid = true) ∧ settingsOf options = state := by
  induction options using List.reverseRecOn generalizing state with
  | nil =>
    constructor
    · intro h
      cases h
      exact ⟨List.forall_mem_nil _, rfl⟩
    · rintro ⟨-, rfl⟩
      rfl
  | append_singleton options option ih =>
    have hsplit : parseOptions (options ++ [option]) = .ok state ↔
        ∃ before, parseOptions options = .ok before ∧ parseOption before option = .ok state := by
      rw [parseOptions, List.foldlM_append, Fallible.bind_eq_ok]
      simp only [List.foldlM_cons, List.foldlM_nil, bind_pure]
      exact Iff.rfl
    rw [hsplit, settingsOf_concat]
    simp only [ih, parseOption_eq_ok_iff, List.forall_mem_append, List.forall_mem_singleton]
    constructor
    · rintro ⟨before, ⟨hvalid, rfl⟩, hlast, rfl⟩
      exact ⟨⟨hvalid, hlast⟩, rfl⟩
    · rintro ⟨⟨hvalid, hlast⟩, rfl⟩
      exact ⟨_, ⟨hvalid, rfl⟩, hlast, rfl⟩

/-! ## A command line -/

/-- The variables that a later switch overwrites. -/
inductive Variable where
  | input
  | output
  | preview
  | format
  | channels
  | rate
  | loopStart
  | loopEnd
  deriving DecidableEq, Repr

def variableOf (f : Found) : Option Variable :=
  match f.1 with
  | 'i' => some .input
  | 'o' => some .output
  | 'p' => some .preview
  | 'f' => some .format
  | 'S' => some .channels
  | 'c' => some .channels
  | 'r' => some .rate
  | 's' => some .loopStart
  | 'e' => some .loopEnd
  | _ => none

/-- What `main` is left with behind its switches. -/
def localsOf (found : List Found) : Locals where
  inFname := (argsOf 'i' found).getLast?
  outFname := (argsOf 'o' found).getLast?
  preview := (argsOf 'p' found).getLast?
  settings := (settingsOf (found.filterMap cliOption)).1
  dcac := (settingsOf (found.filterMap cliOption)).2

theorem accepts_iff {argv : List CString} {locals : Locals} : Accepts argv locals ↔
    (mainReading argv).failure = none ∧
      (∀ f ∈ (mainReading argv).found, prints argv.length f.1 = false) ∧
      (∀ option ∈ (mainReading argv).found.filterMap cliOption, option.valid = true) ∧
      localsOf (mainReading argv).found = locals := by
  obtain ⟨inFname, outFname, preview, settings, dcac⟩ := locals
  constructor
  · intro h
    obtain ⟨hvalid, hstate⟩ := parseOptions_eq_ok_iff.mp h.options_eq
    refine ⟨h.complete, h.silent, hvalid, ?_⟩
    rw [localsOf, ← h.inFname_eq, ← h.outFname_eq, ← h.preview_eq, hstate]
  · rintro ⟨hcomplete, hsilent, hvalid, hlocals⟩
    cases hlocals
    exact ⟨hcomplete, hsilent, parseOptions_eq_ok_iff.mpr ⟨hvalid, rfl⟩, rfl, rfl, rfl⟩

/-- **The last switch.** `main` gets past its options exactly if they are read without an error,
none of them prints, and every argument is valid on its own; then every variable holds what the
last switch for it said, and the others are on if any switch turns them on. -/
theorem mainOptions_last_switch (argv : List CString) (locals : Locals) :
    (∃ final, mainOptions argv = some (.ok (locals, final))) ↔
      (mainReading argv).failure = none ∧
        (∀ f ∈ (mainReading argv).found, prints argv.length f.1 = false) ∧
        (∀ option ∈ (mainReading argv).found.filterMap cliOption, option.valid = true) ∧
        localsOf (mainReading argv).found = locals := by
  rw [exists_mainOptions_iff, outcome_eq_ok_iff, accepts_iff]

/-! ## Other orders -/

section Order

variable {found found' : List Found}

/-- The variable an option overwrites. -/
@[simp] def CliOption.variable? : CliOption → Option Variable
  | .format _ => some .format
  | .stereo => some .channels
  | .channels _ => some .channels
  | .rate _ => some .rate
  | .loopStart _ => some .loopStart
  | .loopEnd _ => some .loopEnd
  | _ => none

theorem variableOf_of_cliOption {f : Found} {option : CliOption} {v : Variable}
    (hoption : cliOption f = some option) (h : option.variable? = some v) :
    variableOf f = some v := by
  unfold cliOption at hoption
  split at hoption <;> cases hoption <;> exact h

theorem lastOf_rearranged (h : Rearranged variableOf found found') {β : Type}
    {write : CliOption → Option β} (d : β) (v : Variable)
    (hwrite : ∀ option, write option ≠ none → option.variable? = some v) :
    lastOf write d (found.filterMap cliOption) = lastOf write d (found'.filterMap cliOption) := by
  rw [lastOf, lastOf, List.filterMap_filterMap, List.filterMap_filterMap,
    h.filterMap_eq v fun f hf ↦ ?_]
  cases hoption : cliOption f with
  | none =>
    rw [hoption] at hf
    exact absurd rfl hf
  | some option =>
    rw [hoption] at hf
    exact variableOf_of_cliOption hoption (hwrite option hf)

theorem settingsOf_rearranged (h : Rearranged variableOf found found') :
    settingsOf (found.filterMap cliOption) = settingsOf (found'.filterMap cliOption) := by
  have hany := fun p ↦ (h.perm.filterMap cliOption).any_eq (f := p)
  have hformat : ∀ option, CliOption.format? option ≠ none → option.variable? = some .format := by
    intro option hw
    cases option <;> first | rfl | exact absurd rfl hw
  have hchannels : ∀ option, CliOption.channels? option ≠ none →
      option.variable? = some .channels := by
    intro option hw
    cases option <;> first | rfl | exact absurd rfl hw
  have hrate : ∀ option, CliOption.rate? option ≠ none → option.variable? = some .rate := by
    intro option hw
    cases option <;> first | rfl | exact absurd rfl hw
  have hstart : ∀ option, CliOption.loopStart? option ≠ none →
      option.variable? = some .loopStart := by
    intro option hw
    cases option <;> first | rfl | exact absurd rfl hw
  have hend : ∀ option, CliOption.loopEnd? option ≠ none → option.variable? = some .loopEnd := by
    intro option hw
    cases option <;> first | rfl | exact absurd rfl hw
  rw [settingsOf, settingsOf, lastOf_rearranged h _ _ hformat, lastOf_rearranged h _ _ hchannels,
    lastOf_rearranged h _ _ hrate, lastOf_rearranged h _ _ hstart, lastOf_rearranged h _ _ hend]
  simp only [hany]

theorem argsOf_rearranged (h : Rearranged variableOf found found') {c : Char} {v : Variable}
    (hc : ∀ optarg, variableOf (c, optarg) = some v) : argsOf c found = argsOf c found' := by
  refine h.filterMap_eq v fun f hf ↦ ?_
  obtain ⟨d, optarg⟩ := f
  by_cases hd : d = c
  · rw [hd]
    exact hc optarg
  · exact absurd (if_neg hd) hf

theorem localsOf_rearranged (h : Rearranged variableOf found found') :
    localsOf found = localsOf found' := by
  rw [localsOf, localsOf, settingsOf_rearranged h,
    argsOf_rearranged h (c := 'i') fun _ ↦ rfl, argsOf_rearranged h (c := 'o') fun _ ↦ rfl,
    argsOf_rearranged h (c := 'p') fun _ ↦ rfl]

end Order

/-- A command line with the switches of one that is accepted is accepted, in any order that keeps
those for one variable. A lone `-v` is another switch, so one with it has to keep its length. -/
theorem Accepts.rearranged {argv argv' : List CString} {locals : Locals} (h : Accepts argv locals)
    (hcomplete : (mainReading argv').failure = none)
    (hargc : argv.length = 2 ↔ argv'.length = 2)
    (hswitches : Rearranged variableOf (mainReading argv).found (mainReading argv').found) :
    Accepts argv' locals := by
  obtain ⟨-, hsilent, hvalid, hlocals⟩ := accepts_iff.mp h
  refine accepts_iff.mpr ⟨hcomplete, fun f hf ↦ ?_, fun option hoption ↦ ?_, ?_⟩
  · have hprints : prints argv'.length f.1 = prints argv.length f.1 := by
      simp only [prints, hargc, beq_eq_decide]
    rw [hprints]
    exact hsilent f (hswitches.perm.mem_iff.mpr hf)
  · exact hvalid option ((hswitches.perm.filterMap cliOption).mem_iff.mpr hoption)
  · rw [← localsOf_rearranged hswitches, hlocals]

end DcaConv
