import DcaConv.CommandLine.Loop
import DcaConv.Pipeline.Options

/-!
# The switches of `main`

The table, the `switch` in the body of the option loop, and `main` up to the end of that loop. What
`--verbose` does to the log level is left out.

The command lines that get past the loop are those whose reading has no error, prints nothing, and
passes `parseOptions`; the files are those of the last `--in`, `--out` and `--preview`. No command
line makes the loop read from a missing argument.
-/

namespace DcaConv

/-! ## Numbers -/

/-- `isspace`. -/
def isSpace (c : Char) : Bool := c = ' ' ∨ ('\t' ≤ c ∧ c ≤ '\r')

/-- The `unsigned long` of a sign and digits. What does not fit is the greatest one, and a `-` is
taken modulo `2 ^ 64`. -/
def strtoul (negative : Bool) (digits : CString) : ℕ :=
  let n := Nat.ofDigitChars 10 digits 0
  if 2 ^ 64 ≤ n then 2 ^ 64 - 1 else if negative then (2 ^ 64 - n) % 2 ^ 64 else n

/-- A number in front of anything else. -/
def scanDigits (negative : Bool) (s : CString) : Option UInt32 :=
  let digits := s.takeWhile Char.isDigit
  -- stored as an `unsigned`
  if digits = [] then none else some (UInt32.ofNat (strtoul negative digits))

/-- `sscanf` with `%u`: what it stores, if it does. -/
def sscanfUnsigned (s : CString) : Option UInt32 :=
  match s.dropWhile isSpace with
  | '-' :: s => scanDigits true s
  | '+' :: s => scanDigits false s
  | s => scanDigits false s

/-! ## The body -/

/-- How the loop can end `main`. -/
inductive Stop where
  /-- A text was printed and 0 returned. -/
  | printed
  | error (error : MainError)
  | unknownOption (errmsg : CString)
  | aborted (fault : Fault)
  deriving DecidableEq, Repr

/-- The variables of `main` that its switches set. -/
structure Locals where
  inFname : Option CString
  outFname : Option CString
  preview : Option CString
  settings : Settings
  dcac : DcAudioConverter
  deriving DecidableEq, Repr

def Locals.initial : Locals := ⟨none, none, none, .initial, dcaInit⟩

def mainLongopts : List OptparseLong :=
  [⟨some "help".toList, 'h', .none⟩,
    ⟨some "out".toList, 'o', .required⟩,
    ⟨some "in".toList, 'i', .required⟩,
    ⟨some "preview".toList, 'p', .required⟩,
    ⟨some "format".toList, 'f', .required⟩,
    ⟨some "rate".toList, 'r', .required⟩,
    ⟨some "channels".toList, 'c', .required⟩,
    ⟨some "stereo".toList, 'S', .none⟩,
    ⟨some "loop".toList, 'l', .none⟩,
    ⟨some "loop-start".toList, 's', .required⟩,
    ⟨some "loop-end".toList, 'e', .required⟩,
    ⟨some "trim".toList, 't', .optional⟩,
    ⟨some "long".toList, 'L', .none⟩,
    ⟨some "trim-loop-end".toList, 'E', .none⟩,
    ⟨some "verbose".toList, 'v', .none⟩,
    ⟨some "version".toList, 'V', .none⟩]

/-- What a switch does to the settings and the converter. -/
def Locals.apply (locals : Locals) (option : CliOption) : Except Stop Locals :=
  match parseOption (locals.settings, locals.dcac) option with
  | .error e => .error (.error e)
  | .ok (settings, dcac) => .ok { locals with settings := settings, dcac := dcac }

/-- `sscanf` of an argument, which has to be there. -/
def scanOptarg (optarg : Option CString) : Except Stop (Option UInt32) :=
  match optarg with
  | none => .error (.aborted .outOfBounds)
  | some s => .ok (sscanfUnsigned s)

def switchOption (argc : ℕ) (option : Char) (optarg : Option CString) (errmsg : CString)
    (locals : Locals) : Except Stop Locals :=
  match option with
  | 'h' => .error .printed
  | 'i' => .ok { locals with inFname := optarg }
  | 'o' => .ok { locals with outFname := optarg }
  | 'p' => .ok { locals with preview := optarg }
  | 'f' =>
    match optarg with
    | none => .error (.error .invalidFormat)
    | some name => locals.apply (.format (String.ofList name))
  | 'S' => locals.apply .stereo
  | 'L' => locals.apply .long
  | 'l' => locals.apply .loop
  | 's' => do
    let scanned ← scanOptarg optarg
    locals.apply (.loopStart scanned)
  | 'e' => do
    let scanned ← scanOptarg optarg
    locals.apply (.loopEnd scanned)
  | 'c' => do
    let scanned ← scanOptarg optarg
    locals.apply (.channels scanned)
  | 'r' => do
    let scanned ← scanOptarg optarg
    locals.apply (.rate scanned)
  | 't' => locals.apply (.trim (optarg.map String.ofList))
  | 'E' => locals.apply .trimLoopEnd
  -- alone it falls through to the version
  | 'v' => if argc ≠ 2 then .ok locals else .error .printed
  | 'V' => .error .printed
  | _ => .error (.unknownOption errmsg)

def mainBody (argc : ℕ) : OptionBody Locals Stop where
  fixUp option := option == 't'
  handle := switchOption argc
  fault := .aborted

/-- `main` up to the end of the loop, which `none` would say it does not reach. -/
def mainOptions (argv : List CString) : Option (Except Stop (Locals × Optparse)) :=
  optparseLoop mainLongopts (mainBody argv.length) (((argv.drop 1).map List.length).sum + 1)
    (optparseInit argv) .initial

/-! ## The reading -/

theorem properTable_mainLongopts : ProperTable mainLongopts := by decide

theorem proper_mainBody (argc : ℕ) : (mainBody argc).Proper mainLongopts := by
  refine ⟨fun optarg errmsg s ↦ ⟨_, rfl⟩, rfl, fun c htype ↦ ?_⟩
  by_contra hfix
  have hc : c = 't' := by simpa [mainBody] using hfix
  subst hc
  revert htype
  decide

/-- What `main`'s arguments say. -/
def mainReading (argv : List CString) : Reading :=
  readArgs mainLongopts (· == 't') [] (argv.drop 1)

theorem mainOptions_eq (argv : List CString) : ∃ final, mainOptions argv =
    some (((mainBody argv.length).outcome (mainReading argv) .initial).map (·, final)) := by
  obtain ⟨final, -, hrun⟩ := (stands_init argv).runsAs properTable_mainLongopts
    (proper_mainBody argv.length) (Nat.lt_succ_self _) .initial
  exact ⟨final, hrun⟩

/-! ## What gets past the loop -/

/-- The option a switch is for the settings and the converter. -/
def cliOption : Found → Option CliOption
  | ('f', some name) => some (.format (String.ofList name))
  | ('S', _) => some .stereo
  | ('L', _) => some .long
  | ('l', _) => some .loop
  | ('s', some s) => some (.loopStart (sscanfUnsigned s))
  | ('e', some s) => some (.loopEnd (sscanfUnsigned s))
  | ('c', some s) => some (.channels (sscanfUnsigned s))
  | ('r', some s) => some (.rate (sscanfUnsigned s))
  | ('t', optarg) => some (.trim (optarg.map String.ofList))
  | ('E', _) => some .trimLoopEnd
  | _ => none

/-- The switches that print and return. -/
def prints (argc : ℕ) (option : Char) : Bool :=
  option == 'h' || option == 'V' || (option == 'v' && argc == 2)

/-- The arguments given to an option. -/
def argsOf (option : Char) (found : List Found) : List CString :=
  found.filterMap fun f ↦ if f.1 = option then f.2 else none

/-- The names behind a switch. -/
def Locals.named (locals : Locals) (f : Found) : Locals :=
  { locals with
    inFname := if f.1 = 'i' then f.2 else locals.inFname
    outFname := if f.1 = 'o' then f.2 else locals.outFname
    preview := if f.1 = 'p' then f.2 else locals.preview }

def Locals.applyAll (locals : Locals) : Option CliOption → Except Stop Locals
  | none => .ok locals
  | some option => locals.apply option

section Body

variable {argc : ℕ} {locals locals' : Locals} {f : Found} {found : List Found}

theorem handleFound_eq (hlisted : Listed mainLongopts f.1 (f.2 = none)) :
    (mainBody argc).handleFound locals f =
      if prints argc f.1 then .error .printed else (locals.named f).applyAll (cliOption f) := by
  obtain ⟨row, hrow, hname, hreq⟩ := hlisted
  obtain ⟨c, optarg⟩ := f
  dsimp only at hname hreq
  subst hname
  have hneed : row.argtype = .required → ∃ s, optarg = some s := fun htype ↦
    Option.ne_none_iff_exists'.mp fun hnone ↦ hreq hnone htype
  simp only [mainLongopts, List.mem_cons, List.not_mem_nil, or_false] at hrow
  have hverbose : (mainBody argc).handleFound locals ('v', optarg)
      = if prints argc 'v' then .error .printed else .ok locals := by
    by_cases hargc : argc = 2
    · subst hargc
      rfl
    · rw [if_neg (by simp [prints, hargc])]
      exact if_pos hargc
  -- a required argument is there before the row's branch reads it
  rcases hrow with rfl | rfl | rfl | rfl | rfl | rfl | rfl | rfl | rfl | rfl | rfl | rfl | rfl |
    rfl | rfl | rfl
  all_goals first
    | rfl
    | exact hverbose
    | (obtain ⟨s, rfl⟩ := hneed rfl; rfl)

theorem Locals.applyAll_eq_ok {option : Option CliOption} :
    locals.applyAll option = .ok locals' ↔
      option.toList.foldlM parseOption (locals.settings, locals.dcac)
        = .ok (locals'.settings, locals'.dcac) ∧
      locals'.inFname = locals.inFname ∧ locals'.outFname = locals.outFname ∧
      locals'.preview = locals.preview := by
  obtain ⟨inFname, outFname, preview, settings, dcac⟩ := locals
  obtain ⟨inFname', outFname', preview', settings', dcac'⟩ := locals'
  cases option with
  | none =>
    simp only [Locals.applyAll, Option.toList, List.foldlM_nil, pure, Except.pure, Except.ok.injEq,
      Locals.mk.injEq, Prod.mk.injEq]
    grind
  | some option =>
    simp only [Locals.applyAll, Locals.apply, Option.toList, List.foldlM_cons, List.foldlM_nil]
    cases parseOption (settings, dcac) option with
    | error e => simp [bind, Except.bind]
    | ok state =>
      simp only [Fallible.ok_bind, pure, Except.pure, Except.ok.injEq, Locals.mk.injEq]
      grind

theorem getLast?_argsOf_cons {c : Char} (hneed : f.1 = c → f.2 ≠ none) (old : Option CString) :
    (argsOf c (f :: found)).getLast?.or old
      = (argsOf c found).getLast?.or (if f.1 = c then f.2 else old) := by
  by_cases hc : f.1 = c
  · obtain ⟨s, hs⟩ := Option.ne_none_iff_exists'.mp (hneed hc)
    have hcons : argsOf c (f :: found) = s :: argsOf c found := by simp [argsOf, hc, hs]
    rw [hcons, List.getLast?_cons, if_pos hc, hs]
    cases (argsOf c found).getLast? <;> rfl
  · have hskip : argsOf c (f :: found) = argsOf c found := by simp [argsOf, hc]
    rw [hskip, if_neg hc]

/-- What the loop has done after some switches. -/
structure Handled (argc : ℕ) (found : List Found) (locals locals' : Locals) : Prop where
  silent : ∀ f ∈ found, prints argc f.1 = false
  options_eq : (found.filterMap cliOption).foldlM parseOption (locals.settings, locals.dcac)
    = .ok (locals'.settings, locals'.dcac)
  inFname_eq : locals'.inFname = (argsOf 'i' found).getLast?.or locals.inFname
  outFname_eq : locals'.outFname = (argsOf 'o' found).getLast?.or locals.outFname
  preview_eq : locals'.preview = (argsOf 'p' found).getLast?.or locals.preview

theorem handled_nil_iff : Handled argc [] locals locals' ↔ locals = locals' := by
  constructor
  · rintro ⟨-, hoptions, hin, hout, hpreview⟩
    obtain ⟨inFname, outFname, preview, settings, dcac⟩ := locals
    obtain ⟨inFname', outFname', preview', settings', dcac'⟩ := locals'
    cases hoptions
    dsimp only [argsOf, List.filterMap_nil, List.getLast?_nil, Option.none_or] at hin hout hpreview
    rw [hin, hout, hpreview]
  · rintro rfl
    exact ⟨fun f hf ↦ (by cases hf), rfl, rfl, rfl, rfl⟩

/-- A switch in front. -/
theorem handled_cons_iff (hlisted : Listed mainLongopts f.1 (f.2 = none)) :
    Handled argc (f :: found) locals locals' ↔
      ∃ between, (mainBody argc).handleFound locals f = .ok between ∧
        Handled argc found between locals' := by
  have hneed : ∀ c, (∀ row ∈ mainLongopts, row.shortname = c → row.argtype = .required) →
      f.1 = c → f.2 ≠ none := by
    intro c hrequired hc hnone
    obtain ⟨row, hrow, hname, hreq⟩ := hlisted
    exact hreq hnone (hrequired row hrow (hname.trans hc))
  have hlast := fun c hrequired ↦ @getLast?_argsOf_cons f found c (hneed c hrequired)
  have hsplit : (f :: found).filterMap cliOption
      = (cliOption f).toList ++ found.filterMap cliOption := by
    rw [List.filterMap_cons]
    cases cliOption f <;> rfl
  rw [handleFound_eq hlisted]
  cases hprints : prints argc f.1 with
  | true =>
    refine iff_of_false (fun h ↦ ?_) fun ⟨between, h, _⟩ ↦ by cases h
    rw [h.silent f List.mem_cons_self] at hprints
    cases hprints
  | false =>
    rw [if_neg Bool.false_ne_true]
    constructor
    · intro h
      have hoptions := h.options_eq
      rw [hsplit, List.foldlM_append] at hoptions
      obtain ⟨⟨settings, dcac⟩, hfirst, hrest⟩ := Fallible.bind_eq_ok.mp hoptions
      refine ⟨{ locals.named f with settings := settings, dcac := dcac },
        Locals.applyAll_eq_ok.mpr ⟨hfirst, rfl, rfl, rfl⟩,
        ⟨fun g hg ↦ h.silent g (List.mem_cons_of_mem _ hg), hrest, ?_, ?_, ?_⟩⟩
      · rw [h.inFname_eq, hlast 'i' (by decide)]
        rfl
      · rw [h.outFname_eq, hlast 'o' (by decide)]
        rfl
      · rw [h.preview_eq, hlast 'p' (by decide)]
        rfl
    · rintro ⟨between, hbetween, h⟩
      obtain ⟨hfirst, hin, hout, hpreview⟩ := Locals.applyAll_eq_ok.mp hbetween
      refine ⟨fun g hg ↦ ?_, ?_, ?_, ?_, ?_⟩
      · rcases List.mem_cons.mp hg with rfl | hg
        · exact hprints
        · exact h.silent g hg
      · rw [hsplit, List.foldlM_append]
        exact Fallible.bind_eq_ok.mpr ⟨_, hfirst, h.options_eq⟩
      · rw [h.inFname_eq, hin, hlast 'i' (by decide)]
        rfl
      · rw [h.outFname_eq, hout, hlast 'o' (by decide)]
        rfl
      · rw [h.preview_eq, hpreview, hlast 'p' (by decide)]
        rfl

theorem foldlM_handleFound_iff (hlisted : ∀ f ∈ found, Listed mainLongopts f.1 (f.2 = none)) :
    found.foldlM (mainBody argc).handleFound locals = .ok locals' ↔
      Handled argc found locals locals' := by
  induction found generalizing locals with
  | nil =>
    rw [handled_nil_iff, List.foldlM_nil]
    exact ⟨fun h ↦ by cases h; rfl, fun h ↦ by rw [h]; rfl⟩
  | cons f found ih =>
    rw [handled_cons_iff (hlisted f List.mem_cons_self), List.foldlM_cons, Fallible.bind_eq_ok]
    simp only [ih fun g hg ↦ hlisted g (List.mem_cons_of_mem _ hg)]

/-- No switch is handed a missing argument it reads from. -/
theorem handleFound_ne_aborted (hlisted : Listed mainLongopts f.1 (f.2 = none)) (fault : Fault) :
    (mainBody argc).handleFound locals f ≠ .error (.aborted fault) := by
  rw [handleFound_eq hlisted]
  split
  · exact fun h ↦ by cases h
  · cases cliOption f with
    | none => exact fun h ↦ by cases h
    | some option =>
      rw [Locals.applyAll, Locals.apply]
      split <;> exact fun h ↦ by cases h

end Body

/-- The command lines that get past the loop, and what they leave behind. -/
structure Accepts (argv : List CString) (locals : Locals) : Prop where
  complete : (mainReading argv).failure = none
  silent : ∀ f ∈ (mainReading argv).found, prints argv.length f.1 = false
  options_eq : parseOptions ((mainReading argv).found.filterMap cliOption)
    = .ok (locals.settings, locals.dcac)
  inFname_eq : locals.inFname = (argsOf 'i' (mainReading argv).found).getLast?
  outFname_eq : locals.outFname = (argsOf 'o' (mainReading argv).found).getLast?
  preview_eq : locals.preview = (argsOf 'p' (mainReading argv).found).getLast?

theorem listed_mainReading (argv : List CString) :
    ∀ f ∈ (mainReading argv).found, Listed mainLongopts f.1 (f.2 = none) :=
  listed_of_mem_found [] (argv.drop 1)

theorem outcome_eq_ok_iff (argv : List CString) (locals : Locals) :
    (mainBody argv.length).outcome (mainReading argv) .initial = .ok locals ↔
      Accepts argv locals := by
  have hfold := @foldlM_handleFound_iff argv.length .initial locals _ (listed_mainReading argv)
  constructor
  · intro hout
    obtain ⟨hcomplete, hfound⟩ := (proper_mainBody argv.length).outcome_eq_ok hout
    have h := hfold.mp hfound
    refine ⟨hcomplete, h.silent, h.options_eq, ?_, ?_, ?_⟩
    · exact h.inFname_eq.trans Option.or_none
    · exact h.outFname_eq.trans Option.or_none
    · exact h.preview_eq.trans Option.or_none
  · intro h
    have hfound := hfold.mpr ⟨h.silent, h.options_eq, h.inFname_eq.trans Option.or_none.symm,
      h.outFname_eq.trans Option.or_none.symm, h.preview_eq.trans Option.or_none.symm⟩
    rw [OptionBody.outcome, hfound]
    dsimp only
    rw [h.complete]

theorem exists_mainOptions_iff (argv : List CString) (locals : Locals) :
    (∃ final, mainOptions argv = some (.ok (locals, final))) ↔
      (mainBody argv.length).outcome (mainReading argv) .initial = .ok locals := by
  obtain ⟨final, hrun⟩ := mainOptions_eq argv
  rw [hrun]
  constructor
  · rintro ⟨final', hok⟩
    cases hout : (mainBody argv.length).outcome (mainReading argv) .initial with
    | error e =>
      rw [hout] at hok
      cases hok
    | ok locals' =>
      rw [hout] at hok
      cases hok
      rfl
  · intro hout
    rw [hout]
    exact ⟨final, rfl⟩

/-- **The command line.** `main` gets past its loop exactly on the command lines it accepts. -/
theorem mainOptions_iff_accepts (argv : List CString) (locals : Locals) :
    (∃ final, mainOptions argv = some (.ok (locals, final))) ↔ Accepts argv locals := by
  rw [exists_mainOptions_iff, outcome_eq_ok_iff]

/-- **No command line makes the loop fault.** Neither the parser nor the body of the loop reads
outside a string, the array or the message, or from an argument that is missing. -/
theorem mainOptions_no_fault (argv : List CString) :
    ∃ result, mainOptions argv = some result ∧ ∀ fault, result ≠ .error (.aborted fault) := by
  obtain ⟨final, hrun⟩ := mainOptions_eq argv
  refine ⟨_, hrun, fun fault hfault ↦ ?_⟩
  rw [OptionBody.outcome] at hfault
  cases hfold : (mainReading argv).found.foldlM (mainBody argv.length).handleFound .initial with
  | error e =>
    rw [hfold] at hfault
    cases hfault
    obtain ⟨locals, f, hf, hstep⟩ := Fallible.exists_error_of_foldlM hfold
    exact handleFound_ne_aborted (listed_mainReading argv f hf) fault hstep
  | ok locals =>
    rw [hfold] at hfault
    cases hfailure : (mainReading argv).failure with
    | none =>
      rw [hfailure] at hfault
      cases hfault
    | some errmsg =>
      rw [hfailure] at hfault
      cases hfault

end DcaConv
