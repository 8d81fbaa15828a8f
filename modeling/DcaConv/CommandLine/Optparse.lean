import DcaConv.Library.Rotation
import DcaConv.Machine

/-!
# The option parser

`optparse.h`, as far as `main` gets into it: short options in clusters, long options, and arguments
that are no options, which the parser moves to the end of `argv` while it looks for the next option.

A C string is the list of its characters in front of the terminator, and `argv` the list of its
strings in front of the `NULL`. Reading a terminator or the `NULL` is fine; reading behind either is
a `Fault`. A returned `int` is a character, or `none` for `-1`. `longindex` is `NULL`, as `main` has
it.
-/

namespace DcaConv

/-- A string in front of its terminator. -/
abbrev CString := List Char

/-- The integer 0 as a `shortname` or an `optopt`. -/
def nul : Char := Char.ofNat 0

/-- `s[k]`, `none` for the terminator. -/
def charAt (s : CString) (k : ℕ) : Except Fault (Option Char) :=
  if k ≤ s.length then .ok s[k]? else .error .outOfBounds

/-! ## State and tables -/

structure Optparse where
  argv : List CString
  permute : Bool
  optind : ℕ
  optopt : Char
  /-- The argument of the option, a part of a string of `argv`. -/
  optarg : Option CString
  /-- The string in the 64 bytes of `errmsg`. -/
  errmsg : CString
  subopt : ℕ
  deriving DecidableEq, Repr

inductive OptparseArgtype where
  | none
  | required
  | optional
  deriving DecidableEq, Repr

/-- The enumerator's value. -/
def OptparseArgtype.value : OptparseArgtype → ℕ
  | .none => 0
  | .required => 1
  | .optional => 2

/-- A row of the table of options, which is the list of its rows in front of the one of zeros. One
of the names can be missing; a `shortname` from 127 on stands for an option without a short form. -/
structure OptparseLong where
  longname : Option CString
  shortname : Char
  argtype : OptparseArgtype
  deriving DecidableEq, Repr

/-- `optopt` is not set, and not read before it is. -/
def optparseInit (argv : List CString) : Optparse where
  argv := argv
  permute := true
  optind := if argv = [] then 0 else 1
  optopt := nul
  optarg := none
  errmsg := []
  subopt := 0

/-! ## Errors -/

/-- `sizeof(errmsg)`. -/
def errmsgSize : ℕ := 64

def optparseMsgInvalid : CString := "invalid option".toList

def optparseMsgMissing : CString := "option requires an argument".toList

def optparseMsgTooMany : CString := "option takes no arguments".toList

/-- The text of `optparse_error`. `data` is cut to leave room for the quote and the terminator. -/
def errorText (msg data : CString) : CString :=
  let p := msg.length + " -- '".length
  msg ++ " -- '".toList ++ data.take (errmsgSize - 2 - p) ++ "'".toList

def optparseError (options : Optparse) (msg data : CString) :
    Except Fault (Option Char × Optparse) :=
  -- the terminator is stored right behind the text
  if (errorText msg data).length < errmsgSize then
    .ok (some '?', { options with errmsg := errorText msg data })
  else .error .outOfBounds

/-! ## Kinds of arguments -/

def optparseIsDashdash : CString → Bool
  | ['-', '-'] => true
  | _ => false

def optparseIsShortopt : CString → Bool
  | '-' :: c :: _ => c != '-'
  | _ => false

def optparseIsLongopt : CString → Bool
  | '-' :: '-' :: _ :: _ => true
  | _ => false

/-! ## The frame of both parsers -/

/-- Move the argument at `index` behind the ones up to `optind`. -/
def optparsePermute (options : Optparse) (index : ℕ) : Except Fault Optparse := do
  let argv ← Rotation.moveTo .outOfBounds options.argv index (options.optind - 1)
  .ok { options with argv := argv }

/-- What is done behind the recursive call, with what it returned. -/
def stepBack (index : ℕ) (called : Option Char × Optparse) :
    Except Fault (Option Char × Optparse) := do
  let options ← optparsePermute called.2 index
  .ok (called.1, { options with optind := options.optind - 1 })

/-- A parser at the arguments from `optind` on: it is done at the end of `argv` and at `--`, which
it consumes; it steps over what is no option, calls itself, and steps back. -/
def parseFrame (reset : Optparse → Optparse) (isOption : CString → Bool)
    (parse : CString → Optparse → Except Fault (Option Char × Optparse)) :
    List CString → Optparse → Except Fault (Option Char × Optparse)
  | [], options => .ok (none, reset options)
  | option :: left, options =>
    let options := reset options
    if optparseIsDashdash option then .ok (none, { options with optind := options.optind + 1 })
    else if isOption option then parse option options
    else if options.permute then do
      let called ←
        parseFrame reset isOption parse left { options with optind := options.optind + 1 }
      stepBack options.optind called
    else .ok (none, options)

/-- The frame from `argv[optind]` on. -/
def parseArgv (reset : Optparse → Optparse) (isOption : CString → Bool)
    (parse : CString → Optparse → Except Fault (Option Char × Optparse)) (options : Optparse) :
    Except Fault (Option Char × Optparse) :=
  if options.optind ≤ options.argv.length then
    parseFrame reset isOption parse (options.argv.drop options.optind) options
  else .error .outOfBounds

/-! ## Short options -/

/-- The type of an option in a `getopt` string, `none` for `-1`. -/
def optparseArgtype (optstring : CString) (c : Char) : Option OptparseArgtype :=
  if c = ':' then none
  else match optstring.dropWhile (· ≠ c) with
    | [] => none
    | _ :: ':' :: ':' :: _ => some .optional
    | _ :: ':' :: _ => some .required
    | _ => some .none

/-- What `optparse` clears before anything else. -/
def clearResults (options : Optparse) : Optparse :=
  { options with errmsg := [], optopt := nul, optarg := none }

/-- `optparse` at the argument `arg`, a cluster of short options. -/
def shortOption (optstring arg : CString) (options : Optparse) :
    Except Fault (Option Char × Optparse) := do
  let option ← charAt arg (options.subopt + 1)
  match option with
  -- no string has its terminator as an option
  | none =>
    optparseError { options with optopt := nul, optind := options.optind + 1 } optparseMsgInvalid []
  | some option =>
    let options := { options with optopt := option }
    -- `argv[optind + 1]`, at most the `NULL`
    let next := options.argv[options.optind + 1]?
    match optparseArgtype optstring option with
    | none =>
      optparseError { options with optind := options.optind + 1 } optparseMsgInvalid [option]
    | some argtype => do
      let following ← charAt arg (options.subopt + 2)
      let rest := arg.drop (options.subopt + 2)
      match argtype, following with
      | .none, some _ => .ok (some option, { options with subopt := options.subopt + 1 })
      | .none, none =>
        .ok (some option, { options with subopt := 0, optind := options.optind + 1 })
      | .required, some _ | .optional, some _ => .ok (some option,
          { options with subopt := 0, optind := options.optind + 1, optarg := some rest })
      | .required, none =>
        let options := { options with subopt := 0, optind := options.optind + 1 }
        match next with
        | some a =>
          .ok (some option, { options with optarg := some a, optind := options.optind + 1 })
        | none => optparseError { options with optarg := none } optparseMsgMissing [option]
      | .optional, none => .ok (some option,
          { options with subopt := 0, optind := options.optind + 1, optarg := none })

def optparse (optstring : CString) (options : Optparse) : Except Fault (Option Char × Optparse) :=
  parseArgv clearResults optparseIsShortopt (shortOption optstring) options

/-- The next argument as it is, `none` for `NULL`. -/
def optparseArg (options : Optparse) : Except Fault (Option CString × Optparse) :=
  if options.optind ≤ options.argv.length then
    match options.argv[options.optind]? with
    | some option => .ok (some option, { options with subopt := 0, optind := options.optind + 1 })
    | none => .ok (none, { options with subopt := 0 })
  else .error .outOfBounds

/-! ## Long options -/

/-- The part of the `getopt` string that a row of the table contributes. -/
def rowString (row : OptparseLong) : CString :=
  if row.shortname ≠ nul ∧ row.shortname.toNat < 127 then
    row.shortname :: List.replicate row.argtype.value ':'
  else []

/-- The size of the buffer `optparse_long_fallback` has for the string. -/
def optstringSize : ℕ := 96 * 3 + 1

def optparseFromLong (longopts : List OptparseLong) : Except Fault CString :=
  let optstring := longopts.flatMap rowString
  if optstring.length < optstringSize then .ok optstring else .error .outOfBounds

/-- The comparison loop of `optparse_longopts_match`. -/
def matchName : (option name : CString) → Bool
  | [], [] => true
  | [], _ :: _ => false
  | '=' :: _, name => name.isEmpty
  | _ :: _, [] => false
  | a :: option, n :: name => a == n && matchName option name

def optparseLongoptsMatch (longname : Option CString) (option : CString) : Bool :=
  match longname with
  | none => false
  | some name => matchName option name

/-- The part after the `=`. -/
def optparseLongoptsArg (option : CString) : Option CString :=
  match option.dropWhile (· ≠ '=') with
  | [] => none
  | _ :: arg => some arg

def optparseLongFallback (longopts : List OptparseLong) (options : Optparse) :
    Except Fault (Option Char × Optparse) := do
  let optstring ← optparseFromLong longopts
  optparse optstring options

/-- `optparse_long` at the argument `arg`, a long option. -/
def longOption (longopts : List OptparseLong) (arg : CString) (options : Optparse) :
    Except Fault (Option Char × Optparse) :=
  let options := { clearResults options with optind := options.optind + 1 }
  let option := arg.drop 2
  match longopts.find? fun row ↦ optparseLongoptsMatch row.longname option with
  | none => optparseError options optparseMsgInvalid option
  | some row =>
    let name := row.longname.getD []
    let options := { options with optopt := row.shortname }
    match optparseLongoptsArg option with
    | some value =>
      if row.argtype = .none then optparseError options optparseMsgTooMany name
      else .ok (some row.shortname, { options with optarg := some value })
    | none =>
      if row.argtype = .required then
        match options.argv[options.optind]? with
        | none => optparseError options optparseMsgMissing name
        | some a => .ok (some row.shortname,
            { options with optarg := some a, optind := options.optind + 1 })
      else .ok (some row.shortname, options)

/-- The two kinds of options of `optparse_long`. -/
def isOption (arg : CString) : Bool := optparseIsShortopt arg || optparseIsLongopt arg

def optparseLong (longopts : List OptparseLong) (options : Optparse) :
    Except Fault (Option Char × Optparse) :=
  parseArgv id isOption
    (fun option options ↦
      if optparseIsShortopt option then optparseLongFallback longopts options
      else longOption longopts option options) options

end DcaConv
