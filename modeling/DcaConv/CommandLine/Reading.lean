import DcaConv.CommandLine.Table

/-!
# What a command line says

The options and operands of a list of arguments, read once from left to right without an array to
permute: `pending` are the operands met so far. This is what the calls of the parser are compared
with.

A client can do one thing to the parser between its calls: give an option of optional argument that
has come without one the next argument, if that does not start with a `-`. By then the operands
stand in front of the arguments not yet read, so it is the first operand that is taken.
-/

namespace DcaConv

/-! ## One argument -/

/-- How an argument with options ends. -/
inductive ArgEnd where
  /-- An option, with what the same argument holds for it. -/
  | found (option : Char) (optarg : Option CString)
  /-- An option that takes the argument behind; `name` is for the message if there is none. -/
  | wants (option : Char) (name : CString)
  | fails (errmsg : CString)
  deriving DecidableEq, Repr

/-- The option at the end. -/
def ArgEnd.option? : ArgEnd → Option Char
  | .found option _ => some option
  | .wants option _ => some option
  | .fails _ => none

inductive ArgKind where
  /-- What ends the options. -/
  | dashdash
  /-- Options without arguments, and the last one. -/
  | options (flags : List Char) (ending : ArgEnd)
  | operand
  deriving DecidableEq, Repr

section Table

variable (longopts : List OptparseLong)

/-- A cluster of short options, from the option `c` on. -/
def readCluster (c : Char) (cs : CString) : List Char × ArgEnd :=
  match shortType longopts c with
  | none => ([], .fails (errorText optparseMsgInvalid [c]))
  | some .none =>
    match cs with
    | [] => ([], .found c none)
    | d :: ds => (c :: (readCluster d ds).1, (readCluster d ds).2)
  | some .required => ([], if cs = [] then .wants c [c] else .found c (some cs))
  | some .optional => ([], .found c (if cs = [] then none else some cs))

theorem readCluster_flag {c d : Char} {ds : CString} (htype : shortType longopts c = some .none) :
    readCluster longopts c (d :: ds)
      = (c :: (readCluster longopts d ds).1, (readCluster longopts d ds).2) := by
  rw [readCluster, htype]

/-- Any other option ends the cluster. -/
theorem readCluster_fst_of_ne {c : Char} (htype : shortType longopts c ≠ some .none)
    (cs : CString) :
    (readCluster longopts c cs).1 = [] := by
  unfold readCluster
  cases hc : shortType longopts c with
  | none => rfl
  | some argtype =>
    cases argtype with
    | none => exact absurd hc htype
    | required => rfl
    | optional => rfl

theorem readCluster_fst_nil (c : Char) : (readCluster longopts c []).1 = [] := by
  by_cases htype : shortType longopts c = some .none
  · rw [readCluster, htype]
  · exact readCluster_fst_of_ne longopts htype []

/-- The flags are characters of the cluster, with one left for its end. -/
theorem length_flags_le (c : Char) (cs : CString) :
    (readCluster longopts c cs).1.length ≤ cs.length := by
  induction cs generalizing c with
  | nil => rw [readCluster_fst_nil]
  | cons d ds ih =>
    by_cases htype : shortType longopts c = some .none
    · rw [readCluster_flag longopts htype]
      exact Nat.succ_le_succ (ih d)
    · rw [readCluster_fst_of_ne longopts htype]
      exact Nat.zero_le _

/-- A long option behind its dashes. -/
def readLong (option : CString) : ArgEnd :=
  match longopts.find? fun row ↦ optparseLongoptsMatch row.longname option with
  | none => .fails (errorText optparseMsgInvalid option)
  | some row =>
    match optparseLongoptsArg option with
    | some value =>
      if row.argtype = .none then .fails (errorText optparseMsgTooMany (row.longname.getD []))
      else .found row.shortname (some value)
    | none =>
      if row.argtype = .required then .wants row.shortname (row.longname.getD [])
      else .found row.shortname none

def readArg : CString → ArgKind
  | ['-', '-'] => .dashdash
  | '-' :: '-' :: name => .options [] (readLong longopts name)
  | '-' :: c :: cs => .options (readCluster longopts c cs).1 (readCluster longopts c cs).2
  | _ => .operand

/-! ## A command line -/

/-- An option with its argument, as the client sees it. -/
abbrev Found := Char × Option CString

structure Reading where
  found : List Found
  /-- The message, if the reading ends in an error. -/
  failure : Option CString
  /-- The arguments consumed, in order. -/
  used : List CString
  /-- The arguments that are left. -/
  left : List CString
  deriving DecidableEq, Repr

/-- The reading behind some arguments. -/
def Reading.behind (reading : Reading) (used : List CString) (flags : List Char)
    (last : Found) : Reading :=
  { reading with
    found := flags.map (·, none) ++ last :: reading.found
    used := used ++ reading.used }

/-- An argument a client may take for an option that came without one. -/
def isValue (arg : CString) : Bool := arg.head? != some '-'

/-- The reading of `rest`, behind the operands `pending`; `fixUp` are the options whose missing
argument the client looks for. -/
def readArgs (fixUp : Char → Bool) : (pending rest : List CString) → Reading
  | pending, [] => ⟨[], none, [], pending⟩
  | pending, arg :: rest =>
    match readArg longopts arg with
    | .dashdash => ⟨[], none, [arg], pending ++ rest⟩
    | .operand => readArgs fixUp (pending ++ [arg]) rest
    | .options flags (.fails errmsg) => ⟨flags.map (·, none), some errmsg, [arg], pending ++ rest⟩
    | .options flags (.wants option name) =>
      match rest with
      | [] => ⟨flags.map (·, none), some (errorText optparseMsgMissing name), [arg], pending⟩
      | value :: rest =>
        (readArgs fixUp pending rest).behind [arg, value] flags (option, some value)
    | .options flags (.found option (some value)) =>
      (readArgs fixUp pending rest).behind [arg] flags (option, some value)
    | .options flags (.found option none) =>
      if fixUp option then
        match pending, rest with
        | value :: pending, rest =>
          if isValue value then
            (readArgs fixUp pending rest).behind [arg, value] flags (option, some value)
          else (readArgs fixUp (value :: pending) rest).behind [arg] flags (option, none)
        | [], value :: rest =>
          if isValue value then
            (readArgs fixUp [] rest).behind [arg, value] flags (option, some value)
          else (readArgs fixUp [] (value :: rest)).behind [arg] flags (option, none)
        | [], [] => ⟨flags.map (·, none) ++ [(option, none)], none, [arg], []⟩
      else (readArgs fixUp pending rest).behind [arg] flags (option, none)

/-! ## Reasoning about a reading

However an option gets its argument, it takes at most one argument beside its own, and that from one
of two places. -/

/-- What the option `c` takes beside its own argument, and what it leaves. -/
inductive Takes (fixUp : Char → Bool) (c : Char) :
    (pending rest taken pending' rest' : List CString) → Prop
  | nothing {pending rest} : Takes fixUp c pending rest [] pending rest
  | next {pending value rest} : Takes fixUp c pending (value :: rest) [value] pending rest
  | operand {value pending rest} : fixUp c = true →
      Takes fixUp c (value :: pending) rest [value] pending rest

/-- Induction along the reading. -/
theorem readArgs_rec (fixUp : Char → Bool) {motive : List CString → List CString → Reading → Prop}
    (nil : ∀ pending, motive pending [] ⟨[], none, [], pending⟩)
    (dashdash : ∀ pending arg rest, readArg longopts arg = .dashdash →
      motive pending (arg :: rest) ⟨[], none, [arg], pending ++ rest⟩)
    (operand : ∀ pending arg rest, readArg longopts arg = .operand →
      motive (pending ++ [arg]) rest (readArgs longopts fixUp (pending ++ [arg]) rest) →
      motive pending (arg :: rest) (readArgs longopts fixUp (pending ++ [arg]) rest))
    (stop : ∀ pending arg rest flags ending errmsg, readArg longopts arg = .options flags ending →
      motive pending (arg :: rest)
        ⟨flags.map (·, none), some errmsg, [arg], pending ++ rest⟩)
    (behind : ∀ pending arg rest flags ending c optarg taken pending' rest',
      readArg longopts arg = .options flags ending → ending.option? = some c →
      (optarg = none → ending = .found c none) →
      Takes fixUp c pending rest taken pending' rest' →
      motive pending' rest' (readArgs longopts fixUp pending' rest') →
      motive pending (arg :: rest)
        ((readArgs longopts fixUp pending' rest').behind (arg :: taken) flags (c, optarg)))
    (pending rest : List CString) : motive pending rest (readArgs longopts fixUp pending rest) := by
  fun_induction readArgs longopts fixUp pending rest with
  | case1 pending => exact nil pending
  | case2 pending arg rest hread => exact dashdash pending arg rest hread
  | case3 pending arg rest hread ih => exact operand pending arg rest hread ih
  | case4 pending arg rest flags errmsg hread => exact stop pending arg rest flags _ errmsg hread
  | case5 pending arg flags option name hread =>
    have h := stop pending arg [] flags _ (errorText optparseMsgMissing name) hread
    rwa [List.append_nil] at h
  | case6 pending arg flags option name hread value rest ih =>
    exact behind _ _ _ _ _ _ _ _ _ _ hread rfl (fun h ↦ by cases h) .next ih
  | case7 pending arg rest flags option value hread ih =>
    exact behind _ _ _ _ _ _ _ _ _ _ hread rfl (fun h ↦ by cases h) .nothing ih
  | case8 arg flags option hread hfix value pending rest _ ih =>
    exact behind _ _ _ _ _ _ _ _ _ _ hread rfl (fun h ↦ by cases h) (.operand hfix) ih
  | case9 arg flags option hread _ value pending rest _ ih =>
    exact behind _ _ _ _ _ _ _ _ _ _ hread rfl (fun _ ↦ rfl) .nothing ih
  | case10 arg flags option hread _ value rest _ ih =>
    exact behind _ _ _ _ _ _ _ _ _ _ hread rfl (fun h ↦ by cases h) .next ih
  | case11 arg flags option hread _ value rest _ ih =>
    exact behind _ _ _ _ _ _ _ _ _ _ hread rfl (fun _ ↦ rfl) .nothing ih
  | case12 arg flags option hread _ =>
    exact behind _ _ _ _ _ _ _ _ _ _ hread rfl (fun _ ↦ rfl) .nothing (nil [])
  | case13 pending arg rest flags option hread _ ih =>
    exact behind _ _ _ _ _ _ _ _ _ _ hread rfl (fun _ ↦ rfl) .nothing ih

section Order

variable {longopts} {fixUp : Char → Bool} {c : Char}
  {pending rest taken pending' rest' : List CString}

theorem Takes.perm (h : Takes fixUp c pending rest taken pending' rest') :
    (taken ++ (pending' ++ rest')).Perm (pending ++ rest) := by
  cases h with
  | nothing => exact List.Perm.refl _
  | @next _ value rest =>
    rw [List.singleton_append]
    exact List.perm_middle.symm
  | operand _ => exact List.Perm.refl _

/-- Nothing is lost. -/
theorem perm_readArgs (fixUp : Char → Bool) (pending rest : List CString) :
    ((readArgs longopts fixUp pending rest).used ++
      (readArgs longopts fixUp pending rest).left).Perm (pending ++ rest) := by
  apply readArgs_rec longopts fixUp
    (motive := fun pending rest reading ↦ (reading.used ++ reading.left).Perm (pending ++ rest))
  · intro pending
    rw [List.append_nil]
    exact List.Perm.refl _
  · intro pending arg rest _
    rw [List.singleton_append]
    exact List.perm_middle.symm
  · intro pending arg rest _ ih
    rwa [List.append_assoc] at ih
  · intro pending arg rest flags ending errmsg _
    rw [List.singleton_append]
    exact List.perm_middle.symm
  · intro pending arg rest flags ending c optarg taken pending' rest' _ _ _ htakes ih
    rw [Reading.behind, List.append_assoc]
    exact (((ih.append_left taken).trans htakes.perm).cons arg).trans List.perm_middle.symm

/-- Where no operand is taken for an argument, both parts keep their order. -/
theorem sublist_readArgs (hfix : ∀ c, fixUp c = false) (pending rest : List CString) :
    (readArgs longopts fixUp pending rest).used.Sublist rest ∧
      (readArgs longopts fixUp pending rest).left.Sublist (pending ++ rest) := by
  apply readArgs_rec longopts fixUp
    (motive := fun pending rest reading ↦
      reading.used.Sublist rest ∧ reading.left.Sublist (pending ++ rest))
  · intro pending
    rw [List.append_nil]
    exact ⟨List.Sublist.refl _, List.Sublist.refl _⟩
  · intro pending arg rest _
    exact ⟨(List.nil_sublist rest).cons_cons arg,
      (List.sublist_cons_self arg rest).append_left pending⟩
  · intro pending arg rest _ ih
    rw [List.append_assoc] at ih
    exact ⟨ih.1.cons arg, ih.2⟩
  · intro pending arg rest flags ending errmsg _
    exact ⟨(List.nil_sublist rest).cons_cons arg,
      (List.sublist_cons_self arg rest).append_left pending⟩
  · intro pending arg rest flags ending c optarg taken pending' rest' _ _ _ htakes ih
    cases htakes with
    | nothing =>
      exact ⟨ih.1.cons_cons arg, ih.2.trans ((List.sublist_cons_self arg _).append_left _)⟩
    | next =>
      refine ⟨(ih.1.cons_cons _).cons_cons arg, ih.2.trans ?_⟩
      exact (((List.sublist_cons_self _ _).trans (List.sublist_cons_self arg _))).append_left _
    | operand h => exact absurd h (Bool.eq_false_iff.mp (hfix c))

end Order

/-! ## The rows of what is found -/

section Rows

variable {longopts} {fixUp : Char → Bool} {c : Char} {arg : CString} {flags : List Char}
  {ending : ArgEnd}

/-- The option `c` is in a row, and one without an argument in a row that does not require one. -/
def Listed (longopts : List OptparseLong) (c : Char) (without : Prop) : Prop :=
  ∃ row ∈ longopts, row.shortname = c ∧ (without → row.argtype ≠ .required)

theorem listed_of_shortType {argtype : OptparseArgtype} {without : Prop}
    (h : shortType longopts c = some argtype) (hreq : without → argtype ≠ .required) :
    Listed longopts c without := by
  rw [shortType, Option.map_eq_some_iff] at h
  obtain ⟨row, hrow, rfl⟩ := h
  obtain ⟨hmem, -, hname⟩ := shortRow_mem hrow
  exact ⟨row, hmem, hname, hreq⟩

theorem listed_readCluster (c : Char) (cs : CString) :
    (∀ d ∈ (readCluster longopts c cs).1, Listed longopts d True) ∧
      ∀ d, (readCluster longopts c cs).2.option? = some d →
        Listed longopts d ((readCluster longopts c cs).2 = .found d none) := by
  induction cs generalizing c with
  | nil =>
    rw [readCluster_fst_nil, readCluster]
    refine ⟨fun d hd ↦ (by cases hd), fun d hd ↦ ?_⟩
    cases htype : shortType longopts c with
    | none =>
      rw [htype] at hd
      cases hd
    | some argtype =>
      rw [htype] at hd
      cases argtype with
      | none =>
        cases hd
        exact listed_of_shortType htype fun _ ↦ by decide
      | required =>
        cases hd
        exact listed_of_shortType htype fun h ↦ by cases h
      | optional =>
        cases hd
        exact listed_of_shortType htype fun _ ↦ by decide
  | cons e es ih =>
    rw [readCluster]
    cases htype : shortType longopts c with
    | none => exact ⟨fun d hd ↦ (by cases hd), fun d hd ↦ by cases hd⟩
    | some argtype =>
      cases argtype with
      | none =>
        refine ⟨fun d hd ↦ ?_, (ih e).2⟩
        rcases List.mem_cons.mp hd with rfl | hd
        · exact listed_of_shortType htype fun _ ↦ by decide
        · exact (ih e).1 d hd
      | required =>
        refine ⟨fun d hd ↦ (by cases hd), fun d hd ↦ ?_⟩
        cases hd
        exact listed_of_shortType htype fun h ↦ by cases h
      | optional =>
        refine ⟨fun d hd ↦ (by cases hd), fun d hd ↦ ?_⟩
        cases hd
        exact listed_of_shortType htype fun h ↦ by cases h

theorem listed_readLong {option : CString} (h : (readLong longopts option).option? = some c) :
    Listed longopts c (readLong longopts option = .found c none) := by
  rw [readLong] at h ⊢
  cases hrow : longopts.find? fun row ↦ optparseLongoptsMatch row.longname option with
  | none =>
    rw [hrow] at h
    cases h
  | some row =>
    rw [hrow] at h
    have hmem := List.mem_of_find?_eq_some hrow
    cases harg : optparseLongoptsArg option with
    | some value =>
      rw [harg] at h
      dsimp only at h ⊢
      split at h
      · cases h
      · next htype =>
        cases h
        rw [if_neg htype]
        exact ⟨row, hmem, rfl, fun h ↦ by cases h⟩
    | none =>
      rw [harg] at h
      dsimp only at h ⊢
      split at h
      · next htype =>
        cases h
        rw [if_pos htype]
        exact ⟨row, hmem, rfl, fun h ↦ by cases h⟩
      · next htype =>
        cases h
        exact ⟨row, hmem, rfl, fun _ ↦ htype⟩

theorem listed_readArg (h : readArg longopts arg = .options flags ending) :
    (∀ d ∈ flags, Listed longopts d True) ∧
      ∀ d, ending.option? = some d → Listed longopts d (ending = .found d none) := by
  unfold readArg at h
  split at h
  · cases h
  · next name =>
    cases h
    exact ⟨fun d hd ↦ (by cases hd), fun d ↦ listed_readLong⟩
  · cases h
    exact listed_readCluster _ _
  · cases h

/-- Every option that is found is in the table, and has the argument its row requires. -/
theorem listed_of_mem_found (pending rest : List CString) :
    ∀ found ∈ (readArgs longopts fixUp pending rest).found,
      Listed longopts found.1 (found.2 = none) := by
  have hflags : ∀ flags : List Char, (∀ d ∈ flags, Listed longopts d True) →
      ∀ found ∈ flags.map (·, (none : Option CString)),
        Listed longopts found.1 (found.2 = none) := by
    intro flags hflags found hfound
    obtain ⟨d, hd, rfl⟩ := List.mem_map.mp hfound
    obtain ⟨row, hmem, hname, hreq⟩ := hflags d hd
    exact ⟨row, hmem, hname, fun _ ↦ hreq trivial⟩
  apply readArgs_rec longopts fixUp (motive := fun _ _ reading ↦
    ∀ found ∈ reading.found, Listed longopts found.1 (found.2 = none))
  · exact fun pending found hfound ↦ by cases hfound
  · exact fun pending arg rest _ found hfound ↦ by cases hfound
  · exact fun pending arg rest _ ih ↦ ih
  · intro pending arg rest flags ending errmsg hread
    exact hflags flags (listed_readArg hread).1
  · intro pending arg rest flags ending c optarg taken pending' rest' hread hc hnone _ ih
      found hfound
    obtain ⟨hall, hlast⟩ := listed_readArg hread
    rcases List.mem_append.mp hfound with hfound | hfound
    · exact hflags flags hall found hfound
    rcases List.mem_cons.mp hfound with rfl | hfound
    · obtain ⟨row, hmem, hname, hreq⟩ := hlast c hc
      exact ⟨row, hmem, hname, fun h ↦ hreq (hnone h)⟩
    · exact ih found hfound

end Rows

end Table

end DcaConv
