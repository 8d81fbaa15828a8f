import DcaConv.CommandLine.Loop

/-!
# Spellings

An option can be written in many ways: short or long, behind the flags of a cluster or alone, with
its argument attached, behind a `=`, or in the next place of the array. However a list of options is
spelled, the parser reads that list, and it consumes all of `argv`.
-/

namespace DcaConv

section Spelling

variable (longopts : List OptparseLong)

/-- The first row with a long name. -/
def longRow (name : CString) : Option OptparseLong :=
  longopts.find? fun row ↦ row.longname == some name

/-- Short options without arguments. -/
def AreFlags (flags : List Char) : Prop := ∀ d ∈ flags, shortType longopts d = some .none

/-- An argument that ends with the name of an option, behind some flags. -/
inductive Names : CString → List Char → Char → OptparseArgtype → Prop
  | short {flags c argtype} : AreFlags longopts flags → shortType longopts c = some argtype →
      (flags ++ [c]).head? ≠ some '-' → Names ('-' :: (flags ++ [c])) flags c argtype
  | long {name row} : longRow longopts name = some row → name ≠ [] → '=' ∉ name →
      Names ('-' :: '-' :: name) [] row.shortname row.argtype

/-- An argument that ends with an option and what it is given. -/
inductive Carries : CString → List Char → Char → CString → Prop
  | short {flags c argtype value} : AreFlags longopts flags →
      shortType longopts c = some argtype → argtype ≠ .none → value ≠ [] →
      (flags ++ c :: value).head? ≠ some '-' → Carries ('-' :: (flags ++ c :: value)) flags c value
  | long {name row value} : longRow longopts name = some row → row.argtype ≠ .none →
      '=' ∉ name → Carries ('-' :: '-' :: (name ++ '=' :: value)) [] row.shortname value

/-- One or two arguments, and the options they spell. -/
inductive Spells (fixUp : Char → Bool) : List CString → List Found → Prop
  | alone {arg flags c argtype} : Names longopts arg flags c argtype → argtype ≠ .required →
      Spells fixUp [arg] (flags.map (·, none) ++ [(c, none)])
  | holding {arg flags c value} : Carries longopts arg flags c value →
      Spells fixUp [arg] (flags.map (·, none) ++ [(c, some value)])
  | behind {arg flags c value} : Names longopts arg flags c .required →
      Spells fixUp [arg, value] (flags.map (·, none) ++ [(c, some value)])
  | fixedUp {arg flags c argtype value} : Names longopts arg flags c argtype →
      argtype ≠ .required → fixUp c = true → isValue value = true →
      Spells fixUp [arg, value] (flags.map (·, none) ++ [(c, some value)])

/-- A command line of options only. -/
inductive SpellsAll (fixUp : Char → Bool) : List CString → List Found → Prop
  | nil : SpellsAll fixUp [] []
  | cons {args rest found found'} : Spells longopts fixUp args found → SpellsAll fixUp rest found' →
      SpellsAll fixUp (args ++ rest) (found ++ found')

section One

variable {longopts} {fixUp : Char → Bool} {arg value name tail : CString} {flags : List Char}
  {c : Char} {argtype : OptparseArgtype} {row : OptparseLong}

/-! ## Long names -/

/-- A name is compared with what stands in front of the `=`. -/
theorem matchName_append (hname : '=' ∉ name) (htail : tail = [] ∨ tail.head? = some '=')
    (longname : CString) : matchName (name ++ tail) longname = (longname == name) := by
  induction name generalizing longname with
  | nil =>
    rw [List.nil_append]
    obtain rfl | hhead := htail
    · cases longname <;> rfl
    · obtain ⟨tail', rfl⟩ := List.head?_eq_some_iff.mp hhead
      cases longname <;> rfl
  | cons a name ih =>
    have hne : a ≠ '=' := fun h ↦ hname (h ▸ List.mem_cons_self)
    rw [List.cons_append]
    cases longname with
    | nil => simp [matchName]
    | cons n longname =>
      rw [matchName, ih fun h ↦ hname (List.mem_cons_of_mem _ h), List.cons_beq_cons, Bool.beq_comm]
      exact hne

theorem find?_longname (hname : '=' ∉ name) (htail : tail = [] ∨ tail.head? = some '=') :
    (longopts.find? fun row ↦ optparseLongoptsMatch row.longname (name ++ tail))
      = longRow longopts name := by
  rw [longRow]
  congr 1
  funext row
  cases hlong : row.longname with
  | none => rfl
  | some longname =>
    rw [optparseLongoptsMatch, matchName_append hname htail]
    rfl

theorem dropWhile_name (hname : '=' ∉ name) (tail : CString) :
    (name ++ tail).dropWhile (· ≠ '=') = tail.dropWhile (· ≠ '=') := by
  refine List.dropWhile_append_of_pos fun a ha ↦ decide_eq_true ?_
  rintro rfl
  exact hname ha

theorem optparseLongoptsArg_append (hname : '=' ∉ name) :
    optparseLongoptsArg (name ++ '=' :: value) = some value := by
  rw [optparseLongoptsArg, dropWhile_name hname]
  rfl

theorem optparseLongoptsArg_of_not_mem (hname : '=' ∉ name) : optparseLongoptsArg name = none := by
  have hdrop := dropWhile_name hname []
  rw [List.append_nil] at hdrop
  rw [optparseLongoptsArg, hdrop]
  rfl

/-! ## One argument -/

theorem readCluster_name (htype : shortType longopts c = some argtype) : readCluster longopts c []
    = ([], if argtype = .required then .wants c [c] else .found c none) := by
  rw [readCluster, htype]
  cases argtype <;> rfl

theorem readCluster_value (htype : shortType longopts c = some argtype) (hne : argtype ≠ .none)
    (hvalue : value ≠ []) : readCluster longopts c value = ([], .found c (some value)) := by
  unfold readCluster
  rw [htype]
  cases argtype with
  | none => exact absurd rfl hne
  | required => exact congrArg _ (if_neg hvalue)
  | optional => exact congrArg (([], ArgEnd.found c ·)) (if_neg hvalue)

/-- A cluster is read flag by flag. -/
theorem readCluster_append (hflags : AreFlags longopts flags) {ending : ArgEnd}
    (hlast : readCluster longopts c tail = ([], ending)) {d : Char} {ds : CString}
    (hcluster : flags ++ c :: tail = d :: ds) : readCluster longopts d ds = (flags, ending) := by
  induction flags generalizing d ds with
  | nil =>
    cases hcluster
    exact hlast
  | cons f flags ih =>
    obtain ⟨rfl, rfl⟩ : f = d ∧ flags ++ c :: tail = ds := List.cons.inj hcluster
    obtain ⟨e, es, hrest⟩ : ∃ e es, flags ++ c :: tail = e :: es :=
      List.exists_cons_of_ne_nil (List.append_ne_nil_of_right_ne_nil _ (List.cons_ne_nil _ _))
    have htail := ih (fun d hd ↦ hflags d (List.mem_cons_of_mem _ hd)) hrest
    rw [hrest, readCluster_flag longopts (hflags f List.mem_cons_self), htail]

theorem readArg_cluster (hflags : AreFlags longopts flags) {ending : ArgEnd}
    (hlast : readCluster longopts c tail = ([], ending))
    (hhead : (flags ++ c :: tail).head? ≠ some '-') :
    readArg longopts ('-' :: (flags ++ c :: tail)) = .options flags ending := by
  obtain ⟨d, ds, hcluster⟩ : ∃ d ds, flags ++ c :: tail = d :: ds :=
    List.exists_cons_of_ne_nil (List.append_ne_nil_of_right_ne_nil _ (List.cons_ne_nil _ _))
  have hread := readCluster_append hflags hlast hcluster
  rw [hcluster] at hhead ⊢
  have hd : d ≠ '-' := fun h ↦ hhead (congrArg some h)
  simp [readArg, hd, hread]

theorem readArg_long (hname : name ≠ []) :
    readArg longopts ('-' :: '-' :: name) = .options [] (readLong longopts name) := by
  obtain ⟨a, name, rfl⟩ := List.exists_cons_of_ne_nil hname
  rfl

/-- Behind its name an option takes the next argument, or is there. -/
theorem Names.exists_readArg (h : Names longopts arg flags c argtype) :
    ∃ name, readArg longopts arg
      = .options flags (if argtype = .required then .wants c name else .found c none) := by
  cases h with
  | short hflags htype hhead =>
    exact ⟨[c], readArg_cluster hflags (readCluster_name htype) hhead⟩
  | @long name row hrow hname heq =>
    have hfind := @find?_longname longopts name [] heq (Or.inl rfl)
    rw [List.append_nil, hrow] at hfind
    refine ⟨row.longname.getD [], ?_⟩
    rw [readArg_long hname, readLong, hfind]
    dsimp only
    rw [optparseLongoptsArg_of_not_mem heq]

theorem Carries.readArg_eq (h : Carries longopts arg flags c value) :
    readArg longopts arg = .options flags (.found c (some value)) := by
  cases h with
  | short hflags htype hne hvalue hhead =>
    exact readArg_cluster hflags (readCluster_value htype hne hvalue) hhead
  | long hrow hne heq =>
    rw [readArg_long (List.append_ne_nil_of_right_ne_nil _ (List.cons_ne_nil _ _)), readLong,
      find?_longname heq (Or.inr rfl), hrow]
    dsimp only
    rw [optparseLongoptsArg_append heq]
    dsimp only
    rw [if_neg hne]

/-- An option does not look like the argument of one. -/
theorem Spells.not_isValue {args : List CString} {found : List Found}
    (h : Spells longopts fixUp args found) : ∃ arg rest, args = arg :: rest ∧
      isValue arg = false := by
  have hnames : ∀ {arg flags c argtype}, Names longopts arg flags c argtype →
      isValue arg = false := by
    rintro _ _ _ _ (⟨-, -, -⟩ | ⟨-, -, -⟩) <;> rfl
  have hcarries : ∀ {arg flags c value}, Carries longopts arg flags c value →
      isValue arg = false := by
    rintro _ _ _ _ (⟨-, -, -, -, -⟩ | ⟨-, -, -⟩) <;> rfl
  cases h with
  | alone h => exact ⟨_, _, rfl, hnames h⟩
  | holding h => exact ⟨_, _, rfl, hcarries h⟩
  | behind h => exact ⟨_, _, rfl, hnames h⟩
  | fixedUp h => exact ⟨_, _, rfl, hnames h⟩

/-! ## A command line -/

/-- What is spelled in front of the rest is read in front of it, unless the rest is taken for a
missing argument. -/
theorem Spells.readArgs_append {args rest : List CString} {found : List Found}
    (h : Spells longopts fixUp args found) (hrest : ∀ arg ∈ rest.head?, isValue arg = false) :
    readArgs longopts fixUp [] (args ++ rest) =
      { readArgs longopts fixUp [] rest with
        found := found ++ (readArgs longopts fixUp [] rest).found
        used := args ++ (readArgs longopts fixUp [] rest).used } := by
  cases h with
  | @alone arg flags c argtype h hne =>
    obtain ⟨name, hread⟩ := h.exists_readArg
    rw [if_neg hne] at hread
    cases rest with
    | nil => by_cases hfix : fixUp c = true <;> simp [readArgs, hread, hfix, Reading.behind]
    | cons value rest =>
      have hvalue : ¬isValue value = true := by
        rw [hrest value rfl]
        exact Bool.false_ne_true
      rw [List.singleton_append, readArgs, hread]
      dsimp only
      rw [if_neg hvalue, ite_self, Reading.behind, List.append_assoc]
      rfl
  | holding h =>
    rw [List.singleton_append, readArgs, h.readArg_eq, List.append_assoc]
    rfl
  | behind h =>
    obtain ⟨name, hread⟩ := h.exists_readArg
    rw [if_pos rfl] at hread
    rw [List.cons_append, List.singleton_append, readArgs, hread, List.append_assoc]
    rfl
  | fixedUp h hne hfix hvalue =>
    obtain ⟨name, hread⟩ := h.exists_readArg
    rw [if_neg hne] at hread
    rw [List.cons_append, List.singleton_append, readArgs, hread]
    dsimp only
    rw [if_pos hfix, if_pos hvalue, Reading.behind, List.append_assoc]
    rfl

theorem SpellsAll.head_not_isValue {args : List CString} {found : List Found}
    (h : SpellsAll longopts fixUp args found) : ∀ arg ∈ args.head?, isValue arg = false := by
  cases h with
  | nil => exact fun arg harg ↦ by cases harg
  | cons h _ =>
    obtain ⟨first, rest, rfl, hfirst⟩ := h.not_isValue
    intro arg harg
    cases harg
    exact hfirst

/-- **Round trip.** Every spelling of some options is read as these options. -/
theorem SpellsAll.readArgs_eq {args : List CString} {found : List Found}
    (h : SpellsAll longopts fixUp args found) :
    readArgs longopts fixUp [] args = ⟨found, none, args, []⟩ := by
  induction h with
  | nil => rfl
  | cons h hrest ih => rw [h.readArgs_append hrest.head_not_isValue, ih]

end One

end Spelling

end DcaConv
