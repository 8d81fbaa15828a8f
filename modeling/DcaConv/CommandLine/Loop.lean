import DcaConv.CommandLine.Calls

/-!
# The option loop

`while ((option = optparse_long(&options, longopts, NULL)) != -1)`, around a body that handles the
option. The loop reads the command line the way `readArgs` does: the body sees the same options in
the same order, the message it is left with is the same, and the array ends with the consumed
arguments in front of the others. No call faults, and every call but the last gets past at least one
character, so the length of the arguments bounds the number of calls.
-/

namespace DcaConv

/-! ## The loop -/

/-- `OPTARG_FIX_UP`. -/
def optargFixUp (options : Optparse) : Optparse :=
  match options.optarg, options.argv[options.optind]? with
  | none, some a =>
    if isValue a then { options with optarg := some a, optind := options.optind + 1 } else options
  | _, _ => options

/-- The body of the loop: the options it starts with `OPTARG_FIX_UP` at, and what it does with an
option, its argument, and `errmsg`. -/
structure OptionBody (σ ε : Type*) where
  fixUp : Char → Bool
  handle : Char → Option CString → CString → σ → Except ε σ
  /-- A fault ends the loop as well. -/
  fault : Fault → ε

variable {σ ε : Type*}

/-- The loop, `none` when the fuel runs out before it ends. -/
def optparseLoop (longopts : List OptparseLong) (body : OptionBody σ ε) :
    (fuel : ℕ) → Optparse → σ → Option (Except ε (σ × Optparse))
  | 0, _, _ => none
  | fuel + 1, options, s =>
    match optparseLong longopts options with
    | .error fault => some (.error (body.fault fault))
    | .ok (none, options) => some (.ok (s, options))
    | .ok (some option, options) =>
      let options := if body.fixUp option then optargFixUp options else options
      match body.handle option options.optarg options.errmsg s with
      | .error e => some (.error e)
      | .ok s => optparseLoop longopts body fuel options s

/-- A body that leaves the loop at an error, and does not look for the arguments of flags. -/
structure OptionBody.Proper (longopts : List OptparseLong) (body : OptionBody σ ε) : Prop where
  stops : ∀ optarg errmsg s, ∃ e, body.handle '?' optarg errmsg s = .error e
  question : body.fixUp '?' = false
  flag : ∀ c, shortType longopts c = some .none → body.fixUp c = false

/-- A body that collects what it is given. -/
def collectBody (fixUp : Char → Bool) : OptionBody (List Found) CString where
  fixUp := fixUp
  handle option optarg errmsg found :=
    if option = '?' then .error errmsg else .ok (found ++ [(option, optarg)])
  fault _ := []

theorem collectBody_proper {longopts : List OptparseLong} {fixUp : Char → Bool}
    (hquestion : fixUp '?' = false)
    (hflag : ∀ c, shortType longopts c = some .none → fixUp c = false) :
    (collectBody fixUp).Proper longopts :=
  ⟨fun _ errmsg _ ↦ ⟨errmsg, rfl⟩, hquestion, hflag⟩

/-! ## What it makes of a reading -/

namespace OptionBody

variable (body : OptionBody σ ε)

def handleFound (s : σ) (found : Found) : Except ε σ := body.handle found.1 found.2 [] s

/-- The body at every option that was found, and at the error. -/
def outcome (reading : Reading) (s : σ) : Except ε σ :=
  match reading.found.foldlM body.handleFound s with
  | .error e => .error e
  | .ok s =>
    match reading.failure with
    | none => .ok s
    | some errmsg => body.handle '?' none errmsg s

/-- From some state on: the flags, then the rest. -/
theorem outcome_behind (reading : Reading) (used : List CString) (flags : List Char) (last : Found)
    (s : σ) : body.outcome (reading.behind used flags last) s =
      match (flags.map (·, none)).foldlM body.handleFound s with
      | .error e => .error e
      | .ok s =>
        match body.handleFound s last with
        | .error e => .error e
        | .ok s => body.outcome reading s := by
  rw [outcome, Reading.behind]
  dsimp only
  rw [List.foldlM_append]
  cases (flags.map (·, none)).foldlM body.handleFound s with
  | error e => rfl
  | ok s =>
    rw [Fallible.ok_bind, List.foldlM_cons]
    dsimp only
    cases body.handleFound s last with
    | error e => rfl
    | ok s => rfl

end OptionBody

/-- A body that leaves the loop at an error has seen the whole reading when the loop ends. -/
theorem OptionBody.Proper.outcome_eq_ok {longopts : List OptparseLong} {body : OptionBody σ ε}
    (hbody : body.Proper longopts) {reading : Reading} {s s' : σ}
    (hout : body.outcome reading s = .ok s') :
    reading.failure = none ∧ reading.found.foldlM body.handleFound s = .ok s' := by
  rw [OptionBody.outcome] at hout
  cases hfold : reading.found.foldlM body.handleFound s with
  | error e =>
    rw [hfold] at hout
    cases hout
  | ok t =>
    rw [hfold] at hout
    dsimp only at hout
    cases hfailure : reading.failure with
    | none =>
      rw [hfailure] at hout
      exact ⟨rfl, hout⟩
    | some errmsg =>
      obtain ⟨e, he⟩ := hbody.stops none errmsg t
      rw [hfailure] at hout
      dsimp only at hout
      rw [he] at hout
      cases hout

section Run

variable {longopts : List OptparseLong} {body : OptionBody σ ε} {options : Optparse}
  {consumed pending rest : List CString} {arg value : CString} {subopt : ℕ} {s : σ}

/-! ## One turn -/

/-- A turn that found an option. -/
theorem optparseLoop_succ {option : Char} {final : Optparse}
    (hcall : optparseLong longopts options = .ok (some option, final)) (fuel : ℕ) (s : σ) :
    optparseLoop longopts body (fuel + 1) options s =
      let final := if body.fixUp option then optargFixUp final else final
      match body.handle option final.optarg final.errmsg s with
      | .error e => some (.error e)
      | .ok s => optparseLoop longopts body fuel final s := by
  rw [optparseLoop, hcall]

/-- The last turn. -/
theorem optparseLoop_done {final : Optparse}
    (hcall : optparseLong longopts options = .ok (none, final)) (fuel : ℕ) (s : σ) :
    optparseLoop longopts body (fuel + 1) options s = some (.ok (s, final)) := by
  rw [optparseLoop, hcall]

theorem Stands.getElem?_optind (h : Stands options consumed pending rest subopt) :
    options.argv[options.optind]? = (pending ++ rest).head? := by
  rw [h.argv_eq, h.optind_eq, List.getElem?_append_right (Nat.le_refl _), Nat.sub_self,
    List.head?_eq_getElem?]

/-- A missing argument is looked for at `optind`. -/
theorem optargFixUp_eq (hoptarg : options.optarg = none)
    (hnext : options.argv[options.optind]? = some value) (hvalue : isValue value = true) :
    optargFixUp options = { options with optarg := some value, optind := options.optind + 1 } := by
  rw [optargFixUp, hoptarg, hnext]
  dsimp only
  rw [if_pos hvalue]

theorem optargFixUp_of_not (hoptarg : options.optarg = none)
    (hnext : ∀ value, options.argv[options.optind]? = some value → isValue value = false) :
    optargFixUp options = options := by
  rw [optargFixUp, hoptarg]
  cases hargv : options.argv[options.optind]? with
  | none => rfl
  | some value =>
    dsimp only
    rw [if_neg (Bool.eq_false_iff.mp (hnext value hargv))]

theorem optargFixUp_of_some {optarg : CString} (hoptarg : options.optarg = some optarg) :
    optargFixUp options = options := by
  rw [optargFixUp, hoptarg]

/-! ## The flags of a cluster -/

/-- From `options` on the loop handles flags of `arg`, and then stands in front of its end. -/
structure UpToLast (longopts : List OptparseLong) (body : OptionBody σ ε)
    (options options' : Optparse)
    (consumed pending : List CString) (arg : CString) (rest : List CString) (flags : List Char)
    (subopt : ℕ) (ending : ArgEnd) : Prop where
  stands : Stands options' consumed pending (arg :: rest) subopt
  ends : EndsWith longopts arg subopt ending
  run : ∀ fuel s, optparseLoop longopts body (flags.length + fuel) options s =
    match (flags.map (·, none)).foldlM body.handleFound s with
    | .error e => some (.error e)
    | .ok s => optparseLoop longopts body fuel options' s

theorem UpToLast.refl (h : Stands options consumed pending (arg :: rest) subopt) {ending : ArgEnd}
    (hends : EndsWith longopts arg subopt ending) :
    UpToLast longopts body options options consumed pending arg rest [] subopt ending :=
  ⟨h, hends, fun fuel s ↦ by rw [List.length_nil, Nat.zero_add]; rfl⟩

/-- One more flag in front. -/
theorem UpToLast.cons {option : Char} {final options' : Optparse} {flags : List Char}
    {ending : ArgEnd} (hcall : optparseLong longopts options = .ok (some option, final))
    (hfix : body.fixUp option = false) (hoptarg : final.optarg = none) (herrmsg : final.errmsg = [])
    (h : UpToLast longopts body final options' consumed pending arg rest flags subopt ending) :
    UpToLast longopts body options options' consumed pending arg rest (option :: flags) subopt
      ending := by
  refine ⟨h.stands, h.ends, fun fuel s ↦ ?_⟩
  rw [List.length_cons, Nat.add_right_comm, optparseLoop_succ hcall, hfix,
    if_neg Bool.false_ne_true]
  dsimp only
  rw [hoptarg, herrmsg, List.map_cons, List.foldlM_cons]
  cases hhandle : body.handle option none [] s with
  | error e =>
    have hfound : body.handleFound s (option, none) = .error e := hhandle
    rw [hfound]
    rfl
  | ok s' =>
    have hfound : body.handleFound s (option, none) = .ok s' := hhandle
    rw [hfound, Fallible.ok_bind]
    exact h.run fuel s'

/-- The turns up to the last option of a cluster. -/
theorem Stands.flags (htable : ProperTable longopts) (hbody : body.Proper longopts)
    (h : Stands options consumed pending (arg :: rest) subopt)
    (hshort : optparseIsShortopt arg = true) {c : Char} {cs : CString}
    (hdrop : arg.drop (subopt + 1) = c :: cs) :
    ∃ options' subopt', UpToLast longopts body options options' consumed pending arg rest
      (readCluster longopts c cs).1 subopt' (readCluster longopts c cs).2 := by
  induction cs generalizing c options subopt with
  | nil =>
    have hnil := readCluster_fst_nil longopts c
    refine ⟨options, subopt, ?_⟩
    rw [hnil]
    exact UpToLast.refl h (Or.inl ⟨hshort, c, [], hdrop, Prod.ext hnil rfl⟩)
  | cons d ds ih =>
    by_cases htype : shortType longopts c = some .none
    · obtain ⟨final, hcall, hstands, hoptarg, herrmsg⟩ :=
        h.call_flag htable hshort hdrop (List.cons_ne_nil d ds) htype
      obtain ⟨options', subopt', hrest⟩ := ih hstands (drop_succ_of_drop hdrop)
      rw [readCluster_flag longopts htype]
      exact ⟨options', subopt', hrest.cons hcall (hbody.flag c htype) hoptarg herrmsg⟩
    · have hnil := readCluster_fst_of_ne longopts htype (d :: ds)
      refine ⟨options, subopt, ?_⟩
      rw [hnil]
      exact UpToLast.refl h (Or.inl ⟨hshort, c, d :: ds, hdrop, Prod.ext hnil rfl⟩)

/-! ## One argument -/

/-- The source's tests tell the kinds of arguments apart. -/
theorem readArg_cases (longopts : List OptparseLong) (arg : CString) :
    (optparseIsDashdash arg = true ∧ readArg longopts arg = .dashdash) ∨
    (isOperand arg = true ∧ readArg longopts arg = .operand) ∨
    (optparseIsShortopt arg = true ∧ ∃ c cs, arg = '-' :: c :: cs ∧ readArg longopts arg
      = .options (readCluster longopts c cs).1 (readCluster longopts c cs).2) ∨
    (optparseIsShortopt arg = false ∧ optparseIsLongopt arg = true ∧
      readArg longopts arg = .options [] (readLong longopts (arg.drop 2))) := by
  match arg with
  | [] => exact Or.inr (Or.inl ⟨rfl, rfl⟩)
  | [a] =>
    refine Or.inr (Or.inl ⟨?_, ?_⟩)
    · simp [isOperand, isOption, optparseIsDashdash, optparseIsShortopt, optparseIsLongopt]
    · simp [readArg]
  | a :: b :: tail =>
    by_cases ha : a = '-'
    · subst ha
      by_cases hb : b = '-'
      · subst hb
        cases tail with
        | nil => exact Or.inl ⟨rfl, rfl⟩
        | cons d ds => exact Or.inr (Or.inr (Or.inr ⟨rfl, rfl, rfl⟩))
      · refine Or.inr (Or.inr (Or.inl ⟨?_, b, tail, rfl, ?_⟩))
        · rw [optparseIsShortopt, bne_iff_ne]
          exact hb
        · simp [readArg, hb]
    · refine Or.inr (Or.inl ⟨?_, ?_⟩)
      · simp [isOperand, isOption, optparseIsDashdash, optparseIsShortopt, optparseIsLongopt, ha]
      · simp [readArg, ha]

/-- The turns up to the last option of an argument, fewer than it has characters. -/
theorem Stands.argument (htable : ProperTable longopts) (hbody : body.Proper longopts)
    (h : Stands options consumed pending (arg :: rest) 0) {flags : List Char} {ending : ArgEnd}
    (hread : readArg longopts arg = .options flags ending) :
    flags.length < arg.length ∧ ∃ options' subopt',
      UpToLast longopts body options options' consumed pending arg rest flags subopt' ending := by
  obtain ⟨-, hkind⟩ | ⟨-, hkind⟩ | ⟨hshort, c, cs, rfl, hkind⟩ | ⟨hshort, hlong, hkind⟩ :=
    readArg_cases longopts arg
  · rw [hkind] at hread
    cases hread
  · rw [hkind] at hread
    cases hread
  · rw [hkind] at hread
    cases hread
    have hle := length_flags_le longopts c cs
    refine ⟨?_, h.flags htable hbody hshort rfl⟩
    rw [List.length_cons, List.length_cons]
    omega
  · rw [hkind] at hread
    cases hread
    refine ⟨?_, options, 0, UpToLast.refl h (Or.inr ⟨hshort, hlong, rfl, rfl⟩)⟩
    cases arg with
    | nil => cases hlong
    | cons a tail => exact Nat.succ_pos _

/-- The last option of an argument. -/
theorem Stands.lastOption (htable : ProperTable longopts)
    (h : Stands options consumed pending (arg :: rest) subopt) {ending : ArgEnd}
    (hends : EndsWith longopts arg subopt ending) {answer : Answer}
    (hanswer : ending.answer rest.head? = answer) (hnil : answer.errmsg = [])
    {used left : List CString} (htake : (arg :: rest).take answer.taken = used)
    (hdrop : (arg :: rest).drop answer.taken = left)
    (htaken : answer.taken ≤ (arg :: rest).length) :
    ∃ final, optparseLong longopts options = .ok (some answer.option, final) ∧
      Stands final (consumed ++ used) pending left 0 ∧
      final.optarg = answer.optarg ∧ final.errmsg = [] := by
  obtain ⟨final, hcall, hstands, hsub, hoptarg, herrmsg⟩ := h.call_last htable hends hanswer htaken
  rw [hsub hnil, htake, hdrop] at hstands
  exact ⟨final, hcall, hstands, hoptarg, herrmsg.trans hnil⟩

/-! ## The run -/

/-- The array a reading leaves behind what was consumed before. -/
structure EndsAs (consumed : List CString) (reading : Reading) (final : Optparse) : Prop where
  argv_eq : final.argv = consumed ++ (reading.used ++ reading.left)
  optind_eq : final.optind = consumed.length + reading.used.length

/-- The loop gives what the body makes of the reading. -/
def RunsAs (longopts : List OptparseLong) (body : OptionBody σ ε) (consumed : List CString)
    (reading : Reading) (fuel : ℕ) (options : Optparse) (s : σ) : Prop :=
  ∃ final, EndsAs consumed reading final ∧
    optparseLoop longopts body fuel options s = some ((body.outcome reading s).map (·, final))

/-- Where the body stops, the array does not matter. -/
theorem RunsAs.of_error {reading : Reading} {fuel : ℕ} {e : ε}
    (hout : body.outcome reading s = .error e)
    (hloop : optparseLoop longopts body fuel options s = some (.error e)) :
    RunsAs longopts body consumed reading fuel options s := by
  refine ⟨{ options with
    argv := consumed ++ (reading.used ++ reading.left)
    optind := consumed.length + reading.used.length }, ⟨rfl, rfl⟩, ?_⟩
  rw [hloop, hout]
  rfl

section Last

variable {flags : List Char} {ending : ArgEnd} {options' final : Optparse} {fuel : ℕ}

/-- Flags, one more option, and the rest. -/
theorem UpToLast.behind
    (h : UpToLast longopts body options options' consumed pending arg rest flags subopt ending)
    {reading : Reading} {used : List CString} {c : Char} {optarg : Option CString}
    {final' : Optparse} (hcall : optparseLong longopts options' = .ok (some c, final))
    (hfix : (if body.fixUp c then optargFixUp final else final) = final')
    (hoptarg : final'.optarg = optarg) (herrmsg : final'.errmsg = [])
    (hrest : ∀ s, RunsAs longopts body (consumed ++ used) reading fuel final' s) :
    RunsAs longopts body consumed (reading.behind used flags (c, optarg))
      (flags.length + (fuel + 1)) options s := by
  have hout := body.outcome_behind reading used flags (c, optarg) s
  have hloop := h.run (fuel + 1) s
  cases hfold : (flags.map (·, none)).foldlM body.handleFound s with
  | error e =>
    rw [hfold] at hout hloop
    exact RunsAs.of_error hout hloop
  | ok s' =>
    rw [hfold] at hout hloop
    dsimp only at hout hloop
    rw [optparseLoop_succ hcall, hfix] at hloop
    dsimp only at hloop
    rw [hoptarg, herrmsg] at hloop
    cases hhandle : body.handle c optarg [] s' with
    | error e =>
      have hfound : body.handleFound s' (c, optarg) = .error e := hhandle
      rw [hfound] at hout
      rw [hhandle] at hloop
      exact RunsAs.of_error hout hloop
    | ok s'' =>
      have hfound : body.handleFound s' (c, optarg) = .ok s'' := hhandle
      rw [hfound] at hout
      rw [hhandle] at hloop
      obtain ⟨last, hends, hrun⟩ := hrest s''
      refine ⟨last, ⟨?_, ?_⟩, ?_⟩
      · rw [hends.argv_eq, List.append_assoc, Reading.behind, ← List.append_assoc used]
      · rw [hends.optind_eq, Reading.behind, List.length_append, List.length_append, Nat.add_assoc]
      · rw [hloop, hout]
        exact hrun

/-- Flags, and an error. -/
theorem UpToLast.fails
    (h : UpToLast longopts body options options' consumed pending arg rest flags subopt ending)
    (hbody : body.Proper longopts) {used left : List CString} {errmsg : CString}
    (hcall : optparseLong longopts options' = .ok (some '?', final)) (hoptarg : final.optarg = none)
    (herrmsg : final.errmsg = errmsg) :
    RunsAs longopts body consumed ⟨flags.map (·, none), some errmsg, used, left⟩
      (flags.length + (fuel + 1)) options s := by
  have hloop := h.run (fuel + 1) s
  cases hfold : (flags.map (·, none)).foldlM body.handleFound s with
  | error e =>
    rw [hfold] at hloop
    refine RunsAs.of_error ?_ hloop
    rw [OptionBody.outcome]
    dsimp only
    rw [hfold]
  | ok s' =>
    rw [hfold] at hloop
    dsimp only at hloop
    rw [optparseLoop_succ hcall, hbody.question, if_neg Bool.false_ne_true] at hloop
    dsimp only at hloop
    rw [hoptarg, herrmsg] at hloop
    obtain ⟨e, he⟩ := hbody.stops none errmsg s'
    rw [he] at hloop
    refine RunsAs.of_error ?_ hloop
    rw [OptionBody.outcome]
    dsimp only
    rw [hfold]
    exact he

/-- An option that has its argument is left alone. -/
theorem ite_optargFixUp {b : Bool} {optarg : CString} (hoptarg : options.optarg = some optarg) :
    (if b then optargFixUp options else options) = options := by
  cases b with
  | false => rfl
  | true => exact optargFixUp_of_some hoptarg

/-- A value taken from `optind` is consumed. -/
theorem Stands.take_value (h : Stands options consumed pending rest subopt)
    (hoptarg : options.optarg = none) (hvalue : isValue value = true)
    {pending' rest' : List CString}
    (hnext : pending ++ rest = value :: (pending' ++ rest')) (hsub : ∀ a ∈ pending', a ∈ pending) :
    Stands (optargFixUp options) (consumed ++ [value]) pending' rest' subopt ∧
      (optargFixUp options).optarg = some value ∧
      (optargFixUp options).errmsg = options.errmsg := by
  have hget : options.argv[options.optind]? = some value := by
    rw [h.getElem?_optind, hnext]
    rfl
  rw [optargFixUp_eq hoptarg hget hvalue]
  refine ⟨⟨?_, ?_, h.permute_eq, h.subopt_eq, fun a ha ↦ h.operand a (hsub a ha)⟩, rfl, rfl⟩
  · dsimp only
    rw [h.argv_eq, hnext, List.append_assoc]
    rfl
  · dsimp only
    rw [h.optind_eq, List.length_append]
    rfl

/-! ### The four ways on

Behind the last option of `arg` the loop goes on with a rest that is shorter; `hshorter` is the run
from there. -/

/-- What is to be shown, for every rest of at most `n` arguments. -/
def RunsUpTo (longopts : List OptparseLong) (body : OptionBody σ ε) (n fuel : ℕ) : Prop :=
  ∀ {options : Optparse} {consumed pending rest : List CString} (s : σ), rest.length ≤ n →
    Stands options consumed pending rest 0 → (rest.map List.length).sum < fuel →
      RunsAs longopts body consumed (readArgs longopts body.fixUp pending rest) fuel options s

variable (htable : ProperTable longopts) (hread : readArg longopts arg = .options flags ending)
  (hfuel : (rest.map List.length).sum < fuel)
  (hshorter : RunsUpTo longopts body rest.length fuel)

include htable hread hfuel hshorter

theorem UpToLast.runs_wants (hbody : body.Proper longopts) {c : Char} {name : CString}
    (hending : ending = .wants c name)
    (h : UpToLast longopts body options options' consumed pending arg rest flags subopt ending) :
    RunsAs longopts body consumed (readArgs longopts body.fixUp pending (arg :: rest))
      (flags.length + (fuel + 1)) options s := by
  subst hending
  rw [readArgs, hread]
  cases rest with
  | nil =>
    obtain ⟨final, hcall, -, -, hoptarg, herrmsg⟩ :=
      h.stands.call_last htable h.ends rfl (Nat.le_refl 1)
    exact h.fails hbody hcall hoptarg herrmsg
  | cons value rest =>
    obtain ⟨final, hcall, hstands, hoptarg, herrmsg⟩ :=
      h.stands.lastOption htable h.ends rfl rfl rfl rfl (Nat.succ_le_succ (Nat.succ_pos _))
    have hleft : Stands final (consumed ++ [arg, value]) pending rest 0 := hstands
    rw [List.map_cons, List.sum_cons] at hfuel
    refine h.behind hcall (ite_optargFixUp hoptarg) hoptarg herrmsg fun s ↦ ?_
    exact hshorter s (Nat.le_succ _) hleft (by omega)

theorem UpToLast.runs_found {c : Char} {optarg : CString}
    (hending : ending = .found c (some optarg))
    (h : UpToLast longopts body options options' consumed pending arg rest flags subopt ending) :
    RunsAs longopts body consumed (readArgs longopts body.fixUp pending (arg :: rest))
      (flags.length + (fuel + 1)) options s := by
  subst hending
  obtain ⟨final, hcall, hstands, hoptarg, herrmsg⟩ :=
    h.stands.lastOption htable h.ends rfl rfl rfl rfl (Nat.succ_le_succ (Nat.zero_le _))
  rw [readArgs, hread]
  refine h.behind hcall (ite_optargFixUp hoptarg) hoptarg herrmsg fun s ↦ ?_
  exact hshorter s (Nat.le_refl _) hstands hfuel

/-- An option without an argument that stays without one. -/
theorem UpToLast.runs_without {c : Char} (hending : ending = .found c none)
    (h : UpToLast longopts body options options' consumed pending arg rest flags subopt ending)
    (hnext : body.fixUp c = true → ∀ value, (pending ++ rest).head? = some value →
      isValue value = false) :
    RunsAs longopts body consumed
      ((readArgs longopts body.fixUp pending rest).behind [arg] flags (c, none))
      (flags.length + (fuel + 1)) options s := by
  subst hending
  obtain ⟨final, hcall, hstands, hoptarg, herrmsg⟩ :=
    h.stands.lastOption htable h.ends rfl rfl rfl rfl (Nat.succ_le_succ (Nat.zero_le _))
  have hkeep : (if body.fixUp c then optargFixUp final else final) = final := by
    split
    · next hfix =>
      refine optargFixUp_of_not hoptarg fun value hvalue ↦ hnext hfix value ?_
      rwa [hstands.getElem?_optind] at hvalue
    · rfl
  refine h.behind hcall hkeep hoptarg herrmsg fun s ↦ ?_
  exact hshorter s (Nat.le_refl _) hstands hfuel

/-- An option whose missing argument is looked for, and found at `optind`. -/
theorem UpToLast.runs_fixUp {c : Char} (hending : ending = .found c none)
    (h : UpToLast longopts body options options' consumed pending arg rest flags subopt ending)
    (hfix : body.fixUp c = true) (hvalue : isValue value = true) {pending' rest' : List CString}
    (hnext : pending ++ rest = value :: (pending' ++ rest')) (hsub : ∀ a ∈ pending', a ∈ pending)
    (hrest : rest'.length ≤ rest.length)
    (hsum : (rest'.map List.length).sum ≤ (rest.map List.length).sum) :
    RunsAs longopts body consumed
      ((readArgs longopts body.fixUp pending' rest').behind [arg, value] flags (c, some value))
      (flags.length + (fuel + 1)) options s := by
  subst hending
  obtain ⟨final, hcall, hstands, hoptarg, herrmsg⟩ :=
    h.stands.lastOption htable h.ends rfl rfl rfl rfl (Nat.succ_le_succ (Nat.zero_le _))
  obtain ⟨htaken, hoptarg', herrmsg'⟩ := hstands.take_value hoptarg hvalue hnext hsub
  rw [List.append_assoc] at htaken
  refine h.behind hcall (if_pos hfix) hoptarg' (herrmsg'.trans herrmsg) fun s ↦ ?_
  exact hshorter s hrest htaken (hsum.trans_lt hfuel)

theorem UpToLast.runs_missing {c : Char} (hending : ending = .found c none)
    (h : UpToLast longopts body options options' consumed pending arg rest flags subopt ending) :
    RunsAs longopts body consumed (readArgs longopts body.fixUp pending (arg :: rest))
      (flags.length + (fuel + 1)) options s := by
  have hkind := hread
  rw [hending] at hkind
  have hwithout : (body.fixUp c = true → ∀ value, (pending ++ rest).head? = some value →
      isValue value = false) → RunsAs longopts body consumed
        ((readArgs longopts body.fixUp pending rest).behind [arg] flags (c, none))
        (flags.length + (fuel + 1)) options s :=
    h.runs_without htable hread hfuel hshorter hending
  rw [readArgs, hkind]
  dsimp only
  by_cases hfix : body.fixUp c = true
  · rw [if_pos hfix]
    cases pending with
    | cons value pending =>
      dsimp only
      by_cases hvalue : isValue value = true
      · rw [if_pos hvalue]
        exact h.runs_fixUp htable hread hfuel hshorter hending hfix hvalue rfl
          (fun a ha ↦ List.mem_cons_of_mem _ ha) (Nat.le_refl _) (Nat.le_refl _)
      · rw [if_neg hvalue]
        refine hwithout fun _ value' hvalue' ↦ ?_
        cases hvalue'
        exact Bool.eq_false_iff.mpr hvalue
    | nil =>
      cases rest with
      | cons value rest =>
        dsimp only
        by_cases hvalue : isValue value = true
        · rw [if_pos hvalue]
          exact h.runs_fixUp htable hread hfuel hshorter hending hfix hvalue rfl
            (fun a ha ↦ ha) (Nat.le_succ _) (Nat.le_add_left _ _)
        · rw [if_neg hvalue]
          refine hwithout fun _ value' hvalue' ↦ ?_
          cases hvalue'
          exact Bool.eq_false_iff.mpr hvalue
      | nil => exact hwithout fun _ value' hvalue' ↦ by cases hvalue'
  · rw [if_neg hfix]
    exact hwithout fun h ↦ absurd h hfix

end Last

/-- **The loop reads the command line.** -/
theorem Stands.runsAs (htable : ProperTable longopts) (hbody : body.Proper longopts)
    (h : Stands options consumed pending rest 0) {fuel : ℕ}
    (hfuel : (rest.map List.length).sum < fuel) (s : σ) :
    RunsAs longopts body consumed (readArgs longopts body.fixUp pending rest) fuel options s := by
  induction hn : rest.length using Nat.strong_induction_on
    generalizing rest consumed pending options fuel s with
  | _ n ih =>
  subst hn
  cases rest with
  | nil =>
    obtain ⟨final, hcall, hstands⟩ := @Stands.call_nil longopts _ _ _ _ h
    obtain ⟨fuel, rfl⟩ := Nat.exists_eq_succ_of_ne_zero (Nat.ne_of_gt hfuel)
    refine ⟨final, ⟨?_, hstands.optind_eq⟩, optparseLoop_done hcall fuel s⟩
    rw [hstands.argv_eq, List.append_nil]
    rfl
  | cons arg rest =>
    rw [List.map_cons, List.sum_cons] at hfuel
    obtain ⟨hdash, hkind⟩ | ⟨hoperand, hkind⟩ | hoption := readArg_cases longopts arg
    · obtain ⟨final, hcall, hstands⟩ := @Stands.call_dashdash longopts _ _ _ _ _ _ h hdash
      obtain ⟨fuel, rfl⟩ := Nat.exists_eq_succ_of_ne_zero (Nat.ne_of_gt (Nat.zero_lt_of_lt hfuel))
      rw [readArgs, hkind]
      refine ⟨final, ⟨?_, ?_⟩, optparseLoop_done hcall fuel s⟩
      · rw [hstands.argv_eq, List.append_assoc]
      · rw [hstands.optind_eq, List.length_append]
    · rw [readArgs, hkind]
      exact ih rest.length (Nat.lt_succ_self _) (h.join hoperand) (by omega) s rfl
    · obtain ⟨flags, ending, hkind⟩ : ∃ flags ending,
          readArg longopts arg = .options flags ending := by
        obtain ⟨-, c, cs, -, hkind⟩ | ⟨-, -, hkind⟩ := hoption
        · exact ⟨_, _, hkind⟩
        · exact ⟨_, _, hkind⟩
      obtain ⟨hlen, options', subopt', hlast⟩ := h.argument htable hbody hkind
      obtain ⟨fuel, rfl⟩ : ∃ k, fuel = flags.length + (k + 1) :=
        ⟨fuel - flags.length - 1, by omega⟩
      have hrest : (rest.map List.length).sum < fuel := by omega
      have hshorter : RunsUpTo longopts body rest.length fuel := fun s hle hstands hsum ↦
        ih _ (Nat.lt_succ_of_le hle) hstands hsum s rfl
      cases hending : ending with
      | fails errmsg =>
        subst hending
        rw [readArgs, hkind]
        obtain ⟨final, hcall, -, -, hoptarg, herrmsg⟩ :=
          hlast.stands.call_last htable hlast.ends rfl (Nat.succ_le_succ (Nat.zero_le _))
        exact hlast.fails hbody hcall hoptarg herrmsg
      | wants c name => exact hlast.runs_wants htable hkind hrest hshorter hbody hending
      | found c optarg =>
        cases optarg with
        | some optarg => exact hlast.runs_found htable hkind hrest hshorter hending
        | none => exact hlast.runs_missing htable hkind hrest hshorter hending

/-! ## From the start -/

theorem readArg_eq_dashdash (h : readArg longopts arg = .dashdash) : arg = ['-', '-'] := by
  obtain ⟨hdash, -⟩ | ⟨-, hkind⟩ | ⟨-, c, cs, -, hkind⟩ | ⟨-, -, hkind⟩ :=
    readArg_cases longopts arg
  · exact eq_of_isDashdash hdash
  · rw [hkind] at h
    cases h
  · rw [hkind] at h
    cases h
  · rw [hkind] at h
    cases h

theorem isOperand_of_readArg (h : readArg longopts arg = .operand) : isOperand arg = true := by
  obtain ⟨-, hkind⟩ | ⟨hoperand, -⟩ | ⟨-, c, cs, -, hkind⟩ | ⟨-, -, hkind⟩ :=
    readArg_cases longopts arg
  · rw [hkind] at h
    cases h
  · exact hoperand
  · rw [hkind] at h
    cases h
  · rw [hkind] at h
    cases h

/-- Only a `--` leaves options unread. -/
theorem operand_of_mem_left (fixUp : Char → Bool) (hpending : ∀ a ∈ pending, isOperand a = true)
    (hok : (readArgs longopts fixUp pending rest).failure = none)
    (hdash : ['-', '-'] ∉ (readArgs longopts fixUp pending rest).used) :
    ∀ a ∈ (readArgs longopts fixUp pending rest).left, isOperand a = true := by
  revert hpending hok hdash
  apply readArgs_rec longopts fixUp (motive := fun pending rest reading ↦
    (∀ a ∈ pending, isOperand a = true) → reading.failure = none → ['-', '-'] ∉ reading.used →
      ∀ a ∈ reading.left, isOperand a = true)
  · intro pending hpending _ _
    exact hpending
  · intro pending arg rest hread _ _ hdash
    exact absurd (readArg_eq_dashdash hread ▸ List.mem_cons_self) hdash
  · intro pending arg rest hread ih hpending
    refine ih fun a ha ↦ ?_
    rcases List.mem_append.mp ha with ha | ha
    · exact hpending a ha
    · exact List.mem_singleton.mp ha ▸ isOperand_of_readArg hread
  · intro pending arg rest flags ending errmsg _ _ hok
    cases hok
  · intro pending arg rest flags ending c optarg taken pending' rest' _ _ _ htakes ih hpending hok
      hdash
    have hpending' : ∀ a ∈ pending', isOperand a = true := by
      cases htakes with
      | nothing => exact hpending
      | next => exact hpending
      | operand _ => exact fun a ha ↦ hpending a (List.mem_cons_of_mem _ ha)
    exact ih hpending' hok fun h ↦ hdash (List.mem_append_right _ h)

/-- What a loop that has ended leaves in `argv`, split at `optind`. -/
structure Sorted (argv : List CString) (final : Optparse) : Prop where
  perm : final.argv.Perm argv
  consumed : (final.argv.take final.optind).Sublist argv
  left : (final.argv.drop final.optind).Sublist argv
  operand : ['-', '-'] ∉ final.argv.take final.optind →
    ∀ a ∈ final.argv.drop final.optind, isOperand a = true

/-- **The order of `argv`.** A loop that leaves missing arguments alone ends with the consumed
arguments in front of the others, both in their order; and the others are operands, if no `--` was
consumed. -/
theorem optparseLoop_sorts (htable : ProperTable longopts) (hbody : body.Proper longopts)
    (hfix : ∀ c, body.fixUp c = false) (argv : List CString) {fuel : ℕ}
    (hfuel : ((argv.drop 1).map List.length).sum < fuel) {s' : σ} {final : Optparse}
    (hrun : optparseLoop longopts body fuel (optparseInit argv) s = some (.ok (s', final))) :
    Sorted argv final := by
  obtain ⟨last, hends, hlast⟩ := (stands_init argv).runsAs htable hbody hfuel s
  rw [hrun] at hlast
  have hsplit := @sublist_readArgs longopts _ hfix [] (argv.drop 1)
  have hperm := @perm_readArgs longopts body.fixUp [] (argv.drop 1)
  have hoperand := @operand_of_mem_left longopts [] (argv.drop 1) body.fixUp fun a ha ↦ by cases ha
  revert hlast
  generalize readArgs longopts body.fixUp [] (argv.drop 1) = reading at *
  intro hlast
  cases hout : body.outcome reading s with
  | error e =>
    rw [hout] at hlast
    cases hlast
  | ok s'' =>
    rw [hout] at hlast
    cases hlast
    have hok := (hbody.outcome_eq_ok hout).1
    have hlen : final.optind = (argv.take 1 ++ reading.used).length := by
      rw [hends.optind_eq, List.length_append]
    have htake : final.argv.take final.optind = argv.take 1 ++ reading.used := by
      rw [hends.argv_eq, ← List.append_assoc, hlen, List.take_left]
    have hdrop : final.argv.drop final.optind = reading.left := by
      rw [hends.argv_eq, ← List.append_assoc, hlen, List.drop_left]
    refine ⟨?_, ?_, ?_, fun hdash ↦ ?_⟩
    · rw [hends.argv_eq]
      have h := hperm.append_left (argv.take 1)
      rwa [List.nil_append, List.take_append_drop] at h
    · rw [htake]
      have h := hsplit.1.append_left (argv.take 1)
      rwa [List.take_append_drop] at h
    · rw [hdrop]
      have h := hsplit.2
      rw [List.nil_append] at h
      exact h.trans (List.drop_sublist 1 argv)
    · rw [htake] at hdash
      rw [hdrop]
      exact hoperand hok fun h ↦ hdash (List.mem_append_right _ h)

end Run

/-- Two operands around an option. -/
theorem optparseLoop_sorts_two :
    Sorted ["dcaconv".toList, "a".toList, "-ox".toList, "b".toList]
      { optparseInit ["dcaconv".toList, "-ox".toList, "a".toList, "b".toList] with
        optind := 2
        optopt := 'o'
        optarg := some "x".toList } := by
  have hrun : optparseLoop [⟨none, 'o', .required⟩] (collectBody fun _ ↦ false) 6
      (optparseInit ["dcaconv".toList, "a".toList, "-ox".toList, "b".toList]) []
        = some (.ok ([('o', some "x".toList)],
          { optparseInit ["dcaconv".toList, "-ox".toList, "a".toList, "b".toList] with
            optind := 2
            optopt := 'o'
            optarg := some "x".toList })) := rfl
  exact optparseLoop_sorts (by decide) (collectBody_proper rfl fun _ _ ↦ rfl) (fun _ ↦ rfl) _
    (by decide) hrun

end DcaConv
