import DcaConv.CommandLine.Loop

/-!
# The parser in the hands of any client

What holds of the parser's state whatever a client calls, and in which order. The array stays a
permutation of the command line, what has been consumed stays where it is, and the message fits its
buffer.

The position in a cluster is not reset when an option in it is invalid. So a client that goes on
behind an error can make the next call read behind the end of a string; one that stops there, as
`main` does, never can.
-/

namespace DcaConv

/-! ## What a client can do -/

inductive Act where
  | optparse (optstring : CString)
  | optparseLong (longopts : List OptparseLong)
  | optparseArg
  /-- `OPTARG_FIX_UP`. -/
  | optargFixUp
  | setPermute (permute : Bool)
  deriving DecidableEq, Repr

/-- The option a call returns, if it is one that does, and the state behind it. -/
def Act.run : Act → Optparse → Except Fault (Option Char × Optparse)
  | .optparse optstring, options => DcaConv.optparse optstring options
  | .optparseLong longopts, options => DcaConv.optparseLong longopts options
  | .optparseArg, options => (DcaConv.optparseArg options).map fun result ↦ (none, result.2)
  | .optargFixUp, options => .ok (none, DcaConv.optargFixUp options)
  | .setPermute permute, options => .ok (none, { options with permute := permute })

/-- A client's calls, with what they return. -/
def session : List Act → Optparse → Except Fault (List (Option Char) × Optparse)
  | [], options => .ok ([], options)
  | act :: acts, options => do
    let (answer, options) ← act.run options
    let (answers, options) ← session acts options
    .ok (answer :: answers, options)

/-! ## The array -/

/-- What is kept on the way from one state to a later one. -/
structure Keeps (options options' : Optparse) : Prop where
  perm : options'.argv.Perm options.argv
  frozen : options'.argv.take options.optind = options.argv.take options.optind
  optind_le : options.optind ≤ options'.optind
  le_length : options'.optind ≤ options'.argv.length
  errmsg_lt : options.errmsg.length < errmsgSize → options'.errmsg.length < errmsgSize

section Keeps

variable {options options' options'' : Optparse} {arg : CString} {left : List CString}
  {result : Option Char}

theorem Keeps.refl (h : options.optind ≤ options.argv.length) : Keeps options options :=
  ⟨List.Perm.refl _, rfl, Nat.le_refl _, h, id⟩

theorem Keeps.trans (h : Keeps options options') (h' : Keeps options' options'') :
    Keeps options options'' := by
  refine ⟨h'.perm.trans h.perm, ?_, h.optind_le.trans h'.optind_le, h'.le_length,
    fun hlt ↦ h'.errmsg_lt (h.errmsg_lt hlt)⟩
  have htake := congrArg (List.take options.optind) h'.frozen
  rw [List.take_take, List.take_take, Nat.min_eq_left h.optind_le] at htake
  rw [htake, h.frozen]

/-- A call that leaves the array alone. -/
theorem Keeps.of_argv_eq (hargv : options'.argv = options.argv)
    (hind : options.optind ≤ options'.optind) (hle : options'.optind ≤ options.argv.length)
    (herrmsg : options.errmsg.length < errmsgSize → options'.errmsg.length < errmsgSize) :
    Keeps options options' :=
  ⟨hargv ▸ List.Perm.refl _, by rw [hargv], hind, hargv ▸ hle, herrmsg⟩

theorem optind_lt_of_drop (h : options.argv.drop options.optind = arg :: left) :
    options.optind < options.argv.length := by
  have hlen := congrArg List.length h
  rw [List.length_drop, List.length_cons] at hlen
  omega

theorem optind_succ_lt_of_getElem? {value : CString}
    (h : options.argv[options.optind + 1]? = some value) :
    options.optind + 1 < options.argv.length :=
  (List.getElem?_eq_some_iff.mp h).1

/-- What the parser of one option does to the state: the array stays as it is. -/
structure Parsed (options options' : Optparse) : Prop where
  argv_eq : options'.argv = options.argv
  optind_le : options.optind ≤ options'.optind
  le_length : options'.optind ≤ options.argv.length
  errmsg_lt : options.errmsg.length < errmsgSize → options'.errmsg.length < errmsgSize

theorem Parsed.keeps (h : Parsed options options') : Keeps options options' :=
  Keeps.of_argv_eq h.argv_eq h.optind_le h.le_length h.errmsg_lt

theorem optparseError_ok {msg data : CString} (hmsg : msg.length ≤ 27)
    (h : optparseError options msg data = .ok (result, options')) :
    result = some '?' ∧ options' = { options with errmsg := errorText msg data } ∧
      options'.errmsg.length < errmsgSize := by
  rw [optparseError_eq hmsg] at h
  cases h
  exact ⟨rfl, rfl, length_errorText_lt hmsg data⟩

/-- `optparse` at a short option, with where it leaves the position in the cluster. -/
theorem shortOption_parsed {optstring : CString}
    (hdrop : options.argv.drop options.optind = arg :: left)
    (h : shortOption optstring arg options = .ok (result, options')) :
    Parsed options options' ∧ (result ≠ some '?' → options'.subopt = 0 ∨
      options'.optind = options.optind ∧ options'.subopt + 1 < arg.length) := by
  have hlt := optind_lt_of_drop hdrop
  have hnext := Nat.le_succ options.optind
  rw [shortOption] at h
  obtain ⟨option, -, h⟩ := Fallible.bind_eq_ok.mp h
  cases option with
  | none =>
    obtain ⟨rfl, rfl, herrmsg⟩ := optparseError_ok (by decide) h
    exact ⟨⟨rfl, hnext, hlt, fun _ ↦ herrmsg⟩, fun h ↦ absurd rfl h⟩
  | some c =>
    dsimp only at h
    cases htype : optparseArgtype optstring c with
    | none =>
      rw [htype] at h
      obtain ⟨rfl, rfl, herrmsg⟩ := optparseError_ok (by decide) h
      exact ⟨⟨rfl, hnext, hlt, fun _ ↦ herrmsg⟩, fun h ↦ absurd rfl h⟩
    | some argtype =>
      rw [htype] at h
      obtain ⟨following, hfollowing, h⟩ := Fallible.bind_eq_ok.mp h
      cases following with
      | some d =>
        cases argtype with
        | none =>
          cases h
          -- the character behind the option is not the terminator
          rw [charAt] at hfollowing
          split at hfollowing
          · have hget : arg[options.subopt + 2]? = some d := Except.ok.inj hfollowing
            exact ⟨⟨rfl, Nat.le_refl _, hlt.le, id⟩,
              fun _ ↦ Or.inr ⟨rfl, (List.getElem?_eq_some_iff.mp hget).1⟩⟩
          · cases hfollowing
        | required => cases h; exact ⟨⟨rfl, hnext, hlt, id⟩, fun _ ↦ Or.inl rfl⟩
        | optional => cases h; exact ⟨⟨rfl, hnext, hlt, id⟩, fun _ ↦ Or.inl rfl⟩
      | none =>
        cases argtype with
        | none => cases h; exact ⟨⟨rfl, hnext, hlt, id⟩, fun _ ↦ Or.inl rfl⟩
        | required =>
          cases hvalue : options.argv[options.optind + 1]? with
          | none =>
            dsimp only at h
            rw [hvalue] at h
            obtain ⟨rfl, rfl, herrmsg⟩ := optparseError_ok (by decide) h
            exact ⟨⟨rfl, hnext, hlt, fun _ ↦ herrmsg⟩, fun h ↦ absurd rfl h⟩
          | some value =>
            dsimp only at h
            rw [hvalue] at h
            cases h
            exact ⟨⟨rfl, hnext.trans (Nat.le_succ _), optind_succ_lt_of_getElem? hvalue, id⟩,
              fun _ ↦ Or.inl rfl⟩
        | optional => cases h; exact ⟨⟨rfl, hnext, hlt, id⟩, fun _ ↦ Or.inl rfl⟩

/-- `optparse_long` at a long option, which does not look at the position. -/
theorem longOption_parsed (longopts : List OptparseLong)
    (hdrop : options.argv.drop options.optind = arg :: left) :
    ∃ result options', longOption longopts arg options = .ok (result, options') ∧
      Parsed options options' ∧ options'.subopt = options.subopt := by
  have hlt := optind_lt_of_drop hdrop
  have hnext := Nat.le_succ options.optind
  rw [longOption]
  dsimp only
  cases longopts.find? fun row ↦ optparseLongoptsMatch row.longname (arg.drop 2) with
  | none =>
    dsimp only
    rw [optparseError_eq (by decide)]
    exact ⟨_, _, rfl, ⟨rfl, hnext, hlt, fun _ ↦ length_errorText_lt (by decide) _⟩, rfl⟩
  | some row =>
    dsimp only
    have hshort : ([] : CString).length < errmsgSize := by decide
    cases optparseLongoptsArg (arg.drop 2) with
    | some value =>
      dsimp only
      by_cases hnone : row.argtype = .none
      · rw [if_pos hnone, optparseError_eq (by decide)]
        exact ⟨_, _, rfl, ⟨rfl, hnext, hlt, fun _ ↦ length_errorText_lt (by decide) _⟩, rfl⟩
      · rw [if_neg hnone]
        exact ⟨_, _, rfl, ⟨rfl, hnext, hlt, fun _ ↦ hshort⟩, rfl⟩
    | none =>
      dsimp only
      by_cases hrequired : row.argtype = .required
      · rw [if_pos hrequired]
        dsimp only [clearResults]
        cases hvalue : options.argv[options.optind + 1]? with
        | none =>
          dsimp only
          rw [optparseError_eq (by decide)]
          exact ⟨_, _, rfl, ⟨rfl, hnext, hlt, fun _ ↦ length_errorText_lt (by decide) _⟩, rfl⟩
        | some value =>
          exact ⟨_, _, rfl, ⟨rfl, hnext.trans (Nat.le_succ _), optind_succ_lt_of_getElem? hvalue,
            fun _ ↦ hshort⟩, rfl⟩
      · rw [if_neg hrequired]
        exact ⟨_, _, rfl, ⟨rfl, hnext, hlt, fun _ ↦ hshort⟩, rfl⟩

/-! ## The frame -/

/-- The way back over an operand, behind any call that keeps the array. -/
theorem stepBack_keeps {called : Option Char × Optparse}
    (hdrop : options.argv.drop options.optind = arg :: left)
    (h : Keeps { options with optind := options.optind + 1 } called.2) :
    ∃ final, stepBack options.optind called = .ok (called.1, final) ∧ Keeps options final ∧
      final.argv.drop final.optind = arg :: called.2.argv.drop called.2.optind ∧
      final.subopt = called.2.subopt := by
  have hind : options.optind + 1 ≤ called.2.optind := h.optind_le
  have hle : called.2.optind ≤ called.2.argv.length := h.le_length
  obtain ⟨before, x, segment, after, hargv, hindex, hlast⟩ :=
    @Rotation.exists_split _ called.2.argv options.optind (called.2.optind - 1) (by omega)
      (by omega)
  have hx : x = arg := by
    have hget : called.2.argv[options.optind]? = some x := by
      rw [hargv, hindex, Rotation.getElem?_middle]
    have hfrozen : called.2.argv[options.optind]? = options.argv[options.optind]? := by
      have htake := congrArg (·[options.optind]?) h.frozen
      dsimp only at htake
      rwa [List.getElem?_take_of_lt (Nat.lt_succ_self _),
        List.getElem?_take_of_lt (Nat.lt_succ_self _)] at htake
    rw [hfrozen, ← List.head?_drop, hdrop] at hget
    exact (Option.some.inj hget).symm
  subst hx
  have hoptind : called.2.optind = before.length + segment.length + 1 := by omega
  rw [hindex]
  refine ⟨_, stepBack_eq hargv hoptind, ⟨?_, ?_, ?_, ?_, h.errmsg_lt⟩, ?_, rfl⟩
  · refine List.Perm.trans ?_ h.perm
    rw [hargv, List.append_assoc]
    exact List.Perm.append_left before List.perm_middle
  · have htake := congrArg (List.take options.optind) h.frozen
    dsimp only at htake
    rw [List.take_take, List.take_take, Nat.min_eq_left (Nat.le_succ _), hargv, hindex,
      List.take_left] at htake
    rw [hindex, ← htake]
    dsimp only
    rw [List.append_assoc, List.take_left]
  · dsimp only
    omega
  · dsimp only
    rw [List.length_append, List.length_append, List.length_cons]
    omega
  · dsimp only
    rw [hargv, hoptind, ← List.length_append, List.drop_left]
    have hseg : before ++ x :: (segment ++ after) = (before ++ x :: segment) ++ after := by
      rw [List.append_assoc, List.cons_append]
    have hlen : (before ++ segment).length + 1 = (before ++ x :: segment).length := by
      rw [List.length_append, List.length_append, List.length_cons]
      omega
    rw [hseg, hlen, List.drop_left]

/-- What the frame clears before it looks at an argument. -/
structure Clears (reset : Optparse → Optparse) : Prop where
  argv_eq : ∀ o, (reset o).argv = o.argv
  optind_eq : ∀ o, (reset o).optind = o.optind
  permute_eq : ∀ o, (reset o).permute = o.permute
  subopt_eq : ∀ o, (reset o).subopt = o.subopt
  errmsg_lt : ∀ o, o.errmsg.length < errmsgSize → (reset o).errmsg.length < errmsgSize

theorem clears_id : Clears id := ⟨fun _ ↦ rfl, fun _ ↦ rfl, fun _ ↦ rfl, fun _ ↦ rfl, fun _ ↦ id⟩

theorem clears_clearResults : Clears clearResults :=
  ⟨fun _ ↦ rfl, fun _ ↦ rfl, fun _ ↦ rfl, fun _ ↦ rfl, fun _ _ ↦ Nat.succ_pos 63⟩

/-- The option the frame gets to. -/
def reached (stops : CString → Bool) (permute : Bool) : List CString → Option CString
  | [] => none
  | arg :: left =>
    if optparseIsDashdash arg then none
    else if stops arg then some arg
    else if permute then reached stops permute left
    else none

end Keeps

section Frame

variable {reset : Optparse → Optparse} {stops : CString → Bool}
  {parse : CString → Optparse → Except Fault (Option Char × Optparse)}
  {options final : Optparse} {arg : CString} {left : List CString} {result : Option Char}

theorem Clears.keeps (h : Clears reset) (hle : options.optind ≤ options.argv.length) :
    Keeps options (reset options) := by
  refine Keeps.of_argv_eq (h.argv_eq _) ?_ ?_ (h.errmsg_lt _)
  · rw [h.optind_eq]
  · rw [h.optind_eq]
    exact hle

theorem Clears.drop_eq (h : Clears reset) :
    (reset options).argv.drop (reset options).optind = options.argv.drop options.optind := by
  rw [h.argv_eq, h.optind_eq]

/-- The argument behind `arg`, where a call for an operand starts. -/
theorem drop_succ_optind (h : options.argv.drop options.optind = arg :: left) :
    options.argv.drop (options.optind + 1) = left := by
  rw [← List.tail_drop, h, List.tail_cons]

/-- **The frame keeps the array**, if the parser of one option does; and it faults exactly where
that parser does at the option it gets to. -/
theorem parseFrame_run (hreset : Clears reset) {Bad : CString → ℕ → Prop}
    (hparse : ∀ arg left o, stops arg = true → o.argv.drop o.optind = arg :: left →
      (Bad arg o.subopt → ∃ fault, parse arg o = .error fault) ∧
      (¬Bad arg o.subopt → ∃ result o', parse arg o = .ok (result, o') ∧ Keeps o o'))
    (hle : options.optind ≤ options.argv.length) (hdrop : options.argv.drop options.optind = left) :
    ((∃ arg, reached stops options.permute left = some arg ∧ Bad arg options.subopt) →
      ∃ fault, parseFrame reset stops parse left options = .error fault) ∧
    ((∀ arg, reached stops options.permute left = some arg → ¬Bad arg options.subopt) →
      ∃ result final, parseFrame reset stops parse left options = .ok (result, final) ∧
        Keeps options final) := by
  induction left generalizing options with
  | nil =>
    refine ⟨?_, fun _ ↦ ⟨none, reset options, rfl, hreset.keeps hle⟩⟩
    rintro ⟨arg, harg, -⟩
    cases harg
  | cons arg left ih =>
    have hkeeps := hreset.keeps hle
    have hdrop' := hreset.drop_eq.trans hdrop
    rw [parseFrame, reached, ← hreset.permute_eq options, ← hreset.subopt_eq options]
    by_cases hdash : optparseIsDashdash arg = true
    · rw [if_pos hdash, if_pos hdash]
      refine ⟨?_, fun _ ↦ ⟨_, _, rfl, hkeeps.trans ?_⟩⟩
      · rintro ⟨arg', harg', -⟩
        cases harg'
      · exact Keeps.of_argv_eq rfl (Nat.le_succ _) (optind_lt_of_drop hdrop') id
    · rw [if_neg hdash, if_neg hdash]
      by_cases hstops : stops arg = true
      · rw [if_pos hstops, if_pos hstops]
        obtain ⟨hbad, hgood⟩ := hparse arg left (reset options) hstops hdrop'
        refine ⟨?_, fun h ↦ ?_⟩
        · rintro ⟨arg', harg', h⟩
          cases harg'
          exact hbad h
        · obtain ⟨result, o', hcall, ho'⟩ := hgood (h arg rfl)
          exact ⟨result, o', hcall, hkeeps.trans ho'⟩
      · rw [if_neg hstops, if_neg hstops]
        by_cases hpermute : (reset options).permute = true
        · rw [if_pos hpermute, if_pos hpermute, hreset.optind_eq]
          have hlt := optind_lt_of_drop hdrop
          obtain ⟨hbad, hgood⟩ := @ih { reset options with optind := options.optind + 1 }
            (by dsimp only; rw [hreset.argv_eq]; exact hlt)
            (by dsimp only; rw [hreset.argv_eq]; exact drop_succ_optind hdrop)
          dsimp only at hbad hgood
          refine ⟨fun h ↦ ?_, fun h ↦ ?_⟩
          · obtain ⟨fault, hfault⟩ := hbad h
            exact ⟨fault, by rw [hfault]; rfl⟩
          · obtain ⟨result, called, hcall, hcalled⟩ := hgood h
            obtain ⟨final, hback, hfinal, -⟩ := @stepBack_keeps (reset options) arg left
              (result, called) hdrop' (by rw [hreset.optind_eq]; exact hcalled)
            rw [hreset.optind_eq] at hback
            rw [hcall]
            exact ⟨result, final, hback, hkeeps.trans hfinal⟩
        · rw [if_neg hpermute, if_neg hpermute]
          refine ⟨?_, fun _ ↦ ⟨none, reset options, rfl, hkeeps⟩⟩
          rintro ⟨arg', harg', -⟩
          cases harg'

end Frame

/-! ## The calls -/

section Calls

variable {options options' : Optparse} {arg optstring : CString} {left : List CString}
  {longopts : List OptparseLong} {result : Option Char}

theorem charAt_eq_ok {k : ℕ} (h : k ≤ arg.length) : charAt arg k = .ok arg[k]? := if_pos h

/-- A cluster can be read up to its terminator. -/
theorem shortOption_run (optstring : CString)
    (hdrop : options.argv.drop options.optind = arg :: left) :
    (arg.length ≤ options.subopt → ∃ fault, shortOption optstring arg options = .error fault) ∧
      (¬arg.length ≤ options.subopt → ∃ result options',
        shortOption optstring arg options = .ok (result, options') ∧ Keeps options options') := by
  constructor
  · intro h
    refine ⟨.outOfBounds, ?_⟩
    have hpast : ¬options.subopt + 1 ≤ arg.length := by omega
    rw [shortOption, charAt, if_neg hpast]
    rfl
  · intro h
    have hok : ∃ answer, shortOption optstring arg options = .ok answer := by
      rw [shortOption, charAt_eq_ok (Nat.lt_of_not_le h), Fallible.ok_bind]
      cases hget : arg[options.subopt + 1]? with
      | none => exact ⟨_, optparseError_eq (by decide) _⟩
      | some c =>
        have hlt : options.subopt + 1 < arg.length := (List.getElem?_eq_some_iff.mp hget).1
        dsimp only
        cases optparseArgtype optstring c with
        | none => exact ⟨_, optparseError_eq (by decide) _⟩
        | some argtype =>
          dsimp only
          rw [charAt_eq_ok hlt, Fallible.ok_bind]
          cases argtype with
          | none => cases arg[options.subopt + 2]? <;> exact ⟨_, rfl⟩
          | required =>
            cases arg[options.subopt + 2]? with
            | some d => exact ⟨_, rfl⟩
            | none =>
              cases options.argv[options.optind + 1]? with
              | none => exact ⟨_, optparseError_eq (by decide) _⟩
              | some value => exact ⟨_, rfl⟩
          | optional => cases arg[options.subopt + 2]? <;> exact ⟨_, rfl⟩
    obtain ⟨⟨result, options'⟩, hcall⟩ := hok
    exact ⟨result, options', hcall, (shortOption_parsed hdrop hcall).1.keeps⟩

/-- A call as a whole: it faults at a `reached` option that is `Bad`, and else keeps the array. -/
structure CallRun (call : Except Fault (Option Char × Optparse)) (options : Optparse)
    (bad : Prop) : Prop where
  faults : bad → ∃ fault, call = .error fault
  keeps : ¬bad → ∃ result options', call = .ok (result, options') ∧ Keeps options options'

/-- Where `optparse` faults: a string shorter than the position in it. -/
def OptparseFaults (options : Optparse) : Prop :=
  ∃ arg, reached optparseIsShortopt options.permute (options.argv.drop options.optind) = some arg ∧
    arg.length ≤ options.subopt

theorem optparse_run (optstring : CString) (hle : options.optind ≤ options.argv.length) :
    CallRun (optparse optstring options) options (OptparseFaults options) := by
  have hrun := @parseFrame_run _ optparseIsShortopt _ options _ clears_clearResults _
    (fun arg left o _ hdrop ↦ shortOption_run optstring hdrop) hle rfl
  rw [optparse, parseArgv, if_pos hle]
  exact ⟨hrun.1, fun h ↦ hrun.2 fun arg harg hbad ↦ h ⟨arg, harg, hbad⟩⟩

/-- The table's string does not fit, or the position is behind the string. -/
def BadCluster (longopts : List OptparseLong) (arg : CString) (subopt : ℕ) : Prop :=
  optparseIsShortopt arg = true ∧
    (optstringSize ≤ (longopts.flatMap rowString).length ∨ arg.length ≤ subopt)

/-- Where `optparse_long` faults. -/
def OptparseLongFaults (longopts : List OptparseLong) (options : Optparse) : Prop :=
  ∃ arg, reached isOption options.permute (options.argv.drop options.optind) = some arg ∧
    BadCluster longopts arg options.subopt

theorem optparseLong_run (longopts : List OptparseLong)
    (hle : options.optind ≤ options.argv.length) :
    CallRun (optparseLong longopts options) options (OptparseLongFaults longopts options) := by
  have hrun := @parseFrame_run id isOption
    (fun option options ↦
      if optparseIsShortopt option then optparseLongFallback longopts options
      else longOption longopts option options) options
    (options.argv.drop options.optind) clears_id (BadCluster longopts) ?_ hle rfl
  · rw [optparseLong, parseArgv, if_pos hle]
    exact ⟨hrun.1, fun h ↦ hrun.2 fun arg harg hbad ↦ h ⟨arg, harg, hbad⟩⟩
  intro arg left o _ hdrop
  by_cases hshort : optparseIsShortopt arg = true
  · rw [if_pos hshort]
    by_cases hfits : (longopts.flatMap rowString).length < optstringSize
    · have hstring : optparseFromLong longopts = .ok (longopts.flatMap rowString) := if_pos hfits
      rw [optparseLongFallback_eq hstring hshort hdrop]
      obtain ⟨hbad, hgood⟩ := @shortOption_run (clearResults o) arg left
        (longopts.flatMap rowString) hdrop
      refine ⟨fun h ↦ hbad (h.2.resolve_left (Nat.not_le_of_lt hfits)), fun h ↦ ?_⟩
      obtain ⟨result, o', hcall, ho'⟩ := hgood fun hlen ↦ h ⟨hshort, Or.inr hlen⟩
      exact ⟨result, o', hcall, (clears_clearResults.keeps (optind_lt_of_drop hdrop).le).trans ho'⟩
    · refine ⟨fun _ ↦ ⟨.outOfBounds, ?_⟩, fun h ↦ absurd ⟨hshort, Or.inl (not_lt.mp hfits)⟩ h⟩
      rw [optparseLongFallback, optparseFromLong, if_neg hfits]
      rfl
  · rw [if_neg hshort]
    obtain ⟨result, o', hcall, hparsed, -⟩ := longOption_parsed longopts hdrop
    exact ⟨fun h ↦ absurd h.1 hshort, fun _ ↦ ⟨result, o', hcall, hparsed.keeps⟩⟩

theorem optparseArg_run (hle : options.optind ≤ options.argv.length) :
    ∃ result options', optparseArg options = .ok (result, options') ∧ Keeps options options' ∧
      options'.subopt = 0 := by
  rw [optparseArg, if_pos hle]
  cases hget : options.argv[options.optind]? with
  | none => exact ⟨_, _, rfl, Keeps.of_argv_eq rfl (Nat.le_refl _) hle id, rfl⟩
  | some arg =>
    have hlt : options.optind < options.argv.length := (List.getElem?_eq_some_iff.mp hget).1
    exact ⟨_, _, rfl, Keeps.of_argv_eq rfl (Nat.le_succ _) hlt id, rfl⟩

theorem optargFixUp_keeps (hle : options.optind ≤ options.argv.length) :
    Keeps options (optargFixUp options) := by
  rw [optargFixUp]
  split
  · next a _ hget =>
    have hlt : options.optind < options.argv.length := (List.getElem?_eq_some_iff.mp hget).1
    split
    · exact Keeps.of_argv_eq rfl (Nat.le_succ _) hlt id
    · exact Keeps.refl hle
  · exact Keeps.refl hle

theorem Act.run_keeps {act : Act} (hle : options.optind ≤ options.argv.length)
    (h : act.run options = .ok (result, options')) : Keeps options options' := by
  cases act with
  | optparse optstring =>
    have hrun := optparse_run optstring hle
    by_cases hbad : OptparseFaults options
    · obtain ⟨fault, hfault⟩ := hrun.faults hbad
      rw [Act.run, hfault] at h
      cases h
    · obtain ⟨result', options'', hcall, hkeeps⟩ := hrun.keeps hbad
      rw [Act.run, hcall] at h
      cases h
      exact hkeeps
  | optparseLong longopts =>
    have hrun := optparseLong_run longopts hle
    by_cases hbad : OptparseLongFaults longopts options
    · obtain ⟨fault, hfault⟩ := hrun.faults hbad
      rw [Act.run, hfault] at h
      cases h
    · obtain ⟨result', options'', hcall, hkeeps⟩ := hrun.keeps hbad
      rw [Act.run, hcall] at h
      cases h
      exact hkeeps
  | optparseArg =>
    obtain ⟨result', options'', hcall, hkeeps, -⟩ := optparseArg_run hle
    rw [Act.run, hcall] at h
    cases h
    exact hkeeps
  | optargFixUp =>
    cases h
    exact optargFixUp_keeps hle
  | setPermute permute =>
    cases h
    exact Keeps.of_argv_eq rfl (Nat.le_refl _) hle id

/-- Whatever happens between two states of a parser. -/
theorem session_keeps_of_le {acts : List Act} {answers : List (Option Char)}
    (hle : options.optind ≤ options.argv.length)
    (h : session acts options = .ok (answers, options')) : Keeps options options' := by
  induction acts generalizing options answers with
  | nil =>
    cases h
    exact Keeps.refl hle
  | cons act acts ih =>
    obtain ⟨⟨answer, between⟩, hact, h⟩ := Fallible.bind_eq_ok.mp h
    obtain ⟨⟨answers', final⟩, hacts, h⟩ := Fallible.bind_eq_ok.mp h
    cases h
    have hkeeps := Act.run_keeps hle hact
    exact hkeeps.trans (ih hkeeps.le_length hacts)

theorem optind_init_le (argv : List CString) :
    (optparseInit argv).optind ≤ (optparseInit argv).argv.length := by
  cases argv with
  | nil => exact Nat.le_refl 0
  | cons arg argv => exact Nat.succ_pos _

/-- **Any session.** However a client uses a parser, from any moment on: no argument is lost or
doubled, what was consumed stays in place, the index stays within `argc`, and the message within its
buffer. -/
theorem session_keeps {argv : List CString} {acts more : List Act}
    {answers answers' : List (Option Char)} {final : Optparse}
    (h : session acts (optparseInit argv) = .ok (answers, options))
    (hmore : session more options = .ok (answers', final)) :
    Keeps options final ∧ final.argv.Perm argv ∧ final.errmsg.length < errmsgSize := by
  have hkeeps := session_keeps_of_le (optind_init_le argv) h
  have hkeeps' := session_keeps_of_le hkeeps.le_length hmore
  exact ⟨hkeeps', hkeeps'.perm.trans hkeeps.perm,
    hkeeps'.errmsg_lt (hkeeps.errmsg_lt (Nat.succ_pos 63))⟩

/-- An option behind an operand, and then the operand. -/
theorem session_keeps_two : Keeps
      { optparseInit ["dcaconv".toList, "-l".toList, "a".toList] with optind := 2, optopt := 'l' }
      { optparseInit ["dcaconv".toList, "-l".toList, "a".toList] with optind := 3, optopt := 'l' } ∧
    ["dcaconv".toList, "-l".toList, "a".toList].Perm
      ["dcaconv".toList, "a".toList, "-l".toList] ∧
    ([] : CString).length < errmsgSize := by
  have hfirst : session [.optparse "l".toList]
      (optparseInit ["dcaconv".toList, "a".toList, "-l".toList]) = .ok ([some 'l'],
        { optparseInit ["dcaconv".toList, "-l".toList, "a".toList] with
          optind := 2, optopt := 'l' }) := rfl
  have hsecond : session [.optparseArg]
      { optparseInit ["dcaconv".toList, "-l".toList, "a".toList] with optind := 2, optopt := 'l' }
        = .ok ([none], { optparseInit ["dcaconv".toList, "-l".toList, "a".toList] with
          optind := 3, optopt := 'l' }) := rfl
  exact session_keeps hfirst hsecond

end Calls

/-! ## Clients that stop at an error -/

section Stop

variable {options options' : Optparse} {arg : CString} {left : List CString}
  {longopts : List OptparseLong} {result : Option Char}

/-- The position in a cluster is one in the option a call gets to. -/
def Ready (left : List CString) (subopt : ℕ) : Prop :=
  subopt = 0 ∨ ∃ arg, reached isOption true left = some arg ∧ optparseIsShortopt arg = true ∧
    subopt + 1 < arg.length

theorem reached_true {permute : Bool} (h : reached isOption permute left = some arg) :
    reached isOption true left = some arg := by
  cases permute with
  | true => exact h
  | false =>
    cases left with
    | nil => cases h
    | cons a left =>
      rw [reached] at h ⊢
      split at h
      · cases h
      · next hdash =>
        rw [if_neg hdash]
        split at h
        · next hoption =>
          rw [if_pos hoption]
          exact h
        · cases h

theorem reached_operand (h : isOperand arg = true) (permute : Bool) :
    reached isOption permute (arg :: left)
      = if permute then reached isOption permute left else none := by
  obtain ⟨hdash, hoption⟩ := isOperand_iff.mp h
  rw [reached, hdash, hoption, if_neg Bool.false_ne_true, if_neg Bool.false_ne_true]

theorem ready_operand {subopt : ℕ} (h : isOperand arg = true) :
    Ready (arg :: left) subopt ↔ Ready left subopt := by
  rw [Ready, reached_operand h, if_pos rfl]
  exact Iff.rfl

theorem reached_option (h : isOption arg = true) (permute : Bool) :
    reached isOption permute (arg :: left) = some arg := by
  rw [reached, optparseIsDashdash_of_isOption h, if_neg Bool.false_ne_true, if_pos h]

theorem Ready.eq_zero {subopt : ℕ} (h : Ready left subopt)
    (hreached : ∀ arg, reached isOption true left = some arg → optparseIsShortopt arg = false) :
    subopt = 0 := by
  rcases h with h | ⟨arg, harg, hshort, -⟩
  · exact h
  · rw [hreached arg harg] at hshort
    cases hshort

/-- Behind a call at an option of a client that stops at errors. -/
def ParsesReady (parse : CString → Optparse → Except Fault (Option Char × Optparse)) : Prop :=
  ∀ arg left o result o', isOption arg = true → o.argv.drop o.optind = arg :: left →
    Ready (arg :: left) o.subopt → parse arg o = .ok (result, o') → result ≠ some '?' →
      Keeps o o' ∧ Ready (o'.argv.drop o'.optind) o'.subopt

theorem parseFrame_ready {parse : CString → Optparse → Except Fault (Option Char × Optparse)}
    (hparse : ParsesReady parse) (hle : options.optind ≤ options.argv.length)
    (hdrop : options.argv.drop options.optind = left) (hready : Ready left options.subopt)
    (h : parseFrame id isOption parse left options = .ok (result, options'))
    (hresult : result ≠ some '?') :
    Keeps options options' ∧ Ready (options'.argv.drop options'.optind) options'.subopt := by
  induction left generalizing options result options' with
  | nil =>
    cases h
    exact ⟨Keeps.refl hle, hdrop ▸ hready⟩
  | cons arg left ih =>
    have hlt := optind_lt_of_drop hdrop
    rw [parseFrame] at h
    dsimp only [id] at h
    by_cases hdash : optparseIsDashdash arg = true
    · rw [if_pos hdash] at h
      cases h
      refine ⟨Keeps.of_argv_eq rfl (Nat.le_succ _) hlt id, Or.inl (hready.eq_zero fun arg' h ↦ ?_)⟩
      rw [reached, if_pos hdash] at h
      cases h
    rw [if_neg hdash] at h
    by_cases hoption : isOption arg = true
    · rw [if_pos hoption] at h
      exact hparse arg left options result options' hoption hdrop hready h hresult
    have hoperand : isOperand arg = true :=
      isOperand_iff.mpr ⟨Bool.eq_false_iff.mpr hdash, Bool.eq_false_iff.mpr hoption⟩
    rw [if_neg hoption] at h
    by_cases hpermute : options.permute = true
    · rw [if_pos hpermute] at h
      obtain ⟨⟨answer, called⟩, hcall, hback⟩ := Fallible.bind_eq_ok.mp h
      have hanswer : answer = result := by
        obtain ⟨permuted, -, hok⟩ := Fallible.bind_eq_ok.mp hback
        cases hok
        rfl
      subst hanswer
      obtain ⟨hcalled, hready'⟩ := @ih { options with optind := options.optind + 1 } _ _ hlt
        (drop_succ_optind hdrop) ((ready_operand hoperand).mp hready) hcall hresult
      obtain ⟨final, hback', hfinal, hdrop', hsub⟩ := @stepBack_keeps options arg left
        (answer, called) hdrop hcalled
      rw [hback] at hback'
      cases hback'
      refine ⟨hfinal, ?_⟩
      rw [hdrop', hsub]
      exact (ready_operand hoperand).mpr hready'
    · rw [if_neg hpermute] at h
      cases h
      exact ⟨Keeps.refl hle, hdrop ▸ hready⟩

theorem parsesReady_long (hrows : longopts.length ≤ 96) :
    ParsesReady fun option options ↦
      if optparseIsShortopt option then optparseLongFallback longopts options
      else longOption longopts option options := by
  intro arg left o result o' hoption hdrop hready h hresult
  dsimp only at h
  by_cases hshort : optparseIsShortopt arg = true
  · rw [if_pos hshort, optparseLongFallback_eq (optparseFromLong_eq hrows) hshort hdrop] at h
    obtain ⟨hparsed, hsub⟩ := @shortOption_parsed (clearResults o) _ _ _ _ _ hdrop h
    refine ⟨(clears_clearResults.keeps (optind_lt_of_drop hdrop).le).trans hparsed.keeps, ?_⟩
    rcases hsub hresult with hzero | ⟨hind, hlt⟩
    · exact Or.inl hzero
    · refine Or.inr ⟨arg, ?_, hshort, hlt⟩
      rw [hind, hparsed.argv_eq]
      exact hdrop ▸ reached_option hoption true
  · rw [if_neg hshort] at h
    obtain ⟨result', o'', hcall, hparsed, hsub⟩ := longOption_parsed longopts hdrop
    rw [h] at hcall
    cases hcall
    refine ⟨hparsed.keeps, Or.inl (hsub.trans (hready.eq_zero fun arg' harg' ↦ ?_))⟩
    rw [reached_option hoption] at harg'
    cases harg'
    exact Bool.eq_false_iff.mpr hshort

/-- Calls that leave the position to `optparse_long`, with tables that fit its buffer. -/
def Act.Long : Act → Prop
  | .optparse _ => False
  | .optparseLong longopts => longopts.length ≤ 96
  | _ => True

theorem Ready.not_faults (hready : Ready (options.argv.drop options.optind) options.subopt)
    (hrows : longopts.length ≤ 96) : ¬OptparseLongFaults longopts options := by
  rintro ⟨arg, harg, hshort, hfits | hlen⟩
  · have hle := length_flatMap_rowString_le longopts
    rw [optstringSize] at hfits
    omega
  · rcases hready with hzero | ⟨arg', harg', -, hlt⟩
    · rw [hzero, Nat.le_zero, List.length_eq_zero_iff] at hlen
      rw [hlen] at hshort
      cases hshort
    · rw [reached_true harg] at harg'
      cases harg'
      omega

theorem isOperand_of_isValue (h : isValue arg = true) : isOperand arg = true := by
  cases arg with
  | nil => rfl
  | cons a tail =>
    have ha : a ≠ '-' := by simpa [isValue] using h
    simp [isOperand, isOption, optparseIsDashdash, optparseIsShortopt, optparseIsLongopt, ha]

/-- A call never faults where the position is right, and leaves it right. -/
theorem Act.run_ready {act : Act} (hact : act.Long) (hle : options.optind ≤ options.argv.length)
    (hready : Ready (options.argv.drop options.optind) options.subopt) :
    ∃ result options', act.run options = .ok (result, options') ∧ Keeps options options' ∧
      (result ≠ some '?' → Ready (options'.argv.drop options'.optind) options'.subopt) := by
  cases act with
  | optparse optstring => exact hact.elim
  | optparseLong longopts =>
    obtain ⟨result, options', hcall, hkeeps⟩ :=
      (optparseLong_run longopts hle).keeps (hready.not_faults hact)
    refine ⟨result, options', hcall, hkeeps, fun hresult ↦ ?_⟩
    rw [DcaConv.optparseLong, parseArgv, if_pos hle] at hcall
    exact (parseFrame_ready (parsesReady_long hact) hle rfl hready hcall hresult).2
  | optparseArg =>
    obtain ⟨result, options', hcall, hkeeps, hzero⟩ := optparseArg_run hle
    exact ⟨none, options', by rw [Act.run, hcall]; rfl, hkeeps, fun _ ↦ Or.inl hzero⟩
  | optargFixUp =>
    refine ⟨none, _, rfl, optargFixUp_keeps hle, fun _ ↦ ?_⟩
    rw [DcaConv.optargFixUp]
    split
    · next a _ hget =>
      split
      · next hvalue =>
        -- what it takes is an operand, in front of the option a call gets to
        have hdrop : options.argv.drop options.optind
            = a :: options.argv.drop (options.optind + 1) := by
          obtain ⟨hlt, rfl⟩ := List.getElem?_eq_some_iff.mp hget
          exact List.drop_eq_getElem_cons hlt
        rw [hdrop, ready_operand (isOperand_of_isValue hvalue)] at hready
        exact hready
      · exact hready
    · exact hready
  | setPermute permute =>
    exact ⟨none, _, rfl, Keeps.of_argv_eq rfl (Nat.le_refl _) hle id, fun _ ↦ hready⟩

/-- **A client that stops at errors is safe.** With `optparse_long` and tables that fit its buffer,
a session can only fault behind a call that has returned `?`. -/
theorem session_faults_behind_error {argv : List CString} {acts : List Act} {fault : Fault}
    (hacts : ∀ act ∈ acts, act.Long) (h : session acts (optparseInit argv) = .error fault) :
    ∃ before after answers options, acts = before ++ after ∧
      session before (optparseInit argv) = .ok (answers, options) ∧ some '?' ∈ answers := by
  have hle := optind_init_le argv
  have hready : Ready ((optparseInit argv).argv.drop (optparseInit argv).optind)
      (optparseInit argv).subopt := Or.inl rfl
  revert h hready hle
  generalize optparseInit argv = options
  intro h hle hready
  induction acts generalizing options with
  | nil => cases h
  | cons act acts ih =>
    obtain ⟨result, options', hact, hkeeps, hready'⟩ :=
      Act.run_ready (hacts act List.mem_cons_self) hle hready
    rw [session, hact, Fallible.ok_bind] at h
    dsimp only at h
    by_cases hresult : result = some '?'
    · refine ⟨[act], acts, [result], options', rfl, ?_, by simp [hresult]⟩
      rw [session, hact]
      rfl
    · have hrest : session acts options' = .error fault := by
        cases hsession : session acts options' with
        | error e =>
          rw [hsession] at h
          exact h
        | ok answers =>
          rw [hsession] at h
          cases h
      obtain ⟨before, after, answers, final, rfl, hbefore, hmem⟩ :=
        ih (fun act hact ↦ hacts act (List.mem_cons_of_mem _ hact)) options' hrest hkeeps.le_length
          (hready' hresult)
      refine ⟨act :: before, after, result :: answers, final, rfl, ?_, List.mem_cons_of_mem _ hmem⟩
      rw [session, hact, Fallible.ok_bind]
      dsimp only
      rw [hbefore]
      rfl

/-- The fourth call is behind the one that has returned `?`. -/
theorem session_faults_behind_second :
    ∃ before after answers options,
      List.replicate 4 (Act.optparseLong [⟨none, 'a', .none⟩, ⟨none, 'b', .none⟩])
        = before ++ after ∧
      session before (optparseInit ["dcaconv".toList, "-abc".toList, "-a".toList])
        = .ok (answers, options) ∧ some '?' ∈ answers := by
  have hfault : session
      (List.replicate 4 (.optparseLong [⟨none, 'a', .none⟩, ⟨none, 'b', .none⟩]))
      (optparseInit ["dcaconv".toList, "-abc".toList, "-a".toList]) = .error .outOfBounds := rfl
  refine session_faults_behind_error (fun act hact ↦ ?_) hfault
  rw [List.eq_of_mem_replicate hact]
  exact Nat.le_of_ble_eq_true rfl

end Stop

/-! ## Clients that go on -/

section GoOn

variable {options options' : Optparse} {longopts : List OptparseLong} {consumed rest : List CString}
  {arg next : CString} {subopt : ℕ}

theorem session_cons {act : Act} {acts : List Act} {answer : Option Char}
    (h : act.run options = .ok (answer, options')) :
    session (act :: acts) options
      = (session acts options').map fun result ↦ (answer :: result.1, result.2) := by
  rw [session, h, Fallible.ok_bind]
  dsimp only
  cases session acts options' <;> rfl

theorem session_cons_faults {act : Act} {acts : List Act} {answer : Option Char}
    (h : act.run options = .ok (answer, options')) :
    (∃ fault, session (act :: acts) options = .error fault) ↔
      ∃ fault, session acts options' = .error fault := by
  rw [session_cons h]
  cases session acts options' with
  | error fault => exact iff_of_true ⟨fault, rfl⟩ ⟨fault, rfl⟩
  | ok result => exact iff_of_false (fun ⟨_, h⟩ ↦ by cases h) fun ⟨_, h⟩ ↦ by cases h

theorem session_single_faults {act : Act} :
    (∃ fault, session [act] options = .error fault) ↔ ∃ fault, act.run options = .error fault := by
  rw [session]
  cases act.run options with
  | error fault => exact iff_of_true ⟨fault, rfl⟩ ⟨fault, rfl⟩
  | ok result => exact iff_of_false (fun ⟨_, h⟩ ↦ by cases h) fun ⟨_, h⟩ ↦ by cases h

/-- At a character that is no option the call steps over the rest of the cluster, and leaves the
position where it is. -/
theorem Stands.call_invalid (htable : ProperTable longopts)
    (h : Stands options consumed [] (arg :: rest) subopt) (hshort : optparseIsShortopt arg = true)
    {c : Char} {cs : CString} (hdrop : arg.drop (subopt + 1) = c :: cs)
    (htype : shortType longopts c = none) :
    ∃ final, optparseLong longopts options = .ok (some '?', final) ∧
      Stands final (consumed ++ [arg]) [] rest subopt := by
  have hframe : parseFrame id isOption
      (fun option options ↦
        if optparseIsShortopt option then optparseLongFallback longopts options
        else longOption longopts option options)
      (arg :: rest) { options with optind := consumed.length + ([] : List CString).length }
        = .ok (some '?', { clearResults options with
            optind := consumed.length + 0 + 1
            optopt := c
            errmsg := errorText optparseMsgInvalid [c] }) := by
    rw [parseFrame_isOption (isOption_of_isShortopt hshort), if_pos hshort,
      optparseLongFallback_eq (optparseFromLong_eq htable.rows_le) hshort h.drop_argv, shortOption]
    rw [← h.subopt_eq] at hdrop
    dsimp only [clearResults]
    rw [charAt_eq_of_drop hdrop, Fallible.ok_bind]
    dsimp only
    rw [optparseArgtype_flatMap htable.ne_colon, htype, optparseError_eq (by decide)]
    rfl
  obtain ⟨final, hcall, hstands, -⟩ := h.moved hframe rfl rfl rfl (Nat.succ_le_succ (Nat.zero_le _))
  refine ⟨final, hcall, ?_⟩
  rw [show (clearResults options).subopt = subopt from h.subopt_eq] at hstands
  exact hstands

/-- The call behind reads from the same position in the next argument. -/
theorem Stands.faults_iff (hrows : longopts.length ≤ 96)
    (h : Stands options consumed [] (arg :: rest) subopt) (hshort : optparseIsShortopt arg = true) :
    (∃ fault, optparseLong longopts options = .error fault) ↔ arg.length ≤ subopt := by
  have hle : options.optind ≤ options.argv.length := by
    rw [h.optind_eq, h.argv_eq, List.length_append]
    exact Nat.le_add_right _ _
  have hdrop : options.argv.drop options.optind = arg :: rest := by
    rw [h.optind_eq]
    exact h.drop_argv
  have hfits : ¬optstringSize ≤ (longopts.flatMap rowString).length := by
    have hlen := length_flatMap_rowString_le longopts
    rw [optstringSize]
    omega
  have hrun := optparseLong_run longopts hle
  have hreached := @reached_option arg rest (isOption_of_isShortopt hshort) options.permute
  constructor
  · rintro ⟨fault, hfault⟩
    by_contra hlen
    obtain ⟨result, options', hcall, -⟩ := hrun.keeps <| by
      rintro ⟨arg', harg', -, hbad⟩
      rw [hdrop, hreached] at harg'
      cases harg'
      rw [h.subopt_eq] at hbad
      exact hbad.elim hfits hlen
    rw [hfault] at hcall
    cases hcall
  · intro hlen
    refine hrun.faults ⟨arg, ?_, hshort, Or.inr (h.subopt_eq ▸ hlen)⟩
    rw [hdrop, hreached]

/-- **Going on behind an error.** Where a client calls on behind an invalid option in a cluster, at
another cluster, that call reads behind the end of the string exactly when this is shorter than the
flags read before it. -/
theorem stale_position_faults_iff (htable : ProperTable longopts) (program : CString)
    {flags : List Char} {c : Char} (tail : CString) (rest : List CString)
    (hflags : ∀ flag ∈ flags, shortType longopts flag = some .none)
    (hc : shortType longopts c = none)
    (hcluster : optparseIsShortopt ('-' :: (flags ++ c :: tail)) = true)
    (hnext : optparseIsShortopt next = true) :
    (∃ fault, session (List.replicate (flags.length + 2) (.optparseLong longopts))
      (optparseInit (program :: ('-' :: (flags ++ c :: tail)) :: next :: rest)) = .error fault) ↔
      next.length ≤ flags.length := by
  have hstart : Stands (optparseInit (program :: ('-' :: (flags ++ c :: tail)) :: next :: rest))
      [program] [] (('-' :: (flags ++ c :: tail)) :: next :: rest) 0 := stands_init _
  have hflagsRun : ∀ (done todo : List Char) (options : Optparse), flags = done ++ todo →
      Stands options [program] [] (('-' :: (flags ++ c :: tail)) :: next :: rest) done.length →
      ((∃ fault, session (List.replicate (todo.length + 2) (.optparseLong longopts)) options
        = .error fault) ↔ next.length ≤ flags.length) := by
    intro done todo
    induction todo generalizing done with
    | nil =>
      intro options hsplit hstands
      rw [List.append_nil] at hsplit
      subst hsplit
      obtain ⟨final, hcall, hbehind⟩ := hstands.call_invalid htable hcluster
        (by rw [List.drop_succ_cons, List.drop_left]) hc
      have hrun : (Act.optparseLong longopts).run options = .ok (some '?', final) := hcall
      rw [List.length_nil, Nat.zero_add, List.replicate_succ, session_cons_faults hrun,
        List.replicate_one, session_single_faults]
      exact hbehind.faults_iff htable.rows_le hnext
    | cons flag todo ih =>
      intro options hsplit hstands
      have hdrop : ('-' :: (flags ++ c :: tail)).drop (done.length + 1)
          = flag :: (todo ++ c :: tail) := by
        rw [List.drop_succ_cons, hsplit, List.append_assoc, List.drop_left]
        rfl
      obtain ⟨final, hcall, hbehind, -⟩ := hstands.call_flag htable hcluster hdrop
        (List.append_ne_nil_of_right_ne_nil _ (List.cons_ne_nil c tail))
        (hflags flag (hsplit ▸ List.mem_append_right _ List.mem_cons_self))
      have hrun : (Act.optparseLong longopts).run options = .ok (some flag, final) := hcall
      rw [List.length_cons, Nat.add_right_comm, List.replicate_succ, session_cons_faults hrun]
      refine ih (done ++ [flag]) final (by rw [hsplit, List.append_assoc]; rfl) ?_
      rw [List.length_append]
      exact hbehind
  exact hflagsRun [] flags _ rfl hstart

/-- `-abc -a` where `-c` is no option. -/
theorem stale_position_behind_two :
    (∃ fault, session
      (List.replicate 4 (.optparseLong [⟨none, 'a', .none⟩, ⟨none, 'b', .none⟩]))
      (optparseInit ["dcaconv".toList, ['-', 'a', 'b', 'c'], ['-', 'a']]) = .error fault) ↔ 2 ≤ 2 :=
  @stale_position_faults_iff [⟨none, 'a', .none⟩, ⟨none, 'b', .none⟩] ['-', 'a'] (by decide)
    "dcaconv".toList ['a', 'b'] 'c' [] []
    (List.forall_mem_cons.mpr ⟨rfl, List.forall_mem_cons.mpr ⟨rfl, fun _ h ↦ by cases h⟩⟩) rfl rfl
    rfl

end GoOn

end DcaConv
