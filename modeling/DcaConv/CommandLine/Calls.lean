import DcaConv.CommandLine.Reading

/-!
# One call of the parser

Between two calls the array is `consumed ++ pending ++ rest`, with `optind` at the first operand not
yet moved out of the way. A call steps over the pending operands by recursion and consumes up to two
arguments behind them; on the way back every operand is moved behind these, so the array becomes
`consumed ++ taken ++ pending ++ rest'`.

The parser does not remember where the operands end, nor the string it is in the middle of, only how
far it is in it.
-/

namespace DcaConv

/-- An argument both parsers step over. -/
def isOperand (arg : CString) : Bool := !optparseIsDashdash arg && !isOption arg

/-- Where the parser stands between two calls. -/
structure Stands (options : Optparse) (consumed pending rest : List CString) (subopt : ℕ) :
    Prop where
  argv_eq : options.argv = consumed ++ (pending ++ rest)
  optind_eq : options.optind = consumed.length
  permute_eq : options.permute = true
  subopt_eq : options.subopt = subopt
  operand : ∀ a ∈ pending, isOperand a = true

theorem stands_init (argv : List CString) :
    Stands (optparseInit argv) (argv.take 1) [] (argv.drop 1) 0 := by
  refine ⟨(List.take_append_drop 1 argv).symm, ?_, rfl, rfl, fun a ha ↦ by cases ha⟩
  cases argv <;> rfl

section Frame

variable {parse : CString → Optparse → Except Fault (Option Char × Optparse)}
  {options options' : Optparse} {consumed pending rest : List CString} {arg : CString}
  {subopt k : ℕ} {result : Option Char}

theorem isOperand_iff : isOperand arg = true ↔ optparseIsDashdash arg = false ∧
    isOption arg = false := by
  rw [isOperand, Bool.and_eq_true, Bool.not_eq_true', Bool.not_eq_true']

/-- An operand behind the pending ones joins them without a call. -/
theorem Stands.join (h : Stands options consumed pending (arg :: rest) subopt)
    (harg : isOperand arg = true) : Stands options consumed (pending ++ [arg]) rest subopt := by
  refine ⟨?_, h.optind_eq, h.permute_eq, h.subopt_eq, fun a ha ↦ ?_⟩
  · rw [h.argv_eq, List.append_assoc pending, List.singleton_append]
  · rcases List.mem_append.mp ha with ha | ha
    · exact h.operand a ha
    · exact List.mem_singleton.mp ha ▸ harg

/-! ## The way back -/

theorem stepBack_eq {called : Option Char × Optparse} {before segment after : List CString}
    (hargv : called.2.argv = before ++ arg :: (segment ++ after))
    (hind : called.2.optind = before.length + segment.length + 1) :
    stepBack before.length called = .ok (called.1,
      { called.2 with
        argv := before ++ segment ++ arg :: after
        optind := before.length + segment.length }) := by
  have hlast : called.2.optind - 1 = before.length + segment.length := by
    rw [hind, Nat.add_sub_cancel]
  rw [stepBack, optparsePermute, hargv, hlast, Rotation.moveTo_eq rfl]
  dsimp only [Fallible.ok_bind]
  rw [hlast]

/-- The recursion over the pending operands, around a call that leaves the array alone. -/
theorem parseFrame_operands (hpending : ∀ a ∈ pending, isOperand a = true)
    (hargv : options.argv = consumed ++ (pending ++ rest)) (hind : options.optind = consumed.length)
    (hpermute : options.permute = true)
    (hcall : parseFrame id isOption parse rest
      { options with optind := consumed.length + pending.length } = .ok (result, options'))
    (hargv' : options'.argv = options.argv)
    (hind' : options'.optind = consumed.length + pending.length + k) (hk : k ≤ rest.length) :
    parseFrame id isOption parse (pending ++ rest) options = .ok (result, { options' with
      argv := consumed ++ (rest.take k ++ (pending ++ rest.drop k))
      optind := consumed.length + k }) := by
  induction pending generalizing consumed options with
  | nil =>
    have hoptions : { options with optind := consumed.length + 0 } = options := by
      rw [Nat.add_zero, ← hind]
    have hoptions' : { options' with
        argv := consumed ++ (rest.take k ++ rest.drop k)
        optind := consumed.length + k } = options' := by
      rw [List.length_nil, Nat.add_zero] at hind'
      rw [List.take_append_drop, ← List.nil_append rest, ← hargv, ← hargv', ← hind']
    rw [List.nil_append, List.nil_append, hoptions', ← hcall, List.length_nil, hoptions]
  | cons arg pending ih =>
    obtain ⟨hdash, hoption⟩ := isOperand_iff.mp (hpending arg List.mem_cons_self)
    have hlen : (consumed ++ [arg]).length = consumed.length + 1 := List.length_append
    have hcount : consumed.length + 1 + pending.length
        = consumed.length + (arg :: pending).length := by
      rw [List.length_cons]
      omega
    have hcalled := @ih { options with optind := options.optind + 1 } (consumed ++ [arg])
      (fun a ha ↦ hpending a (List.mem_cons_of_mem _ ha))
      (by rw [hargv, List.append_assoc]; rfl) (by rw [hlen, hind]) hpermute
      (by rw [hlen, hcount]; exact hcall) hargv' (by rw [hlen, hcount]; exact hind')
    rw [List.cons_append, parseFrame]
    dsimp only [id]
    rw [hdash, hoption, if_neg Bool.false_ne_true, if_neg Bool.false_ne_true, if_pos hpermute,
      hcalled, Fallible.ok_bind, hind]
    rw [@stepBack_eq arg _ consumed (rest.take k) (pending ++ rest.drop k)]
    · rw [List.append_assoc consumed (rest.take k), List.length_take, Nat.min_eq_left hk]
      rfl
    · dsimp only
      rw [List.append_assoc, List.singleton_append]
    · dsimp only
      rw [hlen, List.length_take, Nat.min_eq_left hk]
      omega

/-- The array behind a call. -/
theorem Stands.moved (h : Stands options consumed pending rest subopt)
    (hcall : parseFrame id isOption parse rest
      { options with optind := consumed.length + pending.length } = .ok (result, options'))
    (hargv' : options'.argv = options.argv) (hpermute' : options'.permute = options.permute)
    (hind' : options'.optind = consumed.length + pending.length + k) (hk : k ≤ rest.length) :
    ∃ final, parseArgv id isOption parse options = .ok (result, final) ∧
      Stands final (consumed ++ rest.take k) pending (rest.drop k) options'.subopt ∧
      final.optarg = options'.optarg ∧ final.errmsg = options'.errmsg := by
  have hle : options.optind ≤ options.argv.length := by
    rw [h.optind_eq, h.argv_eq, List.length_append]
    exact Nat.le_add_right _ _
  have hrun :=
    parseFrame_operands h.operand h.argv_eq h.optind_eq h.permute_eq hcall hargv' hind' hk
  rw [← @List.drop_left _ consumed (pending ++ rest), ← h.argv_eq, ← h.optind_eq] at hrun
  refine ⟨_, (if_pos hle).trans hrun, ⟨?_, ?_, hpermute'.trans h.permute_eq, rfl, h.operand⟩, rfl,
    rfl⟩
  · exact (List.append_assoc _ _ _).symm
  · rw [List.length_append, List.length_take, Nat.min_eq_left hk, h.optind_eq]

/-! ## The answers -/

/-- What a call returns about the last option of an argument. -/
structure Answer where
  option : Char
  optarg : Option CString
  errmsg : CString
  /-- How many arguments it takes. -/
  taken : ℕ

/-- The answer, by the argument behind. -/
def ArgEnd.answer : ArgEnd → (next : Option CString) → Answer
  | .found option optarg, _ => ⟨option, optarg, [], 1⟩
  | .wants option _, some value => ⟨option, some value, [], 2⟩
  | .wants _ name, none => ⟨'?', none, errorText optparseMsgMissing name, 1⟩
  | .fails errmsg, _ => ⟨'?', none, errmsg, 1⟩

/-- A call at an option gives this answer and leaves the array alone. -/
structure Gives (options options' : Optparse) (answer : Answer) : Prop where
  argv_eq : options'.argv = options.argv
  permute_eq : options'.permute = options.permute
  optind_eq : options'.optind = options.optind + answer.taken
  optarg_eq : options'.optarg = answer.optarg
  errmsg_eq : options'.errmsg = answer.errmsg
  subopt_eq : answer.errmsg = [] → options'.subopt = 0

theorem errorText_ne_nil (msg data : CString) : errorText msg data ≠ [] := by
  rw [errorText]
  exact List.append_ne_nil_of_right_ne_nil _ (by decide)

/-- The text and its terminator fit `errmsg` for every one of the three messages. -/
theorem length_errorText_lt {msg : CString} (h : msg.length ≤ 27) (data : CString) :
    (errorText msg data).length < errmsgSize := by
  have hsep : " -- '".toList.length = 5 := by decide
  have hlen : " -- '".length = 5 := by decide
  have hquote : "'".toList.length = 1 := by decide
  rw [errorText, List.length_append, List.length_append, List.length_append, List.length_take, hsep,
    hlen, hquote, errmsgSize]
  omega

theorem optparseError_eq {msg : CString} (h : msg.length ≤ 27) (data : CString) :
    optparseError options msg data
      = .ok (some '?', { options with errmsg := errorText msg data }) :=
  if_pos (length_errorText_lt h data)

/-! ### Short options -/

section Short

variable {c : Char} {cs : CString}

theorem charAt_eq_of_drop (h : arg.drop k = c :: cs) : charAt arg k = .ok (some c) := by
  have hlt : k < arg.length := by
    have hlen := congrArg List.length h
    rw [List.length_drop, List.length_cons] at hlen
    omega
  have hget := congrArg List.head? h
  rw [List.head?_drop] at hget
  rw [charAt, if_pos hlt.le, hget]
  rfl

theorem charAt_succ_eq_of_drop (h : arg.drop k = c :: cs) : charAt arg (k + 1) = .ok cs.head? := by
  have hlt : k < arg.length := by
    have hlen := congrArg List.length h
    rw [List.length_drop, List.length_cons] at hlen
    omega
  have hget := congrArg (fun s ↦ s.tail.head?) h
  rw [List.tail_drop, List.head?_drop] at hget
  rw [charAt, if_pos (Nat.succ_le_of_lt hlt), hget]
  rfl

theorem drop_succ_of_drop (h : arg.drop k = c :: cs) : arg.drop (k + 1) = cs := by
  rw [← List.tail_drop, h, List.tail_cons]

variable {longopts : List OptparseLong}

/-- In the middle of a cluster only the position in it moves. -/
theorem shortOption_flag (hcolon : ∀ row ∈ longopts, row.shortname ≠ ':')
    (hdrop : arg.drop (options.subopt + 1) = c :: cs) (hcs : cs ≠ [])
    (htype : shortType longopts c = some .none) :
    shortOption (longopts.flatMap rowString) arg options
      = .ok (some c, { options with optopt := c, subopt := options.subopt + 1 }) := by
  obtain ⟨d, ds, rfl⟩ := List.exists_cons_of_ne_nil hcs
  rw [shortOption, charAt_eq_of_drop hdrop, Fallible.ok_bind]
  dsimp only
  rw [optparseArgtype_flatMap hcolon, htype, charAt_succ_eq_of_drop hdrop]
  rfl

/-- The last option of a cluster, as the cluster's end has it. -/
theorem shortOption_last (hcolon : ∀ row ∈ longopts, row.shortname ≠ ':')
    (hdrop : arg.drop (options.subopt + 1) = c :: cs) (hoptarg : options.optarg = none)
    (herrmsg : options.errmsg = []) {ending : ArgEnd}
    (hread : readCluster longopts c cs = ([], ending)) {answer : Answer}
    (hanswer : ending.answer options.argv[options.optind + 1]? = answer) :
    ∃ options', shortOption (longopts.flatMap rowString) arg options
        = .ok (some answer.option, options') ∧ Gives options options' answer := by
  subst hanswer
  rw [shortOption, charAt_eq_of_drop hdrop, Fallible.ok_bind]
  dsimp only
  rw [optparseArgtype_flatMap hcolon, charAt_succ_eq_of_drop hdrop, drop_succ_of_drop hdrop]
  unfold readCluster at hread
  cases htype : shortType longopts c with
  | none =>
    rw [htype] at hread
    cases hread
    dsimp only
    rw [optparseError_eq (by decide)]
    exact ⟨_, rfl, rfl, rfl, rfl, hoptarg, rfl, fun h ↦ absurd h (errorText_ne_nil _ _)⟩
  | some argtype =>
    rw [htype] at hread
    cases argtype with
    | none =>
      cases cs with
      | nil => cases hread; exact ⟨_, rfl, rfl, rfl, rfl, hoptarg, herrmsg, fun _ ↦ rfl⟩
      | cons d ds => cases hread
    | required =>
      cases cs with
      | nil =>
        cases hread
        cases hnext : options.argv[options.optind + 1]? with
        | none =>
          dsimp only [List.head?_nil, Fallible.ok_bind]
          rw [optparseError_eq (by decide)]
          exact ⟨_, rfl, rfl, rfl, rfl, rfl, rfl, fun h ↦ absurd h (errorText_ne_nil _ _)⟩
        | some value => exact ⟨_, rfl, rfl, rfl, rfl, rfl, herrmsg, fun _ ↦ rfl⟩
      | cons d ds => cases hread; exact ⟨_, rfl, rfl, rfl, rfl, rfl, herrmsg, fun _ ↦ rfl⟩
    | optional =>
      cases cs with
      | nil => cases hread; exact ⟨_, rfl, rfl, rfl, rfl, rfl, herrmsg, fun _ ↦ rfl⟩
      | cons d ds => cases hread; exact ⟨_, rfl, rfl, rfl, rfl, rfl, herrmsg, fun _ ↦ rfl⟩

end Short

/-! ### Long options -/

theorem longOption_last {longopts : List OptparseLong} (hsub : options.subopt = 0) {answer : Answer}
    (hanswer : (readLong longopts (arg.drop 2)).answer options.argv[options.optind + 1]? = answer) :
    ∃ options', longOption longopts arg options = .ok (some answer.option, options') ∧
      Gives options options' answer := by
  subst hanswer
  rw [readLong, longOption]
  dsimp only
  cases longopts.find? fun row ↦ optparseLongoptsMatch row.longname (arg.drop 2) with
  | none =>
    dsimp only
    rw [optparseError_eq (by decide)]
    exact ⟨_, rfl, rfl, rfl, rfl, rfl, rfl, fun h ↦ absurd h (errorText_ne_nil _ _)⟩
  | some row =>
    dsimp only
    cases optparseLongoptsArg (arg.drop 2) with
    | some value =>
      dsimp only
      by_cases hnone : row.argtype = .none
      · rw [if_pos hnone, if_pos hnone, optparseError_eq (by decide)]
        exact ⟨_, rfl, rfl, rfl, rfl, rfl, rfl, fun h ↦ absurd h (errorText_ne_nil _ _)⟩
      · rw [if_neg hnone, if_neg hnone]
        exact ⟨_, rfl, rfl, rfl, rfl, rfl, rfl, fun _ ↦ hsub⟩
    | none =>
      dsimp only
      by_cases hrequired : row.argtype = .required
      · rw [if_pos hrequired, if_pos hrequired]
        dsimp only [clearResults]
        cases options.argv[options.optind + 1]? with
        | none =>
          dsimp only
          rw [optparseError_eq (by decide)]
          exact ⟨_, rfl, rfl, rfl, rfl, rfl, rfl, fun h ↦ absurd h (errorText_ne_nil _ _)⟩
        | some value => exact ⟨_, rfl, rfl, rfl, rfl, rfl, rfl, fun _ ↦ hsub⟩
      · rw [if_neg hrequired, if_neg hrequired]
        exact ⟨_, rfl, rfl, rfl, rfl, rfl, rfl, fun _ ↦ hsub⟩

end Frame

/-! ## The calls -/

section Calls

variable {longopts : List OptparseLong} {options : Optparse}
  {consumed pending rest : List CString} {arg : CString} {subopt : ℕ}

theorem eq_of_isDashdash (h : optparseIsDashdash arg = true) : arg = ['-', '-'] := by
  unfold optparseIsDashdash at h
  split at h
  · rfl
  · cases h

theorem optparseIsDashdash_of_isOption (h : isOption arg = true) :
    optparseIsDashdash arg = false := by
  refine Bool.eq_false_iff.mpr fun hdash ↦ ?_
  rw [eq_of_isDashdash hdash] at h
  cases h

theorem isOption_of_isShortopt (h : optparseIsShortopt arg = true) : isOption arg = true := by
  rw [isOption, h, Bool.true_or]

/-- At an option the frame hands over to the parser of that option. -/
theorem parseFrame_isOption
    {parse : CString → Optparse → Except Fault (Option Char × Optparse)}
    (h : isOption arg = true) :
    parseFrame id isOption parse (arg :: rest) options = parse arg options := by
  rw [parseFrame]
  dsimp only [id]
  rw [optparseIsDashdash_of_isOption h, if_neg Bool.false_ne_true, if_pos h]

/-- `optparse`, called at a short option, has nothing to step over. -/
theorem optparseLongFallback_eq {optstring : CString}
    (hfits : optparseFromLong longopts = .ok optstring) (hshort : optparseIsShortopt arg = true)
    (hargv : options.argv.drop options.optind = arg :: rest) :
    optparseLongFallback longopts options = shortOption optstring arg (clearResults options) := by
  have hle : options.optind ≤ options.argv.length := by
    have hlen := congrArg List.length hargv
    rw [List.length_drop, List.length_cons] at hlen
    omega
  rw [optparseLongFallback, hfits, Fallible.ok_bind, optparse, parseArgv,
    if_pos hle, hargv, parseFrame]
  rw [optparseIsDashdash_of_isOption (isOption_of_isShortopt hshort), if_neg Bool.false_ne_true,
    if_pos hshort]

/-- Behind the consumed and the pending arguments. -/
theorem Stands.drop_argv (h : Stands options consumed pending rest subopt) :
    options.argv.drop (consumed.length + pending.length) = rest := by
  rw [h.argv_eq, ← List.append_assoc, ← List.length_append, List.drop_left]

theorem Stands.next_eq (h : Stands options consumed pending (arg :: rest) subopt) :
    options.argv[consumed.length + pending.length + 1]? = rest.head? := by
  rw [← List.head?_drop, ← List.drop_drop, h.drop_argv, List.drop_succ_cons, List.drop_zero]

/-- At the end of `argv` the parser is done. -/
theorem Stands.call_nil (h : Stands options consumed pending [] subopt) :
    ∃ final, optparseLong longopts options = .ok (none, final) ∧
      Stands final consumed pending [] subopt := by
  obtain ⟨final, hcall, hstands, -⟩ := h.moved (k := 0) rfl rfl rfl rfl (Nat.le_refl 0)
  refine ⟨final, hcall, ?_⟩
  rw [List.take_nil, List.append_nil, h.subopt_eq] at hstands
  exact hstands

/-- So it is at `--`, which it consumes. -/
theorem Stands.call_dashdash (h : Stands options consumed pending (arg :: rest) subopt)
    (harg : optparseIsDashdash arg = true) :
    ∃ final, optparseLong longopts options = .ok (none, final) ∧
      Stands final (consumed ++ [arg]) pending rest subopt := by
  have hframe : parseFrame id isOption
      (fun option options ↦
        if optparseIsShortopt option then optparseLongFallback longopts options
        else longOption longopts option options)
      (arg :: rest) { options with optind := consumed.length + pending.length }
        = .ok (none, { options with optind := consumed.length + pending.length + 1 }) := by
    rw [parseFrame]
    dsimp only [id]
    rw [if_pos harg]
  obtain ⟨final, hcall, hstands, -⟩ := h.moved hframe rfl rfl rfl (Nat.succ_le_succ (Nat.zero_le _))
  refine ⟨final, hcall, ?_⟩
  rw [h.subopt_eq] at hstands
  exact hstands

/-- An option that takes no argument, with more of the cluster behind it. -/
theorem Stands.call_flag (htable : ProperTable longopts)
    (h : Stands options consumed pending (arg :: rest) subopt)
    (hshort : optparseIsShortopt arg = true) {c : Char} {cs : CString}
    (hdrop : arg.drop (subopt + 1) = c :: cs) (hcs : cs ≠ [])
    (htype : shortType longopts c = some .none) :
    ∃ final, optparseLong longopts options = .ok (some c, final) ∧
      Stands final consumed pending (arg :: rest) (subopt + 1) ∧
      final.optarg = none ∧ final.errmsg = [] := by
  have hoption := isOption_of_isShortopt hshort
  have hframe : parseFrame id isOption
      (fun option options ↦
        if optparseIsShortopt option then optparseLongFallback longopts options
        else longOption longopts option options)
      (arg :: rest) { options with optind := consumed.length + pending.length }
        = .ok (some c, { clearResults options with
            optind := consumed.length + pending.length
            optopt := c
            subopt := options.subopt + 1 }) := by
    rw [parseFrame_isOption hoption, if_pos hshort,
      optparseLongFallback_eq (optparseFromLong_eq htable.rows_le) hshort h.drop_argv]
    rw [← h.subopt_eq] at hdrop
    exact shortOption_flag htable.ne_colon hdrop hcs htype
  obtain ⟨final, hcall, hstands, hoptarg, herrmsg⟩ := h.moved (k := 0) hframe rfl rfl rfl
    (Nat.zero_le _)
  rw [List.take_zero, List.append_nil, List.drop_zero, h.subopt_eq] at hstands
  exact ⟨final, hcall, hstands, hoptarg, herrmsg⟩

/-- The end of `arg` where `subopt` options of it are read. -/
def EndsWith (longopts : List OptparseLong) (arg : CString) (subopt : ℕ) (ending : ArgEnd) : Prop :=
  (optparseIsShortopt arg = true ∧ ∃ c cs, arg.drop (subopt + 1) = c :: cs ∧
    readCluster longopts c cs = ([], ending)) ∨
  (optparseIsShortopt arg = false ∧ optparseIsLongopt arg = true ∧ subopt = 0 ∧
    ending = readLong longopts (arg.drop 2))

/-- The last option of an argument. -/
theorem Stands.call_last (htable : ProperTable longopts)
    (h : Stands options consumed pending (arg :: rest) subopt) {ending : ArgEnd}
    (hends : EndsWith longopts arg subopt ending) {answer : Answer}
    (hanswer : ending.answer rest.head? = answer) (htaken : answer.taken ≤ (arg :: rest).length) :
    ∃ final, optparseLong longopts options = .ok (some answer.option, final) ∧
      Stands final (consumed ++ (arg :: rest).take answer.taken) pending
        ((arg :: rest).drop answer.taken) final.subopt ∧
      (answer.errmsg = [] → final.subopt = 0) ∧
      final.optarg = answer.optarg ∧ final.errmsg = answer.errmsg := by
  have hframe : ∃ options', parseFrame id isOption
      (fun option options ↦
        if optparseIsShortopt option then optparseLongFallback longopts options
        else longOption longopts option options)
      (arg :: rest) { options with optind := consumed.length + pending.length }
        = .ok (some answer.option, options') ∧
      Gives { options with optind := consumed.length + pending.length } options' answer := by
    have hnext := (congrArg ending.answer h.next_eq).trans hanswer
    obtain ⟨hshort, c, cs, hdrop, hread⟩ | ⟨hshort, hlong, hsub, rfl⟩ := hends
    · rw [parseFrame_isOption (isOption_of_isShortopt hshort), if_pos hshort,
        optparseLongFallback_eq (optparseFromLong_eq htable.rows_le) hshort h.drop_argv]
      rw [← h.subopt_eq] at hdrop
      obtain ⟨options', hcall, hgives⟩ := @shortOption_last
        (clearResults { options with optind := consumed.length + pending.length }) _ _ _ _
        htable.ne_colon hdrop rfl rfl _ hread _ hnext
      exact ⟨options', hcall, hgives.1, hgives.2, hgives.3, hgives.4, hgives.5, hgives.6⟩
    · have hoption : isOption arg = true := by rw [isOption, hlong, Bool.or_true]
      rw [parseFrame_isOption hoption, if_neg (Bool.eq_false_iff.mp hshort)]
      exact @longOption_last { options with optind := consumed.length + pending.length } _ _
        (h.subopt_eq.trans hsub) _ hnext
  obtain ⟨options', hrun, hgives⟩ := hframe
  obtain ⟨final, hcall, hstands, hoptarg, herrmsg⟩ := h.moved hrun hgives.argv_eq hgives.permute_eq
    hgives.optind_eq htaken
  have hsub := hstands.subopt_eq
  refine ⟨final, hcall, ?_, fun hnil ↦ ?_, hoptarg.trans hgives.optarg_eq,
    herrmsg.trans hgives.errmsg_eq⟩
  · rw [hsub]
    exact hstands
  · rw [hsub]
    exact hgives.subopt_eq hnil

end Calls

end DcaConv
