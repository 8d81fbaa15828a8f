import DcaConv.CommandLine.Optparse

/-!
# The table and its `getopt` string

`optparse_long` hands its short options to `optparse`, in the `getopt` string it writes from the
table. The string has room for three characters a row in 96 rows, and `optparse` finds in it what
the table says: the type of an option is that of the first row with its character.

One character cannot be an option: the row of a `:` would be taken for a mark of the row before it.
-/

namespace DcaConv

/-- A row whose short name goes into the string. -/
def OptparseLong.HasShort (row : OptparseLong) : Prop :=
  row.shortname ≠ nul ∧ row.shortname.toNat < 127

instance (row : OptparseLong) : Decidable row.HasShort :=
  inferInstanceAs (Decidable (row.shortname ≠ nul ∧ row.shortname.toNat < 127))

/-- The first row for a character. -/
def shortRow (longopts : List OptparseLong) (c : Char) : Option OptparseLong :=
  longopts.find? fun row ↦ decide (row.HasShort ∧ row.shortname = c)

/-- The type of an option, by its first row. -/
def shortType (longopts : List OptparseLong) (c : Char) : Option OptparseArgtype :=
  (shortRow longopts c).map (·.argtype)

/-- What the parsers rely on in a table: it fits the buffer, and no option is named like the mark of
an argument or like the answer to an error. -/
structure ProperTable (longopts : List OptparseLong) : Prop where
  rows_le : longopts.length ≤ 96
  ne_colon : ∀ row ∈ longopts, row.shortname ≠ ':'
  ne_question : ∀ row ∈ longopts, row.shortname ≠ '?'

instance (longopts : List OptparseLong) : Decidable (ProperTable longopts) :=
  decidable_of_iff (longopts.length ≤ 96 ∧ (∀ row ∈ longopts, row.shortname ≠ ':') ∧
    ∀ row ∈ longopts, row.shortname ≠ '?')
    ⟨fun h ↦ ⟨h.1, h.2.1, h.2.2⟩, fun h ↦ ⟨h.rows_le, h.ne_colon, h.ne_question⟩⟩

section Table

variable {longopts : List OptparseLong} {row : OptparseLong} {c : Char}

theorem shortRow_mem (h : shortRow longopts c = some row) :
    row ∈ longopts ∧ row.HasShort ∧ row.shortname = c := by
  have hfound := List.find?_some h
  exact ⟨List.mem_of_find?_eq_some h, of_decide_eq_true hfound⟩

/-! ## The room -/

theorem rowString_of_hasShort (h : row.HasShort) :
    rowString row = row.shortname :: List.replicate row.argtype.value ':' := if_pos h

theorem rowString_of_not (h : ¬row.HasShort) : rowString row = [] := if_neg h

theorem length_rowString_le (row : OptparseLong) : (rowString row).length ≤ 3 := by
  by_cases h : row.HasShort
  · rw [rowString_of_hasShort h, List.length_cons, List.length_replicate]
    cases row.argtype <;> decide
  · rw [rowString_of_not h]
    exact Nat.zero_le 3

theorem length_flatMap_rowString_le (longopts : List OptparseLong) :
    (longopts.flatMap rowString).length ≤ 3 * longopts.length := by
  induction longopts with
  | nil => exact Nat.le_refl 0
  | cons row longopts ih =>
    have hrow := length_rowString_le row
    rw [List.flatMap_cons, List.length_append, List.length_cons]
    omega

theorem optparseFromLong_eq (h : longopts.length ≤ 96) :
    optparseFromLong longopts = .ok (longopts.flatMap rowString) := by
  have hle := length_flatMap_rowString_le longopts
  refine if_pos ?_
  rw [optstringSize]
  omega

/-! ## The meaning -/

/-- The string never starts with a mark. -/
theorem head_flatMap_rowString (hcolon : ∀ row ∈ longopts, row.shortname ≠ ':') (rest : CString) :
    longopts.flatMap rowString ≠ ':' :: rest := by
  induction longopts with
  | nil => exact fun h ↦ by cases h
  | cons row longopts ih =>
    rw [List.flatMap_cons]
    by_cases hshort : row.HasShort
    · rw [rowString_of_hasShort hshort, List.cons_append]
      intro h
      exact hcolon row List.mem_cons_self (List.cons.inj h).1
    · rw [rowString_of_not hshort, List.nil_append]
      exact ih fun row hrow ↦ hcolon row (List.mem_cons_of_mem _ hrow)

/-- The type read at a row's own character. -/
theorem optparseArgtype_of_dropWhile {optstring rest : CString} (hc : c ≠ ':')
    (hrest : ∀ tail, rest ≠ ':' :: tail) {argtype : OptparseArgtype}
    (h : optstring.dropWhile (· ≠ c) = c :: (List.replicate argtype.value ':' ++ rest)) :
    optparseArgtype optstring c = some argtype := by
  rw [optparseArgtype, if_neg hc, h]
  cases argtype with
  | none =>
    match rest with
    | [] => rfl
    | d :: tail =>
      have hd : d ≠ ':' := fun heq ↦ hrest tail (heq ▸ rfl)
      dsimp [OptparseArgtype.value]
      split
      · next heq => cases heq
      · next heq => cases heq; exact absurd rfl hd
      · next heq => cases heq; exact absurd rfl hd
      · rfl
  | required =>
    match rest with
    | [] => rfl
    | d :: tail =>
      have hd : d ≠ ':' := fun heq ↦ hrest tail (heq ▸ rfl)
      dsimp [OptparseArgtype.value, List.replicate]
      split
      · next heq => cases heq
      · next heq => cases heq; exact absurd rfl hd
      · rfl
      · next hno => exact absurd rfl (hno _ _)
  | optional => rfl

/-- A string of other characters is skipped. -/
theorem optparseArgtype_append_of_not_mem {pre optstring : CString} (h : c ∉ pre) :
    optparseArgtype (pre ++ optstring) c = optparseArgtype optstring c := by
  have hdrop : (pre ++ optstring).dropWhile (· ≠ c) = optstring.dropWhile (· ≠ c) := by
    rw [List.dropWhile_append_of_pos]
    intro d hd
    exact decide_eq_true fun heq ↦ h (heq ▸ hd)
  rw [optparseArgtype, optparseArgtype, hdrop]

theorem shortRow_colon (hcolon : ∀ row ∈ longopts, row.shortname ≠ ':') :
    shortRow longopts ':' = none := by
  rw [shortRow, List.find?_eq_none]
  intro row hrow
  rw [decide_eq_true_iff]
  exact fun h ↦ hcolon row hrow h.2

theorem optparseArgtype_flatMap (hcolon : ∀ row ∈ longopts, row.shortname ≠ ':') (c : Char) :
    optparseArgtype (longopts.flatMap rowString) c = shortType longopts c := by
  by_cases hc : c = ':'
  · rw [hc, shortType, shortRow_colon hcolon, optparseArgtype, if_pos rfl]
    rfl
  induction longopts with
  | nil => rw [optparseArgtype, if_neg hc]; rfl
  | cons row longopts ih =>
    have htail : ∀ row ∈ longopts, row.shortname ≠ ':' :=
      fun row hrow ↦ hcolon row (List.mem_cons_of_mem _ hrow)
    rw [List.flatMap_cons, shortType, shortRow, List.find?_cons]
    by_cases hshort : row.HasShort
    · rw [rowString_of_hasShort hshort]
      by_cases hrow : row.shortname = c
      · rw [decide_eq_true (And.intro hshort hrow)]
        refine optparseArgtype_of_dropWhile hc (head_flatMap_rowString htail) ?_
        rw [hrow, List.cons_append, List.dropWhile_cons_of_neg]
        exact fun h ↦ of_decide_eq_true h rfl
      · rw [decide_eq_false fun h ↦ hrow h.2, optparseArgtype_append_of_not_mem]
        · exact ih htail
        · rintro (_ | ⟨_, hmem⟩)
          · exact hrow rfl
          · exact hc (List.eq_of_mem_replicate hmem)
    · rw [rowString_of_not hshort, List.nil_append, decide_eq_false fun h ↦ hshort h.1]
      exact ih htail

/-- **The `getopt` string.** For a table of at most 96 rows without a `:`, the string fits its
buffer, and every character has the type of its row in it. -/
theorem getopt_string_eq_table (hrows : longopts.length ≤ 96)
    (hcolon : ∀ row ∈ longopts, row.shortname ≠ ':') :
    ∃ optstring, optparseFromLong longopts = .ok optstring ∧
      ∀ c, optparseArgtype optstring c = shortType longopts c :=
  ⟨_, optparseFromLong_eq hrows, optparseArgtype_flatMap hcolon⟩

end Table

/-- The string of a flag, a long option and two options with arguments. -/
theorem getopt_string_of_four :
    ∃ optstring, optparseFromLong
        [⟨none, 'l', .none⟩, ⟨some "in".toList, nul, .required⟩, ⟨none, 'o', .required⟩,
          ⟨none, 't', .optional⟩] = .ok optstring ∧
      ∀ c, optparseArgtype optstring c = shortType
        [⟨none, 'l', .none⟩, ⟨some "in".toList, nul, .required⟩, ⟨none, 'o', .required⟩,
          ⟨none, 't', .optional⟩] c :=
  getopt_string_eq_table (by decide) (by decide)

end DcaConv
