import Mathlib.Order.Monotone.Basic

/-!
# Bounded scans

The two loops that look for an index with a property: upwards from 0 to below a bound, and downwards
from a start to above a bound. Each is characterised by what it has seen when it stops.
-/

namespace Scan

variable {p : ℕ → Bool}

/-- The first index below `stop` with the property. -/
def up (p : ℕ → Bool) (stop : ℕ) : Option ℕ := (List.range stop).find? p

/-- The first index met going down from the start, as long as it is above `stop`. -/
def down (p : ℕ → Bool) (stop : ℕ) : ℕ → Option ℕ
  | 0 => none
  | i + 1 => if stop < i + 1 then (if p (i + 1) then some (i + 1) else down p stop i) else none

theorem up_eq_some_iff {stop i : ℕ} :
    up p stop = some i ↔ i < stop ∧ p i = true ∧ ∀ j < i, p j = false := by
  rw [up, List.find?_range_eq_some, List.mem_range]
  simp only [Bool.not_eq_true']
  exact ⟨fun ⟨hp, hi, hj⟩ ↦ ⟨hi, hp, hj⟩, fun ⟨hi, hp, hj⟩ ↦ ⟨hp, hi, hj⟩⟩

theorem up_eq_none_iff {stop : ℕ} : up p stop = none ↔ ∀ i < stop, p i = false := by
  rw [up, List.find?_range_eq_none]
  simp only [Bool.not_eq_true']

theorem down_eq_some_iff {stop start i : ℕ} : down p stop start = some i ↔
    stop < i ∧ i ≤ start ∧ p i = true ∧ ∀ j, i < j → j ≤ start → p j = false := by
  induction start with
  | zero => exact iff_of_false (fun h ↦ by cases h) fun ⟨hi, hle, _⟩ ↦ by omega
  | succ n ih =>
    rw [down]
    by_cases hstop : stop < n + 1
    · rw [if_pos hstop]
      cases hp : p (n + 1) with
      | true =>
        rw [if_pos rfl, Option.some.injEq]
        constructor
        · rintro rfl
          exact ⟨hstop, le_refl _, hp, fun j hj hle ↦ by omega⟩
        · rintro ⟨-, hle, -, hj⟩
          by_contra hne
          have := hj (n + 1) (by omega) (le_refl _)
          rw [hp] at this
          cases this
      | false =>
        rw [if_neg Bool.false_ne_true, ih]
        constructor
        · rintro ⟨hi, hle, hpi, hj⟩
          refine ⟨hi, by omega, hpi, fun j hij hjn ↦ ?_⟩
          rcases Nat.lt_or_ge j (n + 1) with h | h
          · exact hj j hij (by omega)
          · rw [show j = n + 1 from by omega, hp]
        · rintro ⟨hi, hle, hpi, hj⟩
          have hne : i ≠ n + 1 := by
            rintro rfl
            rw [hp] at hpi
            cases hpi
          exact ⟨hi, by omega, hpi, fun j hij hjn ↦ hj j hij (by omega)⟩
    · rw [if_neg hstop]
      exact iff_of_false (fun h ↦ by cases h) fun ⟨hi, hle, _⟩ ↦ by omega

/-! ## What a scan looks at -/

section Visited

variable {α : Type*}

/-- The elements a search looks at: all up to the first with the property. -/
def visited (p : α → Bool) : List α → List α
  | [] => []
  | a :: l => a :: if p a then [] else visited p l

theorem visited_subset (p : α → Bool) (l : List α) : visited p l ⊆ l := by
  induction l with
  | nil => exact List.Subset.refl _
  | cons a l ih =>
    rw [visited]
    apply List.cons_subset_cons
    split
    · exact List.nil_subset _
    · exact ih

end Visited

/-- The indices of the downward scan, in its order. -/
def descending (stop : ℕ) : ℕ → List ℕ
  | 0 => []
  | i + 1 => if stop < i + 1 then (i + 1) :: descending stop i else []

theorem descending_of_lt {stop i : ℕ} (h : stop < i + 1) :
    descending stop (i + 1) = (i + 1) :: descending stop i := if_pos h

theorem down_eq_find? (p : ℕ → Bool) (stop start : ℕ) :
    down p stop start = (descending stop start).find? p := by
  induction start with
  | zero => rfl
  | succ i ih =>
    rw [down, descending]
    split
    · rw [List.find?_cons, ih]
      cases p (i + 1) <;> rfl
    · rfl

theorem mem_descending {stop start i : ℕ} : i ∈ descending stop start ↔ stop < i ∧ i ≤ start := by
  induction start with
  | zero => exact iff_of_false List.not_mem_nil fun ⟨hi, hle⟩ ↦ by omega
  | succ n ih =>
    by_cases hstop : stop < n + 1
    · rw [descending_of_lt hstop, List.mem_cons, ih]
      omega
    · rw [descending, if_neg hstop]
      exact iff_of_false List.not_mem_nil fun ⟨hi, hle⟩ ↦ by omega

theorem down_eq_none_iff {stop start : ℕ} :
    down p stop start = none ↔ ∀ i, stop < i → i ≤ start → p i = false := by
  rw [down_eq_find?, List.find?_eq_none]
  simp only [mem_descending, Bool.not_eq_true, and_imp]

/-- A downward scan that runs at all looks at its start. -/
theorem start_mem_visited_descending (p : ℕ → Bool) {stop start : ℕ} (h : stop < start) :
    start ∈ visited p (descending stop start) := by
  obtain ⟨i, rfl⟩ := Nat.exists_eq_add_one_of_ne_zero (Nat.ne_zero_of_lt h)
  rw [descending_of_lt h, visited]
  exact List.mem_cons_self

end Scan
