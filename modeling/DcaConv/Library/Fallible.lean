import Mathlib.Data.List.Forall2

/-!
# Computations that may fail

`Except` as a monad of runs that may stop: when a sequence succeeds, what a successful pass over a
list did at every element, and the rules for a fold.
-/

namespace Fallible

universe u

variable {α β ε : Type*}

/-! ## Sequencing -/

@[simp] theorem ok_bind {γ δ : Type u} (a : γ) (f : γ → Except ε δ) :
    (Except.ok a >>= f) = f a := rfl

theorem bind_eq_ok {γ δ : Type u} {x : Except ε γ} {f : γ → Except ε δ} {b : δ} :
    (x >>= f) = .ok b ↔ ∃ a, x = .ok a ∧ f a = .ok b := by
  cases x with
  | error e => exact iff_of_false (fun h ↦ by cases h) fun ⟨_, h, _⟩ ↦ by cases h
  | ok a => exact ⟨fun h ↦ ⟨a, rfl, h⟩, fun ⟨_, ha, h⟩ ↦ by cases ha; exact h⟩

theorem mapError_eq_ok {γ ε' : Type*} {x : Except ε γ} {f : ε → ε'} {a : γ} :
    x.mapError f = .ok a ↔ x = .ok a := by
  cases x with
  | error e => exact iff_of_false (fun h ↦ by cases h) fun h ↦ by cases h
  | ok b => exact ⟨fun h ↦ by cases h; rfl, fun h ↦ by cases h; rfl⟩

theorem map_eq_ok {γ δ : Type*} {x : Except ε γ} {f : γ → δ} {b : δ} :
    x.map f = .ok b ↔ ∃ a, x = .ok a ∧ f a = b := by
  cases x with
  | error e =>
    refine iff_of_false (fun h ↦ by cases h) ?_
    rintro ⟨a, h, -⟩
    cases h
  | ok a =>
    constructor
    · intro h
      cases h
      exact ⟨a, rfl, rfl⟩
    · rintro ⟨a', ha, rfl⟩
      cases ha
      rfl

theorem map_bind {γ δ η : Type u} (x : Except ε γ) (f : γ → Except ε δ) (g : δ → η) :
    (x >>= f).map g = x >>= fun a ↦ (f a).map g := by
  cases x <;> rfl

/-- Neither part fails in this way, so the whole does not. -/
theorem bind_ne_error {γ δ : Type u} {x : Except ε γ} {f : γ → Except ε δ} {e : ε}
    (hx : x ≠ .error e) (hf : ∀ a, f a ≠ .error e) : (x >>= f) ≠ .error e := by
  cases x with
  | error e' => exact fun h ↦ hx (by cases h; rfl)
  | ok a => exact hf a

theorem mapError_ne_error {γ ε' : Type*} {x : Except ε γ} {f : ε → ε'} {e' : ε'}
    (hf : ∀ e, f e ≠ e') : x.mapError f ≠ .error e' := by
  cases x with
  | error e => exact fun h ↦ hf e (by cases h; rfl)
  | ok a => exact fun h ↦ by cases h

/-- A sequence that fails in one way at most gets past a first part that does not fail in it. -/
theorem exists_ok_of_bind {γ δ : Type u} {x : Except ε γ} {f : γ → Except ε δ} {e : ε}
    (hx : x ≠ .error e) (hall : ∀ e', (x >>= f) = .error e' → e' = e) :
    ∃ a, x = .ok a ∧ ∀ e', f a = .error e' → e' = e := by
  cases x with
  | error e' => exact absurd (congrArg _ (hall e' rfl)) hx
  | ok a => exact ⟨a, rfl, hall⟩

/-! ## An action at every element -/

theorem mapM_eq_ok_iff {f : α → Except ε β} {l : List α} {bs : List β} :
    l.mapM f = .ok bs ↔ List.Forall₂ (fun a b ↦ f a = .ok b) l bs := by
  induction l generalizing bs with
  | nil =>
    rw [List.mapM_nil, List.forall₂_nil_left_iff]
    exact ⟨fun h ↦ by cases h; rfl, fun h ↦ by rw [h]; rfl⟩
  | cons a l ih =>
    rw [List.mapM_cons, List.forall₂_cons_left_iff]
    cases ha : f a with
    | error e => exact iff_of_false (fun h ↦ by cases h) (by rintro ⟨b, bs', h, -⟩; cases h)
    | ok b =>
      cases hl : l.mapM f with
      | error e =>
        refine iff_of_false (fun h ↦ by cases h) ?_
        rintro ⟨b', bs', -, h, -⟩
        rw [← ih, hl] at h
        cases h
      | ok bs' =>
        constructor
        · intro h
          cases h
          exact ⟨b, bs', rfl, ih.mp hl, rfl⟩
        · rintro ⟨b', bs'', hb, hbs, rfl⟩
          cases hb
          rw [← ih, hl] at hbs
          cases hbs
          rfl

theorem mapM_congr {f g : α → Except ε β} {l : List α} (h : ∀ a ∈ l, f a = g a) :
    l.mapM f = l.mapM g := by
  induction l with
  | nil => rfl
  | cons a l ih =>
    rw [List.mapM_cons, List.mapM_cons, h a List.mem_cons_self,
      ih fun a' ha' ↦ h a' (List.mem_cons_of_mem _ ha')]

theorem mapM_eq_ok_map {f : α → Except ε β} {g : α → β} {l : List α}
    (h : ∀ a ∈ l, f a = .ok (g a)) : l.mapM f = .ok (l.map g) := by
  rw [mapM_eq_ok_iff, List.forall₂_map_right_iff, List.forall₂_same]
  exact h

/-- What a successful action makes of an element decides what it makes of the list. -/
theorem eq_map_of_mapM_eq_ok {f : α → Except ε β} {g : α → β} {l : List α} {bs : List β}
    (hg : ∀ a b, f a = .ok b → b = g a) (h : l.mapM f = .ok bs) : bs = l.map g := by
  rw [mapM_eq_ok_iff] at h
  induction h with
  | nil => rfl
  | cons hab _ ih => rw [List.map_cons, ← ih, ← hg _ _ hab]

/-- The action succeeds on a list when it does at every element. -/
theorem exists_mapM_eq_ok {f : α → Except ε β} {l : List α} :
    (∃ bs, l.mapM f = .ok bs) ↔ ∀ a ∈ l, ∃ b, f a = .ok b := by
  constructor
  · rintro ⟨bs, h⟩ a ha
    obtain ⟨i, hi, rfl⟩ := List.getElem_of_mem ha
    rw [mapM_eq_ok_iff, List.forall₂_iff_get] at h
    exact ⟨_, h.2 i hi (h.1 ▸ hi)⟩
  · intro h
    induction l with
    | nil => exact ⟨[], rfl⟩
    | cons a l ih =>
      obtain ⟨b, hb⟩ := h a List.mem_cons_self
      obtain ⟨bs, hbs⟩ := ih fun a' ha' ↦ h a' (List.mem_cons_of_mem _ ha')
      exact ⟨b :: bs, mapM_eq_ok_iff.mpr (List.Forall₂.cons hb (mapM_eq_ok_iff.mp hbs))⟩

theorem exists_of_mem_of_mapM_eq_ok {f : α → Except ε β} {l : List α} {bs : List β}
    (h : l.mapM f = .ok bs) {b : β} (hb : b ∈ bs) : ∃ a ∈ l, f a = .ok b := by
  obtain ⟨i, hi, rfl⟩ := List.getElem_of_mem hb
  rw [mapM_eq_ok_iff, List.forall₂_iff_get] at h
  have hi' : i < l.length := h.1 ▸ hi
  exact ⟨l[i], List.getElem_mem hi', h.2 i hi' hi⟩

/-! ## Folds -/

theorem foldlM_congr {σ : Type u} {f g : σ → α → Except ε σ} {l : List α}
    (h : ∀ s, ∀ a ∈ l, f s a = g s a) (s : σ) : l.foldlM f s = l.foldlM g s := by
  induction l generalizing s with
  | nil => rfl
  | cons a l ih =>
    rw [List.foldlM_cons, List.foldlM_cons, h s a List.mem_cons_self]
    exact bind_congr fun t ↦ ih (fun s' a' ha' ↦ h s' a' (List.mem_cons_of_mem _ ha')) t

/-- A successful fold has taken the step at every element, from some state. -/
theorem exists_step_of_foldlM {σ : Type u} {f : σ → α → Except ε σ} {s s' : σ} {l : List α}
    (h : l.foldlM f s = .ok s') {a : α} (ha : a ∈ l) : ∃ t t', f t a = .ok t' := by
  induction l generalizing s with
  | nil => cases ha
  | cons b l ih =>
    rw [List.foldlM_cons] at h
    obtain ⟨t, ht, hrest⟩ := bind_eq_ok.mp h
    rcases List.mem_cons.mp ha with rfl | ha
    · exact ⟨s, t, ht⟩
    · exact ih hrest ha

/-- A fold that fails has failed at an element. -/
theorem exists_error_of_foldlM {σ : Type u} {f : σ → α → Except ε σ} {s : σ} {e : ε} {l : List α}
    (h : l.foldlM f s = .error e) : ∃ t, ∃ a ∈ l, f t a = .error e := by
  induction l generalizing s with
  | nil => cases h
  | cons b l ih =>
    rw [List.foldlM_cons] at h
    cases hb : f s b with
    | error e' =>
      rw [hb] at h
      cases h
      exact ⟨s, b, List.mem_cons_self, hb⟩
    | ok t =>
      rw [hb, ok_bind] at h
      obtain ⟨t', a, ha, hstep⟩ := ih h
      exact ⟨t', a, List.mem_cons_of_mem _ ha, hstep⟩

/-- **Invariant rule.** What every successful step preserves holds at the end of a successful
fold. -/
theorem foldlM_invariant {σ : Type u} {f : σ → α → Except ε σ} {P : σ → Prop}
    (hstep : ∀ s a s', P s → f s a = .ok s' → P s') {s s' : σ} {l : List α} (hs : P s)
    (h : l.foldlM f s = .ok s') : P s' := by
  induction l generalizing s with
  | nil =>
    rw [List.foldlM_nil] at h
    cases h
    exact hs
  | cons a l ih =>
    rw [List.foldlM_cons] at h
    obtain ⟨t, ht, hrest⟩ := bind_eq_ok.mp h
    exact ih (hstep s a t hs ht) hrest

/-- A fold succeeds if every step does from a state of the invariant, and keeps it. -/
theorem exists_foldlM_of_invariant {σ : Type u} {f : σ → α → Except ε σ} {P : σ → Prop}
    {l : List α} (hstep : ∀ s, P s → ∀ a ∈ l, ∃ s', f s a = .ok s' ∧ P s') {s : σ} (hs : P s) :
    ∃ s', l.foldlM f s = .ok s' ∧ P s' := by
  induction l generalizing s with
  | nil => exact ⟨s, rfl, hs⟩
  | cons a l ih =>
    obtain ⟨t, ht, hpt⟩ := hstep s hs a List.mem_cons_self
    rw [List.foldlM_cons, ht, ok_bind]
    exact ih (fun s' hs' b hb ↦ hstep s' hs' b (List.mem_cons_of_mem _ hb)) hpt

end Fallible
