import Mathlib.Data.Nat.Notation

/-!
# Stateful programs and do-while loops

A program with variables `σ` that may get stuck is an `EStateM ε σ α`. An error keeps the variables
as they were when it was raised, so a statement about every point of a run covers the runs that get
stuck. A do-while loop is its body run again and again, and is looked at after any number of turns:
what every turn preserves holds at every point, and a run that ends is put together from its turns.
-/

namespace Program

variable {ε σ α β : Type}

/-! ## Pre- and postconditions -/

/-- A result in `Q`, or an error in `E`. -/
def Meets (Q : α → σ → Prop) (E : ε → σ → Prop) : EStateM.Result ε σ α → Prop
  | .ok a s => Q a s
  | .error e s => E e s

/-- From a state in `P`, a run of `x` that returns leaves `Q` and one that gets stuck leaves `E`. -/
structure Ensures (P : σ → Prop) (x : EStateM ε σ α) (Q : α → σ → Prop) (E : ε → σ → Prop) :
    Prop where
  run : ∀ s, P s → Meets Q E (x.run s)

section Rules

variable {P : σ → Prop} {E : ε → σ → Prop}

theorem Ensures.pure {Q : α → σ → Prop} {a : α} (h : ∀ s, P s → Q a s) :
    Ensures P (Pure.pure a : EStateM ε σ α) Q E := ⟨h⟩

theorem Ensures.bind {x : EStateM ε σ α} {f : α → EStateM ε σ β} {Q : α → σ → Prop}
    {R : β → σ → Prop} (hx : Ensures P x Q E) (hf : ∀ a, Ensures (Q a) (f a) R E) :
    Ensures P (x >>= f) R E := by
  refine ⟨fun s hs ↦ ?_⟩
  have hrun := hx.run s hs
  rw [EStateM.run_bind]
  cases hres : x.run s with
  | ok a t =>
    rw [hres] at hrun
    exact (hf a).run t hrun
  | error e t =>
    rw [hres] at hrun
    exact hrun

/-- A fact about a value is at hand in what follows it. -/
theorem Ensures.of_fact {p : Prop} {x : EStateM ε σ α} {Q : α → σ → Prop}
    (h : p → Ensures P x Q E) : Ensures (fun s ↦ p ∧ P s) x Q E :=
  ⟨fun s hs ↦ (h hs.1).run s hs.2⟩

theorem Ensures.ite {c : Prop} [Decidable c] {x y : EStateM ε σ α} {Q : α → σ → Prop}
    (hx : Ensures P x Q E) (hy : Ensures P y Q E) : Ensures P (if c then x else y) Q E := by
  split
  · exact hx
  · exact hy

end Rules

/-! ## Runs that return -/

/-- The run from `s` returns `a` and leaves `Q`. -/
def Returns (x : EStateM ε σ α) (s : σ) (a : α) (Q : σ → Prop) : Prop :=
  ∃ t, x.run s = .ok a t ∧ Q t

theorem Returns.pure {s : σ} {a : α} {Q : σ → Prop} (h : Q s) :
    Returns (Pure.pure a : EStateM ε σ α) s a Q := ⟨s, rfl, h⟩

theorem Returns.bind {x : EStateM ε σ α} {f : α → EStateM ε σ β} {s : σ} {a : α} {b : β}
    {Q R : σ → Prop} (hx : Returns x s a Q) (hf : ∀ t, Q t → Returns (f a) t b R) :
    Returns (x >>= f) s b R := by
  obtain ⟨t, hrun, ht⟩ := hx
  obtain ⟨u, hrest, hu⟩ := hf t ht
  exact ⟨u, by rw [EStateM.run_bind, hrun]; exact hrest, hu⟩

/-! ## Do-while loops -/

/-- A loop after some turns: not finished, finished, or stuck inside its body. -/
inductive Outcome (ε σ : Type) where
  | running (s : σ)
  | done (s : σ)
  | stuck (e : ε) (s : σ)

/-- The variables at that point. -/
def Outcome.state : Outcome ε σ → σ
  | .running s => s
  | .done s => s
  | .stuck _ s => s

/-- `turns` turns of a do-while loop. The body returns whether to go on. -/
def doWhile (body : EStateM ε σ Bool) : ℕ → σ → Outcome ε σ
  | 0, s => .running s
  | turns + 1, s =>
    match body.run s with
    | .ok true s' => doWhile body turns s'
    | .ok false s' => .done s'
    | .error e s' => .stuck e s'

section Loop

variable {body : EStateM ε σ Bool} {s : σ} {Q R : σ → Prop}

/-- **Invariant rule.** What the body preserves, stuck or not, holds at every point of a run. -/
theorem doWhile_invariant {I : σ → Prop} {Err : ε → Prop}
    (hbody : Ensures I body (fun _ ↦ I) fun e s ↦ I s ∧ Err e) (turns : ℕ) (hs : I s) :
    I (doWhile body turns s).state ∧ ∀ e t, doWhile body turns s = .stuck e t → Err e := by
  induction turns generalizing s with
  | zero => exact ⟨hs, fun e t h ↦ by cases h⟩
  | succ turns ih =>
    rw [doWhile]
    have hrun := hbody.run s hs
    cases hres : body.run s with
    | ok more s' =>
      rw [hres] at hrun
      cases more with
      | true => exact ih hrun
      | false => exact ⟨hrun, fun e t h ↦ by cases h⟩
    | error e s' =>
      rw [hres] at hrun
      exact ⟨hrun.1, fun e' t h ↦ by cases h; exact hrun.2⟩

/-- The loop ends, and leaves `Q`. -/
def Halts (body : EStateM ε σ Bool) (s : σ) (Q : σ → Prop) : Prop :=
  ∃ turns t, doWhile body turns s = .done t ∧ Q t

theorem Halts.last (h : Returns body s false Q) : Halts body s Q := by
  obtain ⟨t, hrun, ht⟩ := h
  exact ⟨1, t, by rw [doWhile, hrun], ht⟩

theorem Halts.turn (h : Returns body s true R) (hrest : ∀ t, R t → Halts body t Q) :
    Halts body s Q := by
  obtain ⟨t, hrun, ht⟩ := h
  obtain ⟨turns, u, hturns, hu⟩ := hrest t ht
  exact ⟨turns + 1, u, by rw [doWhile, hrun]; exact hturns, hu⟩

theorem Halts.imp (h : Halts body s R) (hRQ : ∀ t, R t → Q t) : Halts body s Q := by
  obtain ⟨turns, t, hdone, ht⟩ := h
  exact ⟨turns, t, hdone, hRQ t ht⟩

end Loop

end Program
