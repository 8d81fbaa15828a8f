import Mathlib.Data.List.Forall2
import Mathlib.Data.List.TakeDrop
import Mathlib.Logic.Function.Iterate

/-!
# Transducers

A transducer reads one symbol at a time, emits one and changes state. When a second transducer,
fed what the first emits, tracks it in one step, it tracks it over every run; with equality as the
relation the two pass through the same states. That is the shape of an encoder and its decoder.

The last section packs an emitted sequence two symbols at a time, the final symbol alone when the
count is odd.
-/

/-- One step: the symbol emitted and the next state. -/
structure Transducer (σ α β : Type*) where
  step : σ → α → β × σ

namespace Transducer

variable {σ τ α β γ δ : Type*}

/-- The symbols emitted on an input. -/
def outputs (T : Transducer σ α β) : σ → List α → List β
  | _, [] => []
  | s, a :: as => (T.step s a).1 :: T.outputs (T.step s a).2 as

/-- The states after each symbol of an input. -/
def states (T : Transducer σ α β) : σ → List α → List σ
  | _, [] => []
  | s, a :: as => (T.step s a).2 :: T.states (T.step s a).2 as

@[simp] theorem outputs_cons (T : Transducer σ α β) (s : σ) (a : α) (as : List α) :
    T.outputs s (a :: as) = (T.step s a).1 :: T.outputs (T.step s a).2 as := rfl

@[simp] theorem states_cons (T : Transducer σ α β) (s : σ) (a : α) (as : List α) :
    T.states s (a :: as) = (T.step s a).2 :: T.states (T.step s a).2 as := rfl

@[simp] theorem length_outputs (T : Transducer σ α β) (s : σ) (as : List α) :
    (T.outputs s as).length = as.length := by
  induction as generalizing s with
  | nil => rfl
  | cons a as ih => rw [outputs_cons, List.length_cons, ih, List.length_cons]

@[simp] theorem length_states (T : Transducer σ α β) (s : σ) (as : List α) :
    (T.states s as).length = as.length := by
  induction as generalizing s with
  | nil => rfl
  | cons a as ih => rw [states_cons, List.length_cons, ih, List.length_cons]

/-- A property every step gives its output holds of all outputs. -/
theorem forall_mem_outputs {T : Transducer σ α β} {p : β → Prop}
    (h : ∀ s a, p (T.step s a).1) (s : σ) (as : List α) : ∀ b ∈ T.outputs s as, p b := by
  induction as generalizing s with
  | nil => intro b hb; cases hb
  | cons a as ih =>
    intro b hb
    rcases List.mem_cons.mp hb with rfl | hb
    · exact h s a
    · exact ih _ b hb

/-- Outputs that are read off the state a step ends in. -/
theorem outputs_eq_map_states {T : Transducer σ α β} {f : σ → β}
    (h : ∀ s a, (T.step s a).1 = f (T.step s a).2) (s : σ) (as : List α) :
    T.outputs s as = (T.states s as).map f := by
  induction as generalizing s with
  | nil => rfl
  | cons a as ih => rw [outputs_cons, states_cons, List.map_cons, h, ih]

/-- **Tracking.** A relation one coupled step preserves holds along coupled runs. -/
theorem forall₂_states {enc : Transducer σ α β} {dec : Transducer τ β γ} {R : σ → τ → Prop}
    (hstep : ∀ s t a, R s t → R (enc.step s a).2 (dec.step t (enc.step s a).1).2)
    {s : σ} {t : τ} (h : R s t) (as : List α) :
    List.Forall₂ R (enc.states s as) (dec.states t (enc.outputs s as)) := by
  induction as generalizing s t with
  | nil => exact List.Forall₂.nil
  | cons a as ih => exact List.Forall₂.cons (hstep s t a h) (ih (hstep s t a h))

/-- **Lockstep.** A decoder whose step reproduces the encoder's next state passes through the
encoder's states. -/
theorem states_outputs_eq {enc : Transducer σ α β} {dec : Transducer σ β γ}
    (hstep : ∀ s a, (dec.step s (enc.step s a).1).2 = (enc.step s a).2) (s : σ) (as : List α) :
    dec.states s (enc.outputs s as) = enc.states s as := by
  have hR : ∀ s t a, s = t → (enc.step s a).2 = (dec.step t (enc.step s a).1).2 := by
    intro s t a h
    rw [← h, hstep]
  have htrack := forall₂_states hR (Eq.refl s) as
  rw [List.forall₂_eq_eq_eq] at htrack
  exact htrack.symm

/-! ## The state behind an input -/

/-- The state behind the last symbol, the starting state when there is none. -/
def after (T : Transducer σ α β) (s : σ) (as : List α) : σ := as.foldl (fun s a ↦ (T.step s a).2) s

theorem after_append (T : Transducer σ α β) (s : σ) (as bs : List α) :
    T.after s (as ++ bs) = T.after (T.after s as) bs := List.foldl_append

/-- A constant input iterates its step. -/
theorem after_replicate (T : Transducer σ α β) (s : σ) (n : ℕ) (a : α) :
    T.after s (List.replicate n a) = (fun s ↦ (T.step s a).2)^[n] s := by
  induction n generalizing s with
  | zero => rfl
  | succ n ih =>
    rw [Function.iterate_succ_apply, ← ih]
    rfl

theorem states_concat (T : Transducer σ α β) (s : σ) (as : List α) (a : α) :
    T.states s (as ++ [a]) = T.states s as ++ [T.after s (as ++ [a])] := by
  induction as generalizing s with
  | nil => rfl
  | cons b as ih =>
    rw [List.cons_append, states_cons, ih, states_cons, List.cons_append]
    rfl

/-! ## Packing in pairs -/

/-- Two symbols a cell, the last one alone when their number is odd. -/
def packPairs (two : β → β → δ) (one : β → δ) : List β → List δ
  | [] => []
  | [b] => [one b]
  | b :: b' :: bs => two b b' :: packPairs two one bs

theorem length_packPairs (two : β → β → δ) (one : β → δ) :
    ∀ bs : List β, (packPairs two one bs).length = (bs.length + 1) / 2
  | [] => by simp [packPairs]
  | [_] => by simp [packPairs]
  | _ :: _ :: bs => by
    rw [packPairs, List.length_cons, length_packPairs two one bs, List.length_cons,
      List.length_cons]
    omega

/-- The last of an odd number of symbols has a cell to itself. -/
theorem packPairs_of_odd (two : β → β → δ) (one : β → δ) : ∀ bs : List β, bs.length % 2 = 1 →
    ∃ front, ∃ b ∈ bs, packPairs two one bs = front ++ [one b]
  | [], h => by cases h
  | [b], _ => ⟨[], b, List.mem_cons_self, rfl⟩
  | b :: b' :: bs, h => by
    rw [List.length_cons, List.length_cons] at h
    obtain ⟨front, c, hc, hpack⟩ := packPairs_of_odd two one bs (by omega)
    refine ⟨two b b' :: front, c, List.mem_cons_of_mem _ (List.mem_cons_of_mem _ hc), ?_⟩
    rw [packPairs, hpack, List.cons_append]

/-- The symbols of the cells, in order. -/
def unpackPairs (fst snd : δ → β) (ds : List δ) : List β := ds.flatMap fun d ↦ [fst d, snd d]

@[simp] theorem unpackPairs_cons (fst snd : δ → β) (d : δ) (ds : List δ) :
    unpackPairs fst snd (d :: ds) = fst d :: snd d :: unpackPairs fst snd ds := rfl

theorem length_unpackPairs (fst snd : δ → β) (ds : List δ) :
    (unpackPairs fst snd ds).length = ds.length * 2 := by
  induction ds with
  | nil => rfl
  | cons d ds ih =>
    rw [unpackPairs_cons, List.length_cons, List.length_cons, ih, List.length_cons, Nat.succ_mul]

/-- Unpacking returns the symbols, followed by at most the unused half of the last cell. -/
theorem take_unpackPairs_packPairs {two : β → β → δ} {one : β → δ} {fst snd : δ → β}
    {p : β → Prop} (htwo : ∀ b b', p b → p b' → fst (two b b') = b ∧ snd (two b b') = b')
    (hone : ∀ b, p b → fst (one b) = b) :
    ∀ bs : List β, (∀ b ∈ bs, p b) →
      (unpackPairs fst snd (packPairs two one bs)).take bs.length = bs
  | [], _ => rfl
  | [b], h => by
    rw [packPairs, unpackPairs_cons, hone b (h b List.mem_cons_self)]
    rfl
  | b :: b' :: bs, h => by
    have hb := h b List.mem_cons_self
    have hb' := h b' (List.mem_cons_of_mem _ List.mem_cons_self)
    have ih := take_unpackPairs_packPairs htwo hone bs fun c hc ↦
      h c (List.mem_cons_of_mem _ (List.mem_cons_of_mem _ hc))
    rw [packPairs, unpackPairs_cons, (htwo b b' hb hb').1, (htwo b b' hb hb').2,
      List.length_cons, List.length_cons, List.take_succ_cons, List.take_succ_cons, ih]

end Transducer
