import Mathlib.Data.List.Perm.Basic

/-!
# The last write

A list of actions, each of which may write some variable: in the end the variable holds what the
last of them wrote. This looks at the writes to one variable only, so the actions may be rearranged
as long as the writes to every variable keep their order.
-/

namespace LastWrite

variable {α β κ : Type*} {write : α → Option β} {d : β} {l l' : List α}

/-- What the last write leaves, `d` if there is none. -/
def lastOf (write : α → Option β) (d : β) (l : List α) : β := (l.filterMap write).getLast?.getD d

theorem lastOf_concat (a : α) : lastOf write d (l ++ [a]) = (write a).getD (lastOf write d l) := by
  rw [lastOf, List.filterMap_append]
  cases h : write a with
  | none => simp [lastOf, h]
  | some b => simp [h]

/-- The same actions, those on one variable in the same order. -/
structure Rearranged [DecidableEq κ] (var : α → Option κ) (l l' : List α) : Prop where
  perm : l.Perm l'
  order : ∀ v, l.filter (fun a ↦ var a = some v) = l'.filter (fun a ↦ var a = some v)

theorem Rearranged.symm [DecidableEq κ] {var : α → Option κ} (h : Rearranged var l l') :
    Rearranged var l' l :=
  ⟨h.perm.symm, fun v ↦ (h.order v).symm⟩

/-- The writes to one variable, in both orders. -/
theorem Rearranged.filterMap_eq [DecidableEq κ] {var : α → Option κ} (h : Rearranged var l l')
    (v : κ) (hwrite : ∀ a, write a ≠ none → var a = some v) :
    l.filterMap write = l'.filterMap write := by
  have hall : ∀ l : List α, (l.filter fun a ↦ var a = some v).filterMap write
      = l.filterMap write := by
    intro l
    rw [List.filterMap_filter]
    congr 1
    funext a
    by_cases hvar : var a = some v
    · rw [if_pos (decide_eq_true hvar)]
    · rw [if_neg (by simpa using hvar), of_not_not (mt (hwrite a) hvar)]
  rw [← hall l, h.order v, hall l']

end LastWrite
