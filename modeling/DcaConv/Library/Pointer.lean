import Mathlib.Data.Nat.Notation
import Mathlib.Tactic.TypeStar

/-!
# Pointers that walk a buffer

A pointer is a buffer, a position in it, and the positions that have been accessed through it, in
order. Code that only ever uses `*p++` walks: whatever it has accessed is a prefix of the buffer,
each cell once.
-/

structure Pointer (α : Type*) where
  cells : List α
  pos : ℕ
  accesses : List ℕ

namespace Pointer

variable {α : Type*}

def start (cells : List α) : Pointer α := ⟨cells, 0, []⟩

/-- `*p++` as a value. -/
def load (p : Pointer α) : Option (α × Pointer α) :=
  p.cells[p.pos]?.map fun a ↦ (a, ⟨p.cells, p.pos + 1, p.accesses ++ [p.pos]⟩)

/-- `*p++ = a`. -/
def store (p : Pointer α) (a : α) : Option (Pointer α) :=
  if p.pos < p.cells.length then some ⟨p.cells.set p.pos a, p.pos + 1, p.accesses ++ [p.pos]⟩
  else none

/-! ## Walking -/

/-- The cells of `behind` have been accessed, those of `ahead` have not. -/
def walked (behind ahead : List α) : Pointer α :=
  ⟨behind ++ ahead, behind.length, List.range behind.length⟩

theorem start_eq_walked (cells : List α) : start cells = walked [] cells := rfl

theorem load_walked (behind ahead : List α) (a : α) :
    (walked behind (a :: ahead)).load = some (a, walked (behind ++ [a]) ahead) := by
  have hcell : (behind ++ a :: ahead)[behind.length]? = some a := by
    rw [List.getElem?_append_right (Nat.le_refl _), Nat.sub_self]
    rfl
  rw [load, walked, hcell, walked, List.append_assoc, List.length_append, List.length_singleton,
    List.range_succ]
  rfl

theorem store_walked (behind ahead : List α) (a b : α) :
    (walked behind (b :: ahead)).store a = some (walked (behind ++ [a]) ahead) := by
  have hlt : behind.length < (behind ++ b :: ahead).length := by
    rw [List.length_append, List.length_cons]
    omega
  have hset : (behind ++ b :: ahead).set behind.length a = behind ++ [a] ++ ahead := by
    rw [List.set_append_right _ _ (Nat.le_refl _), Nat.sub_self, List.set_cons_zero,
      List.append_assoc, List.singleton_append]
  rw [store, walked, if_pos hlt, hset, walked, List.length_append, List.length_singleton,
    List.range_succ]

end Pointer
