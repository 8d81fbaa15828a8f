import DcaConv.Library.Fallible

/-!
# Moving one element in place

The loop that takes an element out of an array, shifts the ones behind it down by one, and puts it
back at a later place. Every access is checked. Where the array is `before ++ x :: segment ++ after`
the loop leaves `before ++ segment ++ x :: after`, so nothing is lost and nothing else changes its
order.
-/

namespace Rotation

variable {α ε : Type*} {e : ε}

/-- `cells[i] = cells[i + 1]`. -/
def shift (e : ε) (cells : List α) (i : ℕ) : Except ε (List α) :=
  match cells[i + 1]? with
  | none => .error e
  | some x => .ok (cells.set i x)

/-- `x = cells[index]`, the shifts from `index` to below `last`, `cells[last] = x`. -/
def moveTo (e : ε) (cells : List α) (index last : ℕ) : Except ε (List α) :=
  match cells[index]? with
  | none => .error e
  | some x => do
    let cells ← (List.range' index (last - index)).foldlM (shift e) cells
    if last < cells.length then .ok (cells.set last x) else .error e

theorem set_middle {before after : List α} {x y : α} :
    (before ++ x :: after).set before.length y = before ++ y :: after := by
  rw [List.set_append_right _ _ (Nat.le_refl _), Nat.sub_self, List.set_cons_zero]

theorem getElem?_middle {before after : List α} {x : α} :
    (before ++ x :: after)[before.length]? = some x := by
  rw [List.getElem?_append_right (Nat.le_refl _), Nat.sub_self, List.getElem?_cons_zero]

theorem shift_eq {before after : List α} {x y : α} :
    shift e (before ++ x :: y :: after) before.length = .ok (before ++ y :: y :: after) := by
  have hget : (before ++ x :: y :: after)[before.length + 1]? = some y := by
    have h := @getElem?_middle α (before ++ [x]) after y
    rwa [List.length_append, List.append_assoc] at h
  rw [shift, hget]
  dsimp only
  rw [set_middle]

/-- The shifts behind the element: its cell is free, and the free cell moves up. -/
theorem foldlM_shift {before segment after : List α} {x : α} :
    ∃ y, (List.range' before.length segment.length).foldlM (shift e)
      (before ++ x :: (segment ++ after)) = .ok (before ++ segment ++ y :: after) := by
  induction segment generalizing before x with
  | nil => exact ⟨x, by rw [List.append_nil]; rfl⟩
  | cons z segment ih =>
    obtain ⟨y, hy⟩ := @ih (before ++ [z]) z
    refine ⟨y, ?_⟩
    rw [List.length_append, List.append_assoc, List.append_assoc, List.append_assoc,
      List.singleton_append, List.singleton_append] at hy
    rw [List.length_cons, List.range'_succ, List.foldlM_cons, List.cons_append, shift_eq,
      Fallible.ok_bind, List.append_assoc]
    exact hy

/-- **The move.** -/
theorem moveTo_eq {before segment after : List α} {x : α} {last : ℕ}
    (hlast : last = before.length + segment.length) :
    moveTo e (before ++ x :: (segment ++ after)) before.length last
      = .ok (before ++ segment ++ x :: after) := by
  obtain ⟨y, hy⟩ := @foldlM_shift α _ e before segment after x
  have hlen : last = (before ++ segment).length := by rw [List.length_append, hlast]
  have hlt : last < (before ++ segment ++ y :: after).length := by
    rw [hlen, @List.length_append _ (before ++ segment), List.length_cons]
    omega
  rw [moveTo, getElem?_middle]
  dsimp only
  rw [show last - before.length = segment.length by omega, hy, Fallible.ok_bind, if_pos hlt, hlen,
    set_middle]

/-- The parts of an array around an index and a later one. -/
theorem exists_split {cells : List α} {index last : ℕ} (hle : index ≤ last)
    (hlast : last < cells.length) : ∃ before x segment after,
      cells = before ++ x :: (segment ++ after) ∧ index = before.length ∧
        last = before.length + segment.length := by
  have hindex : index < cells.length := by omega
  refine ⟨cells.take index, cells[index], (cells.drop (index + 1)).take (last - index),
    (cells.drop (index + 1)).drop (last - index), ?_, ?_, ?_⟩
  · rw [List.take_append_drop, ← List.drop_eq_getElem_cons hindex, List.take_append_drop]
  · rw [List.length_take]
    omega
  · rw [List.length_take, List.length_take, List.length_drop]
    omega

end Rotation
