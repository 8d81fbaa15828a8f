import DcaConv.Library.Fallible
import Mathlib.Order.CompletePartialOrder
import Mathlib.Order.Interval.Set.Disjoint
import Mathlib.Order.Interval.Set.LinearOrder
import Mathlib.Data.Set.Lattice

/-!
# Checked memory and equal-size blocks

A buffer is a list of cells. A read past its end is an error of the reader's choosing, so a
computation that returns has stayed in bounds. The second half is about buffers laid out as
consecutive blocks of one size: where each block starts, and that the blocks tile.
-/

namespace Memory

variable {α ε : Type*}

/-! ## Checked reads -/

/-- The `n` cells from `off`, or `e` when they are not all inside the buffer. -/
def read (e : ε) (buf : List α) (off n : ℕ) : Except ε (List α) :=
  if off + n ≤ buf.length then .ok ((buf.drop off).take n) else .error e

theorem read_of_le {e : ε} {buf : List α} {off n : ℕ} (h : off + n ≤ buf.length) :
    read e buf off n = .ok ((buf.drop off).take n) := if_pos h

theorem read_of_lt {e : ε} {buf : List α} {off n : ℕ} (h : buf.length < off + n) :
    read e buf off n = .error e := if_neg (by omega)

theorem read_eq_ok {e : ε} {buf bs : List α} {off n : ℕ} :
    read e buf off n = .ok bs ↔ off + n ≤ buf.length ∧ bs = (buf.drop off).take n := by
  rw [read]
  split
  · next h => rw [Except.ok.injEq, and_iff_right h, eq_comm]
  · next h => exact iff_of_false (fun h' ↦ by cases h') fun h' ↦ h h'.1

/-- A read inside the first part does not see what follows. -/
theorem read_append_left {e : ε} {buf rest : List α} {off n : ℕ} (h : off + n ≤ buf.length) :
    read e (buf ++ rest) off n = read e buf off n := by
  rw [read_of_le h, read_of_le (by rw [List.length_append]; omega),
    List.drop_append_of_le_length (by omega),
    List.take_append_of_le_length (by rw [List.length_drop]; omega)]

/-- A read past the first part does not see it. -/
theorem read_append_right {e : ε} {pre buf : List α} {off n : ℕ} :
    read e (pre ++ buf) (pre.length + off) n = read e buf off n := by
  have hdrop : (pre ++ buf).drop (pre.length + off) = buf.drop off := by
    rw [← List.drop_drop, List.drop_left]
  rw [read, read, List.length_append, hdrop]
  exact if_congr (by omega) rfl rfl

/-- Reading back a part of known length. -/
theorem read_middle {e : ε} {pre bs rest : List α} {off n : ℕ} (hoff : pre.length = off)
    (hn : bs.length = n) : read e (pre ++ (bs ++ rest)) off n = .ok bs := by
  subst hoff hn
  rw [← Nat.add_zero pre.length, read_append_right, read_append_left (by omega), read_of_le
    (by omega), List.drop_zero, List.take_length]

/-! ## Padding -/

/-- `bs` in a zeroed allocation of `n` cells, `fill` being the zero; `e` when it overruns. -/
def store (e : ε) (fill : α) (n : ℕ) (bs : List α) : Except ε (List α) :=
  if bs.length ≤ n then .ok (bs ++ List.replicate (n - bs.length) fill) else .error e

theorem store_of_le {e : ε} {fill : α} {n : ℕ} {bs : List α} (h : bs.length ≤ n) :
    store e fill n bs = .ok (bs ++ List.replicate (n - bs.length) fill) := if_pos h

theorem store_eq_ok {e : ε} {fill : α} {n : ℕ} {bs cells : List α} :
    store e fill n bs = .ok cells ↔
      bs.length ≤ n ∧ cells = bs ++ List.replicate (n - bs.length) fill := by
  rw [store]
  split
  · next h => rw [Except.ok.injEq, and_iff_right h, eq_comm]
  · next h => exact iff_of_false (fun h' ↦ by cases h') fun h' ↦ h h'.1

/-! ## Single cells -/

/-- The cell `i`, or `e` past the end. -/
def readAt (e : ε) (buf : List α) (i : ℕ) : Except ε α :=
  match buf[i]? with
  | some a => .ok a
  | none => .error e

theorem readAt_of_lt {e : ε} {buf : List α} {i : ℕ} (d : α) (h : i < buf.length) :
    readAt e buf i = .ok (buf.getD i d) := by
  rw [readAt, List.getD_eq_getElem?_getD, List.getElem?_eq_getElem h]
  rfl

/-- A buffer that is being filled, and the indices stored to so far. -/
structure Filling (α : Type*) where
  cells : List α
  stores : List ℕ

/-- An allocation, before the first store. -/
def Filling.fresh (cells : List α) : Filling α := ⟨cells, []⟩

def Filling.store (e : ε) (buf : Filling α) (i : ℕ) (a : α) : Except ε (Filling α) :=
  if i < buf.cells.length then .ok ⟨buf.cells.set i a, buf.stores ++ [i]⟩ else .error e

section Loops

variable {v : ℕ → α} {cells : List α} {n : ℕ}

/-- Behind the first `n` cells the next one is filled. -/
theorem set_filled (hn : n < cells.length) :
    ((List.range n).map v ++ cells.drop n).set n (v n)
      = (List.range (n + 1)).map v ++ cells.drop (n + 1) := by
  have hfilled : ((List.range n).map v).length = n := by rw [List.length_map, List.length_range]
  rw [List.set_append_right _ _ (by omega), hfilled, Nat.sub_self, List.drop_eq_getElem_cons hn,
    List.set_cons_zero, List.range_succ, List.map_append, List.append_assoc]
  rfl

/-- A loop that sets one cell after the other fills the first `n` cells. -/
theorem foldlM_set (hn : n ≤ cells.length) :
    (List.range n).foldlM (fun buf i ↦ Except.ok (ε := ε) (buf.set i (v i))) cells
      = .ok ((List.range n).map v ++ cells.drop n) := by
  induction n with
  | zero => rfl
  | succ n ih =>
    rw [List.range_succ, List.foldlM_append, ih (by omega), Fallible.ok_bind, List.foldlM_cons,
      Fallible.ok_bind, set_filled hn, ← List.range_succ]
    rfl

/-- With checked stores of computed values it does too, each cell being stored to once. -/
theorem foldlM_store {e : ε} {value : ℕ → Except ε α} (hvalue : ∀ i < n, value i = .ok (v i))
    (hn : n ≤ cells.length) :
    ((List.range n).foldlM (fun buf i ↦ do
      let a ← value i
      buf.store e i a) (Filling.fresh cells))
      = .ok ⟨(List.range n).map v ++ cells.drop n, List.range n⟩ := by
  induction n with
  | zero => rfl
  | succ n ih =>
    have hbound : n < ((List.range n).map v ++ cells.drop n).length := by
      rw [List.length_append, List.length_map, List.length_range, List.length_drop]
      omega
    rw [List.range_succ, List.foldlM_append, ih (fun i hi ↦ hvalue i (by omega)) (by omega),
      Fallible.ok_bind, List.foldlM_cons, hvalue n (Nat.lt_succ_self n), Fallible.ok_bind,
      Filling.store, if_pos hbound, set_filled hn, ← List.range_succ]
    rfl

end Loops

/-! ## Blocks of one size -/

theorem length_flatten_blocks {size : ℕ} {blocks : List (List α)}
    (hsize : ∀ b ∈ blocks, b.length = size) : blocks.flatten.length = blocks.length * size := by
  induction blocks with
  | nil => rw [List.flatten_nil, List.length_nil, List.length_nil, Nat.zero_mul]
  | cons b blocks ih =>
    rw [List.flatten_cons, List.length_append, hsize b List.mem_cons_self,
      ih fun b' hb' ↦ hsize b' (List.mem_cons_of_mem _ hb'), List.length_cons, Nat.add_mul,
      Nat.one_mul, Nat.add_comm]

/-- Block `c` starts at `size * c`. -/
theorem exists_split_flatten_blocks {size : ℕ} {blocks : List (List α)}
    (hsize : ∀ b ∈ blocks, b.length = size) {c : ℕ} {block : List α}
    (hc : blocks[c]? = some block) :
    ∃ before after, blocks.flatten = before ++ (block ++ after) ∧ before.length = size * c := by
  obtain ⟨hlt, hblock⟩ := List.getElem?_eq_some_iff.mp hc
  refine ⟨(blocks.take c).flatten, (blocks.drop (c + 1)).flatten, ?_, ?_⟩
  · conv_lhs => rw [← List.take_append_drop c blocks, List.drop_eq_getElem_cons hlt, hblock]
    rw [List.flatten_append, List.flatten_cons]
  · rw [length_flatten_blocks fun b hb ↦ hsize b (List.mem_of_mem_take hb), List.length_take,
      Nat.min_eq_left hlt.le, Nat.mul_comm]

/-- Consecutive blocks of one size fill their stretch exactly. -/
theorem biUnion_Ico_blocks (base size n : ℕ) :
    ⋃ c ∈ Set.Iio n, Set.Ico (base + size * c) (base + size * (c + 1))
      = Set.Ico base (base + size * n) := by
  ext x
  simp only [Set.mem_Iio, Set.mem_iUnion, Set.mem_Ico, exists_prop]
  constructor
  · rintro ⟨c, hc, hx₁, hx₂⟩
    have hle : size * (c + 1) ≤ size * n := Nat.mul_le_mul_left _ hc
    omega
  · rintro ⟨hx₁, hx₂⟩
    have hsize : 0 < size := by
      rcases Nat.eq_zero_or_pos size with rfl | h
      · omega
      · exact h
    -- the block of `x` is the quotient of its offset
    refine ⟨(x - base) / size, ?_, ?_, ?_⟩
    · rw [Nat.div_lt_iff_lt_mul hsize, Nat.mul_comm]
      omega
    · have := Nat.mul_div_le (x - base) size
      omega
    · have := Nat.lt_mul_div_succ (x - base) hsize
      omega

/-- Anything inside one block is disjoint from anything inside another. -/
theorem disjoint_Ico_blocks {base size n c c' : ℕ} (hn : n ≤ size) (hne : c ≠ c') :
    Disjoint (Set.Ico (base + size * c) (base + size * c + n))
      (Set.Ico (base + size * c') (base + size * c' + n)) := by
  rw [Set.Ico_disjoint_Ico]
  rcases Nat.lt_or_gt_of_ne hne with h | h
  · have : size * (c + 1) ≤ size * c' := Nat.mul_le_mul_left _ h
    rw [Nat.mul_succ] at this
    omega
  · have : size * (c' + 1) ≤ size * c := Nat.mul_le_mul_left _ h
    rw [Nat.mul_succ] at this
    omega

/-! ## Rounding up to a block -/

/-- The least multiple of `a` that is at least `n`. -/
def roundUp (a n : ℕ) : ℕ := (n + (a - 1)) / a * a

theorem le_roundUp {a : ℕ} (ha : 0 < a) (n : ℕ) : n ≤ roundUp a n := by
  have h := Nat.lt_div_mul_add (a := n + (a - 1)) ha
  rw [roundUp]
  omega

theorem roundUp_lt {a : ℕ} (ha : 0 < a) (n : ℕ) : roundUp a n < n + a := by
  have h := Nat.div_mul_le_self (n + (a - 1)) a
  rw [roundUp]
  omega

theorem dvd_roundUp (a n : ℕ) : a ∣ roundUp a n := Nat.dvd_mul_left _ _

end Memory
