import DcaConv.Library.Fallible
import Mathlib.Data.List.GetD
import Mathlib.Data.List.Range

/-!
# Interleaved buffers

`n` frames of `k` members each, laid out one frame after the other: cell `p` is member `p % k` of
frame `p / k`, and member `c` of frame `j` is in cell `c + j * k`. Taking one member of every frame
and putting the members back together are inverse to each other, and a loop nest over frames and
members visits the cells in order.
-/

namespace Interleave

variable {α σ ε : Type*} {n k c j : ℕ}

/-! ## Cells -/

theorem cell_lt (hc : c < k) (hj : j < n) : c + j * k < n * k := by
  have hframe : (j + 1) * k ≤ n * k := Nat.mul_le_mul_right k hj
  rw [Nat.succ_mul] at hframe
  omega

theorem cell_mod (hc : c < k) : (c + j * k) % k = c := by
  rw [Nat.add_mul_mod_self_right, Nat.mod_eq_of_lt hc]

theorem cell_div (hc : c < k) : (c + j * k) / k = j := by
  rw [Nat.add_mul_div_right _ _ (by omega), Nat.div_eq_of_lt hc, Nat.zero_add]

/-! ## Packing and taking apart -/

/-- The buffer of frames with member `f c j` of frame `j`. -/
def pack (n k : ℕ) (f : ℕ → ℕ → α) : List α := (List.range (n * k)).map fun p ↦ f (p % k) (p / k)

/-- Member `c` of every frame. -/
def member (n k : ℕ) (cell : ℕ → α) (c : ℕ) : List α := (List.range n).map fun j ↦ cell (c + j * k)

@[simp] theorem length_pack (f : ℕ → ℕ → α) : (pack n k f).length = n * k := by
  rw [pack, List.length_map, List.length_range]

theorem pack_congr {f g : ℕ → ℕ → α} (h : ∀ c < k, ∀ j < n, f c j = g c j) :
    pack n k f = pack n k g := by
  apply List.map_congr_left
  intro p hp
  have hp' : p < n * k := List.mem_range.mp hp
  have hk : 0 < k := Nat.pos_of_mul_pos_left (Nat.zero_lt_of_lt hp')
  exact h _ (Nat.mod_lt p hk) _ ((Nat.div_lt_iff_lt_mul hk).mpr hp')

theorem getD_map_range {N p : ℕ} (g : ℕ → α) (d : α) (hp : p < N) :
    ((List.range N).map g).getD p d = g p := by
  rw [List.getD_eq_getElem?_getD, List.getElem?_map, List.getElem?_range hp, Option.map_some,
    Option.getD_some]

theorem getD_mem_take {xs : List α} (d : α) (hc : c < k) (hk : k ≤ xs.length) :
    xs.getD c d ∈ xs.take k := by
  have hlt : c < xs.length := hc.trans_le hk
  rw [List.getD_eq_getElem?_getD, List.getElem?_eq_getElem hlt, Option.getD_some]
  exact List.mem_take_iff_getElem.mpr ⟨c, by omega, rfl⟩

theorem map_range_getD {N : ℕ} {xs : List α} (d : α) (hN : xs.length = N) :
    ((List.range N).map fun p ↦ xs.getD p d) = xs := by
  subst hN
  apply List.ext_getElem (by rw [List.length_map, List.length_range])
  intro p hp hp'
  rw [List.getElem_map, List.getElem_range, List.getD_eq_getElem?_getD,
    List.getElem?_eq_getElem hp', Option.getD_some]

/-- Taking the members out of packed frames gives them back. -/
theorem member_pack (f : ℕ → ℕ → α) (d : α) (hc : c < k) :
    member n k ((pack n k f).getD · d) c = (List.range n).map (f c) := by
  apply List.map_congr_left
  intro j hj
  dsimp only
  rw [pack, getD_map_range _ _ (cell_lt hc (List.mem_range.mp hj)), cell_mod hc, cell_div hc]

/-- Packing the members of a buffer gives the buffer back. -/
theorem pack_member {buf : List α} (d : α) (hbuf : buf.length = n * k) :
    pack n k (fun c j ↦ (member n k (buf.getD · d) c).getD j d) = buf := by
  refine Eq.trans (List.map_congr_left fun p hp ↦ ?_) (map_range_getD d hbuf)
  have hp' : p < k * n := by
    rw [Nat.mul_comm]
    exact List.mem_range.mp hp
  dsimp only
  rw [member, getD_map_range _ _ (Nat.div_lt_of_lt_mul hp'), Nat.mul_comm, Nat.mod_add_div]

/-! ## Visiting the cells -/

/-- A loop over frames with a loop over members inside visits the cells in order. -/
theorem foldlM_nest (f : σ → ℕ → ℕ → Except ε σ) (n k : ℕ) (s : σ) :
    ((List.range n).foldlM (fun s j ↦ (List.range k).foldlM (fun s c ↦ f s j c) s) s)
      = (List.range (n * k)).foldlM (fun s p ↦ f s (p / k) (p % k)) s := by
  induction n with
  | zero => rw [Nat.zero_mul]; rfl
  | succ n ih =>
    have hlast : ∀ s, (List.range k).foldlM (fun s c ↦ f s n c) s
        = ((List.range k).map (n * k + ·)).foldlM (fun s p ↦ f s (p / k) (p % k)) s := by
      intro s
      rw [List.foldlM_map]
      refine Fallible.foldlM_congr (fun s c hc ↦ ?_) s
      rw [Nat.add_comm (n * k) c, cell_div (List.mem_range.mp hc), cell_mod (List.mem_range.mp hc)]
    rw [List.range_succ, List.foldlM_append, ih, Nat.succ_mul, List.range_add, List.foldlM_append]
    refine bind_congr fun s ↦ ?_
    exact (bind_pure _).trans (hlast s)

end Interleave
