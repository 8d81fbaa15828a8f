import Mathlib.Order.Hom.Basic
import Mathlib.Order.Monotone.Basic

/-!
# Windows of a sequence

A marked range of a sequence of known length, and what happens to it when the sequence is cut,
resampled or shortened. A window carries the proof that it lies in its sequence, so each operation
is a construction of the new proof from the old one.
-/

/-- A range `[start, stop)` of a sequence of length `len`. -/
@[ext]
structure Window (len : ℕ) where
  start : ℕ
  stop : ℕ
  start_le : start ≤ stop
  stop_le : stop ≤ len

namespace Window

variable {len : ℕ}

/-- The whole sequence. -/
def full (len : ℕ) : Window len := ⟨0, len, Nat.zero_le _, le_refl _⟩

/-! ## Cutting

The sequence is replaced by its part from `a` to `b`. A point of the part moves with it; any other
falls back to the point's end of the sequence. -/

/-- The new position of a start point. -/
def rebaseStart (a b p : ℕ) : ℕ := if a ≤ p ∧ p ≤ b then p - a else 0

/-- The new position of a stop point. -/
def rebaseStop (a b p : ℕ) : ℕ := if a ≤ p ∧ p ≤ b then p - a else b - a

theorem rebaseStop_le (a b p : ℕ) : rebaseStop a b p ≤ b - a := by
  rw [rebaseStop]
  split <;> omega

theorem rebaseStart_le_rebaseStop {a b p q : ℕ} (h : p ≤ q) :
    rebaseStart a b p ≤ rebaseStop a b q := by
  rw [rebaseStart, rebaseStop]
  split <;> split <;> omega

def rebase (w : Window len) (a b : ℕ) : Window (b - a) where
  start := rebaseStart a b w.start
  stop := rebaseStop a b w.stop
  start_le := rebaseStart_le_rebaseStop w.start_le
  stop_le := rebaseStop_le a b w.stop

/-- Cutting keeps a window of everything a window of everything. -/
theorem rebase_full {a b : ℕ} (hb : b ≤ len) : (full len).rebase a b = full (b - a) := by
  ext
  · show rebaseStart a b 0 = 0
    rw [rebaseStart]
    split <;> omega
  · show rebaseStop a b len = b - a
    rw [rebaseStop]
    split <;> omega

/-! ## Resampling -/

/-- The image under a monotone change of positions. -/
def scale (w : Window len) (f : ℕ →o ℕ) : Window (f len) where
  start := f w.start
  stop := f w.stop
  start_le := f.monotone w.start_le
  stop_le := f.monotone w.stop_le

theorem scale_full {f : ℕ →o ℕ} (hf : f 0 = 0) : (full len).scale f = full (f len) := by
  ext
  · exact hf
  · rfl

/-! ## Shortening -/

/-- The same window of a sequence cut off at or behind its end. -/
def shorten (w : Window len) {len' : ℕ} (h : w.stop ≤ len') : Window len' :=
  ⟨w.start, w.stop, w.start_le, h⟩

end Window
