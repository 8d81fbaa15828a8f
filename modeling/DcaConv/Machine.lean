import Mathlib.Algebra.Order.Floor.Semifield
import Mathlib.Data.Rat.Floor

/-!
# Machine arithmetic

Program variables are natural numbers; the reductions of C's unsigned types are written where an
operation can leave the type. `size_t` is the one type whose width differs between the machines the
header library is built for.

A `float` product is read as the exact rational and truncated where the program assigns it to
`unsigned`. An out-of-range assignment has no meaning in C, so no reduction is modelled there.
-/

namespace DcaConv

/-- How a run can end without returning. -/
inductive Fault where
  /-- A read or write outside a buffer. -/
  | outOfBounds
  /-- A failed `assert`. -/
  | assertion
  deriving DecidableEq, Repr

/-- Reduction of a result to a 32-bit `unsigned`. -/
def u32 (n : ℕ) : ℕ := n % 2 ^ 32

theorem u32_of_lt {n : ℕ} (h : n < 2 ^ 32) : u32 n = n := Nat.mod_eq_of_lt h

/-- Subtraction of 32-bit `unsigned` values, wrapping below zero. -/
def subU32 (a b : ℕ) : ℕ := u32 (a + 2 ^ 32 - b)

theorem subU32_of_le {a b : ℕ} (h : b ≤ a) (ha : a < 2 ^ 32) : subU32 a b = a - b := by
  rw [subU32, u32]
  omega

theorem subU32_of_lt {a b : ℕ} (h : a < b) (hb : b < 2 ^ 32) :
    subU32 a b = 2 ^ 32 - (b - a) := by
  rw [subU32, u32]
  omega

/-- The machines the header library runs on: the converter's host, and the Dreamcast's SH-4. -/
inductive Target where
  | host
  | sh4
  deriving DecidableEq, Repr

/-- The width of `size_t`. -/
def Target.sizeBits : Target → ℕ
  | .host => 64
  | .sh4 => 32

/-- Reduction of a result to `size_t`. -/
def Target.size (t : Target) (n : ℕ) : ℕ := n % 2 ^ t.sizeBits

theorem Target.size_host {n : ℕ} (h : n < 2 ^ 64) : Target.host.size n = n := Nat.mod_eq_of_lt h

theorem Target.size_sh4 (n : ℕ) : Target.sh4.size n = n % 2 ^ 32 := rfl

theorem Target.size_of_lt (t : Target) {n : ℕ} (h : n < 2 ^ 32) : t.size n = n := by
  cases t with
  | host => exact Target.size_host (by omega)
  | sh4 => exact Nat.mod_eq_of_lt h

/-- Decrement of a `size_t` on the host. -/
def decSize (n : ℕ) : ℕ := Target.host.size (n + 2 ^ 64 - 1)

theorem decSize_of_pos {n : ℕ} (hn : 1 ≤ n) (hlt : n < 2 ^ 64) : decSize n = n - 1 := by
  rw [decSize, Target.size, Target.sizeBits]
  omega

theorem decSize_lt (n : ℕ) : decSize n < 2 ^ 64 := Nat.mod_lt _ (by decide)

/-- Assignment of a nonnegative float to `unsigned`. -/
def truncate (q : ℚ) : ℕ := ⌊q⌋₊

theorem truncate_natCast_div (a b : ℕ) : truncate ((a : ℚ) / b) = a / b :=
  Nat.floor_div_eq_div a b

theorem truncate_mul_div_assoc (n a b : ℕ) : truncate ((n : ℚ) * a / b) = n * a / b := by
  rw [← truncate_natCast_div, Nat.cast_mul]

theorem truncate_mul_div (n a b : ℕ) : truncate ((n : ℚ) * (a / b)) = n * a / b := by
  rw [← mul_div_assoc, truncate_mul_div_assoc]

end DcaConv
