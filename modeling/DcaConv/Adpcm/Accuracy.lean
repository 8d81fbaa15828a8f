import DcaConv.Adpcm.Codec
import Mathlib.Tactic.Ring

/-!
# The accuracy of the quantiser

A code is a sign and a magnitude `v` from 0 to 7, and moves the predictor by `2 v + 1` eighths of a
step. The encoder finds `v` as the distance to its target in quarter steps, rounded down, so that
the target is at most an eighth of a step from where the predictor lands.

## The sign

The sign is read off a quotient that has been truncated towards zero. A target below the predictor
by less than an eighth of a step has quotient 0, counts as lying above, and is moved away from.
-/

namespace DcaConv

/-! ## The target -/

/-- The value the encoder aims at. -/
def target (x : Int16) : ℤ := clearLowBits x.toInt

theorem target_mem (x : Int16) : -32768 ≤ target x ∧ target x ≤ 32767 := by
  have hlo := Int16.le_toInt x
  have hhi := Int16.toInt_lt x
  rw [target, clearLowBits]
  omega

/-- How far the target is above the predictor. -/
def distance (s : AdpcmState) (x : Int16) : ℤ := target x - s.signal

/-- Clamping to a range does not lead away from a value of the range. -/
theorem abs_sub_limit_le {t y lo hi : ℤ} (hlo : lo ≤ t) (hhi : t ≤ hi) :
    |t - limit y lo hi| ≤ |t - y| := by
  rw [limit]
  split
  · rw [abs_of_nonneg (by omega), abs_of_nonneg (by omega)]
    omega
  · split
    · rw [abs_of_nonpos (by omega), abs_of_nonpos (by omega)]
      omega
    · exact le_refl _

/-! ## The code -/

/-- The quotient is negative from a whole divisor below zero on. -/
theorem tdiv_neg_iff {a b : ℤ} (hb : 0 < b) : a.tdiv b < 0 ↔ b ≤ -a := by
  rcases le_total 0 a with ha | ha
  · have hnonneg := Int.tdiv_nonneg ha hb.le
    exact iff_of_false (not_lt.mpr hnonneg) (by omega)
  · obtain ⟨m, rfl⟩ : ∃ m, a = -m := ⟨-a, (neg_neg a).symm⟩
    rw [Int.neg_tdiv, Int.tdiv_eq_ediv_of_nonneg (by omega), neg_neg, Left.neg_neg_iff,
      Int.lt_iff_add_one_le, zero_add, Int.le_ediv_iff_mul_le hb, one_mul]

section Code

variable (s : AdpcmState) (x : Int16)

/-- The code without its sign. -/
def magnitude : ℕ := min (((distance s x * 8).tdiv s.step).natAbs / 2) 7

theorem magnitude_le : magnitude s x ≤ 7 := Nat.min_le_right _ _

theorem encodeVal_eq : encodeVal s x =
    if s.step ≤ -(distance s x * 8) then magnitude s x + 8 else magnitude s x := by
  have hstep : 0 < s.step := by
    have := s.step_mem.1
    omega
  have hcap : ∀ val : ℕ, (if 7 < val then 7 else val) = min val 7 := by
    intro val
    split <;> omega
  rw [magnitude, ← hcap]
  exact if_congr (tdiv_neg_iff hstep) rfl rfl

/-- The quotient before it is halved and capped. -/
theorem natAbs_quotient : (((distance s x * 8).tdiv s.step).natAbs : ℤ) =
    8 * |distance s x| / s.step := by
  have hstep : (s.step.natAbs : ℤ) = s.step := Int.natAbs_of_nonneg (by
    have := s.step_mem.1
    omega)
  have hcast := Int.natCast_ediv (distance s x * 8).natAbs s.step.natAbs
  rw [hstep, Int.natCast_natAbs, abs_mul, mul_comm |distance s x|] at hcast
  rw [Int.natAbs_tdiv]
  exact hcast

/-- The magnitude's quarter steps do not reach past the target. -/
theorem step_mul_magnitude_le : 2 * (s.step * magnitude s x) ≤ 8 * |distance s x| := by
  have hstep := s.step_mem.1
  have hquot := natAbs_quotient s x
  have hle : (magnitude s x : ℤ) * 2 ≤ 8 * |distance s x| / s.step := by
    rw [← hquot, magnitude]
    omega
  have hmul := (Int.le_ediv_iff_mul_le (by omega)).mp hle
  linarith

/-- One more would, unless the magnitude is capped. -/
theorem lt_step_mul_magnitude (h : magnitude s x < 7 ∨ 8 * |distance s x| < 16 * s.step) :
    8 * |distance s x| < 2 * (s.step * magnitude s x) + 2 * s.step := by
  have hstep := s.step_mem.1
  have hquot := natAbs_quotient s x
  rcases Nat.lt_or_ge (magnitude s x) 7 with hlt | hge
  · have hlt' : 8 * |distance s x| / s.step < (magnitude s x : ℤ) * 2 + 2 := by
      rw [← hquot]
      rw [magnitude] at hlt ⊢
      omega
    have hmul := (Int.ediv_lt_iff_lt_mul (by omega)).mp hlt'
    linarith
  · rw [show magnitude s x = 7 from (magnitude_le s x).antisymm hge]
    rcases h with h | h
    · omega
    · push_cast
      linarith

/-! ## One step -/

/-- The way the predictor moves, up or down. -/
def move : ℤ := (2 * (s.step * magnitude s x) + s.step) / 8

/-- The move with its sign. -/
def shift : ℤ := if s.step ≤ -(distance s x * 8) then -move s x else move s x

theorem diffLookup_eq : ∀ v < 8, diffLookup v = 2 * v + 1 ∧ diffLookup (v + 8) = -(2 * v + 1) := by
  decide

theorem tdiv_diffLookup : (s.step * diffLookup (encodeVal s x)).tdiv 8 = shift s x := by
  obtain ⟨habove, hbelow⟩ := diffLookup_eq (magnitude s x) (Nat.lt_succ_of_le (magnitude_le s x))
  have hstep := s.step_mem.1
  have hodd : s.step * (2 * (magnitude s x : ℤ) + 1) = 2 * (s.step * magnitude s x) + s.step := by
    ring
  have hnonneg : 0 ≤ 2 * (s.step * magnitude s x) + s.step := by positivity
  rw [encodeVal_eq, shift, move]
  split
  · rw [hbelow, mul_neg, hodd, Int.neg_tdiv, Int.tdiv_eq_ediv_of_nonneg hnonneg]
  · rw [habove, hodd, Int.tdiv_eq_ediv_of_nonneg hnonneg]

theorem encodeSample_signal :
    (encodeSample s x).2.signal = limit (s.signal + shift s x) (-32768) 32767 :=
  congrArg (fun m ↦ limit (s.signal + m) (-32768) 32767) (tdiv_diffLookup s x)

/-- The error a step leaves. -/
def errorAfter : ℤ := |target x - (encodeSample s x).2.signal|

theorem errorAfter_le : errorAfter s x ≤ |distance s x - shift s x| := by
  obtain ⟨hlo, hhi⟩ := target_mem x
  rw [errorAfter, encodeSample_signal, distance, sub_sub]
  exact abs_sub_limit_le hlo hhi

/-- Moving to the target's side errs by half a quarter step at most. -/
theorem errorAfter_le_of_side (hreach : 8 * |distance s x| < 16 * s.step)
    (hside : 0 ≤ distance s x ∨ s.step ≤ -(distance s x * 8)) :
    8 * errorAfter s x ≤ s.step + 8 := by
  have hlo := step_mul_magnitude_le s x
  have hhi := lt_step_mul_magnitude s x (Or.inr hreach)
  have hstep := s.step_mem.1
  have herr := errorAfter_le s x
  have hmove : move s x = (2 * (s.step * magnitude s x) + s.step) / 8 := rfl
  generalize s.step * (magnitude s x : ℤ) = p at hlo hhi hmove
  rcases hside with h | h
  · rw [shift, if_neg (by omega)] at herr
    rw [abs_of_nonneg h] at hlo hhi
    rcases abs_cases (distance s x - move s x) with ⟨habs, -⟩ | ⟨habs, -⟩ <;> omega
  · rw [shift, if_pos h] at herr
    rw [abs_of_neg (by omega)] at hlo hhi
    rcases abs_cases (distance s x - -move s x) with ⟨habs, -⟩ | ⟨habs, -⟩ <;> omega

theorem magnitude_of_near (hnear : 8 * |distance s x| < s.step) : magnitude s x = 0 := by
  have hlo := step_mul_magnitude_le s x
  have hstep := s.step_mem.1
  by_contra hne
  have hone : s.step * 1 ≤ s.step * magnitude s x :=
    mul_le_mul_of_nonneg_left (by omega) (by omega)
  omega

/-- On the wrong side the predictor moves away by an eighth of a step, up to the clamp. -/
theorem encodeSample_signal_of_near (hneg : distance s x < 0)
    (hnear : -(distance s x * 8) < s.step) :
    (encodeSample s x).2.signal = min (s.signal + s.step / 8) 32767 := by
  have hzero := magnitude_of_near s x (by rw [abs_of_neg hneg]; omega)
  have hsignal := s.signal_mem
  have hstep := s.step_mem.1
  rw [encodeSample_signal, shift, if_neg (by omega), move, hzero, Nat.cast_zero, mul_zero, mul_zero,
    zero_add, limit, if_neg (by omega)]
  split <;> omega

end Code

/-! ## The promise -/

/-- One step leaves the predictor within half a quarter step of the target, give or take 1. -/
def QuantizesAccurately (s : AdpcmState) (x : Int16) : Prop :=
  |((target x - (encodeSample s x).2.signal : ℤ) : ℚ)| ≤ (s.step : ℚ) / 8 + 1

theorem quantizesAccurately_iff {s : AdpcmState} {x : Int16} :
    QuantizesAccurately s x ↔ 8 * errorAfter s x ≤ s.step + 8 := by
  rw [QuantizesAccurately, errorAfter, ← Int.cast_abs, div_add_one (by norm_num : (8 : ℚ) ≠ 0),
    le_div_iff₀ (by norm_num), mul_comm]
  norm_cast

/-- **Accuracy of the quantiser.** A target within reach is met to half a quarter step unless it
lies below the predictor by too little to be seen, and the clamp does not help. -/
theorem quantizesAccurately_iff_of_reach (s : AdpcmState) (x : Int16)
    (hreach : 8 * |target x - s.signal| < 16 * s.step) :
    QuantizesAccurately s x ↔ s.signal ≤ target x + 1 ∨ s.step ≤ 8 * (s.signal - target x) ∨
      8 * (32767 - target x) ≤ s.step + 8 := by
  have hdist : distance s x = target x - s.signal := rfl
  rw [quantizesAccurately_iff]
  by_cases hside : 0 ≤ distance s x ∨ s.step ≤ -(distance s x * 8)
  · refine iff_of_true (errorAfter_le_of_side s x hreach hside) ?_
    omega
  · obtain ⟨hneg, hnear⟩ := not_or.mp hside
    rw [not_le] at hneg hnear
    have hsignal := s.signal_mem
    have hstep := s.step_mem.1
    have htarget := target_mem x
    rw [errorAfter, encodeSample_signal_of_near s x hneg hnear, abs_of_neg (by omega)]
    omega

/-- The predictor 15 above the target, with the step at 127: it moves up by 15. -/
theorem quantizesAccurately_fails_below :
    ¬QuantizesAccurately ⟨15, 127, by decide, by decide⟩ 0 ∧
      8 * |target 0 - 15| < 16 * 127 := by
  refine ⟨?_, by decide⟩
  rw [quantizesAccurately_iff]
  decide

theorem quantizesAccurately_initial : QuantizesAccurately .initial 200 :=
  (quantizesAccurately_iff_of_reach _ _ (by decide)).mpr (Or.inl (by decide))

end DcaConv
