import DcaConv.Adpcm.Accuracy
import DcaConv.Adpcm.Lockstep

/-!
# The coder settles

A constant input is followed in three phases. While the target is out of reach the encoder spends
its largest code: the predictor closes in without passing the target, and the step more than
doubles, so this lasts six samples at most. Once within reach the error stays below half a step,
which keeps the magnitude at 0 or 1 and lets the step decay to its minimum. At the minimum the
predictor stays in a band of 30 about the target.

## What truncation does

Every quotient in this is rounded down, which slows the decay near the minimum, and a target just
below the predictor is missed by almost a quarter step instead of an eighth. Both are inside the
margins of the second phase.
-/

namespace DcaConv

/-! ## Runs on a constant input -/

/-- The predictor after `n` samples of the same value. -/
def holdInput (x : Int16) (n : ℕ) (s : AdpcmState) : AdpcmState :=
  (fun s ↦ (encodeSample s x).2)^[n] s

variable (x : Int16)

theorem holdInput_succ (n : ℕ) (s : AdpcmState) :
    holdInput x (n + 1) s = (encodeSample (holdInput x n s) x).2 := Function.iterate_succ_apply' _ _ _

theorem holdInput_add (m n : ℕ) (s : AdpcmState) :
    holdInput x (m + n) s = holdInput x m (holdInput x n s) := Function.iterate_add_apply _ _ _ _

/-! ## One step -/

section Step

variable (s : AdpcmState)

theorem abs_distance_next : |distance (encodeSample s x).2 x| = errorAfter s x := rfl

theorem indexScale_add_eight : ∀ v < 8, indexScale (v + 8) = indexScale v := by decide

theorem encodeSample_step : (encodeSample s x).2.step =
    limit (s.step * indexScale (magnitude s x) / 256) 127 24576 := by
  have hscale : indexScale (encodeVal s x) = indexScale (magnitude s x) := by
    rw [encodeVal_eq]
    split
    · exact indexScale_add_eight _ (Nat.lt_succ_of_le (magnitude_le s x))
    · rfl
  have hshift : (s.step * indexScale (encodeVal s x)) >>> (8 : ℕ)
      = s.step * indexScale (magnitude s x) / 256 := by
    rw [hscale, Int.shiftRight_eq_div_pow]
    rfl
  exact congrArg (fun q ↦ limit q 127 24576) hshift

theorem indexScale_ge : ∀ v ≤ 7, 230 ≤ indexScale v := by decide

/-- The step never shrinks faster than by the smallest scale. -/
theorem le_encodeSample_step : s.step * 230 / 256 ≤ (encodeSample s x).2.step := by
  have hstep := s.step_mem
  have hscale := indexScale_ge _ (magnitude_le s x)
  have hmul : s.step * 230 ≤ s.step * indexScale (magnitude s x) :=
    mul_le_mul_of_nonneg_left hscale (by omega)
  rw [encodeSample_step, limit]
  split
  · omega
  · split <;> omega

end Step

/-! ## Out of reach -/

section Overload

variable {x} {s : AdpcmState}

/-- The target is less than two steps away. -/
def InReach (s : AdpcmState) (x : Int16) : Prop := 8 * |distance s x| < 16 * s.step

/-- Out of reach the predictor moves by fifteen eighths of the step, which grows. -/
theorem overload_step (h : ¬InReach s x) :
    |distance (encodeSample s x).2 x| ≤ |distance s x| - 15 * s.step / 8 ∧
      (encodeSample s x).2.step = min (s.step * 614 / 256) 24576 := by
  have hstep := s.step_mem.1
  rw [InReach, not_lt] at h
  have hmag : magnitude s x = 7 := by
    by_contra hne
    have hlt := lt_step_mul_magnitude s x (Or.inl ((magnitude_le s x).lt_of_ne hne))
    have hmul : s.step * (magnitude s x : ℤ) ≤ s.step * 6 :=
      mul_le_mul_of_nonneg_left (by have := magnitude_le s x; omega) (by omega)
    omega
  constructor
  · have herr := errorAfter_le s x
    rw [abs_distance_next]
    refine herr.trans ?_
    have hmove : move s x = 15 * s.step / 8 := by
      rw [move, hmag]
      omega
    rw [shift, hmove]
    rcases abs_cases (distance s x) with ⟨habs, -⟩ | ⟨habs, -⟩
    · rw [if_neg (by omega), abs_of_nonneg (by omega)]
      omega
    · rw [if_pos (by omega), abs_of_nonpos (by omega)]
      omega
  · rw [encodeSample_step, hmag, limit, show indexScale 7 = 614 from rfl]
    split
    · omega
    · split <;> omega

/-- The least step and the greatest distance after `n` samples out of reach. -/
def overload : ℕ → ℤ × ℤ
  | 0 => (127, 65535)
  | n + 1 => ((overload n).1 * 614 / 256, (overload n).2 - 15 * (overload n).1 / 8)

theorem overload_le : ∀ n ≤ 6, (overload n).1 ≤ 24576 := by decide

theorem holdInput_overload (s : AdpcmState) {n : ℕ} (hn : n ≤ 6)
    (h : ∀ m < n, ¬InReach (holdInput x m s) x) :
    (overload n).1 ≤ (holdInput x n s).step ∧
      |distance (holdInput x n s) x| ≤ (overload n).2 := by
  induction n with
  | zero =>
    have htarget := target_mem x
    have hsignal := s.signal_mem
    refine ⟨s.step_mem.1, ?_⟩
    rw [overload, abs_le]
    show -65535 ≤ target x - s.signal ∧ target x - s.signal ≤ 65535
    omega
  | succ n ih =>
    obtain ⟨hslope, hroom⟩ := ih (by omega) fun m hm ↦ h m (by omega)
    obtain ⟨hdist, hgrow⟩ := overload_step (h n (by omega))
    have hcap := overload_le (n + 1) hn
    rw [holdInput_succ, hgrow]
    rw [overload] at hcap ⊢
    refine ⟨?_, hdist.trans ?_⟩ <;> omega

/-- Six samples bring any target within reach. -/
theorem exists_inReach (s : AdpcmState) : ∃ m ≤ 6, InReach (holdInput x m s) x := by
  by_contra h
  push Not at h
  obtain ⟨hslope, hroom⟩ := holdInput_overload s (le_refl 6) fun m hm ↦ h m hm.le
  have hlast : (overload 6).2 < 2 * (overload 6).1 := by decide
  refine h 6 (le_refl 6) ?_
  rw [InReach]
  omega

end Overload

/-! ## Decay -/

section Decay

variable {x} {s : AdpcmState}

/-- The target is less than half a step away. -/
def Near (s : AdpcmState) (x : Int16) : Prop := 2 * |distance s x| < s.step

theorem Near.inReach (h : Near s x) : InReach s x := by
  rw [Near] at h
  rw [InReach]
  have hstep := s.step_mem.1
  omega

/-- Within reach a step errs by a quarter step at most, on the wrong side included. -/
theorem errorAfter_le_of_inReach (h : InReach s x) : 4 * errorAfter s x ≤ s.step + 4 := by
  have hstep := s.step_mem.1
  by_cases hside : 0 ≤ distance s x ∨ s.step ≤ -(distance s x * 8)
  · have herr := errorAfter_le_of_side s x h hside
    omega
  · obtain ⟨hneg, hnear⟩ := not_or.mp hside
    rw [not_le] at hneg hnear
    have hdist : distance s x = target x - s.signal := rfl
    have hsignal := s.signal_mem
    have htarget := target_mem x
    rw [errorAfter, encodeSample_signal_of_near s x hneg hnear, abs_of_neg (by omega)]
    omega

theorem near_next (h : InReach s x) : Near (encodeSample s x).2 x := by
  have hstep := s.step_mem.1
  have herr := errorAfter_le_of_inReach h
  have hgrow := le_encodeSample_step x s
  rw [Near, abs_distance_next]
  omega

theorem Near.magnitude_le_one (h : Near s x) : magnitude s x ≤ 1 := by
  by_contra hgt
  have hstep := s.step_mem.1
  have hlo := step_mul_magnitude_le s x
  have hmul : s.step * 2 ≤ s.step * (magnitude s x : ℤ) :=
    mul_le_mul_of_nonneg_left (by omega) (by omega)
  rw [Near] at h
  omega

/-- What a small code makes of the step. -/
def decay (step : ℤ) : ℤ := max (step * 230 / 256) 127

theorem Near.step_next (h : Near s x) : (encodeSample s x).2.step = decay s.step := by
  have hstep := s.step_mem
  have hscale : indexScale (magnitude s x) = 230 := by
    have hsmall : ∀ v ≤ 1, indexScale v = 230 := by decide
    exact hsmall _ h.magnitude_le_one
  rw [encodeSample_step, hscale, limit, decay]
  split
  · omega
  · split <;> omega

theorem decay_mono {a b : ℤ} (hab : a ≤ b) : decay a ≤ decay b := by
  rw [decay, decay]
  omega

theorem Near.holdInput (h : Near s x) (n : ℕ) :
    Near (holdInput x n s) x ∧ (DcaConv.holdInput x n s).step = decay^[n] s.step := by
  induction n with
  | zero => exact ⟨h, rfl⟩
  | succ n ih =>
    obtain ⟨hnear, hstep⟩ := ih
    rw [holdInput_succ, Function.iterate_succ_apply', ← hstep]
    exact ⟨near_next hnear.inReach, hnear.step_next⟩

set_option maxRecDepth 8192 in
/-- Fifty samples bring the largest step down to the smallest. -/
theorem decay_fifty : decay^[50] 24576 = 127 := by decide

theorem Near.step_fifty (h : Near s x) : (DcaConv.holdInput x 50 s).step = 127 := by
  have hmono : Monotone decay := fun _ _ ↦ decay_mono
  have hle := hmono.iterate 50 s.step_mem.2
  rw [decay_fifty] at hle
  rw [(h.holdInput 50).2]
  have hge := (DcaConv.holdInput x 50 s).step_mem.1
  rw [(h.holdInput 50).2] at hge
  exact le_antisymm hle hge

end Decay

/-! ## At the minimum -/

section Settled

variable {x} {s : AdpcmState}

/-- The step is minimal and the predictor at most 30 away from the target. -/
structure Settled (s : AdpcmState) (x : Int16) : Prop where
  step_eq : s.step = 127
  error_le : |s.signal - target x| ≤ 30

theorem settled_of_near_next (hstep : s.step = 127) (h : Near s x) :
    Settled (encodeSample s x).2 x := by
  refine ⟨by rw [h.step_next, hstep]; rfl, ?_⟩
  rw [abs_sub_comm]
  show errorAfter s x ≤ 30
  by_cases hside : 0 ≤ distance s x ∨ s.step ≤ -(distance s x * 8)
  · have herr := errorAfter_le_of_side s x h.inReach hside
    omega
  · obtain ⟨hneg, hnear⟩ := not_or.mp hside
    rw [not_le] at hneg hnear
    have hdist : distance s x = target x - s.signal := rfl
    have hsignal := s.signal_mem
    have htarget := target_mem x
    rw [errorAfter, encodeSample_signal_of_near s x hneg hnear, abs_of_neg (by omega)]
    omega

theorem Settled.near (h : Settled s x) : Near s x := by
  have herr := h.error_le
  rw [abs_sub_comm] at herr
  rw [Near, h.step_eq]
  show 2 * |target x - s.signal| < 127
  omega

theorem Settled.holdInput (h : Settled s x) (n : ℕ) : Settled (holdInput x n s) x := by
  induction n with
  | zero => exact h
  | succ n ih =>
    rw [holdInput_succ]
    exact settled_of_near_next ih.step_eq ih.near

/-- The three phases one after the other. -/
theorem settled_holdInput (s : AdpcmState) {n : ℕ} (hn : 64 ≤ n) :
    Settled (DcaConv.holdInput x n s) x := by
  -- `m` samples until the target is within reach, one to come near, fifty to decay, one to settle
  obtain ⟨m, hm, hreach⟩ := exists_inReach (x := x) s
  have hnear : Near (DcaConv.holdInput x (m + 1) s) x := by
    rw [holdInput_succ]
    exact near_next hreach
  have hdecayed := hnear.step_fifty
  have hstill := (hnear.holdInput 50).1
  rw [← holdInput_add] at hdecayed hstill
  have hsettled := settled_of_near_next hdecayed hstill
  rw [← holdInput_succ] at hsettled
  have hrest : n = (n - (50 + (m + 1) + 1)) + (50 + (m + 1) + 1) := by omega
  rw [hrest, holdInput_add]
  exact hsettled.holdInput _

/-- The encoder's loop settles on any constant stretch of 64 samples, whatever came before. -/
theorem pcm2adpcmTrace_settles (xs : List Int16) (x : Int16) {n : ℕ} (hn : 64 ≤ n)
    (hlt : xs.length + n < 2 ^ 64) :
    ∃ trace s, pcm2adpcmTrace (xs ++ List.replicate n x) (xs.length + n) = .ok (trace ++ [s]) ∧
      Settled s x := by
  obtain ⟨n, rfl⟩ : ∃ m, n = m + 1 := ⟨n - 1, by omega⟩
  have hlen : (xs ++ List.replicate (n + 1) x).length = xs.length + (n + 1) := by
    rw [List.length_append, List.length_replicate]
  have hne : xs ++ List.replicate (n + 1) x ≠ [] := by
    intro h
    rw [h, List.length_nil] at hlen
    omega
  have hstates := adpcmEncoder.states_concat .initial (xs ++ List.replicate n x) x
  rw [List.append_assoc, ← List.replicate_succ', Transducer.after_append,
    Transducer.after_replicate] at hstates
  refine ⟨adpcmEncoder.states .initial (xs ++ List.replicate n x),
    DcaConv.holdInput x (n + 1) (adpcmEncoder.after .initial xs), ?_, settled_holdInput _ hn⟩
  rw [← hlen, pcm2adpcmTrace_eq hne (hlen ▸ hlt), hstates]
  rfl

end Settled

/-- **Settling.** From any state, 64 or more samples of one value leave the step at its minimum and
the predictor within 30 of the target. -/
theorem adpcm_settles (s : AdpcmState) (x : Int16) (n : ℕ) (hn : 64 ≤ n) :
    (holdInput x n s).step = 127 ∧ |(holdInput x n s).signal - target x| ≤ 30 :=
  ⟨(settled_holdInput s hn).step_eq, (settled_holdInput s hn).error_le⟩

theorem adpcm_settles_silence : (holdInput 0 64 ⟨32767, 0x6000, by decide, by decide⟩).step = 127 ∧
    |(holdInput 0 64 ⟨32767, 0x6000, by decide, by decide⟩).signal - target 0| ≤ 30 :=
  adpcm_settles _ _ _ (le_refl 64)

end DcaConv
