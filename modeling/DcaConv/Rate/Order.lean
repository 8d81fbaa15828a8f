import DcaConv.Rate.Accuracy
import DcaConv.Rate.Growth

/-!
# Rounding and the order of rates

A larger request is stored under a larger code as long as both round inside their octaves, and every
rate of an octave is below the base of the next. The order is lost in two places. Where rounding
leaves an octave the carry is masked off, and the request falls behind everything above the octave's
base. And below the lowest octave the decoder adds an implicit one the quotient does not have, which
lifts a request of less than 172 hertz over the smallest ones the hardware can play.
-/

namespace DcaConv

/-! ## Rates of two octaves -/

theorem InOctave.mono {f g j k : ℕ} (hj : InOctave f j) (hk : InOctave g k) (hfg : f ≤ g) :
    j ≤ k := by
  by_contra hlt
  have hbase : octaveBase (k + 1) ≤ octaveBase j := octaveBase_mono (not_le.mp hlt) hj.le_top
  have htop := hj.le_top
  rcases hk.lt_next with h | h
  · omega
  · rcases hj.base_le with h' | h' <;> omega

theorem rateOf_mono {k m m' : ℕ} (h : m ≤ m') : rateOf k m ≤ rateOf k m' :=
  Nat.div_le_div_right (Nat.mul_le_mul_right _ (Nat.mul_le_mul_left _ h))

/-- The rates of an octave end where those of the next begin. -/
theorem rateOf_le_base {j k m : ℕ} (hjk : j < k) (hm : m < 2048) : rateOf j m ≤ rateOf k 1024 := by
  have hpow : 2 * 2 ^ j ≤ 2 ^ k := by
    rw [← pow_succ']
    exact Nat.pow_le_pow_right (by norm_num) hjk
  apply Nat.div_le_div_right
  calc 11025 * m * 2 ^ j ≤ 11025 * 2048 * 2 ^ j := by gcongr
    _ = 11025 * 1024 * (2 * 2 ^ j) := by ring
    _ ≤ 11025 * 1024 * 2 ^ k := Nat.mul_le_mul_left _ hpow

/-- From the fourth octave up a mantissa step is more than a hertz. -/
theorem rateOf_base_lt {k m : ℕ} (hk : 3 ≤ k) (hm : 1025 ≤ m) : rateOf k 1024 < rateOf k m := by
  have hpow : 2 ^ 3 ≤ 2 ^ k := Nat.pow_le_pow_right (by norm_num) hk
  have hstep : rateOf k 1024 < rateOf k 1025 := by
    rw [rateOf, rateOf]
    omega
  exact hstep.trans_le (rateOf_mono hm)

theorem toAICA_of_lower_octave {f g j k : ℕ} (hj : InOctave f j) (hk : InOctave g k) (hjk : j < k)
    (hf : f < 2 ^ 22) (hg : g < 2 ^ 22) : fDcaToAICAFrequency f ≤ fDcaToAICAFrequency g := by
  rw [fDcaToAICAFrequency_eq hj hf, fDcaToAICAFrequency_eq hk hg]
  exact (rateOf_le_base hjk (storedMantissa_mem f j).2).trans
    (rateOf_mono (storedMantissa_mem g k).1)

/-! ## Rates of one octave -/

section Octave

variable {f g k : ℕ}

theorem RoundsInOctave.of_le (hg : RoundsInOctave g) (hj : InOctave f k) (hk : InOctave g k)
    (hfg : f ≤ g) : RoundsInOctave f := by
  rw [roundsInOctave_iff hk] at hg
  rw [roundsInOctave_iff hj]
  omega

/-- Requests that round inside their octave keep their order. -/
theorem storedMantissa_mono (hj : InOctave f k) (hk : InOctave g k) (hlo : 172 ≤ f) (hfg : f ≤ g)
    (hg : g < 2 ^ 22) (hrounds : RoundsInOctave g) :
    storedMantissa f k ≤ storedMantissa g k := by
  obtain ⟨hle, -⟩ := mem_cell_of_rounds hj hlo (by omega) (hrounds.of_le hj hk hfg)
  obtain ⟨-, hlt⟩ := mem_cell_of_rounds hk (by omega) hg hrounds
  have hcells : octaveBase k * storedMantissa f k < octaveBase k * (storedMantissa g k + 1) := by
    rw [Nat.mul_succ]
    omega
  exact Nat.lt_succ_iff.mp (Nat.lt_of_mul_lt_mul_left hcells)

/-- A request that rounds inside its octave is stored above the base from half a step on. -/
theorem storedMantissa_gt_iff (hk : InOctave f k) (hlo : 172 ≤ f) (hf : f < 2 ^ 22)
    (hrounds : RoundsInOctave f) :
    1025 ≤ storedMantissa f k ↔ 1025 * octaveBase k ≤ 1024 * f + octaveBase k / 2 := by
  obtain ⟨hle, hlt⟩ := mem_cell_of_rounds hk hlo hf hrounds
  constructor
  · intro hm
    have hmul := Nat.mul_le_mul_left (octaveBase k) hm
    omega
  · intro habove
    by_contra hm
    have hmul : octaveBase k * (storedMantissa f k + 1) ≤ octaveBase k * 1025 :=
      Nat.mul_le_mul_left _ (not_le.mp hm)
    rw [Nat.mul_succ] at hmul
    omega

/-- No request of the first, third or fourth octave loses a carry: the base was halved down to one
that leaves room for the last of them. -/
theorem octave_of_not_rounds (hk : InOctave g k) (h : ¬RoundsInOctave g) : k = 1 ∨ 4 ≤ k := by
  have hroom : ∀ k, k = 0 ∨ k = 2 ∨ k = 3 → octaveBase (k + 1) ≤ 4192926 ∧
      1024 * octaveBase (k + 1) + octaveBase k / 2 < 2048 * octaveBase k + 1024 := by
    rintro k (rfl | rfl | rfl) <;> decide
  rw [roundsInOctave_iff hk] at h
  by_contra hne
  have hnext : g < octaveBase (k + 1) := hk.lt_next.resolve_left (by omega)
  obtain ⟨htop, hlast⟩ := hroom k (by omega)
  omega

/-- What is stored above the base of an octave that loses a carry is played above it. -/
theorem base_lt_toAICA (hk : InOctave f k) (hf : f < 2 ^ 22) (hoct : k = 1 ∨ 4 ≤ k)
    (hrounds : RoundsInOctave f) (hlo : 172 ≤ f)
    (habove : 1025 * octaveBase k ≤ 1024 * f + octaveBase k / 2) :
    rateOf k 1024 < fDcaToAICAFrequency f := by
  rcases hoct with rfl | hfour
  · have hbase : octaveBase 1 = 344 := rfl
    have hrate : rateOf 1 1024 = 344 := rfl
    obtain ⟨-, hoct⟩ := (roundsInOctave_iff hk).mp hrounds
    rw [hbase] at habove hoct
    rw [hrate, toAICA_octave_one (by omega) (by omega)]
    split <;> omega
  · rw [fDcaToAICAFrequency_eq hk hf]
    exact rateOf_base_lt (by omega) ((storedMantissa_gt_iff hk hlo hf hrounds).mpr habove)

end Octave

/-! ## Where the order is lost -/

/-- The smaller request is lifted over the larger one, or the larger one loses its carry and falls
behind the smaller. -/
def OrderBreaks (f g : ℕ) : Prop :=
  (f < 172 ∧ 172 ≤ g ∧ g < f + 172) ∨
    ∃ k, InOctave f k ∧ InOctave g k ∧ RoundsInOctave f ∧
      1025 * octaveBase k ≤ 1024 * f + octaveBase k / 2 ∧ ¬RoundsInOctave g

section Order

variable {f g k : ℕ}

/-- Below 172 hertz every request is lifted by as much. -/
theorem toAICA_le_iff_below (hf : f < 172) (hfg : f ≤ g) (hg : g < 2 ^ 22) :
    fDcaToAICAFrequency f ≤ fDcaToAICAFrequency g ↔ ¬OrderBreaks f g := by
  have hzero : ∀ j, InOctave f j → j = 0 := fun j hj ↦ hj.unique (inOctave_zero (by omega))
  have hcarry : ¬∃ k, InOctave f k ∧ InOctave g k ∧ RoundsInOctave f ∧
      1025 * octaveBase k ≤ 1024 * f + octaveBase k / 2 ∧ ¬RoundsInOctave g := by
    rintro ⟨k, hj, hk, -, -, hlost⟩
    have hoct := octave_of_not_rounds hk hlost
    rw [hzero k hj] at hoct
    omega
  rw [OrderBreaks, or_iff_left hcarry, toAICA_below hf]
  rcases (by omega : g < 172 ∨ 172 ≤ g ∧ g < 344 ∨ 344 ≤ g) with hlow | ⟨hlo, hoct⟩ | hhigh
  · rw [toAICA_below hlow]
    omega
  · rw [toAICA_octave_zero hlo hoct]
    omega
  · obtain ⟨k, hk, -⟩ := exists_inOctave g
    have hpos : 0 < k := by
      by_contra hzero
      obtain rfl : k = 0 := by omega
      have hnext : g < 344 := hk.lt_next.resolve_left (by norm_num)
      omega
    have htop : rateOf 0 2047 = 344 := rfl
    have hbase := rateOf_le_base hpos (by norm_num : 2047 < 2048)
    have hrate := rateOf_mono (k := k) (storedMantissa_mem g k).1
    rw [fDcaToAICAFrequency_eq hk hg]
    omega

/-- In one octave only a lost carry can break the order. -/
theorem toAICA_le_iff_octave (hlo : 172 ≤ f) (hj : InOctave f k) (hk : InOctave g k) (hfg : f ≤ g)
    (hg : g < 2 ^ 22) : fDcaToAICAFrequency f ≤ fDcaToAICAFrequency g ↔
      ¬(RoundsInOctave f ∧ 1025 * octaveBase k ≤ 1024 * f + octaveBase k / 2 ∧
        ¬RoundsInOctave g) := by
  have hf : f < 2 ^ 22 := by omega
  by_cases hrounds : RoundsInOctave g
  · refine iff_of_true ?_ fun h ↦ h.2.2 hrounds
    rw [fDcaToAICAFrequency_eq hj hf, fDcaToAICAFrequency_eq hk hg]
    exact rateOf_mono (storedMantissa_mono hj hk hlo hfg hg hrounds)
  have hbase : fDcaToAICAFrequency g = rateOf k 1024 := by
    rw [fDcaToAICAFrequency_eq hk hg, storedMantissa_of_not_rounds hk (by omega) hg hrounds]
  rw [hbase]
  by_cases hrounds' : RoundsInOctave f
  · by_cases habove : 1025 * octaveBase k ≤ 1024 * f + octaveBase k / 2
    · have hlt := base_lt_toAICA hj hf (octave_of_not_rounds hk hrounds) hrounds' hlo habove
      exact iff_of_false (not_le.mpr hlt) (not_not.mpr ⟨hrounds', habove, hrounds⟩)
    · refine iff_of_true ?_ fun h ↦ habove h.2.1
      rw [← storedMantissa_gt_iff hj hlo hf hrounds'] at habove
      rw [fDcaToAICAFrequency_eq hj hf]
      exact rateOf_mono (Nat.lt_succ_iff.mp (not_le.mp habove))
  · refine iff_of_true ?_ fun h ↦ hrounds' h.1
    rw [fDcaToAICAFrequency_eq hj hf, storedMantissa_of_not_rounds hj hlo hf hrounds']

/-- **Order of rounded rates.** Rounding keeps two requests in order exactly when neither defect
comes between them. -/
theorem toAICA_le_iff (hfg : f ≤ g) (hg : g < 2 ^ 22) :
    fDcaToAICAFrequency f ≤ fDcaToAICAFrequency g ↔ ¬OrderBreaks f g := by
  rcases Nat.lt_or_ge f 172 with hlow | hlo
  · exact toAICA_le_iff_below hlow hfg hg
  obtain ⟨j, hj, -⟩ := exists_inOctave f
  obtain ⟨k, hk, -⟩ := exists_inOctave g
  rcases (hj.mono hk hfg).lt_or_eq with hjk | rfl
  · refine iff_of_true (toAICA_of_lower_octave hj hk hjk (by omega) hg) ?_
    rintro (⟨hlow, -⟩ | ⟨i, hi, hi', -⟩)
    · omega
    · have hsame := (hi.unique hj).symm.trans (hi'.unique hk)
      omega
  · rw [toAICA_le_iff_octave hlo hj hk hfg hg, not_iff_not]
    constructor
    · exact fun h ↦ Or.inr ⟨j, hj, hk, h⟩
    · rintro (⟨hlow, -⟩ | ⟨i, hi, -, h⟩)
      · omega
      · rwa [hi.unique hj] at h

end Order

/-- The two common rates lie in different octaves. -/
theorem toAICA_le_iff_common : fDcaToAICAFrequency 22050 ≤ fDcaToAICAFrequency 44100 := by
  refine (toAICA_le_iff (by norm_num) (by norm_num)).mpr ?_
  rintro (⟨hlow, -⟩ | ⟨k, hj, hk, -⟩)
  · omega
  · have hseven : InOctave 22050 7 := ⟨by norm_num, Or.inr (by decide), Or.inr (by decide)⟩
    have height : InOctave 44100 8 := ⟨by norm_num, Or.inr (by decide), Or.inr (by decide)⟩
    have hsame := (hseven.unique hj).trans (hk.unique height)
    omega

/-- 171 Hz is played at 343 Hz and 172 Hz at 172; 687 Hz at 688 and 688 Hz at 344. -/
theorem toAICA_order_broken :
    ¬(∀ f g, 1 ≤ f → f ≤ g → g < 2 ^ 22 → fDcaToAICAFrequency f ≤ fDcaToAICAFrequency g) ∧
      ¬fDcaToAICAFrequency 687 ≤ fDcaToAICAFrequency 688 := by
  constructor
  · intro h
    have hle := h 171 172 (by norm_num) (by norm_num) (by norm_num)
    rw [toAICA_below (by norm_num), toAICA_octave_zero (by norm_num) (by norm_num)] at hle
    omega
  · rw [toAICA_688, toAICA_octave_one (by norm_num) (by norm_num)]
    decide

end DcaConv
