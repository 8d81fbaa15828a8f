import DcaConv.Library.CountedLoop
import DcaConv.Library.Memory
import DcaConv.Pipeline.Output
import Mathlib.Algebra.Order.BigOperators.Group.List
import Mathlib.Algebra.Order.Group.Abs
import Mathlib.Tactic.Linarith
import Mathlib.Tactic.FieldSimp

/-!
# The mono mix

`dcaDownmixMono` adds a frame up as `int` and divides by the channel count, which is `unsigned`. A
negative sum is therefore divided as the sum plus `2 ^ 32`, and the quotient cut to 16 bits. Where
the channel count divides `2 ^ 16` the two moduli agree and the cut quotient is the rounded-down
mean. Where it does not, a negative sum leaves a remainder of `2 ^ 32` behind, which moves the
result by a third or more of the whole range.
-/

namespace DcaConv

/-! ## Averages of a list -/

/-- The value lies between the least and the greatest of the list, less than 1 from its mean. -/
structure IsAverage (vals : List ℤ) (y : ℤ) : Prop where
  exists_le : ∃ v ∈ vals, v ≤ y
  exists_ge : ∃ v ∈ vals, y ≤ v
  near_mean : |(y : ℚ) - (vals.sum : ℚ) / (vals.length : ℚ)| < 1

/-- Being near the mean, without the division. -/
theorem near_mean_iff {s y : ℤ} {n : ℕ} (hn : 1 ≤ n) :
    |(y : ℚ) - (s : ℚ) / (n : ℚ)| < 1 ↔ |n * y - s| < n := by
  have hpos : (0 : ℚ) < n := by exact_mod_cast hn
  have hmul : (y : ℚ) - s / n = ((n * y - s : ℤ) : ℚ) / n := by
    push_cast
    field_simp
  rw [hmul, abs_div, abs_of_pos hpos, div_lt_one hpos]
  norm_cast

/-- The mean rounded down is an average. -/
theorem isAverage_floor {vals : List ℤ} (hne : 1 ≤ vals.length) :
    IsAverage vals (vals.sum / vals.length) := by
  have hpos : (0 : ℤ) < vals.length := by exact_mod_cast hne
  have hdiv := Int.emod_add_mul_ediv vals.sum vals.length
  have hmod := Int.emod_nonneg vals.sum hpos.ne'
  have hmod' := Int.emod_lt_of_pos vals.sum hpos
  generalize vals.sum / (vals.length : ℤ) = y at hdiv ⊢
  refine ⟨?_, ?_, ?_⟩
  · by_contra hall
    push Not at hall
    have hsum := List.card_nsmul_le_sum vals (y + 1) fun v hv ↦ hall v hv
    rw [nsmul_eq_mul] at hsum
    have hexp : (vals.length : ℤ) * (y + 1) = vals.length * y + vals.length := by ring
    omega
  · by_contra hall
    push Not at hall
    have hsum := List.sum_le_card_nsmul vals (y - 1) fun v hv ↦ Int.le_sub_one_of_lt (hall v hv)
    rw [nsmul_eq_mul] at hsum
    have hexp : (vals.length : ℤ) * (y - 1) = vals.length * y - vals.length := by ring
    omega
  · rw [near_mean_iff hne, abs_lt]
    constructor <;> omega

/-! ## One frame -/

/-- Frame `i` of the channels in use. -/
def frame (dcac : DcAudioConverter) (i : ℕ) : List ℤ :=
  (dcac.samples.take dcac.channelCnt).map fun xs ↦ (xs.getD i 0).toInt

/-- What the division and the cut make of a sum. -/
def mixedValue (s : ℤ) (n : ℕ) : ℤ := (((s % 2 ^ 32).toNat / n : ℕ) : ℤ).bmod (2 ^ 16)

theorem toInt_downmixFrame (dcac : DcAudioConverter) (i : ℕ) :
    (downmixFrame dcac i).toInt = mixedValue (frame dcac i).sum dcac.channelCnt :=
  Int16.toInt_ofNat'

/-- The channel counts at which the two moduli agree. -/
def DividesEvenly (n : ℕ) : Prop := n = 1 ∨ n = 2 ∨ n = 4 ∨ n = 8

section Values

variable {s : ℤ} {n : ℕ}

/-- The quotient is one of integers. -/
theorem cast_quotient (s : ℤ) (n : ℕ) :
    (((s % 2 ^ 32).toNat / n : ℕ) : ℤ) = s % 2 ^ 32 / n := by
  have hnonneg : 0 ≤ s % 2 ^ 32 := by omega
  generalize s % 2 ^ 32 = q at hnonneg ⊢
  rw [Int.natCast_ediv, Int.toNat_of_nonneg hnonneg]

/-- The upper half of its low 16 bits is read as negative. -/
theorem bmod_sixteen (q : ℤ) :
    q.bmod (2 ^ 16) = if q % 65536 < 32768 then q % 65536 else q % 65536 - 65536 := by
  rw [Int.bmod_def]
  norm_num

theorem mixedValue_eq (s : ℤ) (n : ℕ) :
    mixedValue s n = if s % 2 ^ 32 / n % 65536 < 32768 then s % 2 ^ 32 / n % 65536
      else s % 2 ^ 32 / n % 65536 - 65536 := by
  have hcut := bmod_sixteen (s % 2 ^ 32 / n)
  exact (congrArg (fun q : ℤ ↦ q.bmod (2 ^ 16)) (cast_quotient s n)).trans hcut

theorem mixedValue_of_nonneg (hn : 1 ≤ n) (hn' : n ≤ 8) (hs : 0 ≤ s) (hhi : s ≤ 32767 * n) :
    mixedValue s n = s / n := by
  rw [mixedValue_eq]
  interval_cases n <;> omega

theorem mixedValue_of_dividesEvenly (h : DividesEvenly n) (hlo : -32768 * n ≤ s)
    (hhi : s ≤ 32767 * n) : mixedValue s n = s / n := by
  rw [mixedValue_eq]
  rcases h with rfl | rfl | rfl | rfl <;> omega

/-- Elsewhere a negative sum is off by the remainder of `2 ^ 32`, a third of the range or more. -/
theorem mixedValue_far (hn : 1 ≤ n) (hn' : n ≤ 8) (h : ¬DividesEvenly n) (hlo : -32768 * n ≤ s)
    (hs : s < 0) : ¬|n * mixedValue s n - s| < n := by
  rw [mixedValue_eq, abs_lt]
  rw [DividesEvenly] at h
  interval_cases n <;> omega

end Values

/-! ## The loop -/

section Loop

variable {dcac : DcAudioConverter}

/-- The loop of `dcaDownmixMono` from frame `i` on, with its allocation. The counter is `unsigned`
and the length is not. -/
def downmixLoop (dcac : DcAudioConverter) :
    (fuel : ℕ) → (i : ℕ) → (newsamples : List Int16) → Option (List Int16)
  | 0, _, _ => none
  | fuel + 1, i, newsamples =>
    if i < dcac.samplesLen then
      downmixLoop dcac fuel (u32 (i + 1)) (newsamples.set i (downmixFrame dcac i))
    else some newsamples

/-- `dcaDownmixMono` as a run that may not end. -/
def runDownmixMono (fuel : ℕ) (newsamples : List Int16) (dcac : DcAudioConverter) :
    Option DcAudioConverter :=
  if dcac.channelCnt = 1 then some dcac
  else (downmixLoop dcac fuel 0 newsamples).map fun xs ↦
    { dcac with channelCnt := 1, samples := [xs] }

/-- One turn of the loop, as a step that cannot fault. -/
def mixInto (dcac : DcAudioConverter) (newsamples : List Int16) (i : ℕ) :
    Except Fault (List Int16) := .ok (newsamples.set i (downmixFrame dcac i))

/-- The loop is a counted one. -/
theorem run_mixInto {fuel i : ℕ} {xs : List Int16} :
    CountedLoop.run (2 ^ 32) dcac.samplesLen (mixInto dcac) fuel i xs
      = (downmixLoop dcac fuel i xs).map .ok := by
  induction fuel generalizing i xs with
  | zero => rfl
  | succ fuel ih =>
    rw [CountedLoop.run, downmixLoop]
    split
    · exact ih
    · rfl

theorem foldlM_mixInto {xs : List Int16} (hxs : xs.length = dcac.samplesLen) :
    (List.range dcac.samplesLen).foldlM (mixInto dcac) xs
      = .ok ((List.range dcac.samplesLen).map (downmixFrame dcac)) := by
  have hfill := Memory.foldlM_set (ε := Fault) (v := downmixFrame dcac) hxs.ge
  rwa [List.drop_of_length_le hxs.le, List.append_nil] at hfill

/-- A length the counter cannot reach keeps the run going for ever. -/
theorem runDownmixMono_eq_none (hcnt : dcac.channelCnt ≠ 1) (hlen : 2 ^ 32 ≤ dcac.samplesLen)
    (fuel : ℕ) (newsamples : List Int16) : runDownmixMono fuel newsamples dcac = none := by
  have hnone : CountedLoop.run (2 ^ 32) dcac.samplesLen (mixInto dcac) fuel 0 newsamples = none :=
    CountedLoop.run_eq_none hlen (by positivity) (fun _ _ _ ↦ ⟨_, rfl⟩) (by positivity)
  rw [run_mixInto, Option.map_eq_none_iff] at hnone
  rw [runDownmixMono, if_neg hcnt, hnone, Option.map_none]

section Ends

variable {fuel : ℕ} {newsamples : List Int16}

/-- Below it a run with the fuel for one turn a frame ends with the converter `dcaDownmixMono`
describes. -/
theorem runDownmixMono_eq_some (hcnt : dcac.channelCnt ≠ 1) (hlen : dcac.samplesLen < 2 ^ 32)
    (hnew : newsamples.length = dcac.samplesLen) (hfuel : dcac.samplesLen < fuel) :
    runDownmixMono fuel newsamples dcac = some (dcaDownmixMono dcac) := by
  have hrun : CountedLoop.run (2 ^ 32) dcac.samplesLen (mixInto dcac) fuel 0 newsamples = _ :=
    CountedLoop.run_eq_range hlen hfuel
  rw [foldlM_mixInto hnew, run_mixInto] at hrun
  have hloop : downmixLoop dcac fuel 0 newsamples
      = some ((List.range dcac.samplesLen).map (downmixFrame dcac)) :=
    Option.map_injective (fun _ _ h ↦ Except.ok.inj h) hrun
  rw [runDownmixMono, if_neg hcnt, hloop, dcaDownmixMono, if_neg hcnt]
  rfl

/-- And so does any run that ends. -/
theorem eq_of_runDownmixMono (hcnt : dcac.channelCnt ≠ 1) (hlen : dcac.samplesLen < 2 ^ 32)
    (hnew : newsamples.length = dcac.samplesLen) {mixed : DcAudioConverter}
    (h : runDownmixMono fuel newsamples dcac = some mixed) : mixed = dcaDownmixMono dcac := by
  rw [runDownmixMono, if_neg hcnt] at h
  obtain ⟨xs, hloop, rfl⟩ := Option.map_eq_some_iff.mp h
  have hrun : CountedLoop.run (2 ^ 32) dcac.samplesLen (mixInto dcac) fuel 0 newsamples
      = some (.ok xs) := by
    rw [run_mixInto, hloop, Option.map_some]
  have hpass := CountedLoop.eq_foldlM_of_run hlen hrun
  rw [foldlM_mixInto hnew] at hpass
  rw [Except.ok.inj hpass, dcaDownmixMono, if_neg hcnt]

end Ends

end Loop

/-! ## The mix -/

/-- One channel of the same length, every sample an average of the frame it comes from. -/
structure MonoMix (dcac mixed : DcAudioConverter) : Prop where
  channelCnt_eq : mixed.channelCnt = 1
  samplesLen_eq : mixed.samplesLen = dcac.samplesLen
  average : ∃ ys, mixed.samples[0]? = some ys ∧ ys.length = dcac.samplesLen ∧
    ∀ i < dcac.samplesLen, ∃ y, ys[i]? = some y ∧ IsAverage (frame dcac i) y.toInt

/-- Whatever the allocation holds, the run ends and leaves the mono mix. -/
def MixesToMono (dcac : DcAudioConverter) : Prop :=
  ∀ newsamples : List Int16, newsamples.length = dcac.samplesLen →
    ∃ fuel mixed, runDownmixMono fuel newsamples dcac = some mixed ∧ MonoMix dcac mixed

section Mix

variable {dcac : DcAudioConverter}

theorem length_frame (hset : dcac.channelCnt ≤ dcac.samples.length) (i : ℕ) :
    (frame dcac i).length = dcac.channelCnt := by
  rw [frame, List.length_map, List.length_take, Nat.min_eq_left hset]

theorem frame_sum_mem (hset : dcac.channelCnt ≤ dcac.samples.length) (i : ℕ) :
    -32768 * dcac.channelCnt ≤ (frame dcac i).sum ∧
      (frame dcac i).sum ≤ 32767 * dcac.channelCnt := by
  have hmem : ∀ v ∈ frame dcac i, -32768 ≤ v ∧ v ≤ 32767 := by
    intro v hv
    obtain ⟨xs, -, rfl⟩ := List.mem_map.mp hv
    exact ⟨Int16.le_toInt _, Int16.toInt_le _⟩
  have hlo := List.card_nsmul_le_sum (frame dcac i) (-32768) fun v hv ↦ (hmem v hv).1
  have hhi := List.sum_le_card_nsmul (frame dcac i) 32767 fun v hv ↦ (hmem v hv).2
  rw [length_frame hset, nsmul_eq_mul] at hlo hhi
  constructor <;> linarith

/-- Mixing one frame works exactly where the division does. -/
theorem isAverage_downmixFrame_iff (hcnt : 1 ≤ dcac.channelCnt) (hcnt' : dcac.channelCnt ≤ 8)
    (hset : dcac.channelCnt ≤ dcac.samples.length) (i : ℕ) :
    IsAverage (frame dcac i) (downmixFrame dcac i).toInt ↔
      DividesEvenly dcac.channelCnt ∨ 0 ≤ (frame dcac i).sum := by
  obtain ⟨hlo, hhi⟩ := frame_sum_mem hset i
  have hlength := length_frame hset i
  have hfloor : IsAverage (frame dcac i) ((frame dcac i).sum / dcac.channelCnt) := by
    rw [← hlength]
    exact isAverage_floor (by omega)
  rw [toInt_downmixFrame]
  constructor
  · intro h
    by_contra hnot
    push Not at hnot
    have hnear := h.near_mean
    rw [hlength, near_mean_iff hcnt] at hnear
    exact mixedValue_far hcnt hcnt' hnot.1 hlo hnot.2 hnear
  · rintro (h | h)
    · rw [mixedValue_of_dividesEvenly h hlo hhi]
      exact hfloor
    · rw [mixedValue_of_nonneg hcnt hcnt' h hhi]
      exact hfloor

/-- The result of the loop is the mono mix exactly when every frame is mixed well. -/
theorem monoMix_iff (hcnt : dcac.channelCnt ≠ 1) : MonoMix dcac (dcaDownmixMono dcac) ↔
    ∀ i < dcac.samplesLen, IsAverage (frame dcac i) (downmixFrame dcac i).toInt := by
  have hmixed : dcaDownmixMono dcac = { dcac with
      channelCnt := 1
      samples := [(List.range dcac.samplesLen).map (downmixFrame dcac)] } := if_neg hcnt
  have hget : ∀ i < dcac.samplesLen,
      ((List.range dcac.samplesLen).map (downmixFrame dcac))[i]? = some (downmixFrame dcac i) := by
    intro i hi
    rw [List.getElem?_map, List.getElem?_range hi, Option.map_some]
  rw [hmixed]
  constructor
  · rintro ⟨-, -, ys, hys, -, havg⟩ i hi
    obtain ⟨y, hy, hyavg⟩ := havg i hi
    cases hys
    rw [hget i hi] at hy
    cases hy
    exact hyavg
  · intro h
    exact ⟨rfl, rfl, _, rfl, by rw [List.length_map, List.length_range],
      fun i hi ↦ ⟨_, hget i hi, h i hi⟩⟩

/-- A sound that is mono already stays as it is. -/
theorem monoMix_self (hcnt : dcac.channelCnt = 1) (hset : 1 ≤ dcac.samples.length)
    (hlen : ∀ xs ∈ dcac.samples.take dcac.channelCnt, xs.length = dcac.samplesLen) :
    MonoMix dcac dcac := by
  obtain ⟨ys, rest, hsamples⟩ := List.exists_cons_of_length_pos hset
  have hframe : ∀ i, frame dcac i = [(ys.getD i 0).toInt] := by
    intro i
    rw [frame, hcnt, hsamples, List.take_succ_cons, List.take_zero, List.map_singleton]
  have hys : ys.length = dcac.samplesLen := by
    apply hlen
    rw [hcnt, hsamples]
    exact List.mem_cons_self
  refine ⟨hcnt, rfl, ys, by rw [hsamples, List.getElem?_cons_zero], hys, fun i hi ↦ ?_⟩
  refine ⟨ys.getD i 0, ?_, ?_⟩
  · rw [List.getD_eq_getElem?_getD, List.getElem?_eq_getElem (by omega), Option.getD_some]
  · have havg := @isAverage_floor (frame dcac i) (by rw [hframe, List.length_singleton])
    rw [hframe] at havg ⊢
    rwa [List.sum_singleton, List.length_singleton, Nat.cast_one, Int.ediv_one] at havg

/-- **Averaging.** The mono mix is the channel average exactly when the sound is mono, or its length
fits the loop's counter and the division is even or no frame has a negative sum. -/
theorem mixesToMono_iff (hcnt : 1 ≤ dcac.channelCnt) (hcnt' : dcac.channelCnt ≤ dcacMaxChannels)
    (hset : dcac.channelCnt ≤ dcac.samples.length)
    (hlen : ∀ xs ∈ dcac.samples.take dcac.channelCnt, xs.length = dcac.samplesLen) :
    MixesToMono dcac ↔ dcac.channelCnt = 1 ∨ (dcac.samplesLen < 2 ^ 32 ∧
      ∀ i < dcac.samplesLen, DividesEvenly dcac.channelCnt ∨ 0 ≤ (frame dcac i).sum) := by
  by_cases hone : dcac.channelCnt = 1
  · refine iff_of_true (fun newsamples _ ↦ ⟨0, dcac, if_pos hone, ?_⟩) (Or.inl hone)
    exact monoMix_self hone (by omega) hlen
  simp only [hone, false_or, ← isAverage_downmixFrame_iff hcnt hcnt' hset, ← monoMix_iff hone]
  constructor
  · intro h
    obtain ⟨fuel, mixed, hrun, hmix⟩ := h (List.replicate dcac.samplesLen 0) List.length_replicate
    rcases Nat.lt_or_ge dcac.samplesLen (2 ^ 32) with hlt | hge
    · rw [eq_of_runDownmixMono hone hlt List.length_replicate hrun] at hmix
      exact ⟨hlt, hmix⟩
    · rw [runDownmixMono_eq_none hone hge] at hrun
      cases hrun
  · rintro ⟨hlt, hmix⟩ newsamples hnew
    exact ⟨dcac.samplesLen + 1, dcaDownmixMono dcac,
      runDownmixMono_eq_some hone hlt hnew (Nat.lt_succ_self _), hmix⟩

end Mix

/-- One frame of three channels, each at -1. -/
def threeQuietChannels : DcAudioConverter :=
  { dcaInit with channelCnt := 3, samples := [[-1], [-1], [-1]], samplesLen := 1 }

/-- Mixed, the frame of three -1 becomes 21844. -/
theorem three_channels_misaveraged : ¬MixesToMono threeQuietChannels := by
  intro h
  obtain ⟨fuel, mixed, hrun, hmix⟩ := h [0] rfl
  rw [eq_of_runDownmixMono (by decide) (by decide) rfl hrun, monoMix_iff (by decide)] at hmix
  obtain ⟨v, hv, hle⟩ := (hmix 0 (by decide)).exists_ge
  revert v
  decide

theorem mixesToMono_two_channels : MixesToMono
    { dcaInit with channelCnt := 2, samples := [[-2], [-1]], samplesLen := 1 } :=
  (mixesToMono_iff (by decide) (by decide) (by decide) (by decide)).mpr
    (Or.inr ⟨by decide, fun _ _ ↦ Or.inl (Or.inr (Or.inl rfl))⟩)

end DcaConv
