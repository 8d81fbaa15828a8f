import Mathlib.Data.List.Range

/-!
# Loops on a wrapping counter

A `for` loop that counts up to a limit with a counter taken modulo some `W`. When the limit is below
`W` the loop is one pass over the indices; otherwise the counter never gets there.
-/

namespace CountedLoop

variable {σ ε : Type*} {W limit : ℕ} {body : σ → ℕ → Except ε σ}

/-- The loop from index `i` on, `none` when the fuel runs out before it ends. -/
def run (W limit : ℕ) (body : σ → ℕ → Except ε σ) : (fuel i : ℕ) → σ → Option (Except ε σ)
  | 0, _, _ => none
  | fuel + 1, i, s =>
    if i < limit then
      match body s i with
      | .error e => some (.error e)
      | .ok s' => run W limit body fuel ((i + 1) % W) s'
    else some (.ok s)

/-- Below the modulus the loop is a pass over the indices. -/
theorem run_eq_foldlM (hlimit : limit < W) {fuel i : ℕ} {s : σ} (hi : i ≤ limit)
    (hfuel : limit - i < fuel) :
    run W limit body fuel i s = some ((List.range' i (limit - i)).foldlM body s) := by
  induction fuel generalizing i s with
  | zero => exact absurd hfuel (Nat.not_lt_zero _)
  | succ fuel ih =>
    rw [run]
    by_cases hlt : i < limit
    · have hrest : limit - i = limit - (i + 1) + 1 := by omega
      rw [if_pos hlt, hrest, List.range'_succ, List.foldlM_cons]
      cases body s i with
      | error e => rfl
      | ok s' =>
        dsimp only
        rw [Nat.mod_eq_of_lt (by omega), ih hlt (by omega)]
        rfl
    · have hrest : limit - i = 0 := by omega
      rw [if_neg hlt, hrest, List.range'_zero]
      rfl

/-- From the modulus on it never ends, as long as the body succeeds. -/
theorem run_eq_none (hlimit : W ≤ limit) (hW : 0 < W)
    (hbody : ∀ s i, i < W → ∃ s', body s i = .ok s') {fuel i : ℕ} {s : σ} (hi : i < W) :
    run W limit body fuel i s = none := by
  induction fuel generalizing i s with
  | zero => rfl
  | succ fuel ih =>
    obtain ⟨s', hs'⟩ := hbody s i hi
    rw [run, if_pos (by omega), hs']
    exact ih (Nat.mod_lt _ hW)

/-- More fuel does not change a result. -/
theorem run_mono {fuel fuel' i : ℕ} {s : σ} {r : Except ε σ} (hle : fuel ≤ fuel')
    (h : run W limit body fuel i s = some r) : run W limit body fuel' i s = some r := by
  induction fuel generalizing fuel' i s with
  | zero => cases h
  | succ fuel ih =>
    obtain ⟨k, rfl⟩ := Nat.exists_eq_add_of_le hle
    rw [Nat.add_right_comm, run]
    rw [run] at h
    by_cases hlt : i < limit
    · rw [if_pos hlt] at h ⊢
      cases hbody : body s i with
      | error e =>
        rw [hbody] at h
        exact h
      | ok s' =>
        rw [hbody] at h
        exact ih (Nat.le_add_right _ _) h
    · rw [if_neg hlt] at h ⊢
      exact h

/-- Below the modulus a loop that ends has done the pass. -/
theorem eq_foldlM_of_run (hlimit : limit < W) {fuel : ℕ} {s : σ} {r : Except ε σ}
    (h : run W limit body fuel 0 s = some r) : r = (List.range limit).foldlM body s := by
  have henough := run_mono (Nat.le_add_right fuel (limit + 1)) h
  rw [run_eq_foldlM hlimit (Nat.zero_le _) (by omega), Nat.sub_zero, ← List.range_eq_range',
    Option.some.injEq] at henough
  exact henough.symm

theorem run_eq_range (hlimit : limit < W) {fuel : ℕ} {s : σ} (hfuel : limit < fuel) :
    run W limit body fuel 0 s = some ((List.range limit).foldlM body s) := by
  rw [run_eq_foldlM hlimit (Nat.zero_le _) (by omega), Nat.sub_zero, List.range_eq_range']

end CountedLoop
