import DcaConv.Adpcm.Execution
import DcaConv.Adpcm.Lockstep

/-!
# The codec's arithmetic stays in range

Nothing the loops compute leaves its type or its table, whatever they are fed: the predictor's
bounds are restored by `limit` before it is used again, and are all that the next half of a byte
needs. A run can be stopped only by the end of a buffer.
-/

namespace DcaConv

open Program

/-! ## The invariant -/

structure Predictor.InRange (p : Predictor) : Prop where
  signal_mem : -32768 ≤ p.signal ∧ p.signal ≤ 32767
  step_mem : 127 ≤ p.step ∧ p.step ≤ 24576

theorem AdpcmState.inRange (s : AdpcmState) : s.vars.InRange := ⟨s.signal_mem, s.step_mem⟩

theorem Predictor.InRange.exists_state {p : Predictor} (h : p.InRange) :
    ∃ s : AdpcmState, s.vars = p := ⟨⟨p.signal, p.step, h.signal_mem, h.step_mem⟩, rfl⟩

section Invariant

variable {α β : Type} {lo hi : ℤ}

/-- So far everything was in range, and what was assigned through `dst` from `lo` to `hi`. -/
structure StaysInRange (lo hi : ℤ) (v : CodecVars α β) : Prop where
  predictor : v.predictor.InRange
  points : ∀ point ∈ v.points, point.1 < 16 ∧ point.2.InRange
  stored : ∀ data ∈ v.stored, lo ≤ data ∧ data ≤ hi

/-- Only a buffer's end stops a run. -/
def StoppedInRange (lo hi : ℤ) (e : Undefined) (v : CodecVars α β) : Prop :=
  StaysInRange lo hi v ∧ e = .outOfBounds

theorem staysInRange_enter (src : List α) (dst : List β) (length : ℕ) :
    StaysInRange lo hi (.enter src dst length) where
  predictor := AdpcmState.initial.inRange
  points _ h := by cases h
  stored _ h := by cases h

/-! ## Statements -/

theorem readSrc_inRange : Ensures (σ := CodecVars α β) (StaysInRange lo hi) readSrc
    (fun _ ↦ StaysInRange lo hi) (StoppedInRange lo hi) := by
  refine ⟨fun v hv ↦ ?_⟩
  rw [EStateM.run, readSrc]
  cases v.src.load with
  | none => exact ⟨hv, rfl⟩
  | some r => exact ⟨hv.predictor, hv.points, hv.stored⟩

theorem writeDst_inRange (convert : ℤ → β) {data : ℤ} (hdata : lo ≤ data ∧ data ≤ hi) :
    Ensures (σ := CodecVars α β) (StaysInRange lo hi) (writeDst convert data)
      (fun _ ↦ StaysInRange lo hi) (StoppedInRange lo hi) := by
  refine ⟨fun v hv ↦ ?_⟩
  rw [EStateM.run, writeDst]
  cases v.dst.store (convert data) with
  | none => exact ⟨hv, rfl⟩
  | some dst =>
    refine ⟨hv.predictor, hv.points, fun d hd ↦ ?_⟩
    rcases List.mem_append.mp hd with hd | hd
    · exact hv.stored d hd
    · rwa [List.mem_singleton.mp hd]

theorem decrementLength_inRange : Ensures (σ := CodecVars α β) (StaysInRange lo hi) decrementLength
    (fun _ ↦ StaysInRange lo hi) (StoppedInRange lo hi) :=
  ⟨fun _ hv ↦ ⟨hv.predictor, hv.points, hv.stored⟩⟩

theorem pickVal_inRange (x : Int16) : Ensures (σ := CodecVars α β) (StaysInRange lo hi) (pickVal x)
    (fun val v ↦ val < 16 ∧ StaysInRange lo hi v) (StoppedInRange lo hi) := by
  refine ⟨fun v hv ↦ ?_⟩
  obtain ⟨s, hs⟩ := hv.predictor.exists_state
  rw [EStateM.run, pickVal, ← hs, chooseVal_eq]
  exact ⟨encodeVal_lt s x, hv⟩

theorem updatePredictor_inRange {val scaleIndex : ℕ} (hval : val < 16) (hscale : scaleIndex < 16) :
    Ensures (σ := CodecVars α β) (StaysInRange lo hi) (updatePredictor val scaleIndex)
      (fun _ ↦ StaysInRange lo hi) (StoppedInRange lo hi) := by
  refine ⟨fun v hv ↦ ?_⟩
  obtain ⟨s, hs⟩ := hv.predictor.exists_state
  rw [EStateM.run, updatePredictor, ← hs, movePredictor_eq s hval hscale]
  refine ⟨AdpcmState.inRange _, fun point hpoint ↦ ?_, hv.stored⟩
  rcases List.mem_append.mp hpoint with hpoint | hpoint
  · exact hv.points point hpoint
  · rw [List.mem_singleton.mp hpoint]
    exact ⟨hval, AdpcmState.inRange _⟩

theorem writeSignal_inRange : Ensures (σ := CodecVars α Int16) (StaysInRange (-32768) 32767)
    writeSignal (fun _ ↦ StaysInRange (-32768) 32767) (StoppedInRange (-32768) 32767) :=
  ⟨fun v hv ↦ (writeDst_inRange Int16.ofInt hv.predictor.signal_mem).run v hv⟩

/-! ## Turns -/

theorem encodeHalf_inRange : Ensures (σ := CodecVars Int16 β) (StaysInRange lo hi) encodeHalf
    (fun val v ↦ val < 16 ∧ StaysInRange lo hi v) (StoppedInRange lo hi) := by
  rw [encodeHalf]
  refine readSrc_inRange.bind fun x ↦ (pickVal_inRange x).bind fun val ↦ .of_fact fun hval ↦ ?_
  exact (updatePredictor_inRange hval hval).bind fun _ ↦ .pure fun v hv ↦ ⟨hval, hv⟩

theorem pcm2adpcmBody_inRange : Ensures (StaysInRange 0 255) pcm2adpcmBody
    (fun _ ↦ StaysInRange 0 255) (StoppedInRange 0 255) := by
  rw [pcm2adpcmBody]
  refine encodeHalf_inRange.bind fun data ↦ .of_fact fun hdata ↦ ?_
  refine decrementLength_inRange.bind fun length ↦ .ite ?_ ?_
  · exact (writeDst_inRange _ ⟨by omega, by omega⟩).bind fun _ ↦ .pure fun v hv ↦ hv
  · refine encodeHalf_inRange.bind fun val ↦ .of_fact fun hval ↦ ?_
    have hpair := pair_lt hdata hval
    refine (writeDst_inRange _ ⟨by omega, by omega⟩).bind fun _ ↦ ?_
    exact decrementLength_inRange.bind fun _ ↦ .pure fun v hv ↦ hv

theorem decodeHalf_inRange {val : ℕ} (hval : val < 16) :
    Ensures (σ := CodecVars α Int16) (StaysInRange (-32768) 32767) (decodeHalf val)
      (fun _ ↦ StaysInRange (-32768) 32767) (StoppedInRange (-32768) 32767) := by
  have hscale : val &&& 7 < 16 := Nat.and_le_left.trans_lt hval
  rw [decodeHalf]
  exact (updatePredictor_inRange hval hscale).bind fun _ ↦ writeSignal_inRange

theorem adpcm2pcmBody_inRange : Ensures (StaysInRange (-32768) 32767) adpcm2pcmBody
    (fun _ ↦ StaysInRange (-32768) 32767) (StoppedInRange (-32768) 32767) := by
  rw [adpcm2pcmBody]
  refine readSrc_inRange.bind fun data ↦ (decodeHalf_inRange (nibble_lt _)).bind fun _ ↦ ?_
  refine decrementLength_inRange.bind fun length ↦ .ite (.pure fun v hv ↦ hv) ?_
  refine (decodeHalf_inRange (nibble_lt _)).bind fun _ ↦ ?_
  exact decrementLength_inRange.bind fun _ ↦ .pure fun v hv ↦ hv

/-! ## Runs -/

/-- At this point of a run everything is in range, and if it is stuck, it is at a buffer's end. -/
structure KeepsRange (lo hi : ℤ) (point : Outcome Undefined (CodecVars α β)) : Prop where
  state : StaysInRange lo hi point.state
  stuck : ∀ e v, point = .stuck e v → e = .outOfBounds

/-- **Range.** After any number of turns of either loop, on any buffers and any counter. -/
theorem codec_keeps_range :
    (∀ (src : List Int16) (dst : List UInt8) (length turns : ℕ),
      KeepsRange 0 255 (doWhile pcm2adpcmBody turns (.enter src dst length))) ∧
    ∀ (src : List UInt8) (dst : List Int16) (length turns : ℕ),
      KeepsRange (-32768) 32767 (doWhile adpcm2pcmBody turns (.enter src dst length)) := by
  constructor
  · intro src dst length turns
    obtain ⟨hstate, hstuck⟩ := doWhile_invariant pcm2adpcmBody_inRange turns
      (staysInRange_enter src dst length)
    exact ⟨hstate, hstuck⟩
  · intro src dst length turns
    obtain ⟨hstate, hstuck⟩ := doWhile_invariant adpcm2pcmBody_inRange turns
      (staysInRange_enter src dst length)
    exact ⟨hstate, hstuck⟩

end Invariant

end DcaConv
