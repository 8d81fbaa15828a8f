import DcaConv.Adpcm.Codec
import DcaConv.Library.Memory
import DcaConv.Library.Pointer
import DcaConv.Library.Program

/-!
# The codec statement by statement

The bodies of the two loops over the variables of the C functions: pointers into buffers that end,
a `size_t` counter, and plain `int`s that nothing keeps in a range. Whatever C leaves undefined, a
read or store outside a buffer, a table index outside the table, a division by zero, a result that
is not an `int`, stops the run.

## What is recorded besides

The variables carry three logs the program does not have: the code and the predictor after every
half of a byte, the `int`s assigned through `dst` before they are narrowed, and the values of the
counter that were decremented.
-/

namespace DcaConv

open Program

/-! ## `int` arithmetic -/

inductive Undefined where
  | outOfBounds
  | tableIndex
  | divisionByZero
  | overflow
  deriving DecidableEq, Repr

/-- A result of type `int`. -/
def checkInt (n : ℤ) : Except Undefined ℤ :=
  if -2 ^ 31 ≤ n ∧ n < 2 ^ 31 then .ok n else .error .overflow

theorem checkInt_of_abs_lt {n : ℤ} (h : |n| < 2 ^ 31) : checkInt n = .ok n := by
  obtain ⟨hlo, hhi⟩ := abs_lt.mp h
  exact if_pos ⟨hlo.le, hhi⟩

def divide (a b : ℤ) : Except Undefined ℤ :=
  if b = 0 then .error .divisionByZero else checkInt (a.tdiv b)

theorem abs_tdiv_le (a b : ℤ) : |a.tdiv b| ≤ |a| := by
  rw [← Int.natCast_natAbs, ← Int.natCast_natAbs a]
  exact_mod_cast Int.natAbs_tdiv_le_natAbs a b

theorem divide_of_abs_lt {a b : ℤ} (hb : b ≠ 0) (ha : |a| < 2 ^ 31) :
    divide a b = .ok (a.tdiv b) := by
  rw [divide, if_neg hb, checkInt_of_abs_lt ((abs_tdiv_le a b).trans_lt ha)]

/-! ## The predictor's update -/

/-- `signal` and `step`. -/
structure Predictor where
  signal : ℤ
  step : ℤ
  deriving DecidableEq, Repr

/-- `val` for a sample. -/
def chooseVal (p : Predictor) (x : Int16) : Except Undefined ℕ := do
  let diff ← checkInt (clearLowBits x.toInt - p.signal)
  let diff ← checkInt (diff * 8)
  let diff ← divide diff p.step
  let magnitude ← checkInt |diff|
  let val := magnitude.toNat / 2
  let val := if 7 < val then 7 else val
  .ok (if diff < 0 then val + 8 else val)

/-- `signal` and `step` moved by `val`, the scale taken from entry `scaleIndex`. -/
def movePredictor (p : Predictor) (val scaleIndex : ℕ) : Except Undefined Predictor := do
  let diff ← Memory.readAt .tableIndex diffLookupTable val
  let product ← checkInt (p.step * diff)
  let increment ← divide product 8
  let signal ← checkInt (p.signal + increment)
  let scale ← Memory.readAt .tableIndex indexScaleTable scaleIndex
  let scaled ← checkInt (p.step * scale)
  .ok ⟨limit signal (-32768) 32767, limit (scaled >>> (8 : ℕ)) 0x7f 0x6000⟩

/-! ## Variables and statements -/

structure CodecVars (α β : Type) where
  src : Pointer α
  dst : Pointer β
  length : ℕ
  predictor : Predictor
  /-- `val` and the predictor after every half of a byte. -/
  points : List (ℕ × Predictor)
  /-- The `int`s assigned through `dst`. -/
  stored : List ℤ
  /-- The values of `length` that were decremented. -/
  decremented : List ℕ

/-- The variables on entering the loop. -/
def CodecVars.enter {α β : Type} (src : List α) (dst : List β) (length : ℕ) : CodecVars α β :=
  ⟨.start src, .start dst, length, ⟨0, 0x7f⟩, [], [], []⟩

section Statements

variable {α β : Type}

/-- `*src++`. -/
def readSrc : EStateM Undefined (CodecVars α β) α := fun v ↦
  match v.src.load with
  | some (x, src) => .ok x { v with src }
  | none => .error .outOfBounds v

/-- `*dst++ = data`, `data` being converted to the type of the buffer. -/
def writeDst (convert : ℤ → β) (data : ℤ) : EStateM Undefined (CodecVars α β) Unit := fun v ↦
  match v.dst.store (convert data) with
  | some dst => .ok () { v with dst, stored := v.stored ++ [data] }
  | none => .error .outOfBounds v

/-- `--length`. -/
def decrementLength : EStateM Undefined (CodecVars α β) ℕ := fun v ↦
  .ok (decSize v.length)
    { v with length := decSize v.length, decremented := v.decremented ++ [v.length] }

def pickVal (x : Int16) : EStateM Undefined (CodecVars α β) ℕ := fun v ↦
  match chooseVal v.predictor x with
  | .ok val => .ok val v
  | .error e => .error e v

def updatePredictor (val scaleIndex : ℕ) : EStateM Undefined (CodecVars α β) Unit := fun v ↦
  match movePredictor v.predictor val scaleIndex with
  | .ok predictor => .ok () { v with predictor, points := v.points ++ [(val, predictor)] }
  | .error e => .error e v

/-- `*dst++ = signal`. -/
def writeSignal : EStateM Undefined (CodecVars α Int16) Unit := fun v ↦
  writeDst Int16.ofInt v.predictor.signal v

/-! ## The bodies -/

/-- One nibble of `pcm2adpcm`. -/
def encodeHalf : EStateM Undefined (CodecVars Int16 β) ℕ := do
  let x ← readSrc
  let val ← pickVal x
  updatePredictor val val
  return val

/-- One turn of `pcm2adpcm`. -/
def pcm2adpcmBody : EStateM Undefined (CodecVars Int16 UInt8) Bool := do
  let data ← encodeHalf
  if (← decrementLength) = 0 then
    writeDst UInt8.ofInt data
    return false
  else
    let val ← encodeHalf
    writeDst UInt8.ofInt (data ||| val <<< 4 : ℕ)
    return (← decrementLength) ≠ 0

/-- One nibble of `adpcm2pcm`. -/
def decodeHalf (val : ℕ) : EStateM Undefined (CodecVars α Int16) Unit := do
  updatePredictor val (val &&& 7)
  writeSignal

/-- One turn of `adpcm2pcm`. -/
def adpcm2pcmBody : EStateM Undefined (CodecVars UInt8 Int16) Bool := do
  let data ← readSrc
  decodeHalf (data.toNat &&& 15)
  if (← decrementLength) = 0 then
    return false
  else
    decodeHalf ((data.toNat >>> 4) &&& 15)
    return (← decrementLength) ≠ 0

end Statements

/-! ## The update is defined -/

/-- The predictor's variables. -/
def AdpcmState.vars (s : AdpcmState) : Predictor := ⟨s.signal, s.step⟩

@[simp] theorem AdpcmState.vars_signal (s : AdpcmState) : s.vars.signal = s.signal := rfl

@[simp] theorem AdpcmState.vars_step (s : AdpcmState) : s.vars.step = s.step := rfl

theorem abs_diffLookup_le : ∀ val < 16, |diffLookup val| ≤ 15 := by decide

theorem abs_indexScale_le : ∀ val < 16, |indexScale val| ≤ 614 := by decide

section Defined

variable (s : AdpcmState)

theorem AdpcmState.abs_step_le : |s.step| ≤ 24576 := by
  have hstep := s.step_mem
  rw [abs_le]
  omega

/-- A product with a table entry is far from the end of the type. -/
theorem AdpcmState.abs_step_mul_lt {a : ℤ} (ha : |a| ≤ 614) : |s.step * a| < 2 ^ 30 := by
  have hmul : |s.step * a| ≤ 24576 * 614 := by
    rw [abs_mul]
    exact mul_le_mul s.abs_step_le ha (abs_nonneg a) (by norm_num)
  exact hmul.trans_lt (by norm_num)

theorem chooseVal_eq (x : Int16) : chooseVal s.vars x = .ok (encodeVal s x) := by
  have hlo := Int16.le_toInt x
  have hhi := Int16.toInt_lt x
  have hsignal := s.signal_mem
  have hstep := s.step_mem
  have hdiff : |clearLowBits x.toInt - s.signal| ≤ 65536 := by
    rw [abs_le, clearLowBits]
    omega
  have hscaled : |(clearLowBits x.toInt - s.signal) * 8| ≤ 65536 * 8 := by
    rw [abs_mul]
    exact mul_le_mul_of_nonneg_right hdiff (by norm_num)
  have hquot := (abs_tdiv_le ((clearLowBits x.toInt - s.signal) * 8) s.step).trans hscaled
  rw [chooseVal, s.vars_signal, s.vars_step, checkInt_of_abs_lt (by omega), Fallible.ok_bind,
    checkInt_of_abs_lt (by omega), Fallible.ok_bind, divide_of_abs_lt (by omega) (by omega),
    Fallible.ok_bind, checkInt_of_abs_lt (by rw [abs_abs]; omega), Fallible.ok_bind,
    ← Int.natCast_natAbs, Int.toNat_natCast, encodeVal]

theorem movePredictor_eq {val scaleIndex : ℕ} (hval : val < 16) (hscale : scaleIndex < 16) :
    movePredictor s.vars val scaleIndex = .ok (s.advance val scaleIndex).vars := by
  have hsignal := s.signal_mem
  have hproduct := s.abs_step_mul_lt ((abs_diffLookup_le val hval).trans (by norm_num))
  have hscaled := s.abs_step_mul_lt (abs_indexScale_le scaleIndex hscale)
  have hincrement := (abs_tdiv_le (s.step * diffLookup val) 8).trans_lt hproduct
  have hsum : |s.signal + (s.step * diffLookup val).tdiv 8| < 2 ^ 31 := by
    rw [abs_lt] at hincrement ⊢
    omega
  have hdiff : Memory.readAt Undefined.tableIndex diffLookupTable val = .ok (diffLookup val) :=
    Memory.readAt_of_lt 0 hval
  have hentry : Memory.readAt Undefined.tableIndex indexScaleTable scaleIndex
      = .ok (indexScale scaleIndex) := Memory.readAt_of_lt 0 hscale
  rw [movePredictor, s.vars_signal, s.vars_step, hdiff, Fallible.ok_bind, checkInt_of_abs_lt (by omega),
    Fallible.ok_bind, divide_of_abs_lt (by norm_num) (by omega), Fallible.ok_bind,
    checkInt_of_abs_lt hsum, Fallible.ok_bind, hentry, Fallible.ok_bind,
    checkInt_of_abs_lt (by omega)]
  rfl

end Defined

end DcaConv
