import DcaConv.Machine
import DcaConv.Library.Transducer
import Mathlib.Tactic.Linarith
import Mathlib.Tactic.NormNum

/-!
# The ADPCM codec

`pcm2adpcm` and `adpcm2pcm`, two hand-unrolled loops that handle two samples, one byte, an
iteration and may leave in the middle of one. Each keeps a predicted signal and a step size, moved
by the same table-driven update.

## Pointers and the counter

A `src` pointer is the list of cells from it to the end of its buffer, so reading with nothing left
is reading out of bounds, a `Fault`. The counter is a `size_t` decremented before it is tested: a
loop entered with length 0 wraps and runs off its input.

## The trace

Each loop also returns the predictor state after every sample. Nothing in the program computes it;
it is what statements about the predictor are about.
-/

namespace DcaConv

/-! ## Tables and clamping -/

def diffLookupTable : List ℤ := [1, 3, 5, 7, 9, 11, 13, 15, -1, -3, -5, -7, -9, -11, -13, -15]

def indexScaleTable : List ℤ :=
  [0x0e6, 0x0e6, 0x0e6, 0x0e6, 0x133, 0x199, 0x200, 0x266,
    0x0e6, 0x0e6, 0x0e6, 0x0e6, 0x133, 0x199, 0x200, 0x266]

def diffLookup (val : ℕ) : ℤ := diffLookupTable.getD val 0

def indexScale (val : ℕ) : ℤ := indexScaleTable.getD val 0

def limit (val min max : ℤ) : ℤ := if val < min then min else if val > max then max else val

theorem limit_mem (val : ℤ) {min max : ℤ} (h : min ≤ max) :
    min ≤ limit val min max ∧ limit val min max ≤ max := by
  rw [limit]
  split
  · exact ⟨le_refl min, h⟩
  · split <;> omega

/-- `*src & ~7` on a sign-extended sample. -/
def clearLowBits (x : ℤ) : ℤ := x - x % 8

/-! ## The predictor -/

/-- The predictor: every value passes through `limit` before it is stored. -/
@[ext]
structure AdpcmState where
  signal : ℤ
  step : ℤ
  signal_mem : -32768 ≤ signal ∧ signal ≤ 32767
  step_mem : 0x7f ≤ step ∧ step ≤ 0x6000
  deriving DecidableEq, Repr

/-- The state both loops start from. -/
def AdpcmState.initial : AdpcmState := ⟨0, 0x7f, by norm_num, by norm_num⟩

/-- The update by code `val`, the step scaled by entry `scaleIndex`. The signal moves by the old
step. -/
def AdpcmState.advance (s : AdpcmState) (val scaleIndex : ℕ) : AdpcmState where
  signal := limit (s.signal + (s.step * diffLookup val).tdiv 8) (-32768) 32767
  step := limit ((s.step * indexScale scaleIndex) >>> (8 : ℕ)) 0x7f 0x6000
  signal_mem := limit_mem _ (by decide)
  step_mem := limit_mem _ (by decide)

/-- The code the encoder picks for a sample. -/
def encodeVal (s : AdpcmState) (x : Int16) : ℕ :=
  let diff := clearLowBits x.toInt - s.signal
  let diff := (diff * 8).tdiv s.step
  let val := diff.natAbs / 2
  let val := if 7 < val then 7 else val
  if diff < 0 then val + 8 else val

/-- One sample of `pcm2adpcm`. -/
def encodeSample (s : AdpcmState) (x : Int16) : ℕ × AdpcmState :=
  (encodeVal s x, s.advance (encodeVal s x) (encodeVal s x))

/-- One nibble of `adpcm2pcm`, which drops the sign bit before it scales the step. -/
def decodeNibble (s : AdpcmState) (val : ℕ) : AdpcmState := s.advance val (val &&& 7)

/-! ## The loops -/

/-- The encoder's loop: the bytes stored through `dst`, and the trace. -/
def pcm2adpcmLoop : AdpcmState → List Int16 → ℕ → Except Fault (List UInt8 × List AdpcmState)
  | _, [], _ => .error .outOfBounds
  | s, [x], length =>
    -- the first of two samples; with no sample behind it only the break is in bounds
    if decSize length = 0 then
      .ok ([UInt8.ofNat (encodeSample s x).1], [(encodeSample s x).2])
    else .error .outOfBounds
  | s, x :: y :: src, length =>
    let first := encodeSample s x
    if decSize length = 0 then .ok ([UInt8.ofNat first.1], [first.2])
    else
      let second := encodeSample first.2 y
      let data := first.1 ||| second.1 <<< 4
      if decSize (decSize length) = 0 then .ok ([UInt8.ofNat data], [first.2, second.2])
      else do
        let (dst, trace) ← pcm2adpcmLoop second.2 src (decSize (decSize length))
        .ok (UInt8.ofNat data :: dst, first.2 :: second.2 :: trace)

/-- The decoder's loop: the state behind each sample stored through `dst`. -/
def adpcm2pcmLoop : AdpcmState → List UInt8 → ℕ → Except Fault (List AdpcmState)
  | _, [], _ => .error .outOfBounds
  | s, data :: src, length =>
    let first := decodeNibble s (data.toNat &&& 15)
    if decSize length = 0 then .ok [first]
    else
      let second := decodeNibble first ((data.toNat >>> 4) &&& 15)
      if decSize (decSize length) = 0 then .ok [first, second]
      else do
        let trace ← adpcm2pcmLoop second src (decSize (decSize length))
        .ok (first :: second :: trace)

/-- The bytes `pcm2adpcm` stores for the first `length` samples of `src`. -/
def pcm2adpcm (src : List Int16) (length : ℕ) : Except Fault (List UInt8) :=
  (pcm2adpcmLoop .initial src length).map Prod.fst

/-- The encoder's states after each sample. -/
def pcm2adpcmTrace (src : List Int16) (length : ℕ) : Except Fault (List AdpcmState) :=
  (pcm2adpcmLoop .initial src length).map Prod.snd

/-- The decoder's states after each sample. -/
def adpcm2pcmTrace (src : List UInt8) (length : ℕ) : Except Fault (List AdpcmState) :=
  adpcm2pcmLoop .initial src length

/-- The samples `adpcm2pcm` stores: its signal after each nibble, as a `short`. -/
def adpcm2pcm (src : List UInt8) (length : ℕ) : Except Fault (List Int16) :=
  (adpcm2pcmTrace src length).map fun trace ↦ trace.map fun s ↦ Int16.ofInt s.signal

end DcaConv
