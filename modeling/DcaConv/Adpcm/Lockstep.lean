import DcaConv.Adpcm.Codec

/-!
# The codec in lockstep

Both loops are per-sample transducers in disguise: unrolling, packing and the counter add nothing
to the states they pass through. The decoder's transducer reproduces the encoder's next state in
one step, because the two halves of the scale table agree, so it does so over every run.
-/

namespace DcaConv

open Transducer

/-! ## The transducers -/

/-- The encoder, a code for a sample. -/
def adpcmEncoder : Transducer AdpcmState Int16 ℕ where
  step := encodeSample

/-- The decoder, a sample for a code. -/
def adpcmDecoder : Transducer AdpcmState ℕ Int16 where
  step s val := (Int16.ofInt (decodeNibble s val).signal, decodeNibble s val)

theorem encodeVal_lt (s : AdpcmState) (x : Int16) : encodeVal s x < 16 := by
  rw [encodeVal]
  split <;> split <;> omega

theorem indexScale_and_seven : ∀ val < 16, indexScale (val &&& 7) = indexScale val := by decide

theorem decodeNibble_of_lt (s : AdpcmState) {val : ℕ} (h : val < 16) :
    decodeNibble s val = s.advance val val := by
  rw [decodeNibble, AdpcmState.advance, AdpcmState.advance]
  ext
  · rfl
  · dsimp only
    rw [indexScale_and_seven val h]

/-- One step: the decoder reaches the state the encoder moved to. -/
theorem decoder_step_encoder (s : AdpcmState) (x : Int16) :
    (adpcmDecoder.step s (adpcmEncoder.step s x).1).2 = (adpcmEncoder.step s x).2 :=
  decodeNibble_of_lt s (encodeVal_lt s x)

theorem decoder_states_encoder (s : AdpcmState) (xs : List Int16) :
    adpcmDecoder.states s (adpcmEncoder.outputs s xs) = adpcmEncoder.states s xs :=
  states_outputs_eq decoder_step_encoder s xs

/-! ## Nibbles -/

/-- Two codes a byte, the earlier one in the low nibble. -/
def packNibbles : List ℕ → List UInt8 :=
  packPairs (fun a b ↦ UInt8.ofNat (a ||| b <<< 4)) UInt8.ofNat

def unpackNibbles : List UInt8 → List ℕ :=
  unpackPairs (fun data ↦ data.toNat &&& 15) fun data ↦ (data.toNat >>> 4) &&& 15

theorem nibble_lt (n : ℕ) : n &&& 15 < 16 := Nat.lt_succ_of_le Nat.and_le_right

theorem pair_lt {a b : ℕ} (ha : a < 16) (hb : b < 16) : a ||| b <<< 4 < 2 ^ 8 :=
  Nat.or_lt_two_pow (by omega) (by rw [Nat.shiftLeft_eq]; omega)

theorem nibbles_of_pair : ∀ a < 16, ∀ b < 16,
    (UInt8.ofNat (a ||| b <<< 4)).toNat &&& 15 = a ∧
      ((UInt8.ofNat (a ||| b <<< 4)).toNat >>> 4) &&& 15 = b := by decide

theorem nibble_of_single : ∀ a < 16, (UInt8.ofNat a).toNat &&& 15 = a := by decide

theorem length_packNibbles (vals : List ℕ) :
    (packNibbles vals).length = (vals.length + 1) / 2 :=
  length_packPairs _ _ vals

theorem take_unpackNibbles {vals : List ℕ} (h : ∀ val ∈ vals, val < 16) :
    (unpackNibbles (packNibbles vals)).take vals.length = vals :=
  take_unpackPairs_packPairs (p := fun val ↦ val < 16)
    (fun a b ha hb ↦ nibbles_of_pair a ha b hb) nibble_of_single vals h

/-! ## The loops are the transducers -/

/-- The encoder's loop on exactly `length` samples, whatever lies behind them in memory. -/
theorem pcm2adpcmLoop_eq : ∀ (s : AdpcmState) (xs rest : List Int16), xs ≠ [] →
    xs.length < 2 ^ 64 → pcm2adpcmLoop s (xs ++ rest) xs.length
      = .ok (packNibbles (adpcmEncoder.outputs s xs), adpcmEncoder.states s xs)
  | _, [], _, hne, _ => absurd rfl hne
  | s, [x], rest, _, _ => by
    have hdec : decSize [x].length = 0 := decSize_of_pos (by norm_num) (by norm_num)
    -- the loop breaks before it looks at what lies behind the last sample
    cases rest with
    | nil => rw [List.append_nil, pcm2adpcmLoop, if_pos hdec]; rfl
    | cons y rest => rw [List.singleton_append, pcm2adpcmLoop, if_pos hdec]; rfl
  | s, x :: y :: xs, rest, _, hlt => by
    rw [List.length_cons, List.length_cons] at hlt
    have hdec : decSize (x :: y :: xs).length = xs.length + 1 :=
      decSize_of_pos (by rw [List.length_cons]; omega) hlt
    have hdec' : decSize (xs.length + 1) = xs.length := decSize_of_pos (by omega) (by omega)
    rw [List.cons_append, List.cons_append, pcm2adpcmLoop, hdec, hdec', if_neg (by omega)]
    cases xs with
    | nil => rfl
    | cons z xs =>
      have ih := pcm2adpcmLoop_eq (encodeSample (encodeSample s x).2 y).2 (z :: xs) rest
        (List.cons_ne_nil _ _) (by omega)
      rw [if_neg (by rw [List.length_cons]; omega), ih]
      rfl

/-- The decoder's loop on exactly the bytes that `length` samples take. -/
theorem adpcm2pcmLoop_eq : ∀ (s : AdpcmState) (src rest : List UInt8) (length : ℕ), 1 ≤ length →
    length < 2 ^ 64 → src.length = (length + 1) / 2 → adpcm2pcmLoop s (src ++ rest) length
      = .ok (adpcmDecoder.states s ((unpackNibbles src).take length))
  | _, [], _, _, hpos, _, hlen => by rw [List.length_nil] at hlen; omega
  | s, data :: src, rest, length, hpos, hlt, hlen => by
    rw [List.length_cons] at hlen
    have hdec : decSize length = length - 1 := decSize_of_pos hpos hlt
    rw [List.cons_append, adpcm2pcmLoop, hdec]
    -- the break in the middle of a byte, the one at its end, and another turn
    rcases (by omega : length = 1 ∨ length = 2 ∨ 3 ≤ length) with rfl | rfl | hthree
    · rw [if_pos rfl]
      rfl
    · rw [if_neg (by omega), decSize_of_pos (by omega) (by omega), if_pos rfl]
      rfl
    · have ih := adpcm2pcmLoop_eq (decodeNibble (decodeNibble s (data.toNat &&& 15))
        ((data.toNat >>> 4) &&& 15)) src rest (length - 2) (by omega) (by omega) (by omega)
      obtain ⟨n, rfl⟩ : ∃ n, length = n + 2 := ⟨length - 2, by omega⟩
      rw [Nat.add_sub_cancel] at ih
      rw [if_neg (by omega), decSize_of_pos (by omega) (by omega), if_neg (by omega),
        show n + 2 - 1 - 1 = n from by omega, ih]
      rfl

/-- The decoder reads every byte its samples take: with fewer it leaves its input. -/
theorem adpcm2pcmLoop_short : ∀ (s : AdpcmState) (src : List UInt8) (length : ℕ),
    length < 2 ^ 64 → src.length < (length + 1) / 2 →
      adpcm2pcmLoop s src length = .error .outOfBounds
  | _, [], _, _, _ => rfl
  | s, data :: src, length, hlt, hlen => by
    rw [List.length_cons] at hlen
    have ih := adpcm2pcmLoop_short (decodeNibble (decodeNibble s (data.toNat &&& 15))
      ((data.toNat >>> 4) &&& 15)) src (length - 1 - 1) (by omega) (by omega)
    rw [adpcm2pcmLoop, decSize_of_pos (by omega) hlt, if_neg (by omega),
      decSize_of_pos (by omega) (by omega), if_neg (by omega), ih]
    rfl

/-- The encoder leaves its input when the decremented counter still covers it: `decSize` wraps at 0,
so that is what a loop entered with length 0 does. -/
theorem pcm2adpcmLoop_short : ∀ (s : AdpcmState) (src : List Int16) (length : ℕ),
    src.length ≤ decSize length → pcm2adpcmLoop s src length = .error .outOfBounds
  | _, [], _, _ => rfl
  | s, [x], length, hlen => by
    rw [List.length_singleton] at hlen
    rw [pcm2adpcmLoop, if_neg (by omega)]
  | s, x :: y :: src, length, hlen => by
    rw [List.length_cons, List.length_cons] at hlen
    have hdec : decSize (decSize length) = decSize length - 1 :=
      decSize_of_pos (by omega) (decSize_lt length)
    have hdec' : decSize (decSize length - 1) = decSize length - 1 - 1 := by
      have := decSize_lt length
      exact decSize_of_pos (by omega) (by omega)
    have ih := pcm2adpcmLoop_short (encodeSample (encodeSample s x).2 y).2 src
      (decSize length - 1) (by rw [hdec']; omega)
    rw [pcm2adpcmLoop]
    dsimp only
    rw [if_neg (by omega), hdec, if_neg (by omega), ih]
    rfl

/-! ## The two functions -/

/-- The bytes of a nonempty input. -/
def adpcmBytes (xs : List Int16) : List UInt8 := packNibbles (adpcmEncoder.outputs .initial xs)

theorem length_adpcmBytes (xs : List Int16) : (adpcmBytes xs).length = (xs.length + 1) / 2 := by
  rw [adpcmBytes, length_packNibbles, length_outputs]

theorem pcm2adpcm_eq {xs : List Int16} (hne : xs ≠ []) (hlt : xs.length < 2 ^ 64) :
    pcm2adpcm xs xs.length = .ok (adpcmBytes xs) := by
  have h := pcm2adpcmLoop_eq .initial xs [] hne hlt
  rw [List.append_nil] at h
  rw [pcm2adpcm, h]
  rfl

/-- With length 0 the encoder runs off its input, however long that is. -/
theorem pcm2adpcm_zero {src : List Int16} (hlt : src.length < 2 ^ 64) :
    pcm2adpcm src 0 = .error .outOfBounds := by
  have hwrap : decSize 0 = 2 ^ 64 - 1 := rfl
  rw [pcm2adpcm, pcm2adpcmLoop_short .initial src 0 (by omega)]
  rfl

theorem pcm2adpcmTrace_eq {xs : List Int16} (hne : xs ≠ []) (hlt : xs.length < 2 ^ 64) :
    pcm2adpcmTrace xs xs.length = .ok (adpcmEncoder.states .initial xs) := by
  have h := pcm2adpcmLoop_eq .initial xs [] hne hlt
  rw [List.append_nil] at h
  rw [pcm2adpcmTrace, h]
  rfl

/-- Decoding the encoder's bytes, with anything behind them, passes through its states. -/
theorem adpcm2pcmTrace_adpcmBytes {xs : List Int16} (hne : xs ≠ []) (hlt : xs.length < 2 ^ 64)
    (rest : List UInt8) :
    adpcm2pcmTrace (adpcmBytes xs ++ rest) xs.length
      = .ok (adpcmEncoder.states .initial xs) := by
  have hpos : 1 ≤ xs.length := List.length_pos_iff.mpr hne
  have hvals : ∀ val ∈ adpcmEncoder.outputs .initial xs, val < 16 :=
    forall_mem_outputs encodeVal_lt AdpcmState.initial xs
  have htake := take_unpackNibbles hvals
  rw [length_outputs] at htake
  rw [adpcm2pcmTrace, adpcm2pcmLoop_eq .initial _ rest _ hpos hlt (length_adpcmBytes xs),
    adpcmBytes, htake, decoder_states_encoder]

theorem toInt_ofInt_signal (s : AdpcmState) : (Int16.ofInt s.signal).toInt = s.signal :=
  Int16.toInt_ofInt_of_le (by have := s.signal_mem; omega) (by have := s.signal_mem; omega)

/-- **Lockstep.** The decoder passes through exactly the encoder's states, and its output is the
encoder's predicted signal, sample for sample. -/
theorem adpcm_lockstep (xs : List Int16) (hne : xs ≠ []) (hlt : xs.length < 2 ^ 64) :
    ∃ bytes trace out, pcm2adpcm xs xs.length = .ok bytes ∧
      pcm2adpcmTrace xs xs.length = .ok trace ∧ trace.length = xs.length ∧
      adpcm2pcmTrace bytes xs.length = .ok trace ∧ adpcm2pcm bytes xs.length = .ok out ∧
      out.map Int16.toInt = trace.map AdpcmState.signal := by
  have hdec := adpcm2pcmTrace_adpcmBytes hne hlt []
  rw [List.append_nil] at hdec
  refine ⟨adpcmBytes xs, adpcmEncoder.states .initial xs,
    (adpcmEncoder.states .initial xs).map fun s ↦ Int16.ofInt s.signal,
    pcm2adpcm_eq hne hlt, pcm2adpcmTrace_eq hne hlt, length_states _ _ _, hdec, ?_, ?_⟩
  · rw [adpcm2pcm, hdec]
    rfl
  · rw [List.map_map]
    exact List.map_congr_left fun s _ ↦ toInt_ofInt_signal s

/-- Five samples, through both clamps' neighbourhood and a half-filled last byte. -/
theorem adpcm_lockstep_five :
    ∃ bytes trace out, pcm2adpcm [0, 32767, -32768, 100, -1] 5 = .ok bytes ∧
      pcm2adpcmTrace [0, 32767, -32768, 100, -1] 5 = .ok trace ∧ trace.length = 5 ∧
      adpcm2pcmTrace bytes 5 = .ok trace ∧ adpcm2pcm bytes 5 = .ok out ∧
      out.map Int16.toInt = trace.map AdpcmState.signal :=
  adpcm_lockstep [0, 32767, -32768, 100, -1] (by decide) (by decide)

end DcaConv
