import DcaConv.Adpcm.Execution
import DcaConv.Adpcm.Lockstep

/-!
# What the codec's loops touch

Given enough of both buffers, each loop ends, its pointers having walked over exactly the samples
and the bytes that belong to its length, and it has stored what the per-sample codec computes. The
induction is on the samples left, two a turn, the last turn taking one or two.
-/

namespace DcaConv

open Program Transducer

/-! ## Where a run is -/

section Statements

variable {α β : Type}

/-- The loop has the predictor `s`, has read `read` and still has `ahead` in front of it, has stored
`written` with `room` left behind it, and its counter is at `n`, which it reached from above. -/
structure CodecAt (s : AdpcmState) (read ahead : List α) (written room : List β) (n : ℕ)
    (v : CodecVars α β) : Prop where
  predictor : v.predictor = s.vars
  src : v.src = .walked read ahead
  dst : v.dst = .walked written room
  length : v.length = n
  decremented : ∀ c ∈ v.decremented, 1 ≤ c

theorem codecAt_enter (src : List α) (dst : List β) (n : ℕ) :
    CodecAt .initial [] src [] dst n (.enter src dst n) where
  predictor := rfl
  src := Pointer.start_eq_walked src
  dst := Pointer.start_eq_walked dst
  length := rfl
  decremented c hc := by cases hc

variable {s : AdpcmState} {read ahead : List α} {written room : List β} {n : ℕ} {v : CodecVars α β}

theorem CodecAt.readSrc {x : α} (h : CodecAt s read (x :: ahead) written room n v) :
    Returns readSrc v x (CodecAt s (read ++ [x]) ahead written room n) := by
  refine ⟨{ v with src := .walked (read ++ [x]) ahead }, ?_,
    h.predictor, rfl, h.dst, h.length, h.decremented⟩
  rw [EStateM.run, DcaConv.readSrc, h.src, Pointer.load_walked]

theorem CodecAt.writeDst {b : β} (h : CodecAt s read ahead written (b :: room) n v)
    (convert : ℤ → β) (data : ℤ) :
    Returns (writeDst convert data) v () (CodecAt s read ahead (written ++ [convert data]) room n) := by
  refine ⟨{ v with dst := .walked (written ++ [convert data]) room, stored := v.stored ++ [data] },
    ?_, h.predictor, h.src, rfl, h.length, h.decremented⟩
  rw [EStateM.run, DcaConv.writeDst, h.dst, Pointer.store_walked]

theorem CodecAt.decrementLength (h : CodecAt s read ahead written room (n + 1) v)
    (hn : n + 1 < 2 ^ 64) :
    Returns decrementLength v n (CodecAt s read ahead written room n) := by
  have hdec : decSize v.length = n := by
    rw [h.length, decSize_of_pos (Nat.le_add_left 1 n) hn, Nat.add_sub_cancel]
  refine ⟨{ v with length := n, decremented := v.decremented ++ [v.length] }, ?_,
    h.predictor, h.src, h.dst, rfl, fun c hc ↦ ?_⟩
  · rw [EStateM.run, DcaConv.decrementLength, hdec]
  · rcases List.mem_append.mp hc with hc | hc
    · exact h.decremented c hc
    · rw [List.mem_singleton.mp hc, h.length]
      exact Nat.le_add_left 1 n

theorem CodecAt.pickVal (h : CodecAt s read ahead written room n v) (x : Int16) :
    Returns (pickVal x) v (encodeVal s x) (CodecAt s read ahead written room n) := by
  refine ⟨v, ?_, h⟩
  rw [EStateM.run, DcaConv.pickVal, h.predictor, chooseVal_eq]

theorem CodecAt.updatePredictor (h : CodecAt s read ahead written room n v) {val scaleIndex : ℕ}
    (hval : val < 16) (hscale : scaleIndex < 16) :
    Returns (updatePredictor val scaleIndex) v ()
      (CodecAt (s.advance val scaleIndex) read ahead written room n) := by
  refine ⟨{ v with
    predictor := (s.advance val scaleIndex).vars
    points := v.points ++ [(val, (s.advance val scaleIndex).vars)] }, ?_,
    rfl, h.src, h.dst, h.length, h.decremented⟩
  rw [EStateM.run, DcaConv.updatePredictor, h.predictor, movePredictor_eq s hval hscale]

end Statements

/-! ## The encoder -/

section Encoder

variable {s : AdpcmState} {read ahead : List Int16} {written room : List UInt8} {n : ℕ} {x y : Int16}
  {b : UInt8} {v : CodecVars Int16 UInt8}

theorem CodecAt.encodeHalf (h : CodecAt s read (x :: ahead) written room n v) :
    Returns encodeHalf v (encodeVal s x)
      (CodecAt (encodeSample s x).2 (read ++ [x]) ahead written room n) := by
  have hval := encodeVal_lt s x
  rw [DcaConv.encodeHalf]
  refine h.readSrc.bind fun t ht ↦ (ht.pickVal x).bind fun u hu ↦ ?_
  exact (hu.updatePredictor hval hval).bind fun w hw ↦ .pure hw

theorem ofInt_natCast (n : ℕ) : UInt8.ofInt n = UInt8.ofNat n := by
  have hmod : ((n : ℤ) % 2 ^ 8).toNat = n % 2 ^ 8 := by omega
  rw [UInt8.ofInt, hmod, UInt8.ofNat_mod_size]

/-- The turn that breaks in the middle of a byte. -/
theorem CodecAt.encode_one (h : CodecAt s read (x :: ahead) written (b :: room) 1 v) :
    Returns pcm2adpcmBody v false (CodecAt (encodeSample s x).2 (read ++ [x]) ahead
      (written ++ [UInt8.ofNat (encodeVal s x)]) room 0) := by
  rw [pcm2adpcmBody]
  refine h.encodeHalf.bind fun t ht ↦ (ht.decrementLength (by norm_num)).bind fun u hu ↦ ?_
  rw [if_pos rfl, ← ofInt_natCast]
  exact (hu.writeDst UInt8.ofInt _).bind fun w hw ↦ .pure hw

/-- The turn that fills a byte. -/
theorem CodecAt.encode_two (h : CodecAt s read (x :: y :: ahead) written (b :: room) (n + 2) v)
    (hn : n + 2 < 2 ^ 64) :
    Returns pcm2adpcmBody v (decide (n ≠ 0)) (CodecAt (encodeSample (encodeSample s x).2 y).2
      (read ++ [x, y]) ahead (written ++ [UInt8.ofNat (encodeVal s x |||
        encodeVal (encodeSample s x).2 y <<< 4)]) room n) := by
  rw [pcm2adpcmBody]
  refine h.encodeHalf.bind fun t ht ↦ (ht.decrementLength hn).bind fun u hu ↦ ?_
  rw [if_neg (Nat.succ_ne_zero n), ← ofInt_natCast]
  refine hu.encodeHalf.bind fun w hw ↦ (hw.writeDst UInt8.ofInt _).bind fun z hz ↦ ?_
  rw [List.append_assoc] at hz
  exact (hz.decrementLength (by omega)).bind fun _ hend ↦ .pure hend

/-- The run over the samples `xs` that are left, into the cells `old`. -/
theorem CodecAt.pcm2adpcm {ahead : List Int16} {room : List UInt8} : ∀ (xs : List Int16)
    (old : List UInt8) {s : AdpcmState} {read : List Int16} {written : List UInt8}
    {v : CodecVars Int16 UInt8}, xs ≠ [] → xs.length < 2 ^ 64 → old.length = (xs.length + 1) / 2 →
    CodecAt s read (xs ++ ahead) written (old ++ room) xs.length v →
    Halts pcm2adpcmBody v (CodecAt (adpcmEncoder.after s xs) (read ++ xs) ahead
      (written ++ packNibbles (adpcmEncoder.outputs s xs)) room 0)
  | [], _, _, _, _, _, hne, _, _, _ => absurd rfl hne
  | _ :: _, [], _, _, _, _, _, _, hold, _ => by
    rw [List.length_nil, List.length_cons] at hold
    omega
  | [_], [_], _, _, _, _, _, _, _, h => .last h.encode_one
  | [_], _ :: _ :: _, _, _, _, _, _, _, hold, _ => by
    rw [List.length_cons, List.length_cons, List.length_singleton] at hold
    omega
  | x :: y :: xs, b :: old, s, read, written, v, _, hlt, hold, h => by
    rw [List.length_cons, List.length_cons] at hlt hold
    rw [List.length_cons] at hold
    have hturn := CodecAt.encode_two h hlt
    cases xs with
    | nil =>
      obtain rfl : old = [] := List.eq_nil_of_length_eq_zero (by rw [List.length_nil] at hold; omega)
      exact .last hturn
    | cons z xs =>
      refine .turn hturn fun t ht ↦ ?_
      have ih := CodecAt.pcm2adpcm (z :: xs) old (List.cons_ne_nil _ _) (by omega) (by omega) ht
      rw [List.append_assoc, List.append_assoc] at ih
      exact ih

end Encoder

/-! ## The decoder -/

section Decoder

variable {s : AdpcmState} {read ahead : List UInt8} {written room : List Int16} {n : ℕ}
  {data : UInt8} {b b' : Int16} {v : CodecVars UInt8 Int16}

theorem CodecAt.writeSignal (h : CodecAt s read ahead written (b :: room) n v) :
    Returns writeSignal v () (CodecAt s read ahead (written ++ [Int16.ofInt s.signal]) room n) := by
  have hsignal : v.predictor.signal = s.signal := by rw [h.predictor, s.vars_signal]
  obtain ⟨t, hrun, ht⟩ := h.writeDst Int16.ofInt v.predictor.signal
  rw [hsignal] at ht
  exact ⟨t, hrun, ht⟩

theorem CodecAt.decodeHalf (h : CodecAt s read ahead written (b :: room) n v) {val : ℕ}
    (hval : val < 16) :
    Returns (decodeHalf val) v () (CodecAt (decodeNibble s val) read ahead
      (written ++ [Int16.ofInt (decodeNibble s val).signal]) room n) := by
  rw [DcaConv.decodeHalf]
  exact (h.updatePredictor hval (Nat.and_le_left.trans_lt hval)).bind fun t ht ↦ ht.writeSignal

/-- The turn that breaks in the middle of a byte. -/
theorem CodecAt.decode_one (h : CodecAt s read (data :: ahead) written (b :: room) 1 v) :
    Returns adpcm2pcmBody v false (CodecAt (decodeNibble s (data.toNat &&& 15)) (read ++ [data])
      ahead (written ++ [Int16.ofInt (decodeNibble s (data.toNat &&& 15)).signal]) room 0) := by
  rw [adpcm2pcmBody]
  refine h.readSrc.bind fun t ht ↦ (ht.decodeHalf (nibble_lt _)).bind fun u hu ↦ ?_
  refine (hu.decrementLength (by norm_num)).bind fun w hw ↦ ?_
  rw [if_pos rfl]
  exact .pure hw

/-- The turn that uses up a byte. -/
theorem CodecAt.decode_two (h : CodecAt s read (data :: ahead) written (b :: b' :: room) (n + 2) v)
    (hn : n + 2 < 2 ^ 64) :
    Returns adpcm2pcmBody v (decide (n ≠ 0)) (CodecAt
      (adpcmDecoder.after s [data.toNat &&& 15, (data.toNat >>> 4) &&& 15]) (read ++ [data]) ahead
      (written ++ adpcmDecoder.outputs s [data.toNat &&& 15, (data.toNat >>> 4) &&& 15]) room n) := by
  rw [adpcm2pcmBody]
  refine h.readSrc.bind fun t ht ↦ (ht.decodeHalf (nibble_lt _)).bind fun u hu ↦ ?_
  refine (hu.decrementLength hn).bind fun w hw ↦ ?_
  rw [if_neg (Nat.succ_ne_zero n)]
  refine (hw.decodeHalf (nibble_lt _)).bind fun z hz ↦ ?_
  rw [List.append_assoc] at hz
  exact (hz.decrementLength (by omega)).bind fun _ hend ↦ .pure hend

/-- The run over the bytes `src` that are left, into the cells `old`. -/
theorem CodecAt.adpcm2pcm {ahead : List UInt8} {room : List Int16} : ∀ (src : List UInt8)
    (old : List Int16) {s : AdpcmState} {read : List UInt8} {written : List Int16}
    {v : CodecVars UInt8 Int16}, old ≠ [] → old.length < 2 ^ 64 →
    src.length = (old.length + 1) / 2 →
    CodecAt s read (src ++ ahead) written (old ++ room) old.length v →
    Halts adpcm2pcmBody v (CodecAt
      (adpcmDecoder.after s ((unpackNibbles src).take old.length)) (read ++ src) ahead
      (written ++ adpcmDecoder.outputs s ((unpackNibbles src).take old.length)) room 0)
  | _, [], _, _, _, _, hne, _, _, _ => absurd rfl hne
  | [], _ :: _, _, _, _, _, _, _, hsrc, _ => by
    rw [List.length_nil, List.length_cons] at hsrc
    omega
  | [_], [_], _, _, _, _, _, _, _, h => .last h.decode_one
  | _ :: _ :: _, [_], _, _, _, _, _, _, hsrc, _ => by
    rw [List.length_cons, List.length_cons, List.length_singleton] at hsrc
    omega
  | data :: src, b :: b' :: old, s, read, written, v, _, hlt, hsrc, h => by
    rw [List.length_cons, List.length_cons] at hlt hsrc
    rw [List.length_cons] at hsrc
    have hturn := CodecAt.decode_two h hlt
    cases old with
    | nil =>
      obtain rfl : src = [] := List.eq_nil_of_length_eq_zero (by rw [List.length_nil] at hsrc; omega)
      exact .last hturn
    | cons c old =>
      refine .turn hturn fun t ht ↦ ?_
      have ih := CodecAt.adpcm2pcm src (c :: old) (List.cons_ne_nil _ _) (by omega) (by omega) ht
      rw [List.append_assoc, List.append_assoc] at ih
      exact ih

end Decoder

/-! ## From entry to exit -/

theorem exists_split {α : Type} {cells : List α} {n : ℕ} (h : n ≤ cells.length) :
    ∃ front rest, cells = front ++ rest ∧ front.length = n :=
  ⟨cells.take n, cells.drop n, (List.take_append_drop n cells).symm, List.length_take_of_le h⟩

section Runs

variable {xs ahead : List Int16} {bytes old room : List UInt8}

/-- The encoder on the samples `xs` and whatever lies behind them. -/
theorem pcm2adpcm_run (hne : xs ≠ []) (hlt : xs.length < 2 ^ 64)
    (hold : old.length = (xs.length + 1) / 2) :
    Halts pcm2adpcmBody (.enter (xs ++ ahead) (old ++ room) xs.length)
      (CodecAt (adpcmEncoder.after .initial xs) xs ahead (adpcmBytes xs) room 0) :=
  CodecAt.pcm2adpcm xs old hne hlt hold (codecAt_enter _ _ _)

/-- The statements do to the buffer what the loop over lists returns. -/
theorem pcm2adpcm_refines (hne : xs ≠ []) (hlt : xs.length < 2 ^ 64)
    (hold : old.length = (xs.length + 1) / 2) :
    Halts pcm2adpcmBody (.enter (xs ++ ahead) (old ++ room) xs.length) fun v ↦
      ∃ data, pcm2adpcm (xs ++ ahead) xs.length = .ok data ∧ v.dst.cells = data ++ room := by
  refine (pcm2adpcm_run hne hlt hold).imp fun v hv ↦ ⟨adpcmBytes xs, ?_, ?_⟩
  · rw [pcm2adpcm, pcm2adpcmLoop_eq .initial xs ahead hne hlt]
    rfl
  · rw [hv.dst, Pointer.walked]

end Runs

section Runs

variable {bytes ahead : List UInt8} {old room : List Int16}

/-- The decoder on the bytes of `old.length` samples and whatever lies behind them. -/
theorem adpcm2pcm_run (hne : old ≠ []) (hlt : old.length < 2 ^ 64)
    (hbytes : bytes.length = (old.length + 1) / 2) :
    Halts adpcm2pcmBody (.enter (bytes ++ ahead) (old ++ room) old.length) (CodecAt
      (adpcmDecoder.after .initial ((unpackNibbles bytes).take old.length)) bytes ahead
      (adpcmDecoder.outputs .initial ((unpackNibbles bytes).take old.length)) room 0) :=
  CodecAt.adpcm2pcm bytes old hne hlt hbytes (codecAt_enter _ _ _)

theorem adpcm2pcm_refines (hne : old ≠ []) (hlt : old.length < 2 ^ 64)
    (hbytes : bytes.length = (old.length + 1) / 2) :
    Halts adpcm2pcmBody (.enter (bytes ++ ahead) (old ++ room) old.length) fun v ↦
      ∃ data, adpcm2pcm (bytes ++ ahead) old.length = .ok data ∧ v.dst.cells = data ++ room := by
  refine (adpcm2pcm_run hne hlt hbytes).imp fun v hv ↦ ⟨_, ?_, by rw [hv.dst, Pointer.walked]⟩
  have hpos : 1 ≤ old.length := List.length_pos_iff.mpr hne
  rw [adpcm2pcm, adpcm2pcmTrace, adpcm2pcmLoop_eq .initial bytes ahead _ hpos hlt hbytes,
    outputs_eq_map_states (f := fun s ↦ Int16.ofInt s.signal) fun _ _ ↦ rfl]
  rfl

end Runs

/-! ## Extents -/

section Extents

variable {n : ℕ}

/-- The run has read the first `reads` cells of one buffer and stored to the first `stores` of the
other, each once and in order, and its counter has not been decremented at 0. -/
structure WalksExactly {α β : Type} (reads stores : ℕ) (v : CodecVars α β) : Prop where
  src : v.src.accesses = List.range reads
  dst : v.dst.accesses = List.range stores
  counter : ∀ c ∈ v.decremented, 1 ≤ c

theorem CodecAt.walksExactly {α β : Type} {s : AdpcmState} {read ahead : List α}
    {written room : List β} {v : CodecVars α β} (h : CodecAt s read ahead written room n v) :
    WalksExactly read.length written.length v where
  src := by rw [h.src, Pointer.walked]
  dst := by rw [h.dst, Pointer.walked]
  counter := h.decremented

/-- `pcm2adpcm` on `n` samples, in any buffers that have room for them. -/
def EncodesExactly (n : ℕ) : Prop :=
  ∀ (src : List Int16) (dst : List UInt8), n ≤ src.length → (n + 1) / 2 ≤ dst.length →
    Halts pcm2adpcmBody (.enter src dst n) fun v ↦ WalksExactly n ((n + 1) / 2) v ∧
      (n % 2 = 1 → ∃ data, v.dst.cells[(n + 1) / 2 - 1]? = some data ∧ data >>> 4 = 0)

/-- `adpcm2pcm` for `n` samples, likewise. -/
def DecodesExactly (n : ℕ) : Prop :=
  ∀ (src : List UInt8) (dst : List Int16), (n + 1) / 2 ≤ src.length → n ≤ dst.length →
    Halts adpcm2pcmBody (.enter src dst n) (WalksExactly ((n + 1) / 2) n)

theorem high_nibble_ofNat : ∀ val < 16, UInt8.ofNat val >>> 4 = 0 := by decide

/-- Of an odd number of samples the last byte holds one. -/
theorem adpcmBytes_of_odd {xs : List Int16} (hodd : xs.length % 2 = 1) :
    ∃ data, (adpcmBytes xs)[(xs.length + 1) / 2 - 1]? = some data ∧ data >>> 4 = 0 := by
  have hvals : ∀ val ∈ adpcmEncoder.outputs .initial xs, val < 16 :=
    forall_mem_outputs encodeVal_lt AdpcmState.initial xs
  have hodd' : (adpcmEncoder.outputs .initial xs).length % 2 = 1 := by rw [length_outputs, hodd]
  obtain ⟨front, val, hmem, hpack⟩ := packPairs_of_odd
    (fun a b : ℕ ↦ UInt8.ofNat (a ||| b <<< 4)) UInt8.ofNat _ hodd'
  have hbytes : adpcmBytes xs = front ++ [UInt8.ofNat val] := hpack
  have hlen := length_adpcmBytes xs
  rw [hbytes, List.length_append, List.length_singleton] at hlen
  refine ⟨UInt8.ofNat val, ?_, high_nibble_ofNat val (hvals val hmem)⟩
  rw [← hlen, Nat.add_sub_cancel, hbytes, List.getElem?_append_right (le_refl _), Nat.sub_self]
  rfl

theorem encodesExactly (hpos : 1 ≤ n) (hlt : n < 2 ^ 64) : EncodesExactly n := by
  intro src dst hsrc hdst
  obtain ⟨xs, ahead, rfl, rfl⟩ := exists_split hsrc
  obtain ⟨old, room, rfl, hold⟩ := exists_split hdst
  refine (pcm2adpcm_run (List.length_pos_iff.mp hpos) hlt hold).imp fun v hv ↦ ⟨?_, fun hodd ↦ ?_⟩
  · have hwalks := hv.walksExactly
    rwa [length_adpcmBytes] at hwalks
  · obtain ⟨data, hdata, hzero⟩ := adpcmBytes_of_odd hodd
    have hin : (xs.length + 1) / 2 - 1 < (adpcmBytes xs).length := by
      rw [length_adpcmBytes]
      omega
    refine ⟨data, ?_, hzero⟩
    rw [hv.dst, Pointer.walked, List.getElem?_append_left hin, hdata]

theorem decodesExactly (hpos : 1 ≤ n) (hlt : n < 2 ^ 64) : DecodesExactly n := by
  intro src dst hsrc hdst
  obtain ⟨bytes, ahead, rfl, hbytes⟩ := exists_split hsrc
  obtain ⟨old, room, rfl, rfl⟩ := exists_split hdst
  refine (adpcm2pcm_run (List.length_pos_iff.mp hpos) hlt hbytes).imp fun v hv ↦ ?_
  have hwalks := hv.walksExactly
  have hvals : ((unpackNibbles bytes).take old.length).length = old.length := by
    refine List.length_take_of_le ?_
    rw [unpackNibbles, length_unpackPairs, hbytes]
    omega
  rwa [length_outputs, hvals, hbytes] at hwalks

end Extents

end DcaConv
