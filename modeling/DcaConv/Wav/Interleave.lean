import DcaConv.Container.Converter
import DcaConv.Library.CountedLoop
import DcaConv.Library.Interleave
import DcaConv.Library.Memory

/-!
# Interleaved samples

A loader has the frames of a file in one buffer. `dcaDeinterleaveSamples` spreads them over the
converter's channels, one channel after the other, reading through a pointer to the channel's first
sample; `fWavWrite` puts them together again, one frame after the other. Both compute their indices
as `unsigned`. Every access is checked, the slots of `samples` being the array's eight, and a buffer
that is filled keeps a record of its stores, which the program does not look at.

The two run through the samples in different orders, and are inverse to each other as long as the
buffer has fewer than `2 ^ 32` samples.
-/

namespace DcaConv

/-- What `malloc` hands out: the block of a function's `call`-th allocation, of the size asked for
and with anything in it. -/
structure Heap where
  block : (call cells : ℕ) → List Int16
  length_block : ∀ call cells, (block call cells).length = cells

/-! ## The loops -/

/-- Where `src[j*channels]` is in the buffer, `src` pointing at sample `i`. -/
def sourceIndex (channels i j : ℕ) : ℕ := i + u32 (j * channels)

/-- The inner loop of `dcaDeinterleaveSamples`. -/
def deinterleaveChannel (samples : List Int16) (sampleCnt channels i : ℕ)
    (dst : Memory.Filling Int16) : Except Fault (Memory.Filling Int16) :=
  (List.range sampleCnt).foldlM (fun dst j ↦ do
    let x ← Memory.readAt .outOfBounds samples (sourceIndex channels i j)
    dst.store .outOfBounds j x) dst

/-- Store a channel's buffer in slot `i`, which has to be one of the array's. -/
def setChannel (dcac : DcAudioConverter) (i : ℕ) (dst : List Int16) :
    Except Fault DcAudioConverter :=
  if i < dcacMaxChannels then
    .ok { dcac with samples := dcac.samples.take i ++ dst :: dcac.samples.drop (i + 1) }
  else .error .outOfBounds

/-- Both counts are `unsigned`, and so are the counters that run up to them. -/
def dcaDeinterleaveSamples (heap : Heap) (dcac : DcAudioConverter) (samples : List Int16)
    (sampleCnt channels : ℕ) : Except Fault DcAudioConverter :=
  (List.range channels).foldlM (fun dcac i ↦ do
    let dst ← deinterleaveChannel samples sampleCnt channels i (.fresh (heap.block i sampleCnt))
    setChannel dcac i dst.cells) dcac

/-- Where `interleaved[i*ch_cnt+c]` is. -/
def interleavedIndex (chCnt i c : ℕ) : ℕ := u32 (u32 (i * chCnt) + c)

/-- The body of `fWavWrite`'s loops. -/
def interleaveSample (dcac : DcAudioConverter) (interleaved : Memory.Filling Int16) (i c : ℕ) :
    Except Fault (Memory.Filling Int16) := do
  let channel ← Memory.readAt .outOfBounds dcac.samples c
  let x ← Memory.readAt .outOfBounds channel i
  interleaved.store .outOfBounds (interleavedIndex dcac.channelCnt i c) x

/-- The inner loop. -/
def interleaveFrame (dcac : DcAudioConverter) (interleaved : Memory.Filling Int16) (i : ℕ) :
    Except Fault (Memory.Filling Int16) :=
  (List.range dcac.channelCnt).foldlM (fun interleaved c ↦ interleaveSample dcac interleaved i c)
    interleaved

/-- The interleaving part of `fWavWrite`, with its allocation. The counter of the outer loop is
`unsigned` where the length is not. -/
def interleaveSamples (heap : Heap) (fuel : ℕ) (dcac : DcAudioConverter) :
    Option (Except Fault (Memory.Filling Int16)) :=
  let cells := Target.host.size (dcac.samplesLen * dcac.channelCnt * 2) / 2
  CountedLoop.run (2 ^ 32) dcac.samplesLen (interleaveFrame dcac) fuel 0
    (.fresh (heap.block 0 cells))

/-! ## Their indices -/

section Indices

variable {n k c j : ℕ}

theorem sourceIndex_eq (hc : c < k) (hj : j < n) (hfit : n * k < 2 ^ 32) :
    sourceIndex k c j = c + j * k := by
  have hcell := Interleave.cell_lt hc hj
  rw [sourceIndex, u32_of_lt (by omega)]

/-- Even where the product wraps, the index stays inside the buffer. -/
theorem sourceIndex_lt (hc : c < k) (hj : j < n) : sourceIndex k c j < n * k :=
  (Nat.add_le_add_left (Nat.mod_le _ _) c).trans_lt (Interleave.cell_lt hc hj)

theorem interleavedIndex_eq (hc : c < k) (hj : j < n) (hfit : n * k < 2 ^ 32) :
    interleavedIndex k j c = c + j * k := by
  have hcell := Interleave.cell_lt hc hj
  have hframe : u32 (j * k) = j * k := u32_of_lt (by omega)
  rw [interleavedIndex, hframe, u32_of_lt (by omega), Nat.add_comm]

end Indices

/-! ## Taking the frames apart -/

section Deinterleave

variable {heap : Heap} {dcac : DcAudioConverter} {buf : List Int16} {n k i : ℕ}

/-- Channel `i` of the buffer, as the loop reads it. -/
def channelOf (buf : List Int16) (n k i : ℕ) : List Int16 :=
  (List.range n).map fun j ↦ buf.getD (sourceIndex k i j) 0

@[simp] theorem length_channelOf : (channelOf buf n k i).length = n := by
  rw [channelOf, List.length_map, List.length_range]

theorem channelOf_eq_member (hi : i < k) (hfit : n * k < 2 ^ 32) :
    channelOf buf n k i = Interleave.member n k (buf.getD · 0) i := by
  apply List.map_congr_left
  intro j hj
  rw [sourceIndex_eq hi (List.mem_range.mp hj) hfit]

theorem deinterleaveChannel_eq (hi : i < k) (hbuf : n * k ≤ buf.length) {dst : List Int16}
    (hdst : dst.length = n) :
    deinterleaveChannel buf n k i (.fresh dst) = .ok ⟨channelOf buf n k i, List.range n⟩ := by
  have hread : ∀ j < n, Memory.readAt Fault.outOfBounds buf (sourceIndex k i j)
      = .ok (buf.getD (sourceIndex k i j) 0) := fun j hj ↦
    Memory.readAt_of_lt 0 ((sourceIndex_lt hi hj).trans_le hbuf)
  rw [deinterleaveChannel, Memory.foldlM_store hread hdst.ge, List.drop_of_length_le hdst.le,
    List.append_nil]
  rfl

/-- The converter behind the loop: the first `k` slots are the buffer's channels. -/
theorem dcaDeinterleaveSamples_eq (hk : k ≤ dcacMaxChannels) (hbuf : n * k ≤ buf.length) :
    dcaDeinterleaveSamples heap dcac buf n k = .ok { dcac with
      samples := (List.range k).map (channelOf buf n k) ++ dcac.samples.drop k } := by
  -- the first `m` turns, for every `m` up to `k`
  suffices hturns : ∀ m ≤ k, ((List.range m).foldlM (fun dcac i ↦ do
      let dst ← deinterleaveChannel buf n k i (.fresh (heap.block i n))
      setChannel dcac i dst.cells) dcac) = Except.ok (ε := Fault) { dcac with
        samples := (List.range m).map (channelOf buf n k) ++ dcac.samples.drop m } from
    hturns k le_rfl
  intro m hm
  induction m with
  | zero => rfl
  | succ m ih =>
    have hset : ∀ xs : List (List Int16), xs.length = m →
        (xs ++ dcac.samples.drop m).take m ++ channelOf buf n k m ::
          (xs ++ dcac.samples.drop m).drop (m + 1)
        = xs ++ [channelOf buf n k m] ++ dcac.samples.drop (m + 1) := by
      rintro xs rfl
      rw [List.take_left, ← List.drop_drop, List.drop_left, List.drop_drop, List.append_assoc,
        List.singleton_append]
    rw [List.range_succ, List.foldlM_append, ih (by omega), Fallible.ok_bind, List.foldlM_cons,
      deinterleaveChannel_eq (by omega) hbuf (heap.length_block _ _), Fallible.ok_bind, setChannel,
      if_pos (by omega), List.map_append]
    dsimp only
    rw [hset _ (by rw [List.length_map, List.length_range])]
    rfl

end Deinterleave

/-! ## Putting them together -/

section Interleave

variable {heap : Heap} {dcac : DcAudioConverter} {n k i : ℕ}

/-- `n` samples in each of the `k` channels in use. -/
structure Planar (dcac : DcAudioConverter) (n k : ℕ) : Prop where
  channelCnt_eq : dcac.channelCnt = k
  samplesLen_eq : dcac.samplesLen = n
  set : k ≤ dcac.samples.length
  length_eq : ∀ xs ∈ dcac.samples.take k, xs.length = n

/-- Sample `i` of channel `c`. -/
def sampleOf (dcac : DcAudioConverter) (c i : ℕ) : Int16 := (dcac.samples.getD c []).getD i 0

theorem Planar.length_channel (h : Planar dcac n k) {c : ℕ} (hc : c < k) :
    (dcac.samples.getD c []).length = n := by
  have hlt : c < dcac.samples.length := hc.trans_le h.set
  apply h.length_eq
  rw [List.getD_eq_getElem?_getD, List.getElem?_eq_getElem hlt, Option.getD_some]
  exact List.mem_take_iff_getElem.mpr ⟨c, by omega, rfl⟩

/-- The channels in use, sample by sample. -/
theorem Planar.map_sampleOf (h : Planar dcac n k) :
    ((List.range k).map fun c ↦ (List.range n).map (sampleOf dcac c)) = dcac.samples.take k := by
  have hlength : (dcac.samples.take k).length = k := by
    rw [List.length_take, Nat.min_eq_left h.set]
  refine Eq.trans (List.map_congr_left fun c hc ↦ ?_) (Interleave.map_range_getD [] hlength)
  have hc' : c < k := List.mem_range.mp hc
  have htake : (dcac.samples.take k).getD c [] = dcac.samples.getD c [] := by
    rw [List.getD_eq_getElem?_getD, List.getElem?_take_of_lt hc', List.getD_eq_getElem?_getD]
  rw [htake]
  exact Interleave.map_range_getD 0 (h.length_channel hc')

/-- One turn of the loop nest, at cell `p`. -/
theorem interleaveSample_eq (h : Planar dcac n k) (hfit : n * k < 2 ^ 32) {p : ℕ} (hp : p < n * k)
    (interleaved : Memory.Filling Int16) :
    interleaveSample dcac interleaved (p / k) (p % k)
      = interleaved.store .outOfBounds p (sampleOf dcac (p % k) (p / k)) := by
  have hk : 0 < k := Nat.pos_of_mul_pos_left (Nat.zero_lt_of_lt hp)
  have hc : p % k < k := Nat.mod_lt p hk
  have hi : p / k < n := (Nat.div_lt_iff_lt_mul hk).mpr hp
  rw [interleaveSample, Memory.readAt_of_lt [] (hc.trans_le h.set), Fallible.ok_bind,
    Memory.readAt_of_lt 0 (hi.trans_eq (h.length_channel hc).symm), Fallible.ok_bind,
    h.channelCnt_eq, interleavedIndex_eq hc hi hfit, Nat.mul_comm (p / k), Nat.mod_add_div]
  rfl

/-- The loop nest fills its buffer with the packed samples, each cell once and in order. -/
theorem interleaveFrames_eq (h : Planar dcac n k) (hfit : n * k < 2 ^ 32) {dst : List Int16}
    (hdst : dst.length = n * k) :
    (List.range n).foldlM (interleaveFrame dcac) (.fresh dst)
      = .ok ⟨Interleave.pack n k (sampleOf dcac), List.range (n * k)⟩ := by
  have hfill := Memory.foldlM_store (e := Fault.outOfBounds)
    (fun p _ ↦ (rfl : Except.ok (sampleOf dcac (p % k) (p / k)) = _)) hdst.ge
  rw [List.drop_of_length_le hdst.le, List.append_nil] at hfill
  calc (List.range n).foldlM (interleaveFrame dcac) (.fresh dst)
      = (List.range n).foldlM (fun interleaved i ↦ (List.range k).foldlM
          (fun interleaved c ↦ interleaveSample dcac interleaved i c) interleaved) (.fresh dst) := by
        rw [← h.channelCnt_eq]
        rfl
    _ = (List.range (n * k)).foldlM (fun interleaved p ↦
          interleaveSample dcac interleaved (p / k) (p % k)) (.fresh dst) :=
        Interleave.foldlM_nest (interleaveSample dcac) n k _
    _ = _ := Fallible.foldlM_congr (fun interleaved p hp ↦
        interleaveSample_eq h hfit (List.mem_range.mp hp) interleaved) _
    _ = _ := hfill

theorem interleaveSamples_eq (h : Planar dcac n k) (hk : 1 ≤ k) (hfit : n * k < 2 ^ 32) {fuel : ℕ}
    (hfuel : n < fuel) :
    interleaveSamples heap fuel dcac
      = some (.ok ⟨Interleave.pack n k (sampleOf dcac), List.range (n * k)⟩) := by
  have hn : n < 2 ^ 32 := (Nat.le_mul_of_pos_right n hk).trans_lt hfit
  have hcells : Target.host.size (n * k * 2) / 2 = n * k := by
    rw [Target.size_host (by omega), Nat.mul_div_cancel _ Nat.two_pos]
  rw [interleaveSamples, h.samplesLen_eq, h.channelCnt_eq, hcells,
    CountedLoop.run_eq_range hn hfuel, interleaveFrames_eq h hfit (heap.length_block _ _)]

end Interleave

/-! ## Lossless both ways -/

/-- What the two functions do to `n` frames of `k` samples. -/
structure Lossless (n k : ℕ) : Prop where
  /-- Taken apart and put together again, a buffer is what it was. -/
  interleaved : ∀ (heap heap' : Heap) (dcac : DcAudioConverter) (buf : List Int16),
    buf.length = n * k → dcac.channelCnt = k → dcac.samplesLen = n →
      ∃ planar, dcaDeinterleaveSamples heap dcac buf n k = .ok planar ∧ ∀ fuel, n < fuel →
        ∃ out, interleaveSamples heap' fuel planar = some (.ok out) ∧ out.cells = buf
  /-- Put together and taken apart again, the channels are what they were. -/
  planar : ∀ (heap heap' : Heap) (dcac dcac' : DcAudioConverter), Planar dcac n k →
    ∀ fuel, n < fuel → ∃ out, interleaveSamples heap fuel dcac = some (.ok out) ∧
      ∃ planar, dcaDeinterleaveSamples heap' dcac' out.cells n k = .ok planar ∧
        planar.samples.take k = dcac.samples.take k
  /-- No index wraps, and none is past the end of the buffer. -/
  index : ∀ c < k, ∀ i < n, sourceIndex k c i = c + i * k ∧ interleavedIndex k i c = c + i * k ∧
    c + i * k < n * k
  /-- `fWavWrite` stores to every cell of its buffer, once. -/
  stores_interleaved : ∀ (heap : Heap) (dcac : DcAudioConverter), Planar dcac n k →
    ∀ fuel, n < fuel → ∃ out, interleaveSamples heap fuel dcac = some (.ok out) ∧
      out.cells.length = n * k ∧ out.stores = List.range (n * k)
  /-- `dcaDeinterleaveSamples` stores to every cell of each of its buffers, once. -/
  stores_planar : ∀ (buf dst : List Int16), buf.length = n * k → dst.length = n → ∀ c < k,
    ∃ out, deinterleaveChannel buf n k c (.fresh dst) = .ok out ∧
      out.cells.length = n ∧ out.stores = List.range n

section Lossless

variable {dcac : DcAudioConverter} {buf : List Int16} {n k : ℕ}

/-- The channels of a buffer, in front of what the slots held. -/
theorem planar_deinterleaved (hcnt : dcac.channelCnt = k) (hlen : dcac.samplesLen = n)
    {rest : List (List Int16)} :
    Planar { dcac with samples := (List.range k).map (channelOf buf n k) ++ rest } n k := by
  have hchannels : ((List.range k).map (channelOf buf n k)).length = k := by
    rw [List.length_map, List.length_range]
  refine ⟨hcnt, hlen, ?_, fun xs hxs ↦ ?_⟩
  · rw [List.length_append, hchannels]
    exact Nat.le_add_right _ _
  · rw [List.take_left' hchannels] at hxs
    obtain ⟨c, -, rfl⟩ := List.mem_map.mp hxs
    exact length_channelOf

theorem sampleOf_deinterleaved {rest : List (List Int16)} {c : ℕ} (hc : c < k)
    (hfit : n * k < 2 ^ 32) (i : ℕ) :
    sampleOf { dcac with samples := (List.range k).map (channelOf buf n k) ++ rest } c i
      = (Interleave.member n k (buf.getD · 0) c).getD i 0 := by
  have hchannels : c < ((List.range k).map (channelOf buf n k)).length := by
    rwa [List.length_map, List.length_range]
  rw [sampleOf, List.getD_append _ _ _ _ hchannels, Interleave.getD_map_range _ _ hc,
    channelOf_eq_member hc hfit]

/-- The channels of the packed samples are the ones that were packed. -/
theorem map_channelOf_pack (h : Planar dcac n k) (hfit : n * k < 2 ^ 32) :
    (List.range k).map (channelOf (Interleave.pack n k (sampleOf dcac)) n k)
      = dcac.samples.take k := by
  rw [← h.map_sampleOf]
  apply List.map_congr_left
  intro c hc
  have hc' : c < k := List.mem_range.mp hc
  rw [channelOf_eq_member hc' hfit, Interleave.member_pack _ _ hc']

/-- **Lossless interleaving.** For one to eight channels and fewer than `2 ^ 32` samples in all. -/
theorem interleaving_lossless (hk : 1 ≤ k) (hk' : k ≤ dcacMaxChannels) (hfit : n * k < 2 ^ 32) :
    Lossless n k where
  interleaved heap heap' dcac buf hbuf hcnt hlen := by
    refine ⟨_, dcaDeinterleaveSamples_eq hk' hbuf.ge, fun fuel hfuel ↦ ?_⟩
    refine ⟨_, interleaveSamples_eq (planar_deinterleaved hcnt hlen) hk hfit hfuel, ?_⟩
    refine (Interleave.pack_congr fun c hc i _ ↦ ?_).trans (Interleave.pack_member 0 hbuf)
    exact sampleOf_deinterleaved hc hfit i
  planar heap heap' dcac dcac' h fuel hfuel := by
    refine ⟨_, interleaveSamples_eq h hk hfit hfuel, _,
      dcaDeinterleaveSamples_eq hk' (Interleave.length_pack _).ge, ?_⟩
    rw [List.take_left' (by rw [List.length_map, List.length_range]), map_channelOf_pack h hfit]
  index c hc i hi :=
    ⟨sourceIndex_eq hc hi hfit, interleavedIndex_eq hc hi hfit, Interleave.cell_lt hc hi⟩
  stores_interleaved heap dcac h fuel hfuel :=
    ⟨_, interleaveSamples_eq h hk hfit hfuel, Interleave.length_pack _, rfl⟩
  stores_planar buf dst hbuf hdst c hc :=
    ⟨_, deinterleaveChannel_eq hc hbuf.ge hdst, length_channelOf, rfl⟩

/-- Three frames of two channels. -/
theorem interleaving_lossless_stereo : Lossless 3 2 :=
  interleaving_lossless (by decide) (by decide) (by decide)

end Lossless

end DcaConv
