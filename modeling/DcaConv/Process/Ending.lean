import DcaConv.Process.Lossless

/-!
# How a run ends

The loops of the program that count with an `unsigned` up to a length of 64 bits get there, since
no length that was loaded or resampled needs more than 32. Behind a conversion the WAV writer and
the preview cannot fail but by returning an error, which `main` ignores; only the `.dca` writer can
still abort. So behind a load the process has the exit status of `main` on the sound alone.

The lengths are those of `runMain`, where the `float` ratio of the resampling is the exact one.
-/

namespace DcaConv

/-! ## The loop of the WAV writer -/

section Loop

variable {dcac : DcAudioConverter} {n k i : ℕ}

/-- Where the index wraps, it is still in the buffer. -/
theorem interleavedIndex_lt {c : ℕ} (hc : c < k) (hi : i < n) : interleavedIndex k i c < n * k := by
  rcases Nat.lt_or_ge (n * k) (2 ^ 32) with hfit | hlong
  · rw [interleavedIndex_eq hc hi hfit]
    exact Interleave.cell_lt hc hi
  · exact (Nat.mod_lt _ (by positivity)).trans_le hlong

/-- A frame goes into a buffer with room for all of them. -/
theorem exists_interleaveFrame (hset : dcac.channelCnt ≤ dcac.samples.length)
    (hle : ∀ xs ∈ dcac.samples.take dcac.channelCnt, n ≤ xs.length) (hi : i < n)
    {interleaved : Memory.Filling Int16} (hroom : interleaved.cells.length = n * dcac.channelCnt) :
    ∃ interleaved', interleaveFrame dcac interleaved i = .ok interleaved' ∧
      interleaved'.cells.length = n * dcac.channelCnt := by
  refine @Fallible.exists_foldlM_of_invariant _ _ (Memory.Filling Int16) _
    (fun interleaved ↦ interleaved.cells.length = n * dcac.channelCnt) _
    (fun interleaved hroom c hc ↦ ?_) _ hroom
  have hc : c < dcac.channelCnt := List.mem_range.mp hc
  have hslot : c < dcac.samples.length := hc.trans_le hset
  have hlong : n ≤ (dcac.samples.getD c []).length :=
    hle _ (Interleave.getD_mem_take [] hc hset)
  have hcell : interleavedIndex dcac.channelCnt i c < interleaved.cells.length :=
    (interleavedIndex_lt hc hi).trans_eq hroom.symm
  rw [interleaveSample, Memory.readAt_of_lt [] hslot, Fallible.ok_bind,
    Memory.readAt_of_lt 0 (hi.trans_le hlong), Fallible.ok_bind, Memory.Filling.store, if_pos hcell]
  exact ⟨_, rfl, by rw [List.length_set, hroom]⟩

/-- The nest ends, and does not leave its buffers. -/
theorem exists_interleaved (hset : dcac.channelCnt ≤ dcac.samples.length)
    (hle : ∀ xs ∈ dcac.samples.take dcac.channelCnt, dcac.samplesLen ≤ xs.length)
    (hcnt : dcac.channelCnt ≤ dcacMaxChannels) (hlt : dcac.samplesLen < 2 ^ 32) (heap : Heap) :
    ∃ out, interleaveSamples heap (dcac.samplesLen + 1) dcac = some (.ok out) := by
  have hmem : dcac.samplesLen * dcac.channelCnt * 2 < 2 ^ 64 := by
    have hle := Nat.mul_le_mul hlt.le hcnt
    simp only [dcacMaxChannels] at hle
    omega
  have hcells : (heap.block 0
      (Target.host.size (dcac.samplesLen * dcac.channelCnt * 2) / 2)).length
        = dcac.samplesLen * dcac.channelCnt := by
    rw [heap.length_block, Target.size_host hmem, Nat.mul_div_cancel _ Nat.two_pos]
  obtain ⟨out, hout, -⟩ := @Fallible.exists_foldlM_of_invariant _ Fault (Memory.Filling Int16)
    (interleaveFrame dcac)
    (fun interleaved ↦ interleaved.cells.length = dcac.samplesLen * dcac.channelCnt)
    (List.range dcac.samplesLen) (fun interleaved hroom i hi ↦
      exists_interleaveFrame hset hle (List.mem_range.mp hi) hroom) (.fresh _) hcells
  exact ⟨out, by rw [interleaveSamples, CountedLoop.run_eq_range hlt (Nat.lt_succ_self _), hout]⟩

/-- The writer returns. -/
theorem exists_writeWav (world : World) (hset : dcac.channelCnt ≤ dcac.samples.length)
    (hle : ∀ xs ∈ dcac.samples.take dcac.channelCnt, dcac.samplesLen ≤ xs.length)
    (hcnt : dcac.channelCnt ≤ dcacMaxChannels) (hlt : dcac.samplesLen < 2 ^ 32)
    (fname : CString) : ∃ code, writeWav world dcac fname = .ok code := by
  obtain ⟨out, hout⟩ := exists_interleaved hset hle hcnt hlt world.heap
  rw [writeWav, fWavWrite, hout]
  split
  · next hnone => split at hnone <;> cases hnone
  · next run hrun =>
    split at hrun
    · cases hrun
      exact ⟨_, rfl⟩
    · cases hrun
      exact ⟨_, rfl⟩

end Loop

/-! ## Behind a conversion -/

/-- What the end of `main` calls, for one output file. The WAV writer's loop has a result on every
length of 32 bits. -/
def World.services (world : World) (outFname : CString) : Services where
  srcNew := world.srcNew
  src := world.src
  writeDca dcac := (fDcaWrite dcac (world.sink outFname)).map Prod.fst
  writeWav dcac := (fWavWrite world.heap (dcac.samplesLen + 1) (world.encoder outFname) dcac).getD
    (.ok .unknown)

/-- What the `.dca` writer does not abort on: a sound its checks refuse, or one a header can
describe. -/
def PassesWriter (dcac : DcAudioConverter) : Prop :=
  (dcac.longSound = false ∧ dcacMaxSamples + 50 < dcac.samplesLen) ∨
    dcaFileMaxChannels < dcac.channelCnt ∨ FitsFile dcac

theorem fDcaWrite_error_iff_not_passes {final : DcAudioConverter} {out : Option FileSink}
    (hinv : WriterInv .dca final) (hlt : final.samplesLen + 1 < 2 ^ 32) :
    (∃ fault, fDcaWrite final out = .error fault) ↔ ¬PassesWriter final := by
  rw [fDcaWrite_error_iff hinv hlt, PassesWriter, not_or, not_or, not_and, not_lt, not_lt]

section Conversion

variable {world : World} {argv : List CString} {c : Conversion world argv}
  {final : DcAudioConverter}

/-- The array has a slot for every channel. -/
theorem Conversion.channels_le (hshort : world.Short) (c : Conversion world argv) :
    c.sound.channels.length ≤ dcacMaxChannels := by
  obtain ⟨sound, hsame, hcnt⟩ := exists_sound_of_loadInput hshort c.accepts.options_eq
    c.sound.rate_pos.ne' c.loads
  have hlength : c.sound.channels.length = sound.channels.length :=
    congrArg DcAudioConverter.channelCnt hsame
  exact hlength.trans_le hcnt

theorem Conversion.Writes.channelCnt_le (hshort : world.Short) (h : c.Writes final) :
    final.channelCnt ≤ dcacMaxChannels := by
  obtain ⟨settings, resampled, k, rfl, -, hk, hplanar, -⟩ := exists_resampled h.final_eq
  rw [(finishLoop_frame settings resampled).2.1, hplanar.channelCnt_eq]
  exact hk.trans (c.channels_le hshort)

/-- The preview of a file that was reported as written can be made. -/
theorem exists_makePreview_dca (hinv : WriterInv .dca final) (hlt : final.samplesLen + 1 < 2 ^ 32)
    {sink : Option FileSink} {written : DcaError × List UInt8}
    (hwrite : fDcaWrite final sink = .ok written)
    (hreopen : ∀ bytes, world.reopen bytes = some (.whole bytes)) (preview : Option CString)
    (outFname : CString) : ∃ made, makePreview world preview outFname written = .ok made := by
  cases preview with
  | none => exact ⟨_, rfl⟩
  | some fname =>
    obtain ⟨code, bytes⟩ := written
    by_cases hok : code = .ok
    · subst hok
      obtain ⟨taken, rfl⟩ := exists_sink_of_fDcaWrite hwrite
      have hfits := fitsFile_of_fDcaWrite (by omega) hwrite
      have hload := @fDcaLoad_written _ dcaInit hinv hlt _ _ hwrite rfl
      have hplanar := planar_load dcaInit (storedSound final hinv (Nat.lt_of_succ_lt hlt))
      have hcnt : (storedSound final hinv (Nat.lt_of_succ_lt hlt)).channels.length
          ≤ dcacMaxChannels := by
        rw [show (storedSound final hinv (Nat.lt_of_succ_lt hlt)).channels.length
          = final.channelCnt from length_storedChannels hinv]
        exact hfits.channelCnt_le.trans (by decide)
      obtain ⟨shown, hshown⟩ := @exists_writeWav
        (dcaInit.load (storedSound final hinv (Nat.lt_of_succ_lt hlt))) world hplanar.set
        (fun xs hxs ↦ (hplanar.length_eq xs hxs).ge) hcnt (Nat.lt_of_succ_lt hlt) fname
      rw [← hreopen] at hload
      rw [makePreview, if_neg (not_not.mpr rfl), generatePreview, hload]
      split
      · exact ⟨_, rfl⟩
      split
      · exact ⟨_, rfl⟩
      · change ∃ made, Except.map some (do
          let retval ← writeWav world _ fname
          Except.ok (retval, _)) = .ok made
        rw [hshown]
        exact ⟨_, rfl⟩
    · exact ⟨none, if_pos hok⟩

/-- The WAV writer, as the end of `main` calls it. -/
theorem services_writeWav {fname : CString} {code : DcaError}
    (hcode : writeWav world final fname = .ok code) :
    (world.services fname).writeWav final = .ok code := by
  rw [writeWav] at hcode
  rw [World.services]
  dsimp only
  cases hrun : fWavWrite world.heap (final.samplesLen + 1) (world.encoder fname) final with
  | none =>
    rw [hrun] at hcode
    cases hcode
  | some run =>
    rw [hrun] at hcode
    exact Fallible.mapError_eq_ok.mp hcode

/-- The writer returns and the preview can be made, or the `.dca` writer aborts. -/
theorem Conversion.Writes.writeFile_cases (hshort : world.Short) (h : c.Writes final)
    (hlt : final.samplesLen + 1 < 2 ^ 32)
    (hreopen : ∀ bytes, world.reopen bytes = some (.whole bytes)) :
    (∃ written made, (c.out = .dca → PassesWriter final) ∧
      writeFile world final c.outFname = .ok written ∧
      makePreview world c.locals.preview c.outFname written = .ok made ∧
      writeOutput c.out (world.services c.outFname) final = .ok written.1) ∨
    ∃ fault, (c.out = .dca ∧ ¬PassesWriter final) ∧
      writeFile world final c.outFname = .error (.aborted fault) ∧
      writeOutput c.out (world.services c.outFname) final = .error (.aborted fault) := by
  have hinv := writerInv h.final_eq
  rw [writeFile]
  rw [Conversion.out] at hinv ⊢
  cases hout : outputType c.outFname with
  | dca =>
    rw [hout] at hinv
    rw [writeOutput, World.services]
    dsimp only
    have hpass := @fDcaWrite_error_iff_not_passes final (world.sink c.outFname) hinv hlt
    cases hwrite : fDcaWrite final (world.sink c.outFname) with
    | error fault => exact Or.inr ⟨fault, ⟨rfl, hpass.mp ⟨fault, hwrite⟩⟩, rfl, rfl⟩
    | ok written =>
      obtain ⟨made, hmade⟩ :=
        exists_makePreview_dca hinv hlt hwrite hreopen c.locals.preview c.outFname
      refine Or.inl ⟨written, made, fun _ ↦ ?_, rfl, hmade, rfl⟩
      by_contra hno
      obtain ⟨fault, hfault⟩ := hpass.mpr hno
      rw [hwrite] at hfault
      cases hfault
  | wav =>
    obtain ⟨code, hcode⟩ := exists_writeWav world hinv.set hinv.samplesLen_le
      (h.channelCnt_le hshort) (Nat.lt_of_succ_lt hlt) c.outFname
    obtain ⟨made, hmade⟩ := exists_makePreview_of_ne
      (by rw [hout]; exact OutputType.noConfusion) c.locals.preview (code, [])
    refine Or.inl ⟨(code, []), made, OutputType.noConfusion, ?_, hmade, ?_⟩
    · dsimp only
      rw [hcode, Fallible.ok_bind]
    · rw [writeOutput, services_writeWav hcode]
      rfl
  | unknown =>
    have hrun := h.final_eq
    rw [Conversion.out, hout] at hrun
    exact (runMain_unknown hrun).elim

/-- A conversion that comes to its writer gets to the last line, or the `.dca` writer aborts. -/
theorem Conversion.Writes.ends (hshort : world.Short) (h : c.Writes final)
    (hlt : final.samplesLen + 1 < 2 ^ 32)
    (hreopen : ∀ bytes, world.reopen bytes = some (.whole bytes)) :
    (c.out = .dca → PassesWriter final) ∧ (∃ outcome, mainProcess world argv = .ok outcome) ∨
      (c.out = .dca ∧ ¬PassesWriter final) ∧
        ∃ fault, mainProcess world argv = .error (.aborted fault) := by
  rw [h.mainProcess_eq]
  obtain ⟨written, made, hpasses, hwrite, hmade, -⟩ | ⟨fault, hno, hwrite, -⟩ :=
    h.writeFile_cases hshort hlt hreopen
  · rw [hwrite, Fallible.ok_bind, hmade]
    exact Or.inl ⟨hpasses, _, rfl⟩
  · rw [hwrite]
    exact Or.inr ⟨hno, fault, rfl⟩

end Conversion

/-! ## The exit behind a load -/

/-- A part of the process and one of `main` have the same result, or the same exit. -/
inductive EndsAlike {α : Type} : Except Halt α → Except Exit α → Prop
  | ok (a : α) : EndsAlike (.ok a) (.ok a)
  | error {halt : Halt} {exit : Exit} : halt.exit = some exit →
      EndsAlike (.error halt) (.error exit)

namespace EndsAlike

variable {α β : Type} {x : Except Halt α} {y : Except Exit α}

theorem bind (h : EndsAlike x y) {f : α → Except Halt β} {g : α → Except Exit β}
    (hrest : ∀ a, x = .ok a → EndsAlike (f a) (g a)) : EndsAlike (x >>= f) (y >>= g) := by
  cases h with
  | ok a => exact hrest a rfl
  | error hexit => exact .error hexit

theorem of_mainError (x : Except MainError α) :
    EndsAlike (x.mapError .error) (x.mapError fun _ ↦ .error) := by
  cases x with
  | error e => exact .error rfl
  | ok a => exact .ok a

end EndsAlike

section Services

variable {world : World} {argv : List CString} {c : Conversion world argv}
  {final : DcAudioConverter}

theorem resampleOrHalt_endsAlike (world : World) (outFname : CString) (dcac : DcAudioConverter) :
    EndsAlike (resampleOrHalt world dcac) (resampleOrExit (world.services outFname) dcac) := by
  rw [resampleOrHalt, resampleOrExit, World.services]
  dsimp only
  split
  · cases world.srcNew with
    | none => exact .error rfl
    | some srcErr =>
      by_cases hzero : srcErr = 0
      · simp only [hzero, ne_eq, not_true_eq_false, if_false]
        exact .ok _
      · simp only [ne_eq, hzero, not_false_eq_true, if_true]
        exact .error rfl
  · exact .ok _

/-- The writer and the preview end as the writer does. -/
theorem Conversion.Writes.writeFile_endsAlike (hshort : world.Short)
    (hreopen : ∀ bytes, world.reopen bytes = some (.whole bytes)) (h : c.Writes final)
    (hlt : final.samplesLen + 1 < 2 ^ 32) :
    EndsAlike (do
      let written ← writeFile world final c.outFname
      let preview ← makePreview world c.locals.preview c.outFname written
      .ok (Outcome.writeError ⟨final, written.1, written.2, preview⟩))
      (writeOutput c.out (world.services c.outFname) final) := by
  obtain ⟨written, made, -, hwrite, hmade, hservice⟩ | ⟨fault, -, hwrite, hservice⟩ :=
    h.writeFile_cases hshort hlt hreopen
  · rw [hwrite, Fallible.ok_bind, hmade, hservice]
    exact .ok _
  · rw [hwrite, hservice]
    exact .error rfl

/-- `main` does not get past a file type it does not know. -/
theorem mainResult_unknown {options : List CliOption} {sound : Sound} {past : ℕ → Int16}
    {services : Services} : mainResult options sound .unknown past services = .error .error := by
  rw [mainResult]
  cases hstate : beforeResampling options sound .unknown past with
  | error e => rfl
  | ok state =>
    obtain ⟨locals, -, hstate⟩ := Fallible.bind_eq_ok.mp hstate
    obtain ⟨cut, -, hstate⟩ := Fallible.bind_eq_ok.mp hstate
    cases hstate

/-- Behind a load the process ends as `main` does on the sound. -/
theorem Conversion.endsAlike (hshort : world.Short)
    (hreopen : ∀ bytes, world.reopen bytes = some (.whole bytes)) (c : Conversion world argv)
    (hlt : ∀ final, c.Writes final → final.samplesLen + 1 < 2 ^ 32) :
    EndsAlike ((mainProcess world argv).map Outcome.writeError)
      (mainResult c.options c.sound c.out world.past (world.services c.outFname)) := by
  by_cases hext : getExtension c.outFname = []
  · rw [c.mainProcess_of_nil hext, Conversion.out, outputType_of_nil hext, mainResult_unknown]
    exact .error rfl
  rw [c.mainProcess_eq hext, c.convertLoaded_eq, mainResult]
  simp only [Fallible.map_bind, bind_assoc]
  refine (EndsAlike.of_mainError _).bind fun state hstate ↦ ?_
  refine (resampleOrHalt_endsAlike world c.outFname state.2).bind fun resampled hresampled ↦ ?_
  have hwrites : c.Writes (finishLoop state.1 resampled) := by
    rw [c.writes_iff, c.convertLoaded_eq, hstate, Fallible.ok_bind]
    dsimp only
    rw [hresampled, Fallible.ok_bind]
  exact hwrites.writeFile_endsAlike hshort hreopen (hlt _ hwrites)

/-- Its exit status is that of `main` on the sound. -/
theorem Conversion.processExit_eq (hshort : world.Short)
    (hreopen : ∀ bytes, world.reopen bytes = some (.whole bytes)) (c : Conversion world argv)
    (hlt : ∀ final, c.Writes final → final.samplesLen + 1 < 2 ^ 32) : processExit world argv
      = some (mainExit c.options c.sound c.out world.past (world.services c.outFname)) := by
  have hends := c.endsAlike hshort hreopen hlt
  rw [processExit, mainExit]
  cases hrun : mainProcess world argv with
  | error halt =>
    rw [hrun] at hends
    generalize mainResult _ _ _ _ _ = result at hends ⊢
    cases hends with
    | error hexit => exact hexit
  | ok outcome =>
    rw [hrun] at hends
    generalize mainResult _ _ _ _ _ = result at hends ⊢
    cases hends
    rfl

end Services

/-! ## The exit status -/

section Process

variable {world : World} {argv : List CString}

theorem exit_eq_zero_iff {halt : Halt} :
    halt.exit = some (.status 0) ↔ halt = .stop .printed := by
  constructor
  · intro h
    cases halt with
    | stop stop =>
      cases stop with
      | printed => rfl
      | _ => cases h
    | _ => cases h
  · rintro rfl
    rfl

theorem processExit_eq_zero_iff : processExit world argv = some (.status 0) ↔
    mainProcess world argv = .error (.stop .printed) ∨
      ∃ outcome, mainProcess world argv = .ok outcome := by
  rw [processExit]
  cases mainProcess world argv with
  | error halt =>
    dsimp only
    rw [exit_eq_zero_iff, Except.error.injEq, or_iff_left]
    rintro ⟨outcome, h⟩
    cases h
  | ok outcome => exact iff_of_true rfl (Or.inr ⟨outcome, rfl⟩)

theorem processExit_eq_none_iff :
    processExit world argv = none ↔ mainProcess world argv = .error .hangs := by
  rw [processExit]
  cases mainProcess world argv with
  | error halt =>
    dsimp only
    rw [Except.error.injEq]
    constructor
    · intro h
      cases halt with
      | hangs => rfl
      | stop stop => cases stop <;> cases h
      | _ => cases h
    · rintro rfl
      rfl
  | ok outcome => exact iff_of_false (fun h ↦ by cases h) fun h ↦ by cases h

/-- **The exit status.** If no length leaves 32 bits and a file that was written can be read again,
every process ends. It ends with status 0 if a switch has printed a text, or if a conversion comes
to its writer and this does not abort, whatever the writer reports; and in no other case. -/
theorem process_exit (hshort : world.Short)
    (hreopen : ∀ bytes, world.reopen bytes = some (.whole bytes))
    (hlt : ∀ (c : Conversion world argv) (final : DcAudioConverter), c.Writes final →
      final.samplesLen + 1 < 2 ^ 32) :
    processExit world argv ≠ none ∧ (processExit world argv = some (.status 0) ↔
      mainOptions argv = some (.error .printed) ∨
        ∃ (c : Conversion world argv) (final : DcAudioConverter), c.Writes final ∧
          (c.out = .dca → PassesWriter final)) := by
  have hends := fun c final h ↦ @Conversion.Writes.ends world argv c final hshort h
    (hlt c final h) hreopen
  have hloop : ∀ halt, halt.OfLoop → mainProcess world argv = .error halt →
      ∃ stop, halt = .stop stop ∧ mainOptions argv = some (.error stop) := by
    intro halt hof hhalt
    obtain ⟨stop, hoptions, hstop⟩ | ⟨locals, haccepts, hrun⟩ := mainProcess_cases world argv
    · rw [hhalt, Except.error.injEq] at hstop
      exact ⟨stop, hstop, hoptions⟩
    · have hlate : ∀ halt', mainRun world locals = .error halt' → halt' = halt := by
        intro halt' hhalt'
        rw [← hrun, hhalt, Except.error.injEq] at hhalt'
        exact hhalt'.symm
      obtain ⟨c, final, hwrites⟩ := exists_writes hshort haccepts hof hlate
      obtain ⟨-, outcome, hok⟩ | ⟨-, fault, hfault⟩ := hends c final hwrites
      · rw [hhalt] at hok
        cases hok
      · rw [hhalt] at hfault
        cases hfault
        exact hof.elim
  constructor
  · rw [Ne, processExit_eq_none_iff]
    intro hhangs
    obtain ⟨stop, hstop, -⟩ := hloop .hangs trivial hhangs
    cases hstop
  · rw [processExit_eq_zero_iff]
    constructor
    · rintro (hprinted | ⟨outcome, hok⟩)
      · obtain ⟨stop, hstop, hoptions⟩ := hloop (.stop .printed) trivial hprinted
        cases hstop
        exact Or.inl hoptions
      · obtain ⟨c, hc⟩ := exists_conversion hshort hok
        obtain ⟨hpasses, -⟩ | ⟨-, fault, hfault⟩ := hends c _ hc.writes
        · exact Or.inr ⟨c, _, hc.writes, hpasses⟩
        · rw [hok] at hfault
          cases hfault
    · rintro (hoptions | ⟨c, final, hwrites, hpasses⟩)
      · left
        rw [mainProcess, hoptions]
      · right
        obtain ⟨-, hok⟩ | ⟨⟨hdca, hno⟩, -⟩ := hends c final hwrites
        · exact hok
        · exact absurd (hpasses hdca) hno

/-- Three quiet frames, from WAV to WAV. -/
theorem process_exit_quiet : processExit quietWorld quietArgs ≠ none ∧
    (processExit quietWorld quietArgs = some (.status 0) ↔
      mainOptions quietArgs = some (.error .printed) ∨
        ∃ (c : Conversion quietWorld quietArgs) (final : DcAudioConverter), c.Writes final ∧
          (c.out = .dca → PassesWriter final)) := by
  refine process_exit quietWorld_short (fun _ ↦ rfl) fun c final hwrites ↦ ?_
  have hrun : mainProcess quietWorld quietArgs = .ok
      ⟨⟨44100, 2, [[1, 3, 5], [2, 4, 6]], 3, .pcm16, 2, 44100, false, false, 0, 3⟩, .ok, [],
        none⟩ := rfl
  rw [hwrites.mainProcess_eq] at hrun
  obtain ⟨written, -, hrun⟩ := Fallible.bind_eq_ok.mp hrun
  obtain ⟨preview, -, hok⟩ := Fallible.bind_eq_ok.mp hrun
  have hfinal := congrArg Outcome.final (Except.ok.inj hok)
  dsimp only at hfinal
  rw [hfinal]
  decide

end Process

end DcaConv
