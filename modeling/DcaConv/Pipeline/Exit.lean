import DcaConv.Pipeline.Run

/-!
# The exit status

`main` leaves through `ErrorExit`, through a failed assertion, or by its last line. Two answers it
gets do not decide which. What `src_process` returns is dropped, so the check of `src_err` behind
the resampling loop looks at what `src_new` left there, which was checked before. And the writer's
error is only logged, where a loader's error exits.
-/

namespace DcaConv

/-! ## What `main` calls -/

/-- How the process ends. A fault ends it by a signal. -/
inductive Exit where
  | status (code : ℕ)
  | aborted (fault : Fault)
  deriving DecidableEq, Repr

/-- `exit(1)`, the end of every `ErrorExit`. -/
def Exit.error : Exit := .status 1

/-- The resampling library and the two writers. -/
structure Services where
  /-- `src_new`: `none` for `NULL`, otherwise what it leaves in `src_err`. -/
  srcNew : Option ℤ
  src : Resampler
  writeDca : DcAudioConverter → Except Fault DcaError
  writeWav : DcAudioConverter → Except Fault DcaError

/-- `src_process` answers a ratio outside its range with an error. -/
def Resampler.RejectsBadRatios (src : Resampler) : Prop :=
  ∀ channel xs newSize ratio, ratio < 1 / 256 ∨ 256 < ratio →
    (src.process channel xs newSize ratio).1 ≠ 0

/-- What `src_process` answered for the channels, in order. -/
def srcResults (src : Resampler) (dcac : DcAudioConverter) : List ℤ :=
  if dcac.desiredSampleRateHz ≠ dcac.sampleRateHz then
    let ratio : ℚ := dcac.desiredSampleRateHz / dcac.sampleRateHz
    let newSize := truncate (dcac.samplesLen * ratio)
    (dcac.samples.take dcac.channelCnt).mapIdx fun c xs ↦ (src.process c xs newSize ratio).1
  else []

/-! ## `main` to its end -/

section Main

variable (options : List CliOption) (sound : Sound) (out : OutputType) (past : ℕ → Int16)
  (services : Services)

/-- `main` up to the resampling. -/
def beforeResampling : Except MainError (Settings × DcAudioConverter) := do
  let (settings, dcac) ← parseOptions options
  let dcac ← trimmed out past settings (dcac.load sound)
  let dcac ← prepareOutput out settings dcac
  let dcac ← convertChannels dcac
  .ok (settings, dcac)

def resampleOrExit (dcac : DcAudioConverter) : Except Exit DcAudioConverter :=
  if dcac.desiredSampleRateHz ≠ dcac.sampleRateHz then
    match services.srcNew with
    | none => .error (.aborted .assertion)
    | some srcErr =>
      if srcErr ≠ 0 then .error .error
      -- behind the loop the same variable is tested again
      else if srcErr ≠ 0 then .error .error
      else .ok (resample services.src dcac)
  else .ok dcac

def writeOutput (dcac : DcAudioConverter) : Except Exit DcaError :=
  match out with
  | .dca => (services.writeDca dcac).mapError .aborted
  | .wav => (services.writeWav dcac).mapError .aborted
  | .unknown => .error .error

/-- `main` up to what it logs about the writer's result. -/
def mainResult : Except Exit DcaError := do
  let (settings, dcac) ← (beforeResampling options sound out past).mapError fun _ ↦ .error
  let dcac ← resampleOrExit services dcac
  writeOutput out services (finishLoop settings dcac)

def mainExit : Exit :=
  match mainResult options sound out past services with
  | .error exit => exit
  | .ok _ => .status 0

/-- The writer is handed the state the other results about `main` speak of. -/
theorem runMain_eq (src : Resampler) : runMain options sound out past src =
    (beforeResampling options sound out past).map fun state ↦
      finishLoop state.1 (resample src state.2) := by
  rw [runMain, beforeResampling]
  cases parseOptions options with
  | error e => rfl
  | ok state =>
    rw [Fallible.ok_bind, Fallible.ok_bind]
    dsimp only
    cases trimmed out past state.1 (state.2.load sound) with
    | error e => rfl
    | ok t =>
      rw [Fallible.ok_bind, Fallible.ok_bind, converted]
      cases prepareOutput out state.1 t with
      | error e => rfl
      | ok prepared =>
        rw [Fallible.ok_bind, Fallible.ok_bind]
        cases convertChannels prepared with
        | error e => rfl
        | ok mixed => rfl

end Main

/-! ## The promise -/

section Promise

variable {options : List CliOption} {sound : Sound} {out : OutputType} {past : ℕ → Int16}
  {services : Services} {settings : Settings} {dcac : DcAudioConverter}

/-- Every channel was resampled and the file was written. -/
structure Completed (out : OutputType) (services : Services) (settings : Settings)
    (dcac : DcAudioConverter) : Prop where
  resampled : ∀ r ∈ srcResults services.src dcac, r = 0
  written : writeOutput out services (finishLoop settings (resample services.src dcac)) = .ok .ok

/-- Status 0 means a complete conversion. -/
def ReportsHonestly (options : List CliOption) (sound : Sound) (out : OutputType)
    (past : ℕ → Int16) (services : Services) : Prop :=
  mainExit options sound out past services = .status 0 →
    ∃ settings dcac, beforeResampling options sound out past = .ok (settings, dcac) ∧
      Completed out services settings dcac

/-- The resampler opens, if there is anything to resample. -/
def ResamplerOpens (services : Services) (dcac : DcAudioConverter) : Prop :=
  dcac.desiredSampleRateHz = dcac.sampleRateHz ∨ services.srcNew = some 0

/-- An error that `main` does not look at: the writer returns, and either it or a `src_process`
before it has failed. -/
def DropsError (out : OutputType) (services : Services) (settings : Settings)
    (dcac : DcAudioConverter) : Prop :=
  ResamplerOpens services dcac ∧ ∃ err,
    writeOutput out services (finishLoop settings (resample services.src dcac)) = .ok err ∧
      (err ≠ .ok ∨ ∃ r ∈ srcResults services.src dcac, r ≠ 0)

theorem resampleOrExit_eq_ok {resampled : DcAudioConverter} :
    resampleOrExit services dcac = .ok resampled ↔
      ResamplerOpens services dcac ∧ resample services.src dcac = resampled := by
  rw [resampleOrExit, ResamplerOpens]
  by_cases hrate : dcac.desiredSampleRateHz = dcac.sampleRateHz
  · rw [if_neg (not_not.mpr hrate), resample, if_neg (not_not.mpr hrate), Except.ok.injEq]
    exact ⟨fun h ↦ ⟨Or.inl hrate, h⟩, fun h ↦ h.2⟩
  · rw [if_pos hrate]
    cases services.srcNew with
    | none =>
      refine iff_of_false (fun h ↦ by cases h) fun h ↦ ?_
      simp [hrate] at h
    | some srcErr =>
      by_cases hzero : srcErr = 0
      · simp [hzero]
      · simp [hzero, hrate]

/-! ### Where status 0 comes from -/

theorem resampleOrExit_ne_zero : resampleOrExit services dcac ≠ .error (.status 0) := by
  rw [resampleOrExit]
  split
  · cases services.srcNew with
    | none => simp
    | some srcErr => by_cases hzero : srcErr = 0 <;> simp [hzero, Exit.error]
  · simp

theorem writeOutput_ne_zero : writeOutput out services dcac ≠ .error (.status 0) := by
  cases out with
  | dca =>
    rw [writeOutput]
    cases services.writeDca dcac <;> simp [Except.mapError]
  | wav =>
    rw [writeOutput]
    cases services.writeWav dcac <;> simp [Except.mapError]
  | unknown => simp [writeOutput, Exit.error]

theorem mainResult_ne_zero :
    mainResult options sound out past services ≠ .error (.status 0) := by
  rw [mainResult]
  cases beforeResampling options sound out past with
  | error e => simp [Except.mapError, bind, Except.bind, Exit.error]
  | ok state =>
    have hok : (Except.ok state : Except MainError _).mapError (fun _ ↦ Exit.error) = .ok state := rfl
    rw [hok, Fallible.ok_bind]
    dsimp only
    cases hres : resampleOrExit services state.2 with
    | error exit =>
      intro h
      cases h
      exact resampleOrExit_ne_zero hres
    | ok resampled =>
      rw [Fallible.ok_bind]
      exact writeOutput_ne_zero

theorem mainResult_eq_ok {err : DcaError} :
    mainResult options sound out past services = .ok err ↔
      ∃ settings dcac, beforeResampling options sound out past = .ok (settings, dcac) ∧
        ResamplerOpens services dcac ∧
        writeOutput out services (finishLoop settings (resample services.src dcac)) = .ok err := by
  rw [mainResult, Fallible.bind_eq_ok]
  cases beforeResampling options sound out past with
  | error e =>
    refine iff_of_false ?_ ?_
    · rintro ⟨state, h, -⟩
      cases h
    · rintro ⟨settings, dcac, h, -⟩
      cases h
  | ok state =>
    obtain ⟨settings, dcac⟩ := state
    constructor
    · rintro ⟨state', h, hrest⟩
      cases h
      obtain ⟨resampled, hres, hwrite⟩ := Fallible.bind_eq_ok.mp hrest
      obtain ⟨hopens, rfl⟩ := resampleOrExit_eq_ok.mp hres
      exact ⟨settings, dcac, rfl, hopens, hwrite⟩
    · rintro ⟨settings', dcac', h, hopens, hwrite⟩
      cases h
      exact ⟨_, rfl, Fallible.bind_eq_ok.mpr ⟨_, resampleOrExit_eq_ok.mpr ⟨hopens, rfl⟩, hwrite⟩⟩

/-- Status 0 is the last line of `main` and nothing else. -/
theorem mainExit_eq_zero_iff : mainExit options sound out past services = .status 0 ↔
    ∃ err, mainResult options sound out past services = .ok err := by
  rw [mainExit]
  cases hres : mainResult options sound out past services with
  | error exit =>
    refine iff_of_false (fun h ↦ ?_) fun ⟨err, h⟩ ↦ by cases h
    dsimp only at h
    rw [h] at hres
    exact mainResult_ne_zero hres
  | ok err => exact iff_of_true rfl ⟨err, rfl⟩

theorem completed_iff (hopens : ResamplerOpens services dcac) {err : DcaError}
    (hwrite : writeOutput out services (finishLoop settings (resample services.src dcac))
      = .ok err) :
    Completed out services settings dcac ↔ ¬DropsError out services settings dcac := by
  constructor
  · rintro ⟨hresampled, hwritten⟩ ⟨-, err', hwrite', herr⟩
    rw [hwritten] at hwrite'
    cases hwrite'
    rcases herr with herr | ⟨r, hr, hne⟩
    · exact herr rfl
    · exact hne (hresampled r hr)
  · intro h
    have hgood : ∀ herr : err ≠ .ok ∨ ∃ r ∈ srcResults services.src dcac, r ≠ 0, False :=
      fun herr ↦ h ⟨hopens, err, hwrite, herr⟩
    refine ⟨fun r hr ↦ ?_, ?_⟩
    · by_contra hne
      exact hgood (Or.inr ⟨r, hr, hne⟩)
    · rw [hwrite]
      by_contra hne
      exact hgood (Or.inl fun heq ↦ hne (by rw [heq]))

/-- **Reported success.** Status 0 stands for a complete conversion exactly when no error is
dropped on the way. -/
theorem reportsHonestly_iff (options : List CliOption) (sound : Sound) (out : OutputType)
    (past : ℕ → Int16) (services : Services) :
    ReportsHonestly options sound out past services ↔
      ∀ settings dcac, beforeResampling options sound out past = .ok (settings, dcac) →
        ¬DropsError out services settings dcac := by
  rw [ReportsHonestly, mainExit_eq_zero_iff]
  constructor
  · rintro h settings dcac hbefore hdrops
    obtain ⟨hopens, err, hwrite, -⟩ := id hdrops
    obtain ⟨settings', dcac', hbefore', hcompleted⟩ :=
      h ⟨err, mainResult_eq_ok.mpr ⟨settings, dcac, hbefore, hopens, hwrite⟩⟩
    rw [hbefore] at hbefore'
    cases hbefore'
    exact (completed_iff hopens hwrite).mp hcompleted hdrops
  · rintro h ⟨err, hres⟩
    obtain ⟨settings, dcac, hbefore, hopens, hwrite⟩ := mainResult_eq_ok.mp hres
    exact ⟨settings, dcac, hbefore, (completed_iff hopens hwrite).mpr (h settings dcac hbefore)⟩

/-- A requested rate outside the resampler's range drops its error, whatever the writer does with
the buffers. -/
theorem dropsError_of_bad_ratio (hlib : services.src.RejectsBadRatios)
    (hopens : services.srcNew = some 0) (hset : dcac.samples ≠ []) (hcnt : 1 ≤ dcac.channelCnt)
    (hratio : (dcac.desiredSampleRateHz : ℚ) / dcac.sampleRateHz < 1 / 256 ∨
      256 < (dcac.desiredSampleRateHz : ℚ) / dcac.sampleRateHz)
    (hpos : 0 < dcac.sampleRateHz) {err : DcaError}
    (hwrite : writeOutput out services (finishLoop settings (resample services.src dcac))
      = .ok err) : DropsError out services settings dcac := by
  have hne : dcac.desiredSampleRateHz ≠ dcac.sampleRateHz := by
    intro heq
    have hsource : (dcac.sampleRateHz : ℚ) ≠ 0 := by exact_mod_cast hpos.ne'
    rw [heq, div_self hsource] at hratio
    norm_num at hratio
  obtain ⟨xs, rest, hsamples⟩ := List.exists_cons_of_ne_nil hset
  obtain ⟨n, hn⟩ := Nat.exists_eq_add_of_le' hcnt
  refine ⟨Or.inr hopens, err, hwrite, Or.inr ?_⟩
  rw [srcResults, if_pos hne, hsamples, hn, List.take_succ_cons]
  dsimp only
  rw [List.mapIdx_cons]
  exact ⟨_, List.mem_cons_self, hlib _ _ _ _ hratio⟩

end Promise

/-- A resampler that answers a bad ratio with `SRC_ERR_BAD_SRC_RATIO` and leaves its output
zeroed. -/
def Resampler.strict : Resampler where
  process _ _ newSize ratio :=
    (if ratio < 1 / 256 ∨ 256 < ratio then 6 else 0, List.replicate newSize 0)
  length_process _ _ _ _ := by simp

theorem Resampler.strict_rejects : Resampler.strict.RejectsBadRatios := by
  intro channel xs newSize ratio hratio
  rw [Resampler.strict]
  dsimp only
  rw [if_pos hratio]
  decide

/-- That resampler, with writers of one answer. -/
def Services.strict (err : DcaError) : Services :=
  ⟨some 0, .strict, fun _ ↦ .ok err, fun _ ↦ .ok err⟩

/-- `--rate 100` on a thousand frames at 44100 Hz, and a plain conversion whose output file cannot
be opened: both end in status 0. -/
theorem failed_conversions_exit_zero :
    ¬ReportsHonestly [.rate (some 100)] (.silence 44100 1000 (by decide) (by decide)) .wav
        (fun _ ↦ 0) (.strict .ok) ∧
      ¬ReportsHonestly [] (.silence 44100 1000 (by decide) (by decide)) .wav (fun _ ↦ 0)
        (.strict .writeOpenError) := by
  constructor
  · intro h
    obtain ⟨settings, dcac, hbefore, hcompleted⟩ := h rfl
    have hstate : beforeResampling [.rate (some 100)]
        (.silence 44100 1000 (by decide) (by decide)) .wav (fun _ ↦ 0) = .ok (.initial,
          ⟨44100, 1, [List.replicate 1000 0], 1000, .pcm16, 1, 100, false, false, 0, 1000⟩) := rfl
    rw [hstate] at hbefore
    cases hbefore
    have hratio : ((100 : ℕ) : ℚ) / (44100 : ℕ) < 1 / 256 := by norm_num
    exact (completed_iff (Or.inr rfl) rfl).mp hcompleted (dropsError_of_bad_ratio
      Resampler.strict_rejects rfl (List.cons_ne_nil _ _) (le_refl 1) (Or.inl hratio)
      (by decide) rfl)
  · intro h
    obtain ⟨settings, dcac, hbefore, hcompleted⟩ := h rfl
    cases hbefore
    cases hcompleted.written

end DcaConv
