import Likeness.Command.Run
import Likeness.Proofs.CheckedSettings

/-!
# Outcomes of commands

A command that does not succeed prints nothing, and only a ranking can be refused.

* (printing) each way to end a command prints on success or not at all (`Outcome.IsAllOrNothing`), and so do the commands.
* (refusals) `IsRefused` says which rankings are refused; no other command is (`ending_runTask`).
* (check) Settings pass their check when they are loaded, so that of the check after the options of the command line only
  the threshold can be at fault (`check_overridden`), and then the folder is not looked at (`runMatrix_of_threshold`).
-/

namespace Likeness.Command

/-! ### Printing -/

/-- An outcome that prints nothing unless it is a success. -/
def Outcome.IsAllOrNothing (o : Outcome) : Prop :=
  o.ending ≠ .ok .success → ∀ time, o.stdout time = ""

@[simp] theorem isAllOrNothing_success (text : String) : (Outcome.success text).IsAllOrNothing :=
  fun h => absurd rfl h

@[simp] theorem isAllOrNothing_timedSuccess (text : Nat → String) : (Outcome.timedSuccess text).IsAllOrNothing :=
  fun h => absurd rfl h

@[simp] theorem isAllOrNothing_refusal (text : String) : (Outcome.refusal text).IsAllOrNothing :=
  fun _ _ => rfl

@[simp] theorem isAllOrNothing_failure (f : Failure) : (Outcome.failure f).IsAllOrNothing :=
  fun _ _ => rfl

@[simp] theorem isAllOrNothing_failureIn (context : String) (f : Failure) :
    (Outcome.failureIn context f).IsAllOrNothing :=
  fun _ _ => rfl

section

variable (disk : Disk) (coloured : Bool) (settings : Settings)

private theorem isAllOrNothing_runCompare (a b : Path) (json : Bool) :
    (runCompare disk coloured settings a b json).IsAllOrNothing := by
  unfold runCompare
  split
  · simp
  · split <;> simp

private theorem isAllOrNothing_runFeatures (a b : Path) : (runFeatures disk settings a b).IsAllOrNothing := by
  unfold runFeatures
  split
  · simp
  · split <;> simp

private theorem isAllOrNothing_runMatrix (folder : Path) (json : Bool) :
    (runMatrix disk coloured settings folder json).IsAllOrNothing := by
  unfold runMatrix
  split
  · simp
  · split
    · simp
    · split
      · simp
      · split <;> simp

theorem isAllOrNothing_runTask (task : Task) : (runTask disk coloured settings task).IsAllOrNothing := by
  cases task with
  | compare a b json => exact isAllOrNothing_runCompare disk coloured settings a b json
  | features a b => exact isAllOrNothing_runFeatures disk settings a b
  | matrix folder extensions threshold json => exact isAllOrNothing_runMatrix disk coloured _ folder json
  | config => exact isAllOrNothing_success _

end

/-! ### Refusals -/

section

variable {disk : Disk} {coloured : Bool} {settings : Settings} {folder : Path} {extensions : List Name}
  {threshold : Option Float} {json : Bool}

private theorem ending_runCompare {a b : Path} :
    (runCompare disk coloured settings a b json).ending ≠ .ok .invalidInput := by
  unfold runCompare
  split
  · simp [Outcome.failure]
  · split <;> simp [Outcome.failureIn, Outcome.success]

private theorem ending_runFeatures {a b : Path} : (runFeatures disk settings a b).ending ≠ .ok .invalidInput := by
  unfold runFeatures
  split
  · simp [Outcome.failure]
  · split <;> simp [Outcome.failureIn, Outcome.success]

private theorem ending_runMatrix_of_check (h : settings.check = .ok ()) :
    (runMatrix disk coloured settings folder json).ending = .ok .invalidInput ↔
      ∃ files, discover disk settings folder = .ok files ∧ files.length < 2 := by
  unfold runMatrix
  rw [h]
  dsimp only
  cases discover disk settings folder with
  | error failure => simp [Outcome.failureIn]
  | ok files =>
    dsimp only
    by_cases hfew : files.length < 2
    · rw [if_pos hfew]
      exact iff_of_true rfl ⟨files, rfl, hfew⟩
    · rw [if_neg hfew]
      refine iff_of_false ?_ ?_
      · split <;> simp [Outcome.failure, Outcome.timedSuccess]
      · rintro ⟨_, ⟨⟩, hlt⟩
        exact hfew hlt

/-! ### The check after the options -/

/-- The check of settings that have been loaded, after the options of the command line, is one of the threshold. -/
private theorem check_overridden_eq (h : settings.check = .ok ()) :
    (overridden settings extensions threshold).check =
      if Settings.isThreshold (threshold.getD settings.threshold) then .ok () else .error (.thresholdRange settings.place) := by
  obtain ⟨hweights, hextensions, _⟩ := Settings.check_eq_ok_iff.1 h
  have hcheck : settings.weights.check = .ok () := Weights.check_eq_ok_iff.2 (Weights.fault?_eq_none_iff.2 hweights)
  have hsome : (overridden settings extensions threshold).extensions ≠ [] := by
    cases extensions with
    | nil => exact hextensions
    | cons extension extensions => simp [overridden]
  exact Settings.check_eq hcheck hsome

/-- Settings that have been loaded fail the check only for a threshold of the command line. -/
theorem check_overridden {failure : Failure} (h : settings.check = .ok ())
    (hfail : (overridden settings extensions threshold).check = .error failure) :
    failure = .thresholdRange settings.place ∧ ∃ t, threshold = some t ∧ ¬ InUnit t := by
  have hown := isThreshold_iff.2 (Settings.check_eq_ok_iff.1 h).2.2
  rw [check_overridden_eq h] at hfail
  cases threshold with
  | none =>
    rw [Option.getD_none, if_pos hown] at hfail
    cases hfail
  | some t =>
    by_cases ht : Settings.isThreshold t = true
    · rw [Option.getD_some, if_pos ht] at hfail
      cases hfail
    · rw [Option.getD_some, if_neg ht] at hfail
      cases hfail
      exact ⟨rfl, t, rfl, fun hunit => ht (isThreshold_iff.2 hunit)⟩

/-- With a threshold out of range a ranking is refused whatever the folder is. -/
private theorem runMatrix_of_threshold {t : Float} (h : settings.check = .ok ()) (ht : ¬ InUnit t) :
    runMatrix disk coloured (overridden settings extensions (some t)) folder json =
      .refusal (errorWord coloured ++ " " ++ (Failure.thresholdRange settings.place).message ++ "\n") := by
  have hbad : Settings.isThreshold t ≠ true := fun hthreshold => ht (isThreshold_iff.1 hthreshold)
  unfold runMatrix
  rw [check_overridden_eq h, Option.getD_some, if_neg hbad]

end

/-- A ranking that is refused: the threshold of the command line is not between 0 and 1, or the folder can be scanned and
holds less than two source files. -/
def IsRefused (disk : Disk) (settings : Settings) (folder : Path) (extensions : List Name) (threshold : Option Float) :
    Prop :=
  (∃ t, threshold = some t ∧ ¬ InUnit t) ∨
    ∃ files, discover disk (overridden settings extensions threshold) folder = .ok files ∧ files.length < 2

section

variable {disk : Disk} {coloured : Bool} {settings : Settings}

private theorem ending_runMatrix_iff {folder : Path} {extensions : List Name} {threshold : Option Float} {json : Bool}
    (h : settings.check = .ok ()) :
    (runMatrix disk coloured (overridden settings extensions threshold) folder json).ending = .ok .invalidInput ↔
      IsRefused disk settings folder extensions threshold := by
  by_cases hbad : ∃ t, threshold = some t ∧ ¬ InUnit t
  · obtain ⟨t, rfl, ht⟩ := hbad
    rw [runMatrix_of_threshold h ht]
    exact iff_of_true rfl (.inl ⟨t, rfl, ht⟩)
  · have hcheck : (overridden settings extensions threshold).check = .ok () := by
      cases hresult : (overridden settings extensions threshold).check with
      | error failure => exact absurd (check_overridden h hresult).2 hbad
      | ok _ => rfl
    rw [ending_runMatrix_of_check hcheck, IsRefused, or_iff_right hbad]

/-- Of the commands only a ranking can be refused. -/
theorem ending_runTask {task : Task} (h : settings.check = .ok ()) :
    (runTask disk coloured settings task).ending = .ok .invalidInput ↔
      ∃ folder extensions threshold json, task = .matrix folder extensions threshold json ∧
        IsRefused disk settings folder extensions threshold := by
  cases task with
  | compare a b json => exact iff_of_false ending_runCompare (by rintro ⟨_, _, _, _, ⟨⟩, _⟩)
  | features a b => exact iff_of_false ending_runFeatures (by rintro ⟨_, _, _, _, ⟨⟩, _⟩)
  | matrix folder extensions threshold json =>
    refine (ending_runMatrix_iff h).trans ⟨fun hrefused => ⟨_, _, _, _, rfl, hrefused⟩, ?_⟩
    rintro ⟨_, _, _, _, ⟨⟩, hrefused⟩
    exact hrefused
  | config => exact iff_of_false (by simp [runTask, runConfig, Outcome.success]) (by rintro ⟨_, _, _, _, ⟨⟩, _⟩)

end

/-- What a command line asks for is done as a whole or not at all.  Nothing is printed but on success, and the input is
called invalid exactly for a ranking whose settings load and which is refused.  The check that comes before the search
fails for a threshold of the command line only, and then the folder plays no part. -/
theorem run_isAllOrNothing (disk : Disk) (coloured verbose : Bool) (file : Option Path) (task : Task) :
    let invocation : Invocation := ⟨verbose, file, some task⟩
    (run disk coloured invocation).IsAllOrNothing ∧
      ((run disk coloured invocation).ending = .ok .invalidInput ↔
        ∃ settings folder extensions threshold json, Settings.load disk file = .ok settings ∧
          task = .matrix folder extensions threshold json ∧ IsRefused disk settings folder extensions threshold) ∧
      ∀ settings folder extensions threshold json, Settings.load disk file = .ok settings →
        task = .matrix folder extensions threshold json →
        (∀ failure, (overridden settings extensions threshold).check = .error failure →
            failure = .thresholdRange settings.place ∧ ∃ t, threshold = some t ∧ ¬ InUnit t) ∧
          ∀ t, threshold = some t → ¬ InUnit t → ∀ entries, run { disk with entries } coloured invocation =
            .refusal (errorWord coloured ++ " " ++ (Failure.thresholdRange settings.place).message ++ "\n") := by
  intro invocation
  have hload_entries : ∀ entries, Settings.load { disk with entries } file = Settings.load disk file := fun _ => rfl
  refine ⟨?_, ?_, ?_⟩
  · cases hload : Settings.load disk file with
    | error failure => simp [run, invocation, hload]
    | ok settings =>
      simp only [run, invocation, hload]
      exact isAllOrNothing_runTask disk coloured settings task
  · cases hload : Settings.load disk file with
    | error failure => simp [run, invocation, hload, Outcome.failure]
    | ok settings =>
      simp only [run, invocation, hload]
      rw [ending_runTask (Settings.check_of_load hload)]
      constructor
      · rintro ⟨folder, extensions, threshold, json, htask, hrefused⟩
        exact ⟨settings, folder, extensions, threshold, json, rfl, htask, hrefused⟩
      · rintro ⟨_, folder, extensions, threshold, json, ⟨⟩, htask, hrefused⟩
        exact ⟨folder, extensions, threshold, json, htask, hrefused⟩
  · rintro settings folder extensions threshold json hload rfl
    have hcheck := Settings.check_of_load hload
    refine ⟨fun failure => check_overridden hcheck, ?_⟩
    rintro t rfl ht entries
    simp only [run, invocation, hload_entries, hload]
    exact runMatrix_of_threshold hcheck ht

/-- Where there are no files at all, a threshold out of range is refused before the folder is found to be missing. -/
theorem refusal_on_empty_disk :
    let disk : Disk := ⟨fun _ => .error .noSuchFile, fun _ => false, fun _ => .error .noSuchFile⟩
    let ranking (threshold : Float) : Task := .matrix (.ofString "src") [] (some threshold) false
    (run disk false ⟨false, none, some (ranking 1.5)⟩).ending = .ok .invalidInput ∧
      ¬ (run disk false ⟨false, none, some (ranking 0.5)⟩).ending = .ok .invalidInput ∧
      (run disk false ⟨false, none, some (ranking 0.5)⟩).stdout 0 = "" := by
  intro disk ranking
  have hload : Settings.load disk none = .ok Settings.default := rfl
  have hrefused := (run_isAllOrNothing disk false false none (ranking 1.5)).2.1
  obtain ⟨hsilent, hgood, _⟩ := run_isAllOrNothing disk false false none (ranking 0.5)
  have hending : ¬ (run disk false ⟨false, none, some (ranking 0.5)⟩).ending = .ok .invalidInput := by
    rw [hgood]
    rintro ⟨_, _, _, _, _, _, ⟨⟩, ⟨t, ⟨⟩, ht⟩ | ⟨_, ⟨⟩, _⟩⟩
    exact ht (by unfold InUnit; decide)
  refine ⟨hrefused.2 ⟨_, _, _, _, _, hload, rfl, .inl ⟨_, rfl, by unfold InUnit; decide⟩⟩, hending, ?_⟩
  refine hsilent (fun hsuccess => ?_) 0
  have hfailure : (run disk false ⟨false, none, some (ranking 0.5)⟩).ending =
      .error ⟨some "Failed to scan src", .io .noSuchFile (.ofString "src")⟩ := by decide +kernel
  rw [hfailure] at hsuccess
  cases hsuccess

end Likeness.Command
