import Likeness.Proofs.Range
import Likeness.Settings.File

/-!
# Settings that pass their check

* `Settings.check_eq_ok_iff` says when the check passes: usable weights, some extension, a threshold between 0 and 1.
* (invariant) The defaults pass (`Settings.check_default`), and whatever is read or loaded has passed
  (`Settings.check_of_ofText`, `Settings.check_of_load`), where the file that settings come from plays no part.
-/

namespace Likeness

theorem isThreshold_iff {x : Float} : Settings.isThreshold x = true ↔ InUnit x := by
  unfold Settings.isThreshold InUnit
  rw [Bool.and_eq_true, decide_eq_true_iff, decide_eq_true_iff]

namespace Settings

theorem check_eq_ok_iff {s : Settings} :
    s.check = .ok () ↔ (∀ aspect, ¬ Unusable (s.weights.get aspect)) ∧ s.extensions ≠ [] ∧ InUnit s.threshold := by
  rw [← Weights.fault?_eq_none_iff, ← Weights.check_eq_ok_iff, ← isThreshold_iff]
  unfold check
  cases hweights : s.weights.check with
  | error failure => simp
  | ok _ =>
    by_cases hextensions : s.extensions = []
    · simp [hextensions]
    · by_cases hthreshold : isThreshold s.threshold = true
      · simp [hextensions, hthreshold]
      · simp [hextensions, hthreshold]

/-- If weights and extensions are in order, the threshold decides. -/
theorem check_eq {s : Settings} (hweights : s.weights.check = .ok ()) (hextensions : s.extensions ≠ []) :
    s.check = if isThreshold s.threshold then .ok () else .error (.thresholdRange s.place) := by
  unfold check
  rw [hweights, if_neg hextensions]

theorem check_default : default.check = .ok () :=
  check_eq_ok_iff.2 ⟨Weights.not_unusable_default, by decide, inUnit_zero⟩

theorem check_of_ofText {text : List Char} {origin : Path} {s : Settings} (h : ofText text origin = .ok s) :
    s.check = .ok () := by
  unfold ofText at h
  split at h
  · cases h
  · split at h
    · next hcheck =>
      cases h
      exact hcheck
    · cases h

private theorem check_of_ofFile {disk : Disk} {path : Path} {s : Settings} (h : ofFile disk path = .ok s) :
    s.check = .ok () := by
  unfold ofFile at h
  split at h
  · cases h
  · next text _ =>
    cases hread : ofText text path with
    | error failure =>
      rw [hread] at h
      cases h
    | ok found =>
      rw [hread] at h
      cases h
      have hfound := check_eq_ok_iff.1 (check_of_ofText hread)
      exact check_eq_ok_iff.2 hfound

/-- Settings that have been loaded, from wherever, pass their check. -/
theorem check_of_load {disk : Disk} {path? : Option Path} {s : Settings} (h : load disk path? = .ok s) :
    s.check = .ok () := by
  cases path? with
  | some path => exact check_of_ofFile h
  | none =>
    by_cases hfile : disk.isFile fileName = true
    · rw [load, if_pos hfile] at h
      exact check_of_ofFile h
    · rw [load, if_neg hfile] at h
      cases h
      exact check_default

end Settings

end Likeness
