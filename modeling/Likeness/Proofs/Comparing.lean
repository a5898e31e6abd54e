import Likeness.Comparison
import Likeness.Proofs.DoubleOrder

/-!
# When a comparison fails

A comparison of two sources fails exactly if a weight cannot be used, and then the failure names the first such weight.

* (weights) `FirstFault` says which weight is the first that is unusable; `fault?_eq_some_iff` finds it.
* (parts) neither the widths of grams nor the dimensions of tallies can be at fault (`exists_multiScaleBy_eq`,
  `exists_tallyCosine_eq`).
* (comparisons) `compareAnalysesBy_eq_ok_iff` says what a comparison finds, `compareAnalysesBy_eq_error_iff` when it fails.
-/

namespace Likeness

/-! ### Results -/

section

variable {α β ε : Type}

theorem bind_eq_ok_iff {x : Except ε α} {f : α → Except ε β} {b : β} :
    (x >>= f) = .ok b ↔ ∃ a, x = .ok a ∧ f a = .ok b := by
  cases x with
  | error e => simp [bind, Except.bind]
  | ok a => simp [bind, Except.bind]

theorem mapM_eq_ok {f : α → Except ε β} {g : α → β} {xs : List α} (h : ∀ x ∈ xs, f x = .ok (g x)) :
    xs.mapM f = .ok (xs.map g) := by
  induction xs with
  | nil => rfl
  | cons x xs ih =>
    have hx := h x List.mem_cons_self
    have hxs := ih fun y hy => h y (List.mem_cons_of_mem _ hy)
    rw [List.mapM_cons, hx, hxs]
    rfl

end

/-! ### Weights -/

/-- A double that cannot be a weight. -/
def Unusable (x : Float) : Prop :=
  x.isNaN = true ∨ x.isInf = true ∨ x < 0.0

theorem isUsable_eq_false_iff {x : Float} : Weights.isUsable x = false ↔ Unusable x := by
  unfold Weights.isUsable Unusable
  rw [Bool.and_eq_false_iff, isFinite_eq_false_iff, or_assoc, Bool.not_eq_false', decide_eq_true_iff]

/-- A weight that can be used is finite and not negative. -/
theorem exists_valueOf?_of_not_unusable {x : Float} (h : ¬ Unusable x) : ∃ a, valueOf? x = some a ∧ 0 ≤ a := by
  unfold Unusable at h
  push Not at h
  obtain ⟨hnan, hinf, hlt⟩ := h
  have hfinite : x.isFinite = true := by
    by_contra hne
    rw [Bool.not_eq_true, isFinite_eq_false_iff] at hne
    exact hne.elim hnan hinf
  obtain ⟨a, ha⟩ := isFinite_iff.1 hfinite
  have hnonneg := float_le_of_not_lt (Bool.not_eq_true _ ▸ hnan) rfl hlt
  exact ⟨a, ha, (zero_le_of_valueOf? ha).1 hnonneg⟩

namespace Weights

/-- The weight of an aspect is the first one that cannot be used. -/
structure FirstFault (w : Weights) (a : Aspect) : Prop where
  unusable : Unusable (w.get a)
  first : ∀ b, Aspect.all.idxOf b < Aspect.all.idxOf a → ¬ Unusable (w.get b)

theorem fault?_eq_some_iff {w : Weights} {fault : WeightFault} :
    w.fault? = some fault ↔ ∃ a, w.FirstFault a ∧ fault = .unusable a (w.get a) := by
  have hnodup : Aspect.all.Nodup := by decide
  simp only [fault?, Option.map_eq_some_iff, List.find?_eq_some_iff_getElem, Bool.not_eq_true', Bool.not_not]
  constructor
  · rintro ⟨a, ⟨hbad, i, hi, hget, hbefore⟩, rfl⟩
    refine ⟨a, ⟨isUsable_eq_false_iff.1 hbad, fun b hlt hb => ?_⟩, rfl⟩
    rw [← hget, hnodup.idxOf_getElem] at hlt
    have husable := hbefore _ hlt
    rw [List.getElem_idxOf, isUsable_eq_false_iff.2 hb] at husable
    cases husable
  · rintro ⟨a, ⟨hbad, hfirst⟩, rfl⟩
    have hlt := List.idxOf_lt_length_of_mem a.mem_all
    refine ⟨a, ⟨isUsable_eq_false_iff.2 hbad, Aspect.all.idxOf a, hlt, List.getElem_idxOf hlt, fun j hj => ?_⟩, rfl⟩
    by_contra hne
    refine hfirst Aspect.all[j] ?_ (isUsable_eq_false_iff.1 (Bool.eq_false_iff.2 hne))
    rwa [hnodup.idxOf_getElem]

theorem fault?_eq_none_iff {w : Weights} : w.fault? = none ↔ ∀ a, ¬ Unusable (w.get a) := by
  simp only [fault?, Option.map_eq_none_iff, List.find?_eq_none, Bool.not_eq_true', isUsable_eq_false_iff]
  exact ⟨fun h a => h a a.mem_all, fun h a _ => h a⟩

theorem not_unusable_default (a : Aspect) : ¬ Unusable (default.get a) := by
  rw [← isUsable_eq_false_iff]
  cases a <;> decide

theorem check_eq_ok_iff {w : Weights} : w.check = .ok () ↔ w.fault? = none := by
  unfold check
  cases w.fault? <;> simp

/-- Weights pass the check if all of them can be used. -/
theorem check_eq_ok_iff_forall {w : Weights} : w.check = .ok () ↔ ∀ a, ¬ Unusable (w.get a) :=
  check_eq_ok_iff.trans fault?_eq_none_iff

/-- The failure that names the first unusable weight is the one for the fault that is found. -/
theorem exists_firstFault_iff {w : Weights} {fault : WeightFault} (h : w.fault? = some fault) {failure : Failure} :
    (∃ a, w.FirstFault a ∧ failure = .weights (.unusable a (w.get a))) ↔ failure = .weights fault := by
  constructor
  · rintro ⟨a, ha, rfl⟩
    rw [Option.some.inj (h.symm.trans (fault?_eq_some_iff.2 ⟨a, ha, rfl⟩))]
  · rintro rfl
    obtain ⟨a, ha, rfl⟩ := fault?_eq_some_iff.1 h
    exact ⟨a, ha, rfl⟩

theorem not_exists_firstFault {w : Weights} (h : w.fault? = none) {p : Aspect → Prop} : ¬ ∃ a, w.FirstFault a ∧ p a := by
  rintro ⟨a, ha, _⟩
  exact fault?_eq_none_iff.1 h a ha.unusable

end Weights

/-! ### Parts -/

theorem exists_tallyCosine_eq {u v : Tally} (h : u.dimension = v.dimension) : ∃ x, tallyCosine u v = .ok x := by
  unfold tallyCosine Tally.cosine?
  rw [if_pos h]
  exact ⟨_, rfl⟩

theorem exists_tallyDistance_eq {u v : Tally} (h : u.dimension = v.dimension) : ∃ x, tallyDistance u v = .ok x := by
  unfold tallyDistance Tally.distance?
  rw [if_pos h]
  exact ⟨_, rfl⟩

/-- The cosine of two sequences at a width. -/
def ScaleOrders.cosine (orders : ScaleOrders) (a b : List Token) (width : Nat) : Float :=
  ((orders.left width).visit (gramCounts width a)).cosine ((orders.right width).visit (gramCounts width b))

theorem scaleScoreBy_eq (orders : ScaleOrders) (a b : List Token) {scale : Scale} (h : scale.width ≠ 0) :
    scaleScoreBy orders a b scale = .ok ⟨scale.width, orders.cosine a b scale.width⟩ := by
  simp only [scaleScoreBy, gramsOf, if_neg h]
  rfl

theorem scaleScoreBy_of_eq_zero (orders : ScaleOrders) (a b : List Token) {scale : Scale} (h : scale.width = 0) :
    scaleScoreBy orders a b scale = .error (.gramWidth scale.width) := by
  simp only [scaleScoreBy, gramsOf, if_pos h]
  rfl

theorem multiScaleBy_eq (orders : ScaleOrders) (a b : List Token) {scales : List Scale}
    (h : ∀ scale ∈ scales, scale.width ≠ 0) :
    multiScaleBy orders a b scales =
      let scores := scales.map fun scale => ScaleScore.mk scale.width (orders.cosine a b scale.width)
      .ok ⟨clampUnit ((scales.zip scores).foldl (fun s pair => s + pair.1.weight * pair.2.score) 0.0), scores⟩ := by
  unfold multiScaleBy
  rw [mapM_eq_ok fun scale hscale => scaleScoreBy_eq orders a b (h scale hscale)]
  rfl

theorem exists_multiScaleBy_eq (orders : ScaleOrders) (a b : List Token) (scales : List Scale)
    (h : ∀ scale ∈ scales, scale.width ≠ 0) : ∃ m, multiScaleBy orders a b scales = .ok m :=
  ⟨_, multiScaleBy_eq orders a b h⟩

/-! ### Comparisons -/

/-- What a comparison finds, part by part. -/
structure Comparison.IsOf (c : Comparison) (orders : GramOrders) (weights : Weights) (u v : Analysis) : Prop where
  check : weights.check = .ok ()
  keyword : tallyCosine u.keywords v.keywords = .ok c.scores.keyword
  operator : tallyCosine u.operators v.operators = .ok c.scores.operator
  identifier : multiScaleBy orders.identifiers u.identifiers v.identifiers Likeness.identifierScales =
    .ok ⟨c.scores.identifier, c.identifierScales⟩
  sequence : multiScaleBy orders.normalized u.normalized v.normalized Likeness.sequenceScales =
    .ok ⟨c.scores.sequence, c.sequenceScales⟩
  length : c.scores.length = lengthRatio u.tokenCount v.tokenCount
  tokensA : c.tokensA = u.tokenCount
  tokensB : c.tokensB = v.tokenCount
  keywordDistance : tallyDistance u.keywords v.keywords = .ok c.keywordDistance
  operatorDistance : tallyDistance u.operators v.operators = .ok c.operatorDistance
  total : c.total = clampUnit (weights.fuse c.scores)

/-- Analyses whose tallies have the same slots. -/
structure Analysis.SameSlots (u v : Analysis) : Prop where
  keywords : u.keywords.dimension = v.keywords.dimension
  operators : u.operators.dimension = v.operators.dimension

theorem Analysis.sameSlots_ofSource (a b : List Char) : SameSlots (.ofSource a) (.ofSource b) where
  keywords := by simp [ofSource, ofTokens, keywordTally]
  operators := by simp [ofSource, ofTokens, operatorTally]

section

variable {orders : GramOrders} {weights : Weights} {u v : Analysis} {c : Comparison}

theorem compareAnalysesBy_eq_ok_iff : compareAnalysesBy orders weights u v = .ok c ↔ c.IsOf orders weights u v := by
  simp only [compareAnalysesBy, bind_eq_ok_iff]
  constructor
  · rintro ⟨_, hcheck, keyword, hkeyword, operator, hoperator, identifier, hidentifier, sequence, hsequence,
      kd, hkd, od, hod, hc⟩
    cases hc
    exact ⟨hcheck, hkeyword, hoperator, hidentifier, hsequence, rfl, rfl, rfl, hkd, hod, rfl⟩
  · rintro ⟨hcheck, hkeyword, hoperator, hidentifier, hsequence, hlength, htokensA, htokensB, hkd, hod, htotal⟩
    obtain ⟨⟨keyword, identifier, operator, sequence, length⟩, _, _, _, _, _, _, _⟩ := c
    dsimp only at hlength htokensA htokensB htotal
    subst hlength htokensA htokensB htotal
    exact ⟨_, hcheck, _, hkeyword, _, hoperator, _, hidentifier, _, hsequence, _, hkd, _, hod, rfl⟩

theorem Comparison.IsOf.not_unusable (h : c.IsOf orders weights u v) (aspect : Aspect) :
    ¬ Unusable (weights.get aspect) :=
  Weights.check_eq_ok_iff_forall.1 h.check aspect

/-- Nothing but the weights can make a comparison fail. -/
theorem exists_compareAnalysesBy_eq (orders : GramOrders) (hslots : u.SameSlots v) (h : weights.fault? = none) :
    ∃ c, compareAnalysesBy orders weights u v = .ok c := by
  obtain ⟨keyword, hkeyword⟩ := exists_tallyCosine_eq hslots.keywords
  obtain ⟨operator, hoperator⟩ := exists_tallyCosine_eq hslots.operators
  obtain ⟨kd, hkd⟩ := exists_tallyDistance_eq hslots.keywords
  obtain ⟨od, hod⟩ := exists_tallyDistance_eq hslots.operators
  obtain ⟨identifier, hidentifier⟩ :=
    exists_multiScaleBy_eq orders.identifiers u.identifiers v.identifiers identifierScales (by decide)
  obtain ⟨sequence, hsequence⟩ :=
    exists_multiScaleBy_eq orders.normalized u.normalized v.normalized sequenceScales (by decide)
  let scores : Scores :=
    ⟨keyword, identifier.combined, operator, sequence.combined, lengthRatio u.tokenCount v.tokenCount⟩
  let c : Comparison := ⟨scores, sequence.scales, identifier.scales, u.tokenCount, v.tokenCount, kd, od,
    clampUnit (weights.fuse scores)⟩
  have hc : c.IsOf orders weights u v :=
    ⟨Weights.check_eq_ok_iff.2 h, hkeyword, hoperator, hidentifier, hsequence, rfl, rfl, rfl, hkd, hod, rfl⟩
  exact ⟨c, compareAnalysesBy_eq_ok_iff.2 hc⟩

theorem compareAnalysesBy_of_fault (orders : GramOrders) {fault : WeightFault} (h : weights.fault? = some fault)
    (u v : Analysis) : compareAnalysesBy orders weights u v = .error (.weights fault) := by
  simp only [compareAnalysesBy, Weights.check, h]
  rfl

/-- A comparison fails for its weights only, and names the first one that cannot be used. -/
theorem compareAnalysesBy_eq_error_iff (hslots : u.SameSlots v) {failure : Failure} :
    compareAnalysesBy orders weights u v = .error failure ↔
      ∃ a, weights.FirstFault a ∧ failure = .weights (.unusable a (weights.get a)) := by
  cases hfault : weights.fault? with
  | none =>
    obtain ⟨c, hc⟩ := exists_compareAnalysesBy_eq orders hslots hfault
    rw [hc]
    exact iff_of_false (by rintro ⟨⟩) (Weights.not_exists_firstFault hfault)
  | some fault =>
    rw [compareAnalysesBy_of_fault orders hfault, Except.error.injEq, Weights.exists_firstFault_iff hfault, eq_comm]

end

end Likeness
