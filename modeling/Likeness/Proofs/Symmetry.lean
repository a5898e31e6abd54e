import Likeness.Proofs.Orders

/-!
# Symmetry

Exchanging the sides of a comparison exchanges the two numbers of tokens and changes nothing else, to the last bit.

* (tallies) the sums over slots keep their order when the sides are exchanged, and each of their terms is the same
  (`Tally.cosine?_comm`, `Tally.distance?_comm`).
* (grams) here the sums are over other entries in another order, and are the same because they are exact
  (`scaleScoreBy_comm`, `multiScaleBy_comm`).
* `compareAnalyses_exchange` puts the aspects together.
-/

namespace Likeness

/-! ### Tallies -/

namespace Tally

private theorem slots_swap (u v : Tally) : v.slots u = (u.slots v).map Prod.swap := by
  rw [slots, slots, ← List.zip_swap, List.map_map, List.map_map]
  rfl

private theorem distance?_eq {u v : Tally} (h : u.dimension = v.dimension) :
    u.distance? v = some (sum ((u.slots v).map fun pair => (pair.1 - pair.2) * (pair.1 - pair.2))).sqrt :=
  if_pos h

theorem cosine?_comm (u v : Tally) : v.cosine? u = u.cosine? v := by
  by_cases h : u.dimension = v.dimension
  · have hproduct : ∀ pair : Float × Float, pair.2 * pair.1 = pair.1 * pair.2 := fun pair => float_mul_comm _ _
    rw [cosine?_eq_sums h, cosine?_eq_sums h.symm, CosineSums.cosine, CosineSums.cosine, cosineOfSums_comm]
    simp only [sums, slots_swap u v, List.foldl_map, Prod.fst_swap, Prod.snd_swap, hproduct]
  · rw [cosine?, cosine?, if_neg h, if_neg (Ne.symm h)]

theorem distance?_comm (u v : Tally) : v.distance? u = u.distance? v := by
  by_cases h : u.dimension = v.dimension
  · have hsquare : ∀ pair : Float × Float, (pair.2 - pair.1) * (pair.2 - pair.1) =
        (pair.1 - pair.2) * (pair.1 - pair.2) := fun pair => sub_mul_sub_comm _ _
    rw [distance?_eq h, distance?_eq h.symm, slots_swap u v]
    simp only [List.map_map, Function.comp_def, Prod.fst_swap, Prod.snd_swap, hsquare]
  · rw [distance?, distance?, if_neg h, if_neg (Ne.symm h)]

end Tally

private theorem tallyCosine_comm {u v : Tally} (h : u.dimension = v.dimension) : tallyCosine v u = tallyCosine u v := by
  rw [tallyCosine, tallyCosine, Tally.cosine?_comm, h]

private theorem tallyDistance_comm {u v : Tally} (h : u.dimension = v.dimension) :
    tallyDistance v u = tallyDistance u v := by
  rw [tallyDistance, tallyDistance, Tally.distance?_comm, h]

/-! ### Sequences -/

variable {a b : List Token}

theorem wholeCosine_gramCounts_comm (width : Nat) (a b : List Token) :
    (gramCounts width b).wholeCosine (gramCounts width a) = (gramCounts width a).wholeCosine (gramCounts width b) :=
  GramCounts.wholeCosine_comm (GramCounts.distinct_toList _) (GramCounts.distinct_toList _)

theorem scaleScoreBy_comm (orders orders' : ScaleOrders) (ha : a.length ≤ 94906265) (hb : b.length ≤ 94906265)
    (scale : Scale) : scaleScoreBy orders b a scale = scaleScoreBy orders' a b scale := by
  rw [scaleScoreBy_eq_wholeCosine orders hb ha, scaleScoreBy_eq_wholeCosine orders' ha hb, wholeCosine_gramCounts_comm]

theorem multiScaleBy_comm (orders orders' : ScaleOrders) (ha : a.length ≤ 94906265) (hb : b.length ≤ 94906265)
    (scales : List Scale) : multiScaleBy orders b a scales = multiScaleBy orders' a b scales := by
  have hscore : scaleScoreBy orders b a = scaleScoreBy orders' a b := funext (scaleScoreBy_comm orders orders' ha hb)
  rw [multiScaleBy, multiScaleBy, hscore]

theorem lengthRatio_comm (m n : Nat) : lengthRatio n m = lengthRatio m n := by
  simp only [lengthRatio, and_comm, or_comm, Nat.min_comm, Nat.max_comm]

/-! ### Comparisons -/

/-- A comparison with the numbers of tokens of the two sides exchanged. -/
def Comparison.exchange (c : Comparison) : Comparison :=
  { c with tokensA := c.tokensB, tokensB := c.tokensA }

/-- Exchanging two analyses whose tallies have the same slots and whose sequences are of moderate length. -/
theorem compareAnalysesBy_comm (orders orders' : GramOrders) (weights : Weights) {u v : Analysis} (hslots : u.SameSlots v)
    (hu : u.IsModerate) (hv : v.IsModerate) :
    compareAnalysesBy orders weights v u = (compareAnalysesBy orders' weights u v).map Comparison.exchange := by
  change _ = Comparison.exchange <$> _
  simp only [compareAnalysesBy, map_bind, map_pure]
  rw [tallyCosine_comm hslots.keywords, tallyCosine_comm hslots.operators, tallyDistance_comm hslots.keywords,
    tallyDistance_comm hslots.operators,
    multiScaleBy_comm orders.identifiers orders'.identifiers hu.identifiers hv.identifiers,
    multiScaleBy_comm orders.normalized orders'.normalized hu.normalized hv.normalized, lengthRatio_comm u.tokenCount]
  rfl

/-- Exchanging two sources of moderate length changes a comparison in nothing but the order of the two numbers of tokens,
and a failure in nothing, in whichever orders grams are visited on the two occasions. -/
theorem compareAnalyses_exchange (orders orders' : GramOrders) (weights : Weights) {a b : List Char}
    (ha : (Analysis.ofSource a).tokenCount ≤ 94906265) (hb : (Analysis.ofSource b).tokenCount ≤ 94906265) :
    compareAnalysesBy orders weights (.ofSource b) (.ofSource a) =
      (compareAnalysesBy orders' weights (.ofSource a) (.ofSource b)).map Comparison.exchange :=
  compareAnalysesBy_comm orders orders' weights (Analysis.sameSlots_ofSource a b) (Analysis.isModerate_ofSource ha)
    (Analysis.isModerate_ofSource hb)

/-- Two sources with different names, one of them longer, under the weights that are used if no others are given. -/
theorem comparison_of_exchanged_sources :
    let a := Analysis.ofSource "x = y + 1;".toList
    let b := Analysis.ofSource "int a, b; a = b;".toList
    a.tokenCount = 5 ∧ b.tokenCount = 9 ∧
      ∃ c, compareAnalyses .default a b = .ok c ∧ compareAnalysesBy .leftBackwards .default b a = .ok c.exchange := by
  intro a b
  have ha : a.tokenCount = 5 := by decide +kernel
  have hb : b.tokenCount = 9 := by decide +kernel
  have hsome : (compareAnalyses .default a b).toOption.isSome = true := by decide +kernel
  have hexchange :=
    compareAnalyses_exchange .leftBackwards .asListed .default (ha.trans_le (by decide)) (hb.trans_le (by decide))
  refine ⟨ha, hb, ?_⟩
  cases hab : compareAnalyses .default a b with
  | error failure =>
    rw [hab] at hsome
    contradiction
  | ok c =>
    rw [compareAnalyses] at hab
    rw [hab] at hexchange
    exact ⟨c, rfl, hexchange⟩

end Likeness
