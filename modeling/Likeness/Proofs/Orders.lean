import Likeness.Proofs.Comparing
import Likeness.Proofs.GramSums
import Likeness.Proofs.Names

/-!
# Orders in which grams are visited

Sums over grams are rounded on the way, so that a comparison may depend on the order in which the grams of a side are
visited.  For sequences of moderate length nothing is rounded, and every order gives the same comparison, to the last bit.

* (cosines) `ScaleOrders.cosine_eq_wholeCosine` gives a cosine in terms of whole numbers, which know of no order.
* (comparisons) `compareAnalysesBy_eq` says that a comparison of analyses of moderate length does not depend on the orders.
-/

namespace Likeness

/-! ### Cosines -/

section

variable {a b : List Token}

theorem GramCounts.Order.moderate (order : GramCounts.Order) (h : a.length ≤ 94906265) (width : Nat) :
    (order.visit (gramCounts width a)).Moderate :=
  (moderate_gramCounts h width).perm (order.perm _)

theorem ScaleOrders.cosine_eq_wholeCosine (orders : ScaleOrders) (ha : a.length ≤ 94906265) (hb : b.length ≤ 94906265)
    (width : Nat) : orders.cosine a b width = (gramCounts width a).wholeCosine (gramCounts width b) := by
  have hleft := (orders.left width).moderate ha width
  have hright := (orders.right width).moderate hb width
  rw [ScaleOrders.cosine, hleft.cosine_eq hright]
  exact GramCounts.wholeCosine_perm hright ((orders.left width).perm _) ((orders.right width).perm _)

/-- The score at a width in terms of whole numbers. -/
theorem scaleScoreBy_eq_wholeCosine (orders : ScaleOrders) (ha : a.length ≤ 94906265) (hb : b.length ≤ 94906265)
    (scale : Scale) :
    scaleScoreBy orders a b scale =
      if scale.width = 0 then .error (.gramWidth scale.width)
      else .ok ⟨scale.width, (gramCounts scale.width a).wholeCosine (gramCounts scale.width b)⟩ := by
  by_cases h : scale.width = 0
  · rw [if_pos h, scaleScoreBy_of_eq_zero orders a b h]
  · rw [if_neg h, scaleScoreBy_eq orders a b h, orders.cosine_eq_wholeCosine ha hb]

theorem multiScaleBy_eq_of_moderate (orders orders' : ScaleOrders) (ha : a.length ≤ 94906265) (hb : b.length ≤ 94906265)
    (scales : List Scale) : multiScaleBy orders a b scales = multiScaleBy orders' a b scales := by
  have hscore : scaleScoreBy orders a b = scaleScoreBy orders' a b :=
    funext fun scale => by rw [scaleScoreBy_eq_wholeCosine orders ha hb, scaleScoreBy_eq_wholeCosine orders' ha hb]
  rw [multiScaleBy, multiScaleBy, hscore]

end

/-- The grams of the left side are visited backwards. -/
def ScaleOrders.leftBackwards : ScaleOrders :=
  ⟨fun _ => ⟨List.reverse, List.reverse_perm⟩, fun _ => .asListed⟩

def GramOrders.leftBackwards : GramOrders :=
  ⟨.leftBackwards, .leftBackwards⟩

/-- Two more occurrences of a gram than are moderate, and the order matters: rare grams count only if they come first. -/
example :
    let a : GramCounts := [(['x'], 94906267), (['y'], 1), (['z'], 1)]
    a.cosine a = 1.0 ∧ GramCounts.cosine a a.reverse ≠ 1.0 := by
  decide +kernel

/-! ### Comparisons -/

/-- Analyses whose sequences are of moderate length. -/
structure Analysis.IsModerate (u : Analysis) : Prop where
  identifiers : u.identifiers.length ≤ 94906265
  normalized : u.normalized.length ≤ 94906265

namespace Analysis

theorem isModerate_ofTokens {stream : List Token} (h : stream.length ≤ 94906265) : (ofTokens stream).IsModerate where
  identifiers := (length_identifierSequence_le stream).trans h
  normalized := (length_normalForm_le stream).trans h

theorem isModerate_ofSource {source : List Char} (h : (ofSource source).tokenCount ≤ 94906265) :
    (ofSource source).IsModerate :=
  isModerate_ofTokens h

end Analysis

/-- A comparison of analyses of moderate length is the same in all orders, and so is its failure. -/
theorem compareAnalysesBy_eq {u v : Analysis} (hu : u.IsModerate) (hv : v.IsModerate) (orders orders' : GramOrders)
    (weights : Weights) : compareAnalysesBy orders weights u v = compareAnalysesBy orders' weights u v := by
  rw [compareAnalysesBy, compareAnalysesBy,
    multiScaleBy_eq_of_moderate orders.identifiers orders'.identifiers hu.identifiers hv.identifiers,
    multiScaleBy_eq_of_moderate orders.normalized orders'.normalized hu.normalized hv.normalized]

end Likeness
