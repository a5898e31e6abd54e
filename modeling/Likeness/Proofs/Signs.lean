import Likeness.Proofs.Range
import Likeness.Ranking

/-!
# Signs and the place of a double in the ranking

The ranking is in the order of `orderKey`, which tells the two zeros apart.

* (keys) different doubles have different keys (`orderKey_injective`), and from zero on a smaller double has a smaller key
  (`orderKey_lt_of_lt`).
* (signs) operations on doubles without a sign give doubles without a sign, if they do not give what is no number.  So a
  fused score is negative zero only if all weights are (`Comparison.IsOf.isNegative_total_iff`).
* `Comparison.IsOf.total_eq` concludes that two fused scores under the same weights are the same double if neither is below
  the other.
-/

namespace Likeness

open Float.Model
open Float.Model.UnpackedFloat hiding round normalize

/-! ### Bits -/

theorem toNat_packComponents (s : Sign) (exponent : BitVec 11) (fraction : BitVec 52) :
    (packComponents Format.binary64 s exponent fraction).toNat =
      s.toBitVec.toNat * 2 ^ 63 + (exponent.toNat * 2 ^ 52 + fraction.toNat) := by
  have hfraction := fraction.isLt
  have hexponent := exponent.isLt
  change (s.toBitVec ++ exponent ++ fraction).toNat = _
  rw [BitVec.toNat_append, BitVec.toNat_append, ← Nat.shiftLeft_add_eq_or_of_lt hfraction,
    ← Nat.shiftLeft_add_eq_or_of_lt hexponent, Nat.shiftLeft_eq, Nat.shiftLeft_eq]
  omega

theorem exists_packComponents (x : Float) : ∃ (s : Sign) (exponent : BitVec 11) (fraction : BitVec 52),
    x.toModel.toBits.toBitVec = packComponents Format.binary64 s exponent fraction :=
  ⟨_, _, _, (@packComponents_unpackSign_unpackExponent_unpackMantissa Format.binary64 _).symm⟩

section

variable {x : Float} {s : Sign} {exponent : BitVec 11} {fraction : BitVec 52}

private theorem toNat_toBits (h : x.toModel.toBits.toBitVec = packComponents Format.binary64 s exponent fraction) :
    x.toBits.toNat = s.toBitVec.toNat * 2 ^ 63 + (exponent.toNat * 2 ^ 52 + fraction.toNat) :=
  (congrArg BitVec.toNat h).trans (toNat_packComponents s exponent fraction)

private theorem isNegative_of_bits
    (h : x.toModel.toBits.toBitVec = packComponents Format.binary64 s exponent fraction) :
    isNegative x = true ↔ s = .negative := by
  have hfraction := fraction.isLt
  have hexponent := exponent.isLt
  unfold isNegative
  rw [toNat_toBits h, decide_eq_true_iff]
  change 2 ^ 63 ≤ _ ↔ _
  cases s with
  | positive =>
    have hsign : (Sign.positive.toBitVec).toNat = 0 := rfl
    refine iff_of_false (fun hle => ?_) (by rintro ⟨⟩)
    omega
  | negative =>
    have hsign : (Sign.negative.toBitVec).toNat = 1 := rfl
    refine iff_of_true ?_ rfl
    omega

private theorem magnitude_of_bits
    (h : x.toModel.toBits.toBitVec = packComponents Format.binary64 s exponent fraction) :
    Magnitude.ofFloat x = (exponent.toNat * 2 ^ 52 + fraction.toNat : Nat) := by
  have hfraction := fraction.isLt
  have hexponent := exponent.isLt
  unfold Magnitude.ofFloat
  rw [toNat_toBits h]
  change _ % 2 ^ 63 = _
  rw [Nat.mul_comm, Nat.mul_add_mod, Nat.mod_eq_of_lt (by omega)]

end

/-! ### Keys -/

theorem orderKey_injective {x y : Float} (h : orderKey x = orderKey y) : x = y := by
  have hparts : ∀ z : Float, z.toBits.toNat = (if isNegative z then 2 ^ 63 else 0) + Magnitude.ofFloat z := by
    intro z
    obtain ⟨s, exponent, fraction, hz⟩ := exists_packComponents z
    have hsign := isNegative_of_bits hz
    rw [magnitude_of_bits hz, toNat_toBits hz]
    cases s with
    | positive => rw [if_neg fun hneg => by cases hsign.1 hneg]; rfl
    | negative => rw [if_pos (hsign.2 rfl)]; rfl
  have hsame : x.toBits.toNat = y.toBits.toNat := by
    rw [hparts x, hparts y]
    unfold orderKey at h
    split_ifs at h ⊢ <;> omega
  exact Float.toBits_inj.1 (UInt64.toNat_inj.1 hsame)

/-- The place of a finite double other than zero, from its mantissa and exponent. -/
private theorem magnitude_of_unpack {x : Float} {s : Sign} {m : Nat} {e : Int} {pos : 0 < m}
    (h : x.toModel.unpack = .finite s m e pos) : Magnitude.ofFloat x = ((e + 1074).toNat * 2 ^ 52 + m : Nat) := by
  obtain ⟨t, exponent, fraction, hx⟩ := exists_packComponents x
  rw [magnitude_of_bits hx]
  rw [Float.Model.unpack, hx, unpack_packComponents] at h
  split_ifs at h with hones hfraction hzero hfraction
  · cases h
    rw [hzero]
    rfl
  · cases h
    have hpos : exponent.toNat ≠ 0 := fun heq => hzero (BitVec.eq_of_toNat_eq heq)
    change @Eq Nat _ _
    omega

def isMinus : Sign → Bool
  | .negative => true
  | .positive => false

/-- Whether a double in this form has a sign.  What is no number has none. -/
def hasSign : UnpackedFloat → Bool
  | .zero s | .finite s .. | .infinity s => isMinus s
  | .notANumber => false

theorem isNegative_eq_hasSign (x : Float) : isNegative x = hasSign x.toModel.unpack := by
  obtain ⟨s, exponent, fraction, hx⟩ := exists_packComponents x
  have hsign := isNegative_of_bits hx
  have hvalid := x.toModel.valid.eq_packedNaN
  rw [Float.Model.unpack, hx, unpack_packComponents]
  rw [hx, unpackExponent_packComponents, unpackMantissa_packComponents] at hvalid
  have hshown : isNegative x = isMinus s := by
    cases s with
    | positive => exact Bool.eq_false_iff.2 fun hneg => by cases hsign.1 hneg
    | negative => exact hsign.2 rfl
  split_ifs with hones hfraction hzero hfraction
  · exact hshown
  · -- there is but one double that is no number, and it has no sign
    refine Bool.eq_false_iff.2 fun hneg => ?_
    have hnan := hx.trans (hvalid hones hfraction)
    cases (isNegative_of_bits hnan).1 hneg
  · exact hshown
  · exact hshown
  · exact hshown

theorem magnitude_zero {x : Float} {s : Sign} (h : x.toModel.unpack = .zero s) : Magnitude.ofFloat x = 0 := by
  obtain ⟨t, exponent, fraction, hx⟩ := exists_packComponents x
  rw [magnitude_of_bits hx]
  rw [Float.Model.unpack, hx, unpack_packComponents] at h
  split_ifs at h with hones hfraction hzero hfraction
  rw [hzero, hfraction]
  rfl

theorem magnitude_lt_infinity {x : Float} {a : ℚ} (h : valueOf? x = some a) : Magnitude.ofFloat x < Magnitude.infinity := by
  obtain ⟨s, hx, _⟩ | ⟨s, m, e, hm, hx, _⟩ := valueOf?_eq_some.1 h
  · rw [magnitude_zero hx]
    decide
  · obtain ⟨_, hlt, hleast, hgreatest, _⟩ := hm
    rw [magnitude_of_unpack hx]
    change (e + 1074).toNat * 2 ^ 52 + m < 2047 * 2 ^ 52
    omega

theorem orderKey_lt_of_lt {x y : Float} {a b : ℚ} (hx : valueOf? x = some a) (hy : valueOf? y = some b) (ha : 0 ≤ a)
    (hlt : a < b) : orderKey x < orderKey y := by
  obtain ⟨_, _, rfl⟩ | ⟨n, f, hn, huy, rfl⟩ := cases_of_nonneg hy (ha.trans hlt.le)
  · exact absurd hlt (not_lt_of_ge ha)
  have hsign_y : isNegative y = false := by
    rw [isNegative_eq_hasSign, huy]
    rfl
  have hkey_y : orderKey y = ((f + 1074).toNat * 2 ^ 52 + n : Nat) := by
    rw [orderKey, hsign_y, magnitude_of_unpack huy]
    rfl
  have hn_pos := hn.pos
  obtain ⟨s, hux, rfl⟩ | ⟨m, e, hm, hux, rfl⟩ := cases_of_nonneg hx ha
  · have hkey_x : orderKey x ≤ 0 := by
      unfold orderKey
      rw [magnitude_zero hux]
      split <;> decide
    omega
  · have hsign_x : isNegative x = false := by
      rw [isNegative_eq_hasSign, hux]
      rfl
    have hkey_x : orderKey x = ((e + 1074).toNat * 2 ^ 52 + m : Nat) := by
      rw [orderKey, hsign_x, magnitude_of_unpack hux]
      rfl
    have hm_lt := hm.lt
    have hm_least := hm.least
    have hn_least := hn.least
    rcases Int.lt_trichotomy e f with hef | rfl | hfe
    · have hfull := hn.full.resolve_right (by have := hm.least; omega)
      omega
    · have hmn : (m : ℚ) < n := lt_of_mul_lt_mul_right hlt (zpow_two_pos e).le
      have hmn' : m < n := by exact_mod_cast hmn
      omega
    · have hfull := hm.full.resolve_right (by omega)
      exact absurd hlt (canonical_lt_of_exponent_lt (K := ℚ) hn hfe hfull).not_gt

/-! ### Operations without signs -/

private theorem cases_of_hasSign {u : UnpackedFloat} (h : hasSign u = false) :
    u = .notANumber ∨ u = .infinity .positive ∨ u = .zero .positive ∨ ∃ m e pos, u = .finite .positive m e pos := by
  rcases u with (_ | _) | _ | (_ | _) | ⟨_ | _, m, e, pos⟩
  · cases h
  · exact .inr (.inl rfl)
  · exact .inl rfl
  · cases h
  · exact .inr (.inr (.inl rfl))
  · cases h
  · exact .inr (.inr (.inr ⟨m, e, pos, rfl⟩))

private theorem hasSign_of_isPlus {u : UnpackedFloat} (h : isPlus u = true) : hasSign u = false := by
  rcases u with (_ | _) | _ | (_ | _) | ⟨_ | _, m, e, pos⟩ <;> first | rfl | cases h

private theorem hasSign_packComponents (exponent : BitVec 11) (fraction : BitVec 52) :
    hasSign (unpack Format.binary64 (packComponents Format.binary64 .positive exponent fraction)) = false := by
  rw [unpack_packComponents]
  split_ifs <;> rfl

private theorem hasSign_pack {u : UnpackedFloat} (h : hasSign u = false) :
    hasSign (unpack Format.binary64 (pack Format.binary64 u)) = false := by
  obtain rfl | rfl | rfl | ⟨m, e, pos, rfl⟩ := cases_of_hasSign h
  · exact hasSign_packComponents _ _
  · exact hasSign_packComponents _ _
  · exact hasSign_packComponents _ _
  · simp only [UnpackedFloat.pack]
    split_ifs <;> exact hasSign_packComponents _ _

section

variable {x y : Float}

/-- A sum has no sign unless both sides are negative zero. -/
theorem isNegative_add (hx : isNegative x = false ∨ x = -0.0) (hy : isNegative y = false ∨ y = -0.0) :
    isNegative (x + y) = false ∨ x = -0.0 ∧ y = -0.0 ∧ x + y = -0.0 := by
  have hminus : (-0.0 : Float).toModel.unpack = .zero .negative := rfl
  rw [isNegative_eq_hasSign] at hx hy ⊢
  rw [unpack_add]
  rcases hx with hx | rfl <;> rcases hy with hy | rfl
  · refine .inl (hasSign_pack ?_)
    obtain hu | hu | hu | ⟨m, e, _, hu⟩ := cases_of_hasSign hx <;>
      obtain hv | hv | hv | ⟨n, f, _, hv⟩ := cases_of_hasSign hy <;> rw [hu, hv] <;> try rfl
    exact hasSign_of_isPlus (isPlus_normalize (Int.add_nonneg (Int.natCast_nonneg _) (Int.natCast_nonneg _)) _)
  · refine .inl (hasSign_pack ?_)
    obtain hu | hu | hu | ⟨m, e, _, hu⟩ := cases_of_hasSign hx <;> rw [hu, hminus] <;> rfl
  · refine .inl (hasSign_pack ?_)
    obtain hv | hv | hv | ⟨n, f, _, hv⟩ := cases_of_hasSign hy <;> rw [hv, hminus] <;> rfl
  · exact .inr ⟨rfl, rfl, rfl⟩

theorem isNegative_add_of_left (hx : isNegative x = false) (hy : isNegative y = false ∨ y = -0.0) :
    isNegative (x + y) = false := by
  refine (isNegative_add (.inl hx) hy).resolve_right ?_
  rintro ⟨rfl, _⟩
  cases hx

theorem isNegative_mul (hx : isNegative x = false) (hy : isNegative y = false) : isNegative (x * y) = false := by
  rw [isNegative_eq_hasSign] at hx hy ⊢
  rw [unpack_mul]
  refine hasSign_pack ?_
  obtain hu | hu | hu | ⟨m, e, _, hu⟩ := cases_of_hasSign hx <;>
    obtain hv | hv | hv | ⟨n, f, _, hv⟩ := cases_of_hasSign hy <;> rw [hu, hv] <;> try rfl
  exact hasSign_of_isPlus (isPlus_roundWithAccuracy _ _ _)

theorem isNegative_div (hx : isNegative x = false) (hy : isNegative y = false) : isNegative (x / y) = false := by
  rw [isNegative_eq_hasSign] at hx hy ⊢
  rw [unpack_div]
  refine hasSign_pack ?_
  obtain hu | hu | hu | ⟨m, e, _, hu⟩ := cases_of_hasSign hx <;>
    obtain hv | hv | hv | ⟨n, f, _, hv⟩ := cases_of_hasSign hy <;> rw [hu, hv] <;> try rfl
  exact hasSign_of_isPlus (isPlus_roundWithAccuracy _ _ _)

theorem isNegative_sqrt (hx : isNegative x = false) : isNegative x.sqrt = false := by
  rw [isNegative_eq_hasSign] at hx ⊢
  rw [unpack_sqrt]
  refine hasSign_pack ?_
  obtain hu | hu | hu | ⟨m, e, _, hu⟩ := cases_of_hasSign hx <;> rw [hu] <;> try rfl
  exact hasSign_of_isPlus (isPlus_roundWithAccuracy _ _ _)

/-- The product of negative zero and a finite number without a sign is negative zero. -/
theorem neg_zero_mul (hy : isNegative y = false) : -0.0 * y = -0.0 ∨ (-0.0 * y).isNaN = true := by
  have hminus : (-0.0 : Float).toModel.unpack = .zero .negative := rfl
  have hzero : unpack Format.binary64 (pack Format.binary64 (.zero .negative)) = .zero .negative := unpack_packedZero
  rw [isNegative_eq_hasSign] at hy
  have hmul := unpack_mul (-0.0) y
  obtain hv | hv | hv | ⟨n, f, _, hv⟩ := cases_of_hasSign hy <;> rw [hminus, hv] at hmul
  · exact .inr (isNaN_iff.2 hmul)
  · exact .inr (isNaN_iff.2 hmul)
  · exact .inl (eq_of_unpack_eq (hmul.trans hzero))
  · exact .inl (eq_of_unpack_eq (hmul.trans hzero))

end

theorem isNegative_lengthToFloat (n : Nat) : isNegative (lengthToFloat n) = false := by
  rw [isNegative_eq_hasSign]
  change hasSign (unpack Format.binary64 (pack Format.binary64
    (UnpackedFloat.normalize Format.binary64 (n.toUInt64.toNat : Int) 0 .positive))) = false
  exact hasSign_pack (hasSign_of_isPlus (isPlus_normalize (Int.natCast_nonneg _) _))

theorem isNegative_toFloat_mul (m n : UInt32) : isNegative (m.toFloat * n.toFloat) = false := by
  rw [toFloat_eq_lengthToFloat, toFloat_eq_lengthToFloat]
  exact isNegative_mul (isNegative_lengthToFloat _) (isNegative_lengthToFloat _)

theorem isNegative_clampUnit {x : Float} (h : isNegative x = false) : isNegative (clampUnit x) = false := by
  unfold clampUnit
  by_cases hneg : x < 0.0
  · rw [if_pos hneg]
    decide
  · rw [if_neg hneg]
    dsimp only
    split
    · decide
    · exact h

/-! ### Scores without signs -/

theorem isNegative_zero : isNegative 0.0 = false := by
  decide

theorem isNegative_one : isNegative 1.0 = false := by
  decide

theorem isNegative_foldl {α : Type} (xs : List α) {f : α → Float} (hf : ∀ x ∈ xs, isNegative (f x) = false)
    {start : Float} (hstart : isNegative start = false) :
    isNegative (xs.foldl (fun s x => s + f x) start) = false := by
  refine List.foldlRecOn (motive := fun s => isNegative s = false) xs _ hstart fun s hs x hx => ?_
  exact isNegative_add_of_left hs (.inl (hf x hx))

theorem CosineSums.isNegative_cosine {s : CosineSums} (hdot : isNegative s.dot = false)
    (hA : s.isZeroA = false → isNegative s.normA = false) (hB : s.isZeroB = false → isNegative s.normB = false) :
    isNegative s.cosine = false := by
  unfold cosine cosineOfSums
  cases hzeroA : s.isZeroA <;> cases hzeroB : s.isZeroB
  · exact isNegative_clampUnit (isNegative_div hdot (isNegative_sqrt (isNegative_mul (hA hzeroA) (hB hzeroB))))
  · exact isNegative_zero
  · exact isNegative_zero
  · exact isNegative_one

theorem Tally.isNegative_cosine_sums (u v : Tally) : isNegative (u.sums v).cosine = false := by
  have hsum : ∀ f : UInt32 × UInt32 → Float, (∀ pair, isNegative (f pair) = false) →
      isNegative ((u.counts.zip v.counts).foldl (fun s pair => s + f pair) 0.0) = false :=
    fun f hf => isNegative_foldl _ (fun pair _ => hf pair) (by decide)
  refine CosineSums.isNegative_cosine ?_ (fun _ => ?_) (fun _ => ?_)
  · rw [sums, slots, List.foldl_map]
    exact hsum _ fun pair => isNegative_toFloat_mul pair.1 pair.2
  · change isNegative ((u.slots v).foldl _ _) = false
    rw [slots, List.foldl_map]
    exact hsum _ fun pair => isNegative_toFloat_mul pair.1 pair.1
  · change isNegative ((u.slots v).foldl _ _) = false
    rw [slots, List.foldl_map]
    exact hsum _ fun pair => isNegative_toFloat_mul pair.2 pair.2

namespace GramCounts

private theorem isNegative_dot (a b : GramCounts) : isNegative (a.dot b) = false := by
  rw [dot_eq, dotBy]
  refine List.foldlRecOn (motive := fun s => isNegative s = false) _ _ isNegative_zero fun s hs entry _ => ?_
  dsimp only
  split
  · exact isNegative_add_of_left hs (.inl (isNegative_toFloat_mul _ _))
  · exact hs

/-- The sum of squares starts at negative zero on one side, but does not stay there if anything is added. -/
private theorem isNegative_squaredNorm {a : GramCounts} (hne : a.isEmpty = false) {start : Float}
    (hstart : isNegative start = false ∨ start = -0.0) : isNegative (a.squaredNorm start) = false := by
  obtain ⟨entry, rest, rfl⟩ := List.exists_cons_of_ne_nil (List.isEmpty_eq_false_iff.1 hne)
  have hsquare := isNegative_toFloat_mul entry.2 entry.2
  have hfirst : isNegative (start + entry.2.toFloat * entry.2.toFloat) = false := by
    refine (isNegative_add hstart (.inl hsquare)).resolve_right ?_
    rintro ⟨_, hzero, _⟩
    rw [hzero] at hsquare
    cases hsquare
  exact isNegative_foldl rest (fun entry _ => isNegative_toFloat_mul entry.2 entry.2) hfirst

theorem isNegative_cosine (a b : GramCounts) : isNegative (a.cosine b) = false := by
  have hinto : ∀ small large : GramCounts, isNegative (small.sumsInto large).cosine = false := fun small large =>
    CosineSums.isNegative_cosine (isNegative_dot small large) (fun hne => isNegative_squaredNorm hne (.inl (by decide)))
      (fun hne => isNegative_squaredNorm hne (.inr rfl))
  rw [cosine_eq_sums, sums]
  split
  · exact hinto a b
  · exact hinto b a

end GramCounts

theorem isNegative_multiScaleBy {orders : ScaleOrders} {a b : List Token} (scales : List Scale)
    (hscales : ∀ scale ∈ scales, scale.width ≠ 0 ∧ isNegative scale.weight = false) {m : MultiScale}
    (h : multiScaleBy orders a b scales = .ok m) : isNegative m.combined = false := by
  rw [multiScaleBy_eq orders a b fun scale hscale => (hscales scale hscale).1, Except.ok.injEq] at h
  subst h
  refine isNegative_clampUnit (isNegative_foldl _ (fun pair hpair => ?_) (by decide))
  obtain ⟨hscale, hscore⟩ := List.of_mem_zip hpair
  obtain ⟨scale, _, hcosine⟩ := List.mem_map.1 hscore
  exact isNegative_mul (hscales _ hscale).2 (hcosine ▸ GramCounts.isNegative_cosine _ _)

theorem isNegative_lengthRatio (m n : Nat) : isNegative (lengthRatio m n) = false := by
  unfold lengthRatio
  split_ifs
  · decide
  · decide
  · exact isNegative_div (isNegative_lengthToFloat _) (isNegative_lengthToFloat _)

theorem isNegative_tallyCosine {u v : Tally} {x : Float} (h : tallyCosine u v = .ok x) : isNegative x = false := by
  unfold tallyCosine at h
  by_cases hdim : u.dimension = v.dimension
  · rw [Tally.cosine?_eq_sums hdim] at h
    cases h
    exact u.isNegative_cosine_sums v
  · rw [Tally.cosine?, if_neg hdim] at h
    cases h

/-! ### Fused scores -/

theorem isNegative_of_isNaN {x : Float} (h : x.isNaN = true) : isNegative x = false := by
  rw [isNegative_eq_hasSign, isNaN_iff.1 h]
  rfl

/-- A weight that can be used has no sign, unless it is negative zero. -/
theorem isNegative_of_not_unusable {w : Float} (h : ¬ Unusable w) : isNegative w = false ∨ w = -0.0 := by
  obtain ⟨a, ha, hnonneg⟩ := exists_valueOf?_of_not_unusable h
  rw [isNegative_eq_hasSign]
  obtain ⟨s, hu, _⟩ | ⟨m, e, hm, hu, _⟩ := cases_of_nonneg ha hnonneg
  · cases s with
    | negative => exact .inr (eq_of_unpack_eq hu)
    | positive => exact .inl (hu ▸ rfl)
  · exact .inl (hu ▸ rfl)

private theorem isNegative_weight_mul {w x : Float} (hw : ¬ Unusable w) (hx : isNegative x = false) :
    isNegative (w * x) = false ∨ w = -0.0 ∧ w * x = -0.0 := by
  rcases isNegative_of_not_unusable hw with hplus | rfl
  · exact .inl (isNegative_mul hplus hx)
  · rcases neg_zero_mul hx with hzero | hnan
    · exact .inr ⟨rfl, hzero⟩
    · exact .inl (isNegative_of_isNaN hnan)

private theorem isNegative_add_of_causes {x y : Float} {p q : Prop} (hx : isNegative x = false ∨ p ∧ x = -0.0)
    (hy : isNegative y = false ∨ q ∧ y = -0.0) : isNegative (x + y) = false ∨ (p ∧ q) ∧ x + y = -0.0 := by
  rcases isNegative_add (hx.imp_right And.right) (hy.imp_right And.right) with hplus | ⟨rfl, rfl, hsum⟩
  · exact .inl hplus
  · have hminus : ¬ isNegative (-0.0) = false := by decide
    exact .inr ⟨⟨(hx.resolve_left hminus).1, (hy.resolve_left hminus).1⟩, hsum⟩

/-- A weighted sum of scores has no sign unless all weights are negative zero. -/
theorem isNegative_fuse {weights : Weights} {scores : Scores} (hweights : ∀ aspect, ¬ Unusable (weights.get aspect))
    (hscores : ∀ aspect, isNegative (scores.get aspect) = false) :
    isNegative (weights.fuse scores) = false ∨ ∀ aspect, weights.get aspect = -0.0 := by
  have hterm := fun aspect => isNegative_weight_mul (hweights aspect) (hscores aspect)
  refine (isNegative_add_of_causes (isNegative_add_of_causes (isNegative_add_of_causes
    (isNegative_add_of_causes (hterm .keyword) (hterm .identifier)) (hterm .operator)) (hterm .sequence))
    (hterm .length)).imp_right ?_
  rintro ⟨⟨⟨⟨⟨hkeyword, hidentifier⟩, hoperator⟩, hsequence⟩, hlength⟩, _⟩ aspect
  cases aspect <;> assumption

private theorem add_of_neg_zero {x y : Float} (hx : x = -0.0 ∨ x.isNaN = true) (hy : y = -0.0 ∨ y.isNaN = true) :
    x + y = -0.0 ∨ (x + y).isNaN = true := by
  have hadd := unpack_add x y
  rcases hx with rfl | hx
  · rcases hy with rfl | hy
    · exact .inl rfl
    · rw [isNaN_iff.1 hy] at hadd
      exact .inr (isNaN_iff.2 hadd)
  · have hleft : UnpackedFloat.add Format.binary64 .notANumber y.toModel.unpack = .notANumber := by
      cases y.toModel.unpack <;> rfl
    rw [isNaN_iff.1 hx, hleft] at hadd
    exact .inr (isNaN_iff.2 hadd)

/-- A weighted sum under negative zeros is negative zero, if it is a number. -/
theorem fuse_of_neg_zero {weights : Weights} {scores : Scores} (hweights : ∀ aspect, weights.get aspect = -0.0)
    (hscores : ∀ aspect, isNegative (scores.get aspect) = false) :
    weights.fuse scores = -0.0 ∨ (weights.fuse scores).isNaN = true := by
  have hterm : ∀ aspect, weights.get aspect * scores.get aspect = -0.0 ∨
      (weights.get aspect * scores.get aspect).isNaN = true := by
    intro aspect
    rw [hweights aspect]
    exact neg_zero_mul (hscores aspect)
  exact add_of_neg_zero (add_of_neg_zero (add_of_neg_zero (add_of_neg_zero (hterm .keyword) (hterm .identifier))
    (hterm .operator)) (hterm .sequence)) (hterm .length)

namespace Comparison.IsOf

variable {orders orders' : GramOrders} {weights : Weights} {u v u' v' : Analysis} {c c' : Comparison}

theorem isNegative_scores (h : c.IsOf orders weights u v) (aspect : Aspect) : isNegative (c.scores.get aspect) = false := by
  cases aspect with
  | keyword => exact isNegative_tallyCosine h.keyword
  | identifier => exact isNegative_multiScaleBy Likeness.identifierScales (by decide) h.identifier
  | operator => exact isNegative_tallyCosine h.operator
  | sequence => exact isNegative_multiScaleBy Likeness.sequenceScales (by decide) h.sequence
  | length =>
    change isNegative c.scores.length = false
    rw [h.length]
    exact isNegative_lengthRatio _ _

private theorem isNaN_fuse (h : c.IsOf orders weights u v) (hnumber : c.total.isNaN = false) :
    (weights.fuse c.scores).isNaN = false := by
  rw [h.total] at hnumber
  by_contra hnan
  rw [isNaN_clampUnit (Bool.not_eq_false _ ▸ hnan)] at hnumber
  cases hnumber

/-- The total is between 0 and 1 if it is a number, however long the sources are. -/
theorem inUnit_total (h : c.IsOf orders weights u v) (hnumber : c.total.isNaN = false) : InUnit c.total :=
  h.total ▸ inUnit_clampUnit (h.isNaN_fuse hnumber)

theorem isNegative_total_iff (h : c.IsOf orders weights u v) (hnumber : c.total.isNaN = false) :
    isNegative c.total = true ↔ ∀ aspect, weights.get aspect = -0.0 := by
  have hnan := h.isNaN_fuse hnumber
  rw [h.total]
  constructor
  · intro hneg
    refine (isNegative_fuse h.not_unusable h.isNegative_scores).resolve_left fun hplus => ?_
    rw [isNegative_clampUnit hplus] at hneg
    cases hneg
  · intro hweights
    rcases fuse_of_neg_zero hweights h.isNegative_scores with hzero | hbad
    · rw [hzero]
      decide
    · rw [hbad] at hnan
      cases hnan

/-- Two totals under the same weights are the same double if neither is below the other. -/
theorem total_eq (h : c.IsOf orders weights u v) (h' : c'.IsOf orders' weights u' v') (hnumber : c.total.isNaN = false)
    (hnumber' : c'.total.isNaN = false) (hle : ¬ c.total < c'.total) (hge : ¬ c'.total < c.total) :
    c.total = c'.total := by
  have hsign : isNegative c.total = isNegative c'.total :=
    Bool.eq_iff_iff.2 ((h.isNegative_total_iff hnumber).trans (h'.isNegative_total_iff hnumber').symm)
  obtain ⟨a, ha, hnonneg, _⟩ := (h.inUnit_total hnumber).exists_valueOf?
  obtain ⟨b, hb, _, _⟩ := (h'.inUnit_total hnumber').exists_valueOf?
  rw [float_lt_iff ha hb, not_lt] at hle
  rw [float_lt_iff hb ha, not_lt] at hge
  obtain rfl : a = b := le_antisymm hge hle
  rcases eq_or_ne a 0 with rfl | hne
  · -- the two zeros are told apart by their signs
    obtain ⟨s, hu⟩ := exists_unpack_of_zero ha
    obtain ⟨t, hv⟩ := exists_unpack_of_zero hb
    rw [isNegative_eq_hasSign, isNegative_eq_hasSign, hu, hv] at hsign
    cases s <;> cases t <;> first | exact eq_of_unpack_eq (hu.trans hv.symm) | cases hsign
  · exact eq_of_valueOf?_eq ha hb hne

end Comparison.IsOf

end Likeness
