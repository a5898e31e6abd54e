import Likeness.Proofs.Quotients

/-!
# The order of doubles

* (values) finite doubles are ordered as the numbers that they stand for (`float_le_iff`, `float_lt_iff`).
* (trichotomy) of two doubles that are numbers one is not above the other (`float_le_of_not_lt`).
* (transitivity) the order goes on from one double to the next, infinite ones included (`float_le_trans`).
* (signs) a sum, a product and a quotient of doubles that are not negative is not negative, and in particular a number
  (`zero_le_add`, `zero_le_mul`, `zero_le_div`).  A sum may be infinite here.  A zero divided by a zero is no number
  (`isNaN_div_of_zero`).
-/

namespace Likeness

open Float.Model
open Float.Model.UnpackedFloat hiding round normalize

/-! ### Comparison -/

private theorem float_le_def {x y : Float} :
    x ≤ y ↔ ((x.toModel.unpack.compare y.toModel.unpack).any (·.isLE)) = true := by
  change decide (UnpackedFloat.le _ _ = true) = true ↔ _
  rw [decide_eq_true_iff]
  rfl

private theorem float_lt_def {x y : Float} :
    x < y ↔ x.toModel.unpack.compare y.toModel.unpack = some .lt := by
  change decide (UnpackedFloat.lt _ _ = true) = true ↔ _
  rw [decide_eq_true_iff]
  change (x.toModel.unpack.compare y.toModel.unpack == some .lt) = true ↔ _
  exact beq_iff_eq

theorem isNaN_iff {x : Float} : x.isNaN = true ↔ x.toModel.unpack = .notANumber := by
  change x.toModel.unpack.isNaN = true ↔ _
  cases x.toModel.unpack <;> simp [UnpackedFloat.isNaN]

/-- Exchanging the sides of a comparison turns its outcome around. -/
private theorem compare_swap (u v : UnpackedFloat) : v.compare u = (u.compare v).map Ordering.swap := by
  have hsize : ∀ (e f : Int) (m n : Nat),
      (compare f e).then (compare n m) = ((compare e f).then (compare m n)).swap := by
    intro e f m n
    rw [Ordering.swap_then, ← Std.OrientedCmp.eq_swap, ← Std.OrientedCmp.eq_swap]
  rcases u with (_ | _) | _ | (_ | _) | ⟨_ | _, m, e, _⟩ <;>
    rcases v with (_ | _) | _ | (_ | _) | ⟨_ | _, n, f, _⟩ <;> try rfl
  -- only the forms of two numbers of one sign have to be looked at
  · simp only [UnpackedFloat.compare, Option.map_some, hsize e f m n]
  · simp only [UnpackedFloat.compare, Option.map_some, hsize e f m n]

private theorem compare_isSome {u v : UnpackedFloat} (hu : u.isNaN = false) (hv : v.isNaN = false) :
    ∃ o, u.compare v = some o := by
  rcases u with (_ | _) | _ | (_ | _) | ⟨_ | _, m, e, _⟩ <;>
    rcases v with (_ | _) | _ | (_ | _) | ⟨_ | _, n, f, _⟩ <;>
    first
    | exact ⟨_, rfl⟩
    | exact absurd hu (by decide)
    | exact absurd hv (by decide)

/-- Of two numbers, one that is not below the other is not above it the other way round. -/
theorem float_le_of_not_lt {x y : Float} (hx : x.isNaN = false) (hy : y.isNaN = false) (h : ¬ x < y) : y ≤ x := by
  obtain ⟨o, ho⟩ := compare_isSome hx hy
  rw [float_lt_def] at h
  rw [float_le_def, compare_swap x.toModel.unpack]
  cases o with
  | lt => exact absurd ho h
  | eq => rw [ho]; rfl
  | gt => rw [ho]; rfl

theorem float_lt_of_not_le {x y : Float} (hx : x.isNaN = false) (hy : y.isNaN = false) (h : ¬ x ≤ y) : y < x := by
  obtain ⟨o, ho⟩ := compare_isSome hx hy
  rw [float_le_def, ho] at h
  rw [float_lt_def, compare_swap x.toModel.unpack, ho]
  cases o with
  | lt | eq => exact absurd rfl h
  | gt => rfl

theorem isNaN_of_le {x y : Float} (h : x ≤ y) : x.isNaN = false ∧ y.isNaN = false := by
  change x.toModel.unpack.isNaN = false ∧ y.toModel.unpack.isNaN = false
  rw [float_le_def] at h
  cases hx : x.toModel.unpack <;> cases hy : y.toModel.unpack <;> rw [hx, hy] at h <;>
    first
    | exact ⟨rfl, rfl⟩
    | cases h

theorem float_le_of_lt {x y : Float} (h : x < y) : x ≤ y := by
  rw [float_lt_def] at h
  rw [float_le_def, h]
  rfl

theorem float_lt_asymm {x y : Float} (h : x < y) : ¬ y < x := by
  rw [float_lt_def] at h ⊢
  rw [compare_swap, h]
  decide

/-- Forms of two numbers are compared as the numbers are. -/
private theorem size_compares {m n : Nat} {e f : Int} (hm : IsCanonical m e) (hn : IsCanonical n f) :
    ((compare e f).then (compare m n)).Compares ((m : ℚ) * 2 ^ e) (n * 2 ^ f) := by
  rcases Int.lt_trichotomy e f with hlt | rfl | hgt
  · have hfull := hn.full.resolve_right (by have := hm.least; omega)
    rw [Int.compare_eq_lt.2 hlt]
    exact canonical_lt_of_exponent_lt (K := ℚ) hm hlt hfull
  · have hpow := zpow_two_pos e
    rw [Int.compare_eq_eq.2 rfl]
    rcases Nat.lt_trichotomy m n with hlt | rfl | hgt
    · rw [Nat.compare_eq_lt.2 hlt]
      exact mul_lt_mul_of_pos_right (by exact_mod_cast hlt) hpow
    · rw [Nat.compare_eq_eq.2 rfl]
      rfl
    · rw [Nat.compare_eq_gt.2 hgt]
      exact mul_lt_mul_of_pos_right (by exact_mod_cast hgt) hpow
  · have hfull := hm.full.resolve_right (by have := hn.least; omega)
    rw [Int.compare_eq_gt.2 hgt]
    exact canonical_lt_of_exponent_lt (K := ℚ) hn hgt hfull

private theorem Compares.neg {o : Ordering} {a b : ℚ} (h : o.Compares a b) : o.swap.Compares (-a) (-b) := by
  cases o with
  | lt => exact neg_lt_neg h
  | eq => exact congrArg _ h
  | gt => exact neg_lt_neg h

private theorem compare_of_valueOf? {x y : Float} {a b : ℚ} (hx : valueOf? x = some a) (hy : valueOf? y = some b) :
    ∃ o, x.toModel.unpack.compare y.toModel.unpack = some o ∧ o.Compares a b := by
  have size_pos : ∀ {m : Nat} {e : Int}, IsCanonical m e → (0 : ℚ) < m * 2 ^ e := fun h =>
    mul_pos (by exact_mod_cast h.pos) (zpow_two_pos _)
  obtain ⟨s, hux, rfl⟩ | ⟨s, m, e, hm, hux, rfl⟩ := valueOf?_eq_some.1 hx <;>
    obtain ⟨t, huy, rfl⟩ | ⟨t, n, f, hn, huy, rfl⟩ := valueOf?_eq_some.1 hy <;>
    rw [hux, huy]
  · exact ⟨.eq, rfl, rfl⟩
  · have := size_pos hn
    cases t with
    | negative => exact ⟨.gt, rfl, by simpa [Sign.apply, Ordering.Compares] using this⟩
    | positive => exact ⟨.lt, rfl, by simpa [Sign.apply, Ordering.Compares] using this⟩
  · have := size_pos hm
    cases s with
    | negative => exact ⟨.lt, rfl, by simpa [Sign.apply, Ordering.Compares] using this⟩
    | positive => exact ⟨.gt, rfl, by simpa [Sign.apply, Ordering.Compares] using this⟩
  · have hsize := size_compares hm hn
    have hposm := size_pos hm
    have hposn := size_pos hn
    cases s <;> cases t <;> simp only [Sign.apply, Int.cast_neg, Int.cast_natCast, neg_mul]
    · exact ⟨_, rfl, Compares.neg hsize⟩
    · exact ⟨.lt, rfl, by change -_ < _; linarith⟩
    · exact ⟨.gt, rfl, by change -_ < _; linarith⟩
    · exact ⟨_, rfl, hsize⟩

theorem float_lt_iff {x y : Float} {a b : ℚ} (hx : valueOf? x = some a) (hy : valueOf? y = some b) :
    x < y ↔ a < b := by
  obtain ⟨o, ho, hcompares⟩ := compare_of_valueOf? hx hy
  rw [float_lt_def, ho, Option.some.injEq, hcompares.eq_lt]

theorem float_le_iff {x y : Float} {a b : ℚ} (hx : valueOf? x = some a) (hy : valueOf? y = some b) :
    x ≤ y ↔ a ≤ b := by
  obtain ⟨o, ho, hcompares⟩ := compare_of_valueOf? hx hy
  rw [float_le_def, ho, ← not_lt, ← hcompares.eq_gt]
  cases o <;> decide

/-- A double that is a number is infinite or finite. -/
private theorem infinity_or_valueOf? {x : Float} (h : x.isNaN = false) :
    (∃ s, x.toModel.unpack = .infinity s) ∨ ∃ a, valueOf? x = some a := by
  change x.toModel.unpack.isNaN = false at h
  unfold valueOf?
  generalize x.toModel.unpack = u at h ⊢
  rcases u with s | _ | s | ⟨s, m, e, _⟩
  · exact .inl ⟨s, rfl⟩
  · cases h
  · exact .inr ⟨_, rfl⟩
  · exact .inr ⟨_, rfl⟩

/-- Every number is below infinity, and above it there is only infinity. -/
private theorem le_infinity {x y : Float} (hx : x.isNaN = false) (hy : y.toModel.unpack = .infinity .positive) :
    x ≤ y ∧ ∀ z, y ≤ z → z = y := by
  constructor
  · change x.toModel.unpack.isNaN = false at hx
    rw [float_le_def, hy]
    generalize x.toModel.unpack = u at hx ⊢
    rcases u with (_ | _) | _ | s | ⟨_ | _, m, e, _⟩ <;> first | rfl | cases hx
  · intro z hz
    refine eq_of_unpack_eq ?_
    rw [float_le_def, hy] at hz
    rw [hy]
    generalize z.toModel.unpack = v at hz ⊢
    rcases v with (_ | _) | _ | s | ⟨s, m, e, _⟩ <;> first | rfl | cases hz

/-- Every number is above negative infinity, and below it there is only negative infinity. -/
private theorem neg_infinity_le {x y : Float} (hx : x.isNaN = false) (hy : y.toModel.unpack = .infinity .negative) :
    y ≤ x ∧ ∀ z, z ≤ y → z = y := by
  constructor
  · change x.toModel.unpack.isNaN = false at hx
    rw [float_le_def, hy]
    generalize x.toModel.unpack = u at hx ⊢
    rcases u with (_ | _) | _ | s | ⟨s, m, e, _⟩ <;> first | rfl | cases hx
  · intro z hz
    refine eq_of_unpack_eq ?_
    rw [float_le_def, hy] at hz
    rw [hy]
    generalize z.toModel.unpack = v at hz ⊢
    rcases v with (_ | _) | _ | s | ⟨_ | _, m, e, _⟩ <;> first | rfl | cases hz

theorem float_le_trans {x y z : Float} (hxy : x ≤ y) (hyz : y ≤ z) : x ≤ z := by
  obtain ⟨hx, hy⟩ := isNaN_of_le hxy
  have hz := (isNaN_of_le hyz).2
  -- next to an infinite double, two of the three are equal or there is nothing to show
  rcases infinity_or_valueOf? hx with ⟨_ | _, hinf⟩ | ⟨a, ha⟩
  · exact (neg_infinity_le hz hinf).1
  · rwa [← (le_infinity hx hinf).2 y hxy]
  rcases infinity_or_valueOf? hz with ⟨_ | _, hinf⟩ | ⟨c, hc⟩
  · rwa [← (neg_infinity_le hz hinf).2 y hyz]
  · exact (le_infinity hx hinf).1
  rcases infinity_or_valueOf? hy with ⟨_ | _, hinf⟩ | ⟨b, hb⟩
  · rwa [(neg_infinity_le hy hinf).2 x hxy]
  · rwa [(le_infinity hy hinf).2 z hyz]
  exact (float_le_iff ha hc).2 (((float_le_iff ha hb).1 hxy).trans ((float_le_iff hb hc).1 hyz))

/-! ### Signs -/

/-- Whether a double is not below zero.  What is no number does not count as such. -/
private def isNonneg : UnpackedFloat → Bool
  | .zero _ | .finite .positive .. | .infinity .positive => true
  | .infinity .negative | .finite .negative .. | .notANumber => false

private theorem zero_le_iff {x : Float} : 0.0 ≤ x ↔ isNonneg x.toModel.unpack = true := by
  have hzero : (0.0 : Float).toModel.unpack = .zero .positive := rfl
  rw [float_le_def, hzero]
  rcases x.toModel.unpack with (_ | _) | _ | (_ | _) | ⟨_ | _, m, e, _⟩ <;> exact Iff.rfl

/-- Whether a double is a number without a sign. -/
def isPlus : UnpackedFloat → Bool
  | .zero .positive | .finite .positive .. | .infinity .positive => true
  | _ => false

private theorem isNonneg_of_isPlus {u : UnpackedFloat} (h : isPlus u = true) : isNonneg u = true := by
  rcases u with (_ | _) | _ | (_ | _) | ⟨_ | _, m, e, _⟩ <;> first | rfl | cases h

theorem isPlus_roundWithAccuracy (m : Nat) (e : Int) (acc : Accuracy) :
    isPlus (roundWithAccuracy Format.binary64 .positive m e acc) = true := by
  simp only [roundWithAccuracy]
  split <;> rfl

theorem isPlus_normalize {n : Int} (h : 0 ≤ n) (e : Int) :
    isPlus (UnpackedFloat.normalize Format.binary64 n e .positive) = true := by
  simp only [UnpackedFloat.normalize]
  split
  · next hlt =>
    rw [Int.compare_eq_lt] at hlt
    omega
  · rfl
  · exact isPlus_roundWithAccuracy _ _ _

private theorem isNonneg_packComponents {exponent : BitVec 11} {fraction : BitVec 52}
    (h : exponent ≠ -1#11 ∨ fraction = 0#52) :
    isNonneg (unpack Format.binary64 (packComponents Format.binary64 .positive exponent fraction)) = true := by
  rw [unpack_packComponents]
  split_ifs with hones hfraction hzero hfraction
  · rfl
  · exact (h.elim (· hones) hfraction).elim
  · rfl
  · rfl
  · rfl

/-- Packing keeps a sign. -/
private theorem isNonneg_pack {u : UnpackedFloat} (h : isNonneg u = true) :
    isNonneg (unpack Format.binary64 (pack Format.binary64 u)) = true := by
  rcases u with (_ | _) | _ | s | ⟨_ | _, m, e, pos⟩
  · cases h
  · exact isNonneg_packComponents (.inr rfl)
  · cases h
  · rw [show pack Format.binary64 (.zero s) = packedZero Format.binary64 s from rfl, unpack_packedZero]
    rfl
  · cases h
  · simp only [UnpackedFloat.pack]
    split_ifs with hbig hnormal
    · exact isNonneg_packComponents (.inr rfl)
    · -- the exponent is not that of infinity, which is the greatest one
      refine isNonneg_packComponents (.inl fun hones => hbig ?_)
      have hfield := congrArg BitVec.toNat hones
      rw [BitVec.toNat_ofNat] at hfield
      change _ = 2047 at hfield
      change 2048 ≤ _
      omega
    · exact isNonneg_packComponents (.inl (by decide))

private theorem cases_of_isNonneg {u : UnpackedFloat} (h : isNonneg u = true) :
    (∃ s, u = .zero s) ∨ u = .infinity .positive ∨ ∃ m e pos, u = .finite .positive m e pos := by
  rcases u with (_ | _) | _ | s | ⟨_ | _, m, e, pos⟩
  · cases h
  · exact .inr (.inl rfl)
  · cases h
  · exact .inl ⟨s, rfl⟩
  · cases h
  · exact .inr (.inr ⟨m, e, pos, rfl⟩)

private theorem isNonneg_add {u v : UnpackedFloat} (hu : isNonneg u = true) (hv : isNonneg v = true) :
    isNonneg (UnpackedFloat.add Format.binary64 u v) = true := by
  obtain ⟨s, rfl⟩ | rfl | ⟨m, e, _, rfl⟩ := cases_of_isNonneg hu <;>
    obtain ⟨t, rfl⟩ | rfl | ⟨n, f, _, rfl⟩ := cases_of_isNonneg hv <;> try rfl
  · cases s <;> cases t <;> rfl
  · exact isNonneg_of_isPlus (isPlus_normalize (Int.add_nonneg (Int.natCast_nonneg _) (Int.natCast_nonneg _)) _)

theorem isNaN_of_zero_le {x : Float} (h : 0.0 ≤ x) : x.isNaN = false := by
  change x.toModel.unpack.isNaN = false
  obtain ⟨s, hu⟩ | hu | ⟨m, e, _, hu⟩ := cases_of_isNonneg (zero_le_iff.1 h) <;> rw [hu] <;> rfl

/-- A sum of doubles that are not negative is not negative, be it finite or not. -/
theorem zero_le_add {x y : Float} (hx : 0.0 ≤ x) (hy : 0.0 ≤ y) : 0.0 ≤ x + y := by
  rw [zero_le_iff] at hx hy ⊢
  rw [unpack_add]
  exact isNonneg_pack (isNonneg_add hx hy)

theorem zero_le_of_valueOf? {x : Float} {a : ℚ} (hx : valueOf? x = some a) : 0.0 ≤ x ↔ 0 ≤ a :=
  float_le_iff rfl hx

/-- A double that is not negative and not above a finite one is finite. -/
theorem exists_valueOf?_of_le {x y : Float} {b : ℚ} (h : 0.0 ≤ x) (hle : x ≤ y) (hy : valueOf? y = some b) :
    ∃ a, valueOf? x = some a ∧ 0 ≤ a ∧ a ≤ b := by
  have hfinite : ∃ a, valueOf? x = some a := by
    obtain ⟨s, hux⟩ | hux | ⟨m, e, pos, hux⟩ := cases_of_isNonneg (zero_le_iff.1 h)
    · exact ⟨0, valueOf?_eq_some.2 (.inl ⟨s, hux, rfl⟩)⟩
    · -- infinity is above every finite double
      rw [float_le_def, hux] at hle
      obtain ⟨s, huy, _⟩ | ⟨s, m, e, hm, huy, _⟩ := valueOf?_eq_some.1 hy <;> rw [huy] at hle <;> cases hle
    · exact ⟨_, valueOf?_eq_some.2 (.inr ⟨.positive, m, e, isCanonical_of_unpack hux, hux, rfl⟩)⟩
  obtain ⟨a, ha⟩ := hfinite
  exact ⟨a, ha, (zero_le_of_valueOf? ha).1 h, (float_le_iff ha hy).1 hle⟩

theorem zero_le_mul {x y : Float} {a b : ℚ} (hx : valueOf? x = some a) (hy : valueOf? y = some b) (ha : 0 ≤ a)
    (hb : 0 ≤ b) : 0.0 ≤ x * y := by
  rw [zero_le_iff, unpack_mul]
  refine isNonneg_pack ?_
  obtain ⟨s, hux, _⟩ | ⟨m, e, hm, hux, _⟩ := cases_of_nonneg hx ha <;>
    obtain ⟨t, huy, _⟩ | ⟨n, f, hn, huy, _⟩ := cases_of_nonneg hy hb <;>
    rw [hux, huy]
  · rfl
  · rfl
  · rfl
  · exact isNonneg_of_isPlus (isPlus_roundWithAccuracy _ _ _)

theorem zero_le_div {x y : Float} {b : ℚ} (hx : 0.0 ≤ x) (hy : valueOf? y = some b) (hb : 0 < b) : 0.0 ≤ x / y := by
  rw [zero_le_iff, unpack_div]
  refine isNonneg_pack ?_
  obtain ⟨_, _, rfl⟩ | ⟨n, f, hn, huy, _⟩ := cases_of_nonneg hy hb.le
  · exact absurd hb (lt_irrefl _)
  obtain ⟨s, hux⟩ | hux | ⟨m, e, _, hux⟩ := cases_of_isNonneg (zero_le_iff.1 hx) <;> rw [hux, huy]
  · rfl
  · rfl
  · exact isNonneg_of_isPlus (isPlus_roundWithAccuracy _ _ _)

/-- A zero divided by a zero is no number. -/
theorem isNaN_div_of_zero {x y : Float} (hx : valueOf? x = some 0) (hy : valueOf? y = some 0) : (x / y).isNaN = true := by
  obtain ⟨s, hux⟩ := exists_unpack_of_zero hx
  obtain ⟨t, huy⟩ := exists_unpack_of_zero hy
  rw [isNaN_iff, unpack_div, hux, huy]
  exact unpack_packedNaN

theorem isFinite_iff {x : Float} : x.isFinite = true ↔ ∃ a, valueOf? x = some a := by
  change x.toModel.unpack.isFinite = true ↔ _
  unfold valueOf?
  rcases x.toModel.unpack with s | _ | s | ⟨s, m, e, _⟩ <;> simp [UnpackedFloat.isFinite]

theorem isFinite_eq_false_iff {x : Float} : x.isFinite = false ↔ x.isNaN = true ∨ x.isInf = true := by
  change x.toModel.unpack.isFinite = false ↔ x.toModel.unpack.isNaN = true ∨ x.toModel.unpack.isInf = true
  rcases x.toModel.unpack with s | _ | s | ⟨s, m, e, _⟩ <;>
    simp [UnpackedFloat.isFinite, UnpackedFloat.isNaN, UnpackedFloat.isInf]

end Likeness
