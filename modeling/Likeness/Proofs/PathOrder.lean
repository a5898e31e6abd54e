import Likeness.Files.Path
import Mathlib.Data.List.Pairwise

/-!
# The order of paths

The order of paths is the lexicographic order of their components.

* `compareComponents_eq` says which order on lists it is, from which the laws of an order follow;
* `compareComponents_append_left` leaves out components that two paths start with;
* a list of paths in strictly increasing order holds no two paths of the same place (`Path.Increasing.eq_of_compare`).
-/

namespace Likeness

/-- What is compared by a value of it is ordered if the values are. -/
theorem transCmp_comap {α β : Type} {cmp : β → β → Ordering} [Std.TransCmp cmp] (f : α → β) :
    Std.TransCmp fun x y => cmp (f x) (f y) where
  eq_swap {x y} := @Std.OrientedCmp.eq_swap _ cmp _ (f x) (f y)
  isLE_trans {_ _ _} := @Std.TransCmp.isLE_trans _ cmp _ _ _ _

instance : Std.TransCmp Component.compare :=
  inferInstanceAs (Std.TransCmp (compareLex (compareOn fun c : Component => c.key.1) (compareOn fun c => c.key.2)))

namespace Path

theorem compareComponents_eq : compareComponents = List.compareLex Component.compare := by
  funext as bs
  induction as generalizing bs with
  | nil => cases bs <;> rfl
  | cons a as ih =>
    cases bs with
    | nil => rfl
    | cons b bs => rw [compareComponents, List.compareLex_cons_cons, ih]

instance : Std.TransCmp compareComponents :=
  compareComponents_eq ▸ inferInstance

instance : Std.TransCmp compare :=
  transCmp_comap components

theorem compareComponents_append_left (start as bs : List Component) :
    compareComponents (start ++ as) (start ++ bs) = compareComponents as bs := by
  induction start with
  | nil => rfl
  | cons c start ih =>
    rw [List.cons_append, List.cons_append, compareComponents, @Std.ReflCmp.compare_self _ Component.compare, ih]
    rfl

/-- Paths in strictly increasing order. -/
def Increasing (paths : List Path) : Prop :=
  paths.Pairwise fun p q => p.compare q = .lt

theorem Increasing.eq_of_compare {paths : List Path} (h : Increasing paths) {p q : Path} (hp : p ∈ paths)
    (hq : q ∈ paths) (heq : p.compare q = .eq) : p = q := by
  refine List.Pairwise.forall_of_forall_of_flip (R := fun p q => p.compare q = .eq → p = q) (fun _ _ _ => rfl)
    (h.imp fun hlt heq => ?_) (h.imp fun hlt heq => ?_) hp hq heq
  · rw [hlt] at heq
    cases heq
  · rw [Std.OrientedCmp.gt_of_lt hlt] at heq
    cases heq

theorem Increasing.nodup {paths : List Path} (h : Increasing paths) : paths.Nodup := by
  refine h.imp fun {p q} hlt hsame => ?_
  subst hsame
  rw [@Std.ReflCmp.compare_self _ compare _ p] at hlt
  cases hlt

end Path

end Likeness
