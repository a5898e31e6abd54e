/-!
# Aspects of likeness

Two sources are compared under five aspects.  `ByAspect α` holds one value for each of them: the weights and the scores are
of this form.
-/

namespace Likeness

/-- What two sources are compared under, in the order in which it is reported. -/
inductive Aspect where
  /-- Which reserved words occur, and how often. -/
  | keyword
  /-- How names follow each other. -/
  | identifier
  /-- Which operators occur, and how often. -/
  | operator
  /-- How tokens of all kinds follow each other. -/
  | sequence
  /-- How long the sources are. -/
  | length
  deriving DecidableEq, Repr

namespace Aspect

/-- All aspects in order. -/
def all : List Aspect := [keyword, identifier, operator, sequence, length]

/-- The name of an aspect, in messages and in files. -/
def name : Aspect → String
  | keyword => "keyword"
  | identifier => "identifier"
  | operator => "operator"
  | sequence => "sequence"
  | length => "length"

theorem mem_all (a : Aspect) : a ∈ all := by
  cases a <;> decide

end Aspect

/-- One value for each aspect. -/
structure ByAspect (α : Type) where
  keyword : α
  identifier : α
  operator : α
  sequence : α
  length : α
  deriving DecidableEq, Repr

namespace ByAspect

/-- The value for an aspect. -/
def get (v : ByAspect α) : Aspect → α
  | .keyword => v.keyword
  | .identifier => v.identifier
  | .operator => v.operator
  | .sequence => v.sequence
  | .length => v.length

/-- The values that a function gives. -/
def ofFn (f : Aspect → α) : ByAspect α :=
  ⟨f .keyword, f .identifier, f .operator, f .sequence, f .length⟩

/-- The values in the order of the aspects. -/
def toList (v : ByAspect α) : List α :=
  Aspect.all.map v.get

@[simp] theorem get_ofFn (f : Aspect → α) (a : Aspect) : (ofFn f).get a = f a := by
  cases a <;> rfl

@[simp] theorem ofFn_get (v : ByAspect α) : ofFn v.get = v := rfl

end ByAspect

end Likeness
