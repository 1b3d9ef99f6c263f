import Semrange.Interval.Intersection
import Semrange.Operator

/-!
# Predicates on versions

A predicate is a conjunction of terms, each an operator and a reference version; without terms it
holds of every version. `test` tries the terms one by one, `interval` gives the versions that pass
as one interval, or as nothing.
-/

namespace Semrange

/-- An operator with its reference version. -/
structure Term where
  /-- The operator. -/
  operator : Operator
  /-- The version that others are compared with. -/
  reference : Version
deriving DecidableEq, Repr

namespace Term

/-- The text of a term. -/
def text (t : Term) : String :=
  t.operator.text ++ t.reference.text

/-- Whether a version passes. -/
def test (t : Term) (v : Version) : Bool :=
  t.operator.holds v t.reference

/-- The interval of the versions that pass. -/
def interval (t : Term) : Except Operator.BoundError Interval :=
  match t.reference with
  | .label name => .ok (.around name (.within true true))
  | .semantic ref =>
    (t.operator.upper ref).map fun upper =>
      .span ((t.operator.lower ref).map fun v => ⟨v, t.operator.lowerInclusive⟩)
        (upper.map fun v => ⟨v, t.operator.upperInclusive⟩)

/-- Two terms are the same when they have one operator and the same reference. -/
def Same (s t : Term) : Prop :=
  s.operator = t.operator ∧ s.reference.Same t.reference

instance (s t : Term) : Decidable (s.Same t) :=
  inferInstanceAs (Decidable (_ ∧ _))

/-- One term out of each class of same terms. -/
def canonical (t : Term) : Term :=
  { t with reference := t.reference.canonical }

end Term

/-- A conjunction of terms. -/
structure Predicate where
  /-- The terms. -/
  terms : List Term
deriving DecidableEq, Repr

namespace Predicate

/-- The predicate that every version passes. -/
def any : Predicate := ⟨[]⟩

/-- The text of a predicate: its terms with blanks between them, or a star. -/
def text (p : Predicate) : String :=
  if p.terms.isEmpty then "*" else " ".intercalate (p.terms.map Term.text)

/-- Whether a version passes all terms. -/
def test (p : Predicate) (v : Version) : Bool :=
  p.terms.all fun t => t.test v

/-- What a test needs and is not given. -/
inductive TestError where
  /-- There is no version to test. -/
  | noVersion
deriving DecidableEq, Repr

/-- The text of an error. -/
def TestError.message : TestError → String
  | .noVersion => "version must not be None"

/-- Whether a version that may be missing passes all terms. -/
def test? (p : Predicate) : Option Version → Except TestError Bool
  | none => .error .noVersion
  | some v => .ok (p.test v)

/-- What is left of an interval under the terms, one after the other. -/
def narrow (i : Interval) : List Term → Except Operator.BoundError (Option Interval)
  | [] => .ok (some i)
  | t :: ts =>
    match t.interval with
    | .error e => .error e
    | .ok j =>
      match i.intersect j with
      | none => .ok none
      | some k => narrow k ts

/-- The interval of the versions that pass all terms; none if no version does. -/
def interval (p : Predicate) : Except Operator.BoundError (Option Interval) :=
  match p.terms with
  | [] => .ok (some .all)
  | t :: ts =>
    match t.interval with
    | .error e => .error e
    | .ok i => narrow i ts

/-- Two lists of terms are the same when they are term by term. -/
def SameTerms : List Term → List Term → Prop
  | [], [] => True
  | s :: ss, t :: ts => s.Same t ∧ SameTerms ss ts
  | _, _ => False

instance decidableSameTerms : (ss ts : List Term) → Decidable (SameTerms ss ts)
  | [], [] => inferInstanceAs (Decidable True)
  | s :: ss, t :: ts =>
    have := decidableSameTerms ss ts
    inferInstanceAs (Decidable (s.Same t ∧ SameTerms ss ts))
  | [], _ :: _ => inferInstanceAs (Decidable False)
  | _ :: _, [] => inferInstanceAs (Decidable False)

/-- Two predicates are the same when they are term by term. -/
def Same (p q : Predicate) : Prop :=
  SameTerms p.terms q.terms

instance (p q : Predicate) : Decidable (p.Same q) :=
  decidableSameTerms p.terms q.terms

/-- One predicate out of each class of same predicates. -/
def canonical (p : Predicate) : Predicate :=
  ⟨p.terms.map Term.canonical⟩

/-- The predicates without those that are the same as an earlier one. -/
def distinct : List Predicate → List Predicate
  | [] => []
  | p :: l => p :: (distinct l).filter fun q => !decide (p.Same q)

end Predicate

end Semrange
