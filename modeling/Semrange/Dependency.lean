import Semrange.Interval.Complement
import Semrange.Predicate.Parser

/-!
# Dependencies

A dependency is a declaration about a target: of a kind, with range expressions any of which may
match. A positive kind wants a match and a negative kind wants none (`isSatisfiedBy`), and a soft
kind asks where the others demand. `allowedIntervals` gives the versions of the target that satisfy
the dependency as intervals.
-/

namespace Semrange

namespace Dependency

/-- A kind of dependency. -/
inductive Kind where
  /-- The target is needed. -/
  | depends
  /-- The target is useful. -/
  | recommends
  /-- The target is worth a look. -/
  | suggests
  /-- The target disturbs. -/
  | conflicts
  /-- The target does harm. -/
  | breaks
deriving DecidableEq, Repr

/-- All kinds, in the order in which declarations are read. -/
def Kind.all : List Kind :=
  [.depends, .recommends, .suggests, .conflicts, .breaks]

/-- The key under which declarations of the kind stand. -/
def Kind.key : Kind → String
  | .depends => "depends"
  | .recommends => "recommends"
  | .suggests => "suggests"
  | .conflicts => "conflicts"
  | .breaks => "breaks"

/-- The name of the kind. -/
def Kind.name : Kind → String
  | .depends => "DEPENDS"
  | .recommends => "RECOMMENDS"
  | .suggests => "SUGGESTS"
  | .conflicts => "CONFLICTS"
  | .breaks => "BREAKS"

/-- Whether the kind wants a match. -/
def Kind.positive : Kind → Bool
  | .depends | .recommends | .suggests => true
  | .conflicts | .breaks => false

/-- Whether the kind only asks. -/
def Kind.soft : Kind → Bool
  | .recommends | .suggests | .conflicts => true
  | .depends | .breaks => false

/-- The kind with the given key. -/
def Kind.ofKey? (key : String) : Option Kind :=
  Kind.all.find? fun k => k.key == key

end Dependency

/-- A declaration about a target. -/
structure Dependency where
  /-- Its kind. -/
  kind : Dependency.Kind
  /-- The id of the target. -/
  target : String
  /-- The range expressions as they were declared. -/
  matchers : List String
  /-- What the expressions denote, each predicate once. -/
  predicates : List Predicate
deriving DecidableEq, Repr

namespace Dependency

/-- The dependency with the given range expressions. -/
def ofMatchers (kind : Kind) (target : String) (matchers : List String) :
    Except Predicate.ParseError Dependency :=
  (Predicate.parseAll matchers).map fun ps => ⟨kind, target, matchers, ps⟩

/-- The range expressions as a message shows them. -/
def requirement (d : Dependency) : String :=
  " || ".intercalate d.matchers

/-- The text of a dependency. -/
def text (d : Dependency) : String :=
  "\x7b" ++ d.kind.key ++ " " ++ d.target ++ " @ [" ++ d.requirement ++ "]\x7d"

/-- Whether a version passes one of the predicates. -/
def isMatchedBy (d : Dependency) (v : Version) : Bool :=
  d.predicates.any fun p => p.test v

/-- Whether a version of the target satisfies the dependency. -/
def isSatisfiedBy (d : Dependency) (v : Version) : Bool :=
  d.isMatchedBy v == d.kind.positive

/-- The union of intervals and the versions that pass some predicates, taken one by one. -/
def addIntervals (known : List Interval) :
    List Predicate → Except Operator.BoundError (List Interval)
  | [] => .ok known
  | p :: ps =>
    match p.interval with
    | .error e => .error e
    | .ok i => addIntervals (Interval.unionAll (known ++ i.toList)) ps

/-- The versions that pass one of the predicates. -/
def matchedIntervals (d : Dependency) : Except Operator.BoundError (List Interval) :=
  addIntervals [] d.predicates

/-- The versions of the target that satisfy the dependency. -/
def allowedIntervals (d : Dependency) : Except Operator.BoundError (List Interval) :=
  d.matchedIntervals.map fun l =>
    if d.kind.positive then l else Interval.complementAll (l.map some)

/-- Two dependencies are the same when they have one kind, one target and the same predicates in any
order. -/
def Same (d e : Dependency) : Prop :=
  d.kind = e.kind ∧ d.target = e.target ∧ d.predicates.length = e.predicates.length ∧
    ∀ p ∈ d.predicates, ∃ q ∈ e.predicates, p.Same q

instance (d e : Dependency) : Decidable (d.Same e) :=
  inferInstanceAs (Decidable (_ ∧ _ ∧ _ ∧ _))

end Dependency

end Semrange
