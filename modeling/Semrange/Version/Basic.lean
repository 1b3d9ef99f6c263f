import Semrange.Document.Printer
import Semrange.Numeral

/-!
# Versions

A version is semantic or a mere label. A semantic version has a core of numbers, at least one, which
may end in a wildcard when it stands in a range; then perhaps a prerelease and a build. Past its
written components a core goes on with zeros, or with wildcards if it ends in one (`component`).

`Same` is the equality of versions: component by component with that padding, and in prerelease and
build. `canonical` picks one version out of each class of same versions.
-/

namespace Semrange

/-- One place of a core: a number, or the wildcard that stands for any number. -/
inductive Component where
  /-- A number. -/
  | number (n : Nat)
  /-- Any number. -/
  | wildcard
deriving DecidableEq, Repr

/-- A component as it is written. -/
def Component.chars : Component → List Char
  | .number n => Nat.toDigits 10 n
  | .wildcard => ['x']

/-- A version with a core of numbers. -/
structure Semantic where
  /-- The first number of the core. -/
  major : Nat
  /-- The other numbers of the core. -/
  rest : List Nat
  /-- Whether the core ends in a wildcard. -/
  wild : Bool
  /-- The prerelease, without its hyphen. -/
  prerelease : Option String
  /-- The build, without its plus sign. -/
  build : Option String
deriving DecidableEq, Repr

namespace Semantic

/-- The numbers of the core. -/
def numbers (v : Semantic) : List Nat :=
  v.major :: v.rest

/-- What the core goes on with past its written components. -/
def pad (v : Semantic) : Component :=
  if v.wild then .wildcard else .number 0

/-- The written components. -/
def components (v : Semantic) : List Component :=
  v.numbers.map .number ++ if v.wild then [.wildcard] else []

/-- How many components are written. -/
def size (v : Semantic) : Nat :=
  v.components.length

/-- The component at a position, written or not. -/
def component (v : Semantic) (pos : Nat) : Component :=
  (v.components[pos]?).getD v.pad

/-- Why there is no component. -/
inductive PositionError where
  /-- The position is negative. -/
  | negative
deriving DecidableEq, Repr

/-- The text of an error. -/
def PositionError.message : PositionError → String
  | .negative => "Tried to access negative version number component!"

/-- The component at a position that may be negative. -/
def componentAt? (v : Semantic) : Int → Except PositionError Component
  | .ofNat pos => .ok (v.component pos)
  | .negSucc _ => .error .negative

/-- The text of a version: its components with dots between them, then prerelease and build. -/
def chars (v : Semantic) : List Char :=
  ['.'].intercalate (v.components.map Component.chars) ++
    (v.prerelease.map fun p => '-' :: p.toList).getD [] ++
      (v.build.map fun b => '+' :: b.toList).getD []

/-- The text of a version. -/
def text (v : Semantic) : String :=
  String.ofList v.chars

/-- Whether two versions agree in every component. -/
def SameCore (a b : Semantic) : Prop :=
  ∀ pos < max a.size b.size, a.component pos = b.component pos

instance (a b : Semantic) : Decidable (a.SameCore b) :=
  inferInstanceAs (Decidable (∀ pos < max a.size b.size, _))

/-- Two versions are the same when they agree in every component, in prerelease and in build. -/
def Same (a b : Semantic) : Prop :=
  a.SameCore b ∧ a.prerelease = b.prerelease ∧ a.build = b.build

instance (a b : Semantic) : Decidable (a.Same b) :=
  inferInstanceAs (Decidable (_ ∧ _ ∧ _))

/-- A list without the zeros at its end. -/
def dropTrailingZeros (l : List Nat) : List Nat :=
  (l.reverse.dropWhile (· == 0)).reverse

/-- The shortest of all versions that are the same as this one. -/
def canonical (v : Semantic) : Semantic :=
  if v.wild then v else { v with rest := dropTrailingZeros v.rest }

end Semantic

/-- A version: semantic, or a label that is no more than its text. -/
inductive Version where
  /-- A version with a core of numbers. -/
  | semantic (v : Semantic)
  /-- A version that is only known by its text. -/
  | label (name : String)
deriving DecidableEq, Repr

namespace Version

/-- The text of a version. -/
def text : Version → String
  | .semantic v => v.text
  | .label name => name

/-- The version as a semantic one. -/
def semantic? : Version → Option Semantic
  | .semantic v => some v
  | .label _ => none

/-- Whether the version is semantic. -/
def isSemantic (v : Version) : Bool :=
  v.semantic?.isSome

/-- Two versions are the same: as semantic versions, or as labels with one name. -/
def Same : Version → Version → Prop
  | .semantic a, .semantic b => a.Same b
  | .label a, .label b => a = b
  | _, _ => False

instance (a b : Version) : Decidable (a.Same b) :=
  match a, b with
  | .semantic a, .semantic b => inferInstanceAs (Decidable (a.Same b))
  | .label a, .label b => inferInstanceAs (Decidable (a = b))
  | .semantic _, .label _ => inferInstanceAs (Decidable False)
  | .label _, .semantic _ => inferInstanceAs (Decidable False)

/-- One version out of each class of same versions. -/
def canonical : Version → Version
  | .semantic v => .semantic v.canonical
  | .label name => .label name

/-- The word for the kind of a version. -/
def kindName : Version → String
  | .semantic _ => "SemanticVersion"
  | .label _ => "StringVersion"

/-- A version in literal form. -/
def literal : Version → String
  | .semantic v => s!"SemanticVersion({Text.quoted v.text})"
  | .label name => s!"StringVersion(friendly_string={Text.quoted name})"

/-- The label of a given name, which must not be empty. -/
def label? (name : String) : Option Version :=
  if name = "" then none else some (.label name)

end Version

end Semrange
