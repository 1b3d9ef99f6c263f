import Semrange.Version.Order

/-!
# Comparison operators

The seven operators that relate a version to a reference version. `holds` tests a version; `lower`
and `upper` give the bounds of the versions that pass, as versions, and `lowerInclusive` and
`upperInclusive` say whether these pass themselves. The tests of `~` and `^` fix the first two
components or the first one; their upper bounds are the lowest prereleases of the next line, which
no version of that line comes before.
-/

namespace Semrange

/-- A comparison with a reference version. -/
inductive Operator where
  /-- At or above the reference. -/
  | atLeast
  /-- At or below the reference. -/
  | atMost
  /-- Above the reference. -/
  | above
  /-- Below the reference. -/
  | below
  /-- At the reference. -/
  | equal
  /-- At or above the reference, with its first two components. -/
  | sameMinor
  /-- At or above the reference, with its first component. -/
  | sameMajor
deriving DecidableEq, Repr

namespace Operator

/-- All operators, of two where one starts with the other the longer one first. -/
def all : List Operator :=
  [atLeast, atMost, above, below, equal, sameMinor, sameMajor]

/-- An operator as it is written. -/
def chars : Operator → List Char
  | atLeast => ['>', '=']
  | atMost => ['<', '=']
  | above => ['>']
  | below => ['<']
  | equal => ['=']
  | sameMinor => ['~']
  | sameMajor => ['^']

/-- The text of an operator. -/
def text (op : Operator) : String :=
  String.ofList op.chars

/-- Why a text is no operator. -/
inductive NameError where
  /-- No operator is written like this. -/
  | unknown (name : String)
deriving DecidableEq, Repr

/-- The text of an error. -/
def NameError.message : NameError → String
  | .unknown name => s!"{Text.quoted name} is not a valid ComparisonOperator"

/-- The operator with the given text. -/
def ofText (s : String) : Except NameError Operator :=
  match all.find? fun op => op.text == s with
  | some op => .ok op
  | none => .error (.unknown s)

/-- Takes the operator off the front of a token; a token that starts with none has `equal`. -/
def split (token : List Char) : Operator × List Char :=
  match all.find? fun op => op.chars.isPrefixOf token with
  | some op => (op, token.drop op.chars.length)
  | none => (equal, token)

/-- Whether the lower bound passes itself. -/
def lowerInclusive : Operator → Bool
  | atLeast | equal | sameMinor | sameMajor => true
  | atMost | above | below => false

/-- Whether the upper bound passes itself. -/
def upperInclusive : Operator → Bool
  | atMost | equal => true
  | atLeast | above | below | sameMinor | sameMajor => false

/-- Whether a semantic version passes with a semantic reference. -/
def test (op : Operator) (v ref : Semantic) : Bool :=
  match op with
  | atLeast => (v.compare ref).isGE
  | atMost => (v.compare ref).isLE
  | above => (v.compare ref).isGT
  | below => (v.compare ref).isLT
  | equal => (v.compare ref).isEq
  | sameMinor =>
    (v.compare ref).isGE && v.component 0 == ref.component 0 && v.component 1 == ref.component 1
  | sameMajor => (v.compare ref).isGE && v.component 0 == ref.component 0

/-- Whether a version passes with a reference. Where one of the two is a label, equality is all that
can be told: the texts must agree, and the operator must let one of its bounds pass. -/
def holds (op : Operator) (v ref : Version) : Bool :=
  match v, ref with
  | .semantic v, .semantic ref => op.test v ref
  | v, ref => (op.lowerInclusive || op.upperInclusive) && v.text == ref.text

/-- Why a bound could not be derived. -/
inductive BoundError where
  /-- The component to be raised is a wildcard. -/
  | wildcard
  /-- The raised component has no numeral. -/
  | numeral (fault : Numeral.Fault)
deriving DecidableEq, Repr

/-- The text of an error. -/
def BoundError.message : BoundError → String
  | .wildcard => "unsupported operand type(s) for +: 'Wildcard' and 'int'"
  | .numeral fault => fault.message

/-- The component after a component. -/
def nextComponent : Component → Except BoundError Nat
  | .wildcard => .error .wildcard
  | .number n =>
    if Numeral.Writable (n + 1) then .ok (n + 1) else .error (.numeral .unwritable)

/-- The lower bound of the versions that pass with the reference, if they have one. -/
def lower (op : Operator) (ref : Semantic) : Option Semantic :=
  match op with
  | atLeast | above | equal | sameMinor | sameMajor => some ref
  | atMost | below => none

/-- The upper bound of the versions that pass with the reference, if they have one. -/
def upper (op : Operator) (ref : Semantic) : Except BoundError (Option Semantic) :=
  match op with
  | atMost | below | equal => .ok (some ref)
  | atLeast | above => .ok none
  | sameMinor => (nextComponent (ref.component 1)).map fun n =>
      some ⟨ref.major, [n], false, some "", none⟩
  | sameMajor => (nextComponent (ref.component 0)).map fun n =>
      some ⟨n, [], false, some "", none⟩

end Operator

end Semrange
