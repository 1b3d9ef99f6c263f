import Semrange.Version.Basic

/-!
# The order of versions

Semantic versions compare by their cores, place by place with padding, where a wildcard agrees with
everything; at equal cores by their prereleases, a release coming after all its prereleases. A
wildcard on either side also evens out the difference between a release and a prerelease. The build
plays no part. If one of two versions is a label, their texts are compared by code points.

Prereleases compare identifier by identifier, where empty identifiers are passed over: a number
comes before a word, numbers compare as numbers, words by code points, and the shorter list first.
-/

namespace Semrange

/-- Compares two places of a core. -/
def Component.compare : Component → Component → Ordering
  | .number m, .number n => Ord.compare m n
  | _, _ => .eq

namespace Semantic

/-- Compares a pad, repeated, with the numbers of a core. -/
def comparePad (pad : Component) : List Nat → Ordering
  | [] => .eq
  | b :: bs => (pad.compare (.number b)).then (comparePad pad bs)

/-- Compares two cores, each padded at its end. -/
def compareCores (padA padB : Component) : List Nat → List Nat → Ordering
  | [], bs => comparePad padA bs
  | a :: as, [] => ((Component.number a).compare padB).then (compareCores padA padB as [])
  | a :: as, b :: bs => (Ord.compare a b).then (compareCores padA padB as bs)

/-- The identifiers of a prerelease. -/
def identifiers (prerelease : String) : List (List Char) :=
  (prerelease.toList.splitOn '.').filter fun i => !i.isEmpty

/-- Whether an identifier is a number: ASCII digits that do not start with an idle zero. -/
def isNumeric (i : List Char) : Bool :=
  i == ['0'] || (Numeral.isDigits i && i.head? != some '0')

/-- Compares two identifiers. Without idle zeros the longer of two numbers is the greater one. -/
def compareIdentifiers (i j : List Char) : Ordering :=
  match isNumeric i, isNumeric j with
  | true, true => (Ord.compare i.length j.length).then (Ord.compare i j)
  | true, false => .lt
  | false, true => .gt
  | false, false => Ord.compare i j

/-- Compares two prereleases. -/
def comparePrereleases (p q : String) : Ordering :=
  List.compareLex compareIdentifiers (identifiers p) (identifiers q)

/-- Compares what follows the core. A release comes after its prereleases, unless `lenient`. -/
def compareStages (lenient : Bool) : Option String → Option String → Ordering
  | none, none => .eq
  | some p, some q => comparePrereleases p q
  | some _, none => if lenient then .eq else .lt
  | none, some _ => if lenient then .eq else .gt

/-- Compares two semantic versions. -/
def compare (a b : Semantic) : Ordering :=
  (compareCores a.pad b.pad a.numbers b.numbers).then
    (compareStages (a.wild || b.wild) a.prerelease b.prerelease)

end Semantic

/-- Compares two versions. -/
def Version.compare : Version → Version → Ordering
  | .semantic a, .semantic b => a.compare b
  | a, b => Ord.compare a.text b.text

-- A number comes before a word, and the empty prerelease before all others.
example : Semantic.comparePrereleases "1.a" "1.2" = .gt ∧
    Semantic.comparePrereleases "" "0" = .lt := by decide

end Semrange
