import Semrange.Interval.Intersection

/-!
# Unions of intervals

A set of versions is kept as a list of intervals. `insert` adds an interval to such a list and joins
it with the members that it overlaps or touches, so that a list built by insertions holds its spans
in ascending order and apart. Intervals around labels keep the places at which their labels first
came; all that is known of one label is added up (`Coverage`), and once everything about it is
covered the list collapses to the interval of all versions.
-/

namespace Semrange

/-- What is covered around a label. -/
structure Coverage where
  /-- All that lies below the label. -/
  below : Bool
  /-- The label itself. -/
  point : Bool
  /-- All that lies above the label. -/
  above : Bool
deriving DecidableEq, Repr

namespace Coverage

/-- What is covered by either of two. -/
def or (c d : Coverage) : Coverage :=
  ⟨c.below || d.below, c.point || d.point, c.above || d.above⟩

/-- Whether everything is covered. -/
def isFull (c : Coverage) : Bool :=
  c.below && c.point && c.above

/-- The reaches that together cover just this much, for a coverage that is not full. -/
def reaches : Coverage → List Reach
  | ⟨true, _, true⟩ => [.below false, .above false]
  | ⟨true, point, false⟩ => [.below point]
  | ⟨false, point, true⟩ => [.above point]
  | ⟨false, true, false⟩ => [.within true true]
  | ⟨false, false, false⟩ => []

end Coverage

/-- What an interval around a label covers. -/
def Reach.coverage : Reach → Coverage
  | .below inclusive => ⟨true, inclusive, false⟩
  | .above inclusive => ⟨false, inclusive, true⟩
  | .within lower upper => ⟨false, lower && upper, false⟩

namespace Interval

/-- The reach of an interval around the given label. -/
def reachAround? (name : String) : Interval → Option Reach
  | .around s r => if s = name then some r else none
  | .span _ _ => none

/-- Adds an interval around a label to a list of intervals. -/
def insertAround (name : String) (reach : Reach) (l : List Interval) : List Interval :=
  match l.filterMap (reachAround? name) with
  | [] => l ++ [.around name reach]
  | known =>
    let covered := known.foldl (fun c r => c.or r.coverage) reach.coverage
    if covered.isFull then [all]
    else
      l.takeWhile (fun i => (reachAround? name i).isNone) ++
        covered.reaches.map (.around name) ++
          (l.dropWhile fun i => (reachAround? name i).isNone).filter fun i =>
            (reachAround? name i).isNone

/-- Adds a span, given by its ends, to a list of intervals; none if all versions are covered then.
The span grows on its way through the list by the members that it swallows. -/
def insertSpan (lower upper : Option End) : List Interval → Option (List Interval)
  | [] => some [.span lower upper]
  | .around s r :: l => (insertSpan lower upper l).map (.around s r :: ·)
  | .span cl cu :: l =>
    match lower, cu with
    | none, none =>
      -- downward without end meets upward without end
      if reaches upper cl then none else some (.span lower upper :: .span cl cu :: l)
    | none, some _ =>
      if (compareUpper upper cu).isGE then insertSpan lower upper l
      else if cl.isNone then some (.span cl cu :: l)
      else if reaches upper cl then some (.span none cu :: l)
      else some (.span lower upper :: .span cl cu :: l)
    | some _, none =>
      if (compareLower lower cl).isGE then some (.span cl cu :: l)
      else if upper.isNone then some [.span lower upper]
      else if reaches upper cl then some (.span lower none :: l)
      else some (.span lower upper :: .span cl cu :: l)
    | some _, some _ =>
      if reaches cu lower then
        if reaches upper cl then
          if (compareUpper upper cu).isLE then
            if compareLower lower cl = .lt then some (.span lower cu :: l)
            else some (.span cl cu :: l)
          else if compareLower lower cl = .gt then
            if cl.isNone && upper.isNone then none else insertSpan cl upper l
          else insertSpan lower upper l
        else some (.span lower upper :: .span cl cu :: l)
      else (insertSpan lower upper l).map (.span cl cu :: ·)

/-- Adds an interval to a list of intervals. -/
def insert (i : Interval) (l : List Interval) : List Interval :=
  if l.isEmpty then [i]
  else if l = [all] then l
  else
    match i with
    | .around name reach => insertAround name reach l
    | .span none none => [all]
    | .span lower upper => (insertSpan lower upper l).getD [all]

/-- The union of intervals. -/
def unionAll (l : List Interval) : List Interval :=
  l.foldl (fun known i => insert i known) []

/-- The union of intervals and one more. -/
def union (l : List Interval) (i : Interval) : List Interval :=
  unionAll (l ++ [i])

/-- What two unions of intervals share. -/
def intersectAll (a b : List Interval) : List Interval :=
  unionAll (a.flatMap fun i => b.filterMap fun j => i.intersect j)

end Interval

end Semrange
