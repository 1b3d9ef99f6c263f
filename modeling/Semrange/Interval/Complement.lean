import Semrange.Interval.Union

/-!
# Complements

The versions outside an interval, as none, one or two intervals, and those outside a union of
intervals. The latter is the intersection of the complements of the members, except that the
complement of a single interval is left as it is.
-/

namespace Semrange.Interval

/-- Whether an interval is empty because its ends are one version that belongs to neither. -/
def isHollow : Interval → Bool
  | .span (some e) (some f) =>
    decide (e.version.Same f.version) && !e.inclusive && !f.inclusive
  | .around _ (.within lower upper) => !lower && !upper
  | _ => false

/-- The versions outside an interval. -/
def complement (i : Interval) : List Interval :=
  if i.isHollow then [all]
  else
    match i with
    | .span lower upper =>
      (lower.map fun e => Interval.span none (some e.flip)).toList ++
        (upper.map fun e => Interval.span (some e.flip) none).toList
    | .around name reach =>
      (reach.lower?.map fun i => Interval.around name (.below !i)).toList ++
        (reach.upper?.map fun i => Interval.around name (.above !i)).toList

/-- The versions outside an interval that may be empty. -/
def complement? (i : Option Interval) : List Interval :=
  (i.map complement).getD [all]

/-- The versions outside all of the intervals, any of which may be empty. -/
def complementAll : List (Option Interval) → List Interval
  | [] => [all]
  | i :: l => l.foldl (fun known j => intersectAll known (complement? j)) (complement? i)

end Semrange.Interval
