import Semrange.Interval.Basic

/-!
# Intersection

The versions that two intervals share, as an interval or as nothing. Two spans share what lies
between the greater of the lower ends and the smaller of the upper ends. Where labels are involved
only intervals around one label share anything, and the interval of all versions with each.
-/

namespace Semrange

/-- The flag of an end that two intervals share: inclusive where both are. -/
def Reach.meetFlags : Option Bool → Option Bool → Option Bool
  | none, j => j
  | i, none => i
  | some i, some j => some (i && j)

/-- The reach with the given ends; none if they exclude the label between them. -/
def Reach.ofFlags : Option Bool → Option Bool → Option Reach
  | some i, some j => if i && j then some (.within i j) else none
  | some i, none => some (.above i)
  | none, some j => some (.below j)
  | none, none => none

/-- What two intervals around one label share. -/
def Reach.intersect (r s : Reach) : Option Reach :=
  ofFlags (meetFlags r.lower? s.lower?) (meetFlags r.upper? s.upper?)

namespace Interval

/-- The span between two ends, if there is room between them. -/
def spanBetween (lower upper : Option End) : Option Interval :=
  if leavesRoom lower upper then some (.span lower upper) else none

/-- What two spans, given by their ends, share. -/
def intersectSpans (al au bl bu : Option End) : Option Interval :=
  match compareLower al bl, compareUpper au bu with
  | .eq, .gt => some (.span bl bu)
  | .eq, _ => some (.span al au)
  | .lt, .lt => spanBetween bl au
  | .lt, _ => some (.span bl bu)
  | .gt, .gt => spanBetween al bu
  | .gt, _ => some (.span al au)

/-- What two intervals share. -/
def intersect : Interval → Interval → Option Interval
  | .span al au, .span bl bu => intersectSpans al au bl bu
  | .around s r, .around t q => if s = t then (r.intersect q).map (.around s) else none
  | .span none none, .around s r => (Reach.ofFlags r.lower? r.upper?).map (.around s)
  | .around s r, .span none none => (Reach.ofFlags r.lower? r.upper?).map (.around s)
  | _, _ => none

/-- What two intervals, either of which may be empty, share. -/
def intersect? (a b : Option Interval) : Option Interval :=
  a.bind fun i => b.bind fun j => i.intersect j

end Interval

end Semrange
