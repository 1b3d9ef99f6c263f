import Semrange.Interval.End

/-!
# Intervals of versions

An interval is a span of semantic versions between two ends, either of which may be missing, or it
is an interval around a label. Labels have no order, so the latter is known only by its label and by
what it covers of three things: the label itself, what lies below it and what lies above it (`Reach`).

`ofBounds` builds an interval from loose bounds and refuses those that bound nothing. An interval is
`Valid` when its own bounds are not refused.
-/

namespace Semrange

/-- A version that bounds an interval, and whether it belongs to it. -/
structure Bound where
  /-- The version. -/
  version : Version
  /-- Whether it belongs to the interval. -/
  inclusive : Bool
deriving DecidableEq, Repr

/-- How far an interval around a label reaches. -/
inductive Reach where
  /-- Downward without end from the label. -/
  | below (inclusive : Bool)
  /-- Upward without end from the label. -/
  | above (inclusive : Bool)
  /-- From the label to itself; the flags belong to the lower and the upper end. -/
  | within (lower upper : Bool)
deriving DecidableEq, Repr

/-- The flag of the lower end, if there is one. -/
def Reach.lower? : Reach → Option Bool
  | .below _ => none
  | .above inclusive => some inclusive
  | .within lower _ => some lower

/-- The flag of the upper end, if there is one. -/
def Reach.upper? : Reach → Option Bool
  | .below inclusive => some inclusive
  | .above _ => none
  | .within _ upper => some upper

/-- A contiguous set of versions. -/
inductive Interval where
  /-- The semantic versions between two ends. -/
  | span (lower upper : Option End)
  /-- An interval around a label. -/
  | around (name : String) (reach : Reach)
deriving DecidableEq, Repr

namespace Interval

/-- The interval of all versions. -/
def all : Interval := .span none none

/-- The lower bound, if there is one. -/
def lower? : Interval → Option Bound
  | .span lower _ => lower.map fun e => ⟨.semantic e.version, e.inclusive⟩
  | .around name reach => reach.lower?.map fun i => ⟨.label name, i⟩

/-- The upper bound, if there is one. -/
def upper? : Interval → Option Bound
  | .span _ upper => upper.map fun e => ⟨.semantic e.version, e.inclusive⟩
  | .around name reach => reach.upper?.map fun i => ⟨.label name, i⟩

/-- Why two bounds bound no interval. -/
inductive BoundError where
  /-- The lower bound is greater than the upper one. -/
  | exceeds (lower upper : Version)
  /-- One of two different bounds is a label. -/
  | unordered (lower upper : Version)
deriving DecidableEq, Repr

/-- The text of an error. -/
def BoundError.message : BoundError → String
  | .exceeds lower upper =>
    s!"Interval lower bound {lower.text} exceeds upper bound {upper.text}"
  | .unordered lower upper =>
    s!"Interval with non-semantic bounds must be a single version: {lower.text}, {upper.text}"

/-- The interval between two bounds, either of which may be missing. -/
def ofBounds : Option Bound → Option Bound → Except BoundError Interval
  | none, none => .ok all
  | some ⟨.semantic a, i⟩, none => .ok (.span (some ⟨a, i⟩) none)
  | some ⟨.label s, i⟩, none => .ok (.around s (.above i))
  | none, some ⟨.semantic b, j⟩ => .ok (.span none (some ⟨b, j⟩))
  | none, some ⟨.label t, j⟩ => .ok (.around t (.below j))
  | some ⟨.semantic a, i⟩, some ⟨.semantic b, j⟩ =>
    if a.compare b = .gt then .error (.exceeds (.semantic a) (.semantic b))
    else .ok (.span (some ⟨a, i⟩) (some ⟨b, j⟩))
  | some ⟨.label s, i⟩, some ⟨.label t, j⟩ =>
    if s = t then .ok (.around s (.within i j)) else .error (.unordered (.label s) (.label t))
  | some a, some b => .error (.unordered a.version b.version)

/-- An interval is valid when its lower end is not greater than its upper end. -/
def Valid : Interval → Prop
  | .span (some a) (some b) => a.version.compare b.version ≠ .gt
  | _ => True

/-- Whether the interval is bounded by semantic versions alone, or not at all. -/
def isSemantic : Interval → Bool
  | .span _ _ => true
  | .around _ _ => false

/-- Whether the interval is unbounded on both sides. -/
def isAll : Interval → Bool
  | .span none none => true
  | _ => false

/-- Whether an interval contains a version. Where labels are involved there is no order, so every
bound that is there must be inclusive and have the version's text. -/
def contains : Interval → Version → Bool
  | .span lower upper, .semantic v => admitsAbove lower v && admitsBelow upper v
  | i, v =>
    (i.lower?.toList ++ i.upper?.toList).all fun b => b.inclusive && b.version.text == v.text

/-- Two intervals are the same when they have the same ends. -/
def Same : Interval → Interval → Prop
  | .span a b, .span c d => End.SameOrNone a c ∧ End.SameOrNone b d
  | .around s r, .around t q => s = t ∧ r = q
  | _, _ => False

instance (i j : Interval) : Decidable (i.Same j) :=
  match i, j with
  | .span a b, .span c d =>
    inferInstanceAs (Decidable (End.SameOrNone a c ∧ End.SameOrNone b d))
  | .around s r, .around t q => inferInstanceAs (Decidable (s = t ∧ r = q))
  | .span _ _, .around _ _ => inferInstanceAs (Decidable False)
  | .around _ _, .span _ _ => inferInstanceAs (Decidable False)

/-- The text of an interval: brackets at inclusive ends, parentheses at the others. -/
def text (i : Interval) : String :=
  let left := match i.lower? with
    | none => "(-∞"
    | some b => (if b.inclusive then "[" else "(") ++ b.version.text
  let right := match i.upper? with
    | none => "∞)"
    | some b => b.version.text ++ if b.inclusive then "]" else ")"
  left ++ "," ++ right

end Interval

end Semrange
