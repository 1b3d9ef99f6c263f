import Semrange.Version.Order

/-!
# The ends of an interval

An interval of semantic versions has an end on each side, or none where it is unbounded. An end is a
version and whether that version still belongs to the interval. Ends of one side are ordered by what
they admit: `compareLower` puts the lower end that admits more first, `compareUpper` the upper end
that admits less.
-/

namespace Semrange

/-- An end of an interval of semantic versions. -/
structure End where
  /-- The version at the end. -/
  version : Semantic
  /-- Whether that version belongs to the interval. -/
  inclusive : Bool
deriving DecidableEq, Repr

namespace End

/-- Two ends are the same when their versions are and both or neither belong to the interval. -/
def Same (e f : End) : Prop :=
  e.version.Same f.version ∧ e.inclusive = f.inclusive

instance (e f : End) : Decidable (e.Same f) :=
  inferInstanceAs (Decidable (_ ∧ _))

/-- Two ends, either of which may be missing, are the same when both are missing or both are there and
are the same. -/
def SameOrNone : Option End → Option End → Prop
  | none, none => True
  | some e, some f => e.Same f
  | _, _ => False

instance (e f : Option End) : Decidable (SameOrNone e f) :=
  match e, f with
  | none, none => inferInstanceAs (Decidable True)
  | some e, some f => inferInstanceAs (Decidable (e.Same f))
  | none, some _ => inferInstanceAs (Decidable False)
  | some _, none => inferInstanceAs (Decidable False)

/-- The end at the same version on the other side of it. -/
def flip (e : End) : End :=
  { e with inclusive := !e.inclusive }

end End

/-- Whether a lower end, or none, admits a version. -/
def admitsAbove (lower : Option End) (v : Semantic) : Bool :=
  match lower with
  | none => true
  | some e =>
    match v.compare e.version with
    | .gt => true
    | .eq => e.inclusive
    | .lt => false

/-- Whether an upper end, or none, admits a version. -/
def admitsBelow (upper : Option End) (v : Semantic) : Bool :=
  match upper with
  | none => true
  | some e =>
    match v.compare e.version with
    | .lt => true
    | .eq => e.inclusive
    | .gt => false

/-- Compares two lower ends. None comes first; at one version the inclusive end does. -/
def compareLower : Option End → Option End → Ordering
  | none, none => .eq
  | none, some _ => .lt
  | some _, none => .gt
  | some e, some f => (e.version.compare f.version).then (compare f.inclusive e.inclusive)

/-- Compares two upper ends. None comes last; at one version the inclusive end does. -/
def compareUpper : Option End → Option End → Ordering
  | none, none => .eq
  | none, some _ => .gt
  | some _, none => .lt
  | some e, some f => (e.version.compare f.version).then (compare e.inclusive f.inclusive)

/-- Whether an upper end reaches a lower end: the two overlap, or one of them holds the version
where they meet. Where an end is missing, it does. -/
def reaches (upper lower : Option End) : Bool :=
  match upper, lower with
  | some e, some f =>
    match e.version.compare f.version with
    | .lt => false
    | .eq => e.inclusive || f.inclusive
    | .gt => true
  | _, _ => true

/-- Whether there is room between a lower and an upper end: they overlap, or both hold the version
where they meet. Where an end is missing, there is. -/
def leavesRoom (lower upper : Option End) : Bool :=
  match lower, upper with
  | some e, some f =>
    match e.version.compare f.version with
    | .lt => true
    | .eq => e.inclusive && f.inclusive
    | .gt => false
  | _, _ => true

end Semrange
