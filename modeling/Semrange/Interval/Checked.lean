import Semrange.Interval.Complement

/-!
# The algebra with its checks

The operations of the algebra once more, over the bounds of intervals and with everything that could
go wrong on the way: an interval is only built by `ofBounds`, which may refuse its bounds, and a
version is only read off a bound that is there. Both end a computation with a `Fault`.

An `Operation` is applied to intervals that a computation has come by, and `attempt` makes it step by
step with these checks. `results` are those of the operations as they run, which have no such checks:
on their data there are no versions to read off missing ends and no intervals to refuse.
-/

namespace Semrange.Interval

/-- Why a computation on intervals stops. -/
inductive Fault where
  /-- An interval was to be built from bounds that bound none. -/
  | refused (e : BoundError)
  /-- The version at a missing bound was asked for. -/
  | missing
deriving DecidableEq, Repr

namespace Checked

/-! ## Bounds -/

/-- The version at a bound. -/
def versionAt : Option Bound → Except Fault Version
  | some b => .ok b.version
  | none => .error .missing

/-- Whether the version at a bound belongs to the interval; not where the bound is missing. -/
def holds (b : Option Bound) : Bool :=
  (b.map Bound.inclusive).getD false

/-- Compares the versions at two bounds. -/
def compareAt (b c : Option Bound) : Except Fault Ordering := do
  return (← versionAt b).compare (← versionAt c)

/-- The interval between two bounds. -/
def between (lower upper : Option Bound) : Except Fault Interval :=
  (ofBounds lower upper).mapError .refused

-- Bounds the wrong way around are refused, and no version is read off a bound that is missing.
example :
    let v (n : Nat) : Version := .semantic ⟨n, [], false, none, none⟩
    between (some ⟨v 2, true⟩) (some ⟨v 1, true⟩) = .error (.refused (.exceeds (v 2) (v 1))) ∧
      compareAt none (some ⟨v 1, true⟩) = .error .missing :=
  ⟨rfl, rfl⟩

/-- Compares the lower ends of two intervals. -/
def compareMin (a b : Interval) : Except Fault Ordering :=
  if a.lower?.isNone then return if b.lower?.isNone then .eq else .lt
  else if b.lower?.isNone then return .gt
  else do
    let o ← compareAt a.lower? b.lower?
    return if o = .gt || o = .eq && !holds a.lower? && holds b.lower? then .gt
      else if o = .lt || holds a.lower? && !holds b.lower? then .lt
      else .eq

/-- Compares the upper ends of two intervals. -/
def compareMax (a b : Interval) : Except Fault Ordering :=
  if a.upper?.isNone then return if b.upper?.isNone then .eq else .gt
  else if b.upper?.isNone then return .lt
  else do
    let o ← compareAt a.upper? b.upper?
    return if o = .lt || o = .eq && !holds a.upper? && holds b.upper? then .lt
      else if o = .gt || holds a.upper? && !holds b.upper? then .gt
      else .eq

/-- Whether the upper end of an interval reaches the lower end of another one. -/
def touchesBefore (a c : Interval) : Except Fault Bool := do
  let o ← compareAt a.upper? c.lower?
  return !(o = .lt || o = .eq && !holds a.upper? && !holds c.lower?)

/-- Whether an interval starts before another one ends, or where it ends. -/
def startsBeforeEnd (a c : Interval) : Except Fault Bool := do
  let o ← compareAt a.lower? c.upper?
  return o = .lt || o = .eq && (holds a.lower? || holds c.upper?)

/-- Whether an interval reaches another one, which it does where either end is missing. -/
def meets (a c : Interval) : Except Fault Bool :=
  if a.upper?.isNone || c.lower?.isNone then return true else touchesBefore a c

/-! ## Intersections -/

/-- The interval between a lower and an upper bound, if there is room between them. -/
def sharedBetween (lower upper : Option Bound) : Except Fault (Option Interval) := do
  let o ← compareAt lower upper
  if o = .lt || o = .eq && holds lower && holds upper then return some (← between lower upper)
  else return none

/-- What two spans share. -/
def intersectSemantic (a b : Interval) : Except Fault (Option Interval) := do
  match ← compareMin a b, ← compareMax a b with
  | .eq, .gt => return some b
  | .eq, _ => return some a
  | .lt, .eq => return some b
  | .gt, .eq => return some a
  | .lt, .gt => return some b
  | .lt, .lt => sharedBetween b.lower? a.upper?
  | .gt, .lt => return some a
  | .gt, .gt => sharedBetween a.lower? b.upper?

/-- One bound out of two at the same version, either of which may be missing. -/
def combine : Option Bound → Option Bound → Option Bound
  | none, c => c
  | b, none => b
  | some b, some c => some ⟨b.version, b.inclusive && c.inclusive⟩

/-- The interval between two bounds at one label, if the label lies between them. -/
def sharedPlain (lower upper : Option Bound) : Except Fault (Option Interval) := do
  if lower.isSome && upper.isSome && !(holds lower && holds upper) then return none
  else return some (← between lower upper)

/-- What two intervals share of which one is around a label. -/
def intersectPlain (a b : Interval) : Except Fault (Option Interval) :=
  let bounds := (a.lower?.toList ++ a.upper?.toList) ++ (b.lower?.toList ++ b.upper?.toList)
  match bounds with
  | [] => return some all
  | first :: _ =>
    if bounds.any fun c => !(c.version.Same first.version) then return none
    else sharedPlain (combine a.lower? b.lower?) (combine a.upper? b.upper?)

/-- What two intervals, either of which may be empty, share. -/
def intersect : Option Interval → Option Interval → Except Fault (Option Interval)
  | some a, some b =>
    if a.isSemantic && b.isSemantic then intersectSemantic a b else intersectPlain a b
  | _, _ => return none

/-! ## Unions -/

/-- The version that bounds an interval around a label. -/
def plainVersion (i : Interval) : Except Fault Version :=
  if i.lower?.isSome then versionAt i.lower? else versionAt i.upper?

/-- What an interval around a label covers. -/
def plainShape (i : Interval) : Coverage :=
  ⟨i.lower?.isNone, (i.lower?.isNone || holds i.lower?) && (i.upper?.isNone || holds i.upper?),
    i.upper?.isNone⟩

/-- The intervals at a version that together cover just this much. -/
def plainIntervals (v : Version) : Coverage → Except Fault (List Interval)
  | ⟨true, _, true⟩ => do
    return [← between none (some ⟨v, false⟩), ← between (some ⟨v, false⟩) none]
  | ⟨true, point, false⟩ => do return [← between none (some ⟨v, point⟩)]
  | ⟨false, point, true⟩ => do return [← between (some ⟨v, point⟩) none]
  | ⟨false, true, false⟩ => do return [← between (some ⟨v, true⟩) (some ⟨v, true⟩)]
  | ⟨false, false, false⟩ => return []

/-- Whether an interval is bounded by the given version, which is a label. -/
def isAround (v : Version) (i : Interval) : Except Fault Bool :=
  if i.isSemantic then return false else do return (← plainVersion i).Same v

/-- Adds an interval around a label to a list of intervals. -/
def mergePlain (i : Interval) (l : List Interval) : Except Fault (List Interval) := do
  let v ← plainVersion i
  let marked := l.zip (← l.mapM (isAround v))
  match (marked.filter Prod.snd).map Prod.fst with
  | [] => return l ++ [i]
  | known =>
    let covered := known.foldl (fun c j => c.or (plainShape j)) (plainShape i)
    if covered.isFull then return [all]
    else
      return (marked.takeWhile fun m => !m.2).map Prod.fst ++ (← plainIntervals v covered) ++
        ((marked.dropWhile fun m => !m.2).filter fun m => !m.2).map Prod.fst

/-- Adds a span to a list of intervals; none if all versions are covered then. -/
def mergeSemantic (a : Interval) : List Interval → Except Fault (Option (List Interval))
  | [] => return some [a]
  | c :: l =>
    if !c.isSemantic then do return (← mergeSemantic a l).map (c :: ·)
    else if a.lower?.isNone then
      if c.upper?.isNone then do
        if ← touchesBefore a c then return none else return some (a :: c :: l)
      else do
        if (← compareMax a c).isGE then mergeSemantic a l
        else if c.lower?.isNone then return some (c :: l)
        else if ← touchesBefore a c then return some ((← between none c.upper?) :: l)
        else return some (a :: c :: l)
    else if c.upper?.isNone then do
      if (← compareMin a c).isGE then return some (c :: l)
      else if a.upper?.isNone then return some [a]
      else if ← touchesBefore a c then return some ((← between a.lower? none) :: l)
      else return some (a :: c :: l)
    else do
      if ← startsBeforeEnd a c then
        if ← meets a c then
          let lower ← compareMin a c
          let upper ← compareMax a c
          if upper.isLE then
            if lower = .lt then return some ((← between a.lower? c.upper?) :: l)
            else return some (c :: l)
          else if lower = .gt then
            let grown ← between c.lower? a.upper?
            if grown.isAll then return none else mergeSemantic grown l
          else mergeSemantic a l
        else return some (a :: c :: l)
      else return (← mergeSemantic a l).map (c :: ·)

/-- Adds an interval that may be empty to a list of intervals. -/
def insert (i : Option Interval) (l : List Interval) : Except Fault (List Interval) :=
  match i with
  | none => return l
  | some i =>
    if l.isEmpty then return [i]
    else if l = [all] then return l
    else if !i.isSemantic then mergePlain i l
    else if i.isAll then return [all]
    else do return (← mergeSemantic i l).getD [all]

/-- The union of intervals, any of which may be empty. -/
def unionAll (l : List (Option Interval)) : Except Fault (List Interval) :=
  l.foldlM (fun known i => insert i known) []

/-- The union of intervals and one more, any of which may be empty. -/
def union (l : List (Option Interval)) (i : Option Interval) : Except Fault (List Interval) := do
  insert i (← unionAll l)

/-- What two unions of intervals share. -/
def intersectAll (a b : List (Option Interval)) : Except Fault (List Interval) := do
  let pieces ← a.mapM fun i => b.mapM fun j => intersect i j
  unionAll pieces.flatten

/-! ## Complements -/

/-- The bound at the same version on the other side of it. -/
def flipped (b : Option Bound) : Except Fault Bound := do
  return ⟨← versionAt b, !holds b⟩

/-- The versions outside an interval that may be empty. -/
def complement : Option Interval → Except Fault (List Interval)
  | none => return [all]
  | some i =>
    if i.lower?.isNone then
      if i.upper?.isNone then return []
      else do return [← between (some (← flipped i.upper?)) none]
    else if i.upper?.isNone then do return [← between none (some (← flipped i.lower?))]
    else do
      let lower ← versionAt i.lower?
      let upper ← versionAt i.upper?
      if lower.Same upper && !holds i.lower? && !holds i.upper? then return [all]
      else
        return [← between none (some (← flipped i.lower?)),
          ← between (some (← flipped i.upper?)) none]

/-- The versions outside all of the intervals, any of which may be empty. -/
def complementAll : List (Option Interval) → Except Fault (List Interval)
  | [] => return [all]
  | i :: l => do
    l.foldlM (fun known j => do intersectAll (known.map some) ((← complement j).map some))
      (← complement i)

end Checked

/-! ## Computations -/

/-- A step of a computation. The intervals that it is applied to stand at the given places among those
that are known so far, any of which may be empty. -/
inductive Operation where
  /-- The union of intervals and one more. -/
  | union (l : List Nat) (i : Nat)
  /-- The union of intervals. -/
  | unionAll (l : List Nat)
  /-- What two intervals share. -/
  | intersect (i j : Nat)
  /-- What two lists of intervals share. -/
  | intersectAll (a b : List Nat)
  /-- The versions outside an interval. -/
  | complement (i : Nat)
  /-- The versions outside a list of intervals. -/
  | complementAll (l : List Nat)
deriving DecidableEq, Repr

/-- The interval at a place, or the empty one where there is none. -/
def known (store : List (Option Interval)) (place : Nat) : Option Interval :=
  store.getD place none

/-- What an operation makes of the intervals in a store, with its checks. -/
def Operation.attempt (store : List (Option Interval)) :
    Operation → Except Fault (List (Option Interval))
  | .union l i => do
    return (← Checked.union (l.map (known store)) (known store i)).map some
  | .unionAll l => do return (← Checked.unionAll (l.map (known store))).map some
  | .intersect i j => do return [← Checked.intersect (known store i) (known store j)]
  | .intersectAll a b => do
    return (← Checked.intersectAll (a.map (known store)) (b.map (known store))).map some
  | .complement i => do return (← Checked.complement (known store i)).map some
  | .complementAll l => do return (← Checked.complementAll (l.map (known store))).map some

/-- What an operation makes of the intervals in a store. -/
def Operation.results (store : List (Option Interval)) : Operation → List (Option Interval)
  | .union l i => (Interval.unionAll ((l ++ [i]).filterMap (known store))).map some
  | .unionAll l => (Interval.unionAll (l.filterMap (known store))).map some
  | .intersect i j => [intersect? (known store i) (known store j)]
  | .intersectAll a b =>
    (Interval.intersectAll (a.filterMap (known store)) (b.filterMap (known store))).map some
  | .complement i => (complement? (known store i)).map some
  | .complementAll l => (Interval.complementAll (l.map (known store))).map some

/-- Makes operations one after another with their checks, each of them on all intervals known by
then. -/
def attempt (store : List (Option Interval)) :
    List Operation → Except Fault (List (Option Interval))
  | [] => return store
  | op :: ops => do attempt (store ++ (← op.attempt store)) ops

/-- All intervals known after some operations. -/
def outcome (store : List (Option Interval)) : List Operation → List (Option Interval)
  | [] => store
  | op :: ops => outcome (store ++ op.results store) ops

end Semrange.Interval
