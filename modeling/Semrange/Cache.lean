import Semrange.Predicate.Parser

/-!
# A cache of predicates

Predicates are kept by their range expressions for a limited time. A slot is stale once the clock is
past its deadline; stale slots are never handed out, and now and then all of them are swept away. At
most `capacity` slots are kept, and the ones stored longest ago go first. The clock is an argument
of every operation and may run backwards. Moments are whole numbers, so a deadline is exact however
far off it is.
-/

namespace Semrange

/-- What is stored for an expression. -/
structure Cache.Slot where
  /-- The expression. -/
  expression : String
  /-- The predicate that is stored for it. -/
  predicate : Predicate
  /-- The last moment at which the slot is not stale. -/
  deadline : Int
deriving DecidableEq, Repr

/-- A cache. -/
structure Cache where
  /-- How long a slot is kept, unless it is said otherwise. -/
  defaultLifetime : Int
  /-- How many slots are kept. -/
  capacity : Nat
  /-- How long it takes from one sweep to the next. -/
  sweepInterval : Int
  /-- The slots, those stored longest ago first. -/
  slots : List Cache.Slot
  /-- The moment from which on the next operation sweeps. -/
  nextSweep : Int
deriving DecidableEq, Repr

namespace Cache

/-- An empty cache that is made at a moment; it keeps one slot at least. -/
def new (defaultLifetime maxEntries sweepInterval now : Int) : Cache :=
  ⟨defaultLifetime, (max 1 maxEntries).toNat, sweepInterval, [], now + sweepInterval⟩

/-- Whether a slot is stale. -/
def Slot.isStale (s : Slot) (now : Int) : Bool :=
  decide (s.deadline < now)

/-- The cache after a sweep, if one is due. -/
def sweep (c : Cache) (now : Int) : Cache :=
  if now < c.nextSweep then c
  else
    { c with
      slots := c.slots.filter fun s => !s.isStale now
      nextSweep := now + c.sweepInterval }

/-- The slot of an expression. -/
def slot? (c : Cache) (expression : String) : Option Slot :=
  c.slots.find? fun s => s.expression == expression

/-- The slots of all other expressions. -/
def erase (expression : String) (slots : List Slot) : List Slot :=
  slots.filter fun s => s.expression != expression

/-- The predicate stored for an expression, unless it is stale; then its slot is given up. -/
def get (c : Cache) (now : Int) (expression : String) : Option Predicate × Cache :=
  let c := c.sweep now
  match c.slot? expression with
  | none => (none, c)
  | some s =>
    if s.isStale now then (none, { c with slots := erase expression c.slots })
    else (some s.predicate, c)

/-- Stores a predicate for an expression. -/
def set (c : Cache) (now : Int) (expression : String) (p : Predicate)
    (lifetime : Option Int) : Cache :=
  let c := c.sweep now
  let slots := erase expression c.slots ++
    [⟨expression, p, now + lifetime.getD c.defaultLifetime⟩]
  { c with slots := slots.drop (slots.length - c.capacity) }

/-- The predicate of an expression: the stored one, or else the one that the expression denotes,
which is then stored. The two moments are those of the look-up and of the storing. -/
def getOrParse (c : Cache) (lookedUp stored : Int) (expression : String) :
    Except Predicate.ParseError Predicate × Cache :=
  match c.get lookedUp expression with
  | (some p, c) => (.ok p, c)
  | (none, c) =>
    match Predicate.parse expression with
    | .ok p => (.ok p, c.set stored expression p none)
    | .error e => (.error e, c)

/-- The cache without its slots. -/
def clear (c : Cache) : Cache :=
  { c with slots := [] }

end Cache

end Semrange
