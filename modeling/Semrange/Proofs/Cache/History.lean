import Mathlib.Data.List.Induction
import Mathlib.Data.List.Nodup
import Semrange.Proofs.Cache.Faithful

/-!
# What a cache holds after a run

A run of operations is told as the history of what happens to the cache: it is looked up, something
is stored, or it is cleared. To read an expression through the cache is to look it up, and to store
what it denotes where nothing is found. What a cache does at each of these events is a `Move`, and
every invariant is carried by the moves one at a time.

A slot is standing if it is the last one that is stored for its expression since everything was
cleared (`Latest`). A cache holds some of the standing slots, in the order in which they were
stored, and not too many of them (`Recorded`). If nothing is stored in a run but what expressions
denote, it stays faithful as well (`Faithful.run`), and reading an expression through it cannot be
told from reading it anew. All of that is in `bounded_ordered_transparent`.
-/

namespace Semrange.Cache

/-! ## Runs and their histories -/

/-- Something that a cache is told to do. -/
inductive Operation where
  /-- To look an expression up at a moment. -/
  | get (now : Int) (expression : String)
  /-- To store a predicate for an expression at a moment, for a lifetime of its own or the usual
  one. -/
  | set (now : Int) (expression : String) (predicate : Predicate) (lifetime : Option Int)
  /-- To give the predicate of an expression, looking it up at a moment and storing it at another
  one. -/
  | getOrParse (lookedUp stored : Int) (expression : String)
  /-- To give up all slots. -/
  | clear
deriving DecidableEq, Repr

/-- The cache after an operation. -/
def Operation.apply (c : Cache) : Operation → Cache
  | .get now expression => (c.get now expression).2
  | .set now expression p lifetime => c.set now expression p lifetime
  | .getOrParse lookedUp stored expression => (c.getOrParse lookedUp stored expression).2
  | .clear => c.clear

/-- The cache after operations, one after the other. -/
def run (c : Cache) : List Operation → Cache
  | [] => c
  | op :: operations => (op.apply c).run operations

/-- Something that happens to a cache. -/
inductive Event where
  /-- An expression is looked up at a moment. -/
  | lookUp (now : Int)
  /-- A slot is stored at a moment. -/
  | store (now : Int) (slot : Slot)
  /-- All slots are given up. -/
  | clear
deriving DecidableEq, Repr

namespace Event

/-- The moment of an event. -/
def time? : Event → Option Int
  | lookUp now => some now
  | store now _ => some now
  | clear => none

/-- The expression that something is stored for. -/
def expression? : Event → Option String
  | lookUp _ => none
  | store _ s => some s.expression
  | clear => none

/-- Whether nothing counts any more that was stored for an expression before. -/
def replaces (expression : String) : Event → Bool
  | lookUp _ => false
  | store _ s => s.expression == expression
  | clear => true

end Event

/-- What happens in an operation. The deadline of a slot is its lifetime after the moment at which
it is stored. -/
def Operation.events (c : Cache) : Operation → List Event
  | .get now _ => [.lookUp now]
  | .set now expression p lifetime =>
    [.store now ⟨expression, p, now + lifetime.getD c.defaultLifetime⟩]
  | .getOrParse lookedUp stored expression =>
    match (c.get lookedUp expression).1, Predicate.parse expression with
    | none, .ok p =>
      [.lookUp lookedUp, .store stored ⟨expression, p, stored + c.defaultLifetime⟩]
    | _, _ => [.lookUp lookedUp]
  | .clear => [.clear]

/-- What happens in operations, one after the other. -/
def history (c : Cache) : List Operation → List Event
  | [] => []
  | op :: operations => op.events c ++ (op.apply c).history operations

/-! ## Standing slots -/

/-- The slots that are stored and not replaced later, in the order in which they are stored. -/
def standing : List Event → List Slot
  | [] => []
  | .lookUp _ :: later => standing later
  | .store _ s :: later =>
    if later.any (Event.replaces s.expression) then standing later else s :: standing later
  | .clear :: later => standing later

/-- A slot is the last one that is stored for its expression since everything was cleared, if it
was; what happens later is given as well. -/
def Latest (events : List Event) (s : Slot) (later : List Event) : Prop :=
  ∃ earlier now, events = earlier ++ .store now s :: later ∧
    ∀ event ∈ later, event.replaces s.expression = false

/-- Looking something up makes no difference to what stands. -/
theorem standing_concat_lookUp (events : List Event) (now : Int) :
    standing (events ++ [.lookUp now]) = standing events := by
  induction events with
  | nil => rfl
  | cons event events ih =>
    cases event <;> simp [standing, Event.replaces, ih]

/-- A slot that is stored stands last, and no other one stands for its expression. -/
theorem standing_concat_store (events : List Event) (now : Int) (s : Slot) :
    standing (events ++ [.store now s]) = erase s.expression (standing events) ++ [s] := by
  induction events with
  | nil => rfl
  | cons event events ih =>
    cases event with
    | lookUp => exact ih
    | clear => exact ih
    | store _ t =>
      -- An earlier slot falls away if one for its expression comes later, be it the new one.
      by_cases hlater : events.any (Event.replaces t.expression) = true
      · simp [standing, hlater, ih]
      · by_cases hkey : s.expression = t.expression
        · simp [standing, hlater, ih, Event.replaces, hkey, erase]
        · simp [standing, hlater, ih, Event.replaces, hkey, erase, Ne.symm hkey]

/-- Nothing stands once everything is cleared. -/
theorem standing_concat_clear (events : List Event) : standing (events ++ [.clear]) = [] := by
  induction events with
  | nil => rfl
  | cons event events ih =>
    cases event <;> simp [standing, Event.replaces, ih]

/-- With one more event, the last slot for an expression is the one before, which the event must not
replace, or it is stored just then. -/
theorem exists_latest_concat_iff {events : List Event} {event : Event} {s : Slot} :
    (∃ later, Latest (events ++ [event]) s later) ↔
      (∃ later, Latest events s later) ∧ event.replaces s.expression = false ∨
        ∃ now, event = .store now s := by
  constructor
  · rintro ⟨later, earlier, now, heq, hkept⟩
    rcases List.eq_nil_or_concat later with rfl | ⟨between, last, rfl⟩
    · -- Nothing comes behind the slot, so the event stores it.
      obtain ⟨-, hlast⟩ := List.append_inj' heq rfl
      exact Or.inr ⟨now, (List.cons.inj hlast).1⟩
    · -- The event is the last of those behind the slot.
      rw [List.concat_eq_append] at heq hkept
      rw [← List.cons_append, ← List.append_assoc] at heq
      obtain ⟨rfl, hlast⟩ := List.append_inj' heq rfl
      obtain rfl : event = last := (List.cons.inj hlast).1
      exact Or.inl ⟨⟨between, earlier, now, rfl, fun e he => hkept e (List.mem_append_left _ he)⟩,
        hkept event (by simp)⟩
  · rintro (⟨⟨later, earlier, now, rfl, hkept⟩, hevent⟩ | ⟨now, rfl⟩)
    · refine ⟨later ++ [event], earlier, now, by simp, ?_⟩
      intro e he
      rcases List.mem_append.mp he with hbefore | hlast
      · exact hkept e hbefore
      · rwa [List.mem_singleton.mp hlast]
    · exact ⟨[], events, now, rfl, List.forall_mem_nil _⟩

/-- The standing slots are the last ones that are stored for their expressions. -/
theorem mem_standing_iff {events : List Event} {s : Slot} :
    s ∈ standing events ↔ ∃ later, Latest events s later := by
  induction events using List.reverseRecOn with
  | nil => simp [standing, Latest]
  | append_singleton events event ih =>
    -- With one more event both sides lose what it replaces and gain what it stores.
    rw [exists_latest_concat_iff, ← ih]
    cases event with
    | lookUp now => simp [standing_concat_lookUp, Event.replaces]
    | store now t =>
      simp [standing_concat_store, Event.replaces, erase, @eq_comm _ s, @eq_comm _ s.expression]
    | clear => simp [standing_concat_clear, Event.replaces]

/-- The slot of an expression comes to be the only one when the others are dropped. -/
theorem nodup_erase_concat {slots : List Slot} (h : (slots.map Slot.expression).Nodup) (s : Slot) :
    ((erase s.expression slots ++ [s]).map Slot.expression).Nodup := by
  have herase := h.sublist ((erase_sublist s.expression slots).map Slot.expression)
  rw [List.map_append, List.nodup_append]
  refine ⟨herase, List.nodup_singleton _, ?_⟩
  intro expression hold
  obtain ⟨t, ht, rfl⟩ := List.mem_map.mp hold
  have hne : t.expression ≠ s.expression := by simpa [erase] using (List.mem_filter.mp ht).2
  simpa using hne

/-- No two slots stand for the same expression. -/
theorem nodup_standing (events : List Event) :
    ((standing events).map Slot.expression).Nodup := by
  induction events using List.reverseRecOn with
  | nil => exact List.nodup_nil
  | append_singleton events event ih =>
    cases event with
    | lookUp now => rwa [standing_concat_lookUp]
    | store now s =>
      rw [standing_concat_store]
      exact nodup_erase_concat ih s
    | clear =>
      rw [standing_concat_clear]
      exact List.nodup_nil

/-! ## Moves -/

/-- What a cache does at an event. -/
inductive Move (c : Cache) : Event → Cache → Prop
  /-- It is looked up and gives up what is stale. -/
  | lookUp (now : Int) (expression : String) : Move c (.lookUp now) (c.get now expression).2
  /-- It takes a slot in. -/
  | store (now : Int) (expression : String) (p : Predicate) (lifetime : Option Int) :
    Move c (.store now ⟨expression, p, now + lifetime.getD c.defaultLifetime⟩)
      (c.set now expression p lifetime)
  /-- It gives up everything. -/
  | clear : Move c .clear c.clear

/-- What a cache does at events, one after the other. -/
inductive Moves : Cache → List Event → Cache → Prop
  /-- Nothing happens. -/
  | nil (c : Cache) : Moves c [] c
  /-- Something happens, and then more. -/
  | cons {c d e : Cache} {event : Event} {events : List Event} (first : Move c event d)
    (rest : Moves d events e) : Moves c (event :: events) e

namespace Moves

/-- Moves can be made one after the other. -/
theorem append {c d e : Cache} {earlier later : List Event} (h : Moves c earlier d)
    (hlater : Moves d later e) : Moves c (earlier ++ later) e := by
  induction h with
  | nil => exact hlater
  | cons first _ ih => exact .cons first (ih hlater)

/-- Between events the cache is in some state. -/
theorem split {c e : Cache} {earlier later : List Event} (h : Moves c (earlier ++ later) e) :
    ∃ d, Moves c earlier d ∧ Moves d later e := by
  induction earlier generalizing c with
  | nil => exact ⟨c, .nil c, h⟩
  | cons event earlier ih =>
    cases h with
    | cons first rest =>
      obtain ⟨d, hearlier, hlater⟩ := ih rest
      exact ⟨d, .cons first hearlier, hlater⟩

end Moves

/-- In an operation a cache makes moves, at the events that happen. -/
theorem Operation.moves (c : Cache) (op : Operation) : Moves c (op.events c) (op.apply c) := by
  cases op with
  | get now expression => exact .cons (.lookUp now expression) (.nil _)
  | set now expression p lifetime => exact .cons (.store now expression p lifetime) (.nil _)
  | clear => exact .cons .clear (.nil _)
  | getOrParse lookedUp stored expression =>
    have hlookUp := Move.lookUp (c := c) lookedUp expression
    simp only [events, apply]
    rcases c.getOrParse_cases lookedUp stored expression with
      ⟨p, hfound, h⟩ | ⟨p, hmissing, hparse, h⟩ | ⟨e, hmissing, hparse, h⟩
    · rw [hfound, h]
      exact .cons hlookUp (.nil _)
    · -- The lifetime is the same after the look-up.
      have hstore := Move.store (c := (c.get lookedUp expression).2) stored expression p none
      rw [defaultLifetime_get] at hstore
      rw [hmissing, hparse, h]
      exact .cons hlookUp (.cons hstore (.nil _))
    · rw [hmissing, hparse, h]
      exact .cons hlookUp (.nil _)

/-- In a run a cache makes moves, at the events of its history. -/
theorem moves_run (c : Cache) (operations : List Operation) :
    Moves c (c.history operations) (c.run operations) := by
  induction operations generalizing c with
  | nil => exact .nil c
  | cons op operations ih => exact (op.moves c).append (ih (op.apply c))

/-- A sweep leaves the capacity as it is. -/
@[simp]
theorem capacity_sweep (c : Cache) (now : Int) : (c.sweep now).capacity = c.capacity := by
  unfold sweep
  split <;> rfl

/-- A look-up leaves the capacity as it is. -/
@[simp]
theorem capacity_get (c : Cache) (now : Int) (expression : String) :
    (c.get now expression).2.capacity = c.capacity := by
  rcases c.get_cases now expression with ⟨-, h⟩ | ⟨s, -, -, h⟩ | ⟨s, -, -, h⟩ <;>
    rw [h] <;> exact c.capacity_sweep now

/-- After storing, the new slot is the last one, and slots at the front are gone if there are too
many. -/
theorem slots_set (c : Cache) (now : Int) (expression : String) (p : Predicate)
    (lifetime : Option Int) :
    (c.set now expression p lifetime).slots =
      List.drop ((erase expression (c.sweep now).slots).length + 1 - c.capacity)
        (erase expression (c.sweep now).slots ++
          [⟨expression, p, now + lifetime.getD c.defaultLifetime⟩]) := by
  simp [set]

/-- A move leaves the capacity as it is. -/
theorem Move.capacity_eq {c d : Cache} {event : Event} (h : Move c event d) :
    d.capacity = c.capacity := by
  cases h with
  | lookUp now expression => exact c.capacity_get now expression
  | store now expression p lifetime => exact c.capacity_sweep now
  | clear => rfl

/-- Moves leave the capacity as it is. -/
theorem Moves.capacity_eq {c d : Cache} {events : List Event} (h : Moves c events d) :
    d.capacity = c.capacity := by
  induction h with
  | nil => rfl
  | cons first _ ih => exact ih.trans first.capacity_eq

/-! ## What is held -/

/-- A cache holds some of the slots that stand after a history, in the order in which they were
stored, and no more than it may. -/
structure Recorded (c : Cache) (events : List Event) : Prop where
  /-- What it holds stands, and in that order. -/
  sublist : c.slots.Sublist (standing events)
  /-- It does not hold more than it may. -/
  bounded : c.slots.length ≤ c.capacity

/-- A new cache holds nothing, and nothing has happened. -/
theorem recorded_new (defaultLifetime maxEntries sweepInterval made : Int) :
    Recorded (new defaultLifetime maxEntries sweepInterval made) [] :=
  ⟨List.nil_sublist _, Nat.zero_le _⟩

namespace Recorded

variable {c : Cache} {events : List Event} (hc : Recorded c events)
include hc

/-- No expression is held twice. -/
theorem nodup : (c.slots.map Slot.expression).Nodup :=
  (nodup_standing events).sublist (hc.sublist.map _)

/-- What holds of a cache after a history holds after a move as well, with the event in the
history. -/
theorem move {d : Cache} {event : Event} (h : Move c event d) :
    Recorded d (events ++ [event]) := by
  cases h with
  | lookUp now expression =>
    -- A look-up only gives slots up, and what stands is as before.
    have hslots := c.slots_get_sublist now expression
    refine ⟨?_, ?_⟩
    · rw [standing_concat_lookUp]
      exact hslots.trans hc.sublist
    · rw [capacity_get]
      exact Nat.le_trans hslots.length_le hc.bounded
  | store now expression p lifetime =>
    refine ⟨?_, ?_⟩
    · rw [standing_concat_store, slots_set]
      -- The new slot stands last; those at the front may be given up before it.
      have hswept := (c.slots_sweep_sublist now).trans hc.sublist
      exact (List.drop_sublist _ _).trans ((hswept.filter _).append_right _)
    · have hcapacity := (Move.store (c := c) now expression p lifetime).capacity_eq
      rw [slots_set, List.length_drop, List.length_append, List.length_singleton, hcapacity]
      omega
  | clear => exact ⟨List.nil_sublist _, Nat.zero_le _⟩

/-- What holds of a cache after a history holds after moves as well, with their events in the
history. -/
theorem moves {d : Cache} {later : List Event} (h : Moves c later d) :
    Recorded d (events ++ later) := by
  induction h generalizing events with
  | nil => rwa [List.append_nil]
  | @cons c _ _ event later first _ ih =>
    rw [List.append_cons]
    exact ih (hc.move first)

end Recorded

/-! ## Runs that only store what expressions denote -/

/-- What an operation stores for an expression is what the expression denotes. -/
def Operation.Faithful : Operation → Prop
  | .get _ _ => True
  | .set _ expression p _ => Predicate.parse expression = .ok p
  | .getOrParse _ _ _ => True
  | .clear => True

namespace Faithful

variable {c : Cache} (hc : c.Faithful)
include hc

/-- A cache stays faithful if no operation stores anything else than what an expression denotes. -/
theorem apply {op : Operation} (h : op.Faithful) : (op.apply c).Faithful := by
  cases op with
  | get now expression => exact hc.of_subset (c.slots_get_sublist now expression).subset
  | set now expression p lifetime => exact hc.set h lifetime
  | getOrParse lookedUp stored expression => exact (hc.getOrParse lookedUp stored expression).2
  | clear => exact List.forall_mem_nil _

/-- A cache stays faithful in a run in which nothing else is stored than what expressions denote. -/
theorem run {operations : List Operation} (h : ∀ op ∈ operations, op.Faithful) :
    (c.run operations).Faithful := by
  induction operations generalizing c with
  | nil => exact hc
  | cons op operations ih =>
    have hop := hc.apply (h op List.mem_cons_self)
    exact ih hop fun other hother => h other (List.mem_cons_of_mem op hother)

/-- If an expression denotes nothing, then nothing is stored for it when it is read, and what other
slots are left are as they were. -/
theorem slots_getOrParse_error {expression : String} {e : Predicate.ParseError}
    (h : Predicate.parse expression = .error e) (lookedUp stored : Int) :
    expression ∉ (c.getOrParse lookedUp stored expression).2.slots.map Slot.expression ∧
      (c.getOrParse lookedUp stored expression).2.slots.Sublist c.slots := by
  constructor
  · -- A slot for the expression would hold what it denotes.
    intro hmem
    obtain ⟨s, hs, rfl⟩ := List.mem_map.mp hmem
    have hparse := (hc.getOrParse lookedUp stored s.expression).2 s hs
    exact absurd (h.symm.trans hparse) nofun
  · rcases c.getOrParse_cases lookedUp stored expression with
      ⟨p, hfound, -⟩ | ⟨p, -, hparse, -⟩ | ⟨_, -, -, hget⟩
    · exact absurd (h.symm.trans (hc.parse_of_get hfound)) nofun
    · exact absurd (h.symm.trans hparse) nofun
    · rw [hget]
      exact c.slots_get_sublist lookedUp expression

end Faithful

/-- After a run a cache holds no expression twice, at most as many slots as it may, and the slots that
it holds in the order in which they were last stored. If only what expressions denote has been stored
explicitly, then at any two moments it gives what an expression denotes, or why it denotes nothing; in
that case nothing is stored for it, and of the other slots some are given up at most, while those that
are left are as they were and in the order in which they were. -/
theorem bounded_ordered_transparent (defaultLifetime maxEntries sweepInterval made : Int)
    (operations : List Operation) :
    let new := Cache.new defaultLifetime maxEntries sweepInterval made
    let c := new.run operations
    (c.slots.map Slot.expression).Nodup ∧ (c.slots.length : Int) ≤ max 1 maxEntries ∧
      c.slots.Sublist (standing (new.history operations)) ∧
      ((∀ op ∈ operations, op.Faithful) → ∀ lookedUp stored expression,
        (c.getOrParse lookedUp stored expression).1 = Predicate.parse expression ∧
          ∀ e, Predicate.parse expression = .error e →
            expression ∉ (c.getOrParse lookedUp stored expression).2.slots.map Slot.expression ∧
              (c.getOrParse lookedUp stored expression).2.slots.Sublist c.slots) := by
  intro new c
  have hmoves : Moves new (new.history operations) c := new.moves_run operations
  have hrecorded : c.Recorded (new.history operations) := (recorded_new _ _ _ _).moves hmoves
  refine ⟨hrecorded.nodup, ?_, hrecorded.sublist, ?_⟩
  · -- The capacity is that of the new cache, which has room for one slot at least.
    have hcapacity := hmoves.capacity_eq
    have hnew : (new.capacity : Int) = max 1 maxEntries := Int.toNat_of_nonneg (by omega)
    have hbounded := hrecorded.bounded
    omega
  · intro hoperations lookedUp stored expression
    have hnew : new.Faithful := faithful_new _ _ _ _
    have hc : c.Faithful := hnew.run hoperations
    exact ⟨(hc.getOrParse lookedUp stored expression).1,
      fun e he => hc.slots_getOrParse_error he lookedUp stored⟩

/-- A cache of two slots, with a lifetime of more than three hundred digits, in which one expression is
stored again and another one denotes nothing. -/
theorem bounded_ordered_transparent_refreshed :
    let new := Cache.new (Nat.pow 10 309) 2 60 0
    let p : Predicate := ⟨[⟨.atLeast, .semantic ⟨1, [], false, none, none⟩⟩]⟩
    let operations : List Operation :=
      [.getOrParse 1 2 ">=1", .getOrParse 3 4 "<2", .set 5 ">=1" p none, .getOrParse 6 7 ">=1.x"]
    let c := new.run operations
    c.slots.map Slot.expression = ["<2", ">=1"] ∧
      c.slots.Sublist (standing (new.history operations)) ∧
      (∀ op ∈ operations, op.Faithful) ∧ (c.getOrParse 8 9 ">=1").1 = .ok p ∧
      Predicate.parse "<1.x" = .error (.malformed "<1.x" .wildcardOperator) ∧
      "<1.x" ∉ (c.getOrParse 8 9 "<1.x").2.slots.map Slot.expression := by
  intro new p operations c
  have hp : Predicate.parse ">=1" = .ok p := by decide +kernel
  have hoperations : ∀ op ∈ operations, op.Faithful := by
    simp [operations, Operation.Faithful, hp]
  obtain ⟨-, -, hsublist, hread⟩ := bounded_ordered_transparent (Nat.pow 10 309) 2 60 0 operations
  have hfound := (hread hoperations 8 9 ">=1").1
  have herror : Predicate.parse "<1.x" = .error (.malformed "<1.x" .wildcardOperator) := by
    decide +kernel
  obtain ⟨hmissing, -⟩ := (hread hoperations 8 9 "<1.x").2 _ herror
  refine ⟨by decide +kernel, hsublist, hoperations, ?_, herror, ?_⟩
  -- The run stands for itself here and is not to be evaluated.
  · with_reducible exact hfound.trans hp
  · with_reducible exact hmissing

end Semrange.Cache
