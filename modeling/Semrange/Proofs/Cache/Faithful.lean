import Semrange.Cache

/-!
# A cache gives what expressions denote

A look-up sweeps the cache at most, drops the slot that it finds, or hands out its predicate
(`get_cases`). So it adds no slots, and all that is ever added is what is stored. If that is always
what the expression denotes, the cache is `Faithful`, and then `getOrParse` cannot be told from
reading the expression anew, whatever the clock says, how ever short the lifetimes are and how ever
few slots there are (`Faithful.getOrParse`).
-/

namespace Semrange.Cache

/-! ## What a look-up does -/

/-- A slot is stale once its deadline is over. -/
theorem Slot.isStale_iff {s : Slot} {now : Int} : s.isStale now = true ↔ s.deadline < now :=
  decide_eq_true_iff

/-- A sweep keeps slots that are not stale, and adds none. -/
theorem slots_sweep (c : Cache) (now : Int) : ∃ keep : Slot → Bool,
    (c.sweep now).slots = c.slots.filter keep ∧ ∀ s, now ≤ s.deadline → keep s = true := by
  unfold sweep
  split
  · exact ⟨fun _ => true, (List.filter_eq_self.mpr fun _ _ => rfl).symm, fun _ _ => rfl⟩
  · exact ⟨_, rfl, fun s hs => by simpa [Slot.isStale] using hs⟩

/-- A sweep leaves slots in their order. -/
theorem slots_sweep_sublist (c : Cache) (now : Int) : (c.sweep now).slots.Sublist c.slots := by
  obtain ⟨keep, hkeep, -⟩ := c.slots_sweep now
  exact hkeep ▸ List.filter_sublist

/-- A sweep leaves the lifetime as it is. -/
@[simp]
theorem defaultLifetime_sweep (c : Cache) (now : Int) :
    (c.sweep now).defaultLifetime = c.defaultLifetime := by
  unfold sweep
  split <;> rfl

/-- Dropping the slot of an expression leaves the others in their order. -/
theorem erase_sublist (expression : String) (slots : List Slot) :
    (erase expression slots).Sublist slots :=
  List.filter_sublist

/-- The slot of an expression is a slot, and is for that expression. -/
theorem mem_of_slot? {c : Cache} {expression : String} {s : Slot}
    (h : c.slot? expression = some s) : s ∈ c.slots ∧ s.expression = expression :=
  ⟨List.mem_of_find?_eq_some h, by simpa using List.find?_some h⟩

/-- After a sweep that may be due, a look-up finds nothing, or finds a stale slot and drops it, or
hands out what it finds. -/
theorem get_cases (c : Cache) (now : Int) (expression : String) :
    (c.sweep now).slot? expression = none ∧ c.get now expression = (none, c.sweep now) ∨
      (∃ s, (c.sweep now).slot? expression = some s ∧ s.isStale now = true ∧
        c.get now expression =
          (none, { c.sweep now with slots := erase expression (c.sweep now).slots })) ∨
      ∃ s, (c.sweep now).slot? expression = some s ∧ s.isStale now = false ∧
        c.get now expression = (some s.predicate, c.sweep now) := by
  unfold get
  cases hslot : (c.sweep now).slot? expression with
  | none => exact Or.inl ⟨rfl, by simp only [hslot]⟩
  | some s =>
    cases hstale : s.isStale now with
    | true => exact Or.inr (Or.inl ⟨s, rfl, hstale, by simp only [hslot, hstale, if_true]⟩)
    | false =>
      refine Or.inr (Or.inr ⟨s, rfl, hstale, ?_⟩)
      simp only [hslot, hstale, Bool.false_eq_true, if_false]

/-- A look-up adds no slots and leaves them in their order. -/
theorem slots_get_sublist (c : Cache) (now : Int) (expression : String) :
    (c.get now expression).2.slots.Sublist c.slots := by
  rcases c.get_cases now expression with ⟨-, h⟩ | ⟨s, -, -, h⟩ | ⟨s, -, -, h⟩
  · rw [h]
    exact c.slots_sweep_sublist now
  · rw [h]
    exact (erase_sublist _ _).trans (c.slots_sweep_sublist now)
  · rw [h]
    exact c.slots_sweep_sublist now

/-- A look-up leaves the lifetime as it is. -/
@[simp]
theorem defaultLifetime_get (c : Cache) (now : Int) (expression : String) :
    (c.get now expression).2.defaultLifetime = c.defaultLifetime := by
  rcases c.get_cases now expression with ⟨-, h⟩ | ⟨s, -, -, h⟩ | ⟨s, -, -, h⟩ <;>
    rw [h] <;> exact c.defaultLifetime_sweep now

/-- What is handed out for an expression was stored for it and is not stale. -/
theorem exists_slot_of_get {c : Cache} {now : Int} {expression : String} {p : Predicate}
    (h : (c.get now expression).1 = some p) :
    ∃ s ∈ c.slots, s.expression = expression ∧ s.predicate = p ∧ now ≤ s.deadline := by
  rcases c.get_cases now expression with ⟨-, hget⟩ | ⟨s, -, -, hget⟩ | ⟨s, hslot, hstale, hget⟩
  · rw [hget] at h
    exact absurd h nofun
  · rw [hget] at h
    exact absurd h nofun
  · rw [hget] at h
    obtain ⟨hmem, hexpression⟩ := mem_of_slot? hslot
    have hdeadline : now ≤ s.deadline := by simpa [Slot.isStale] using hstale
    exact ⟨s, (c.slots_sweep_sublist now).subset hmem, hexpression, Option.some.inj h, hdeadline⟩

/-! ## What is added -/

/-- After storing, a slot was there before or is the new one. -/
theorem mem_of_mem_set {c : Cache} {now : Int} {expression : String} {p : Predicate}
    {lifetime : Option Int} {s : Slot} (h : s ∈ (c.set now expression p lifetime).slots) :
    s ∈ c.slots ∨ s.expression = expression ∧ s.predicate = p := by
  -- Where there are too many slots, the first ones go; none comes in by that.
  rcases List.mem_append.mp (List.mem_of_mem_drop h) with hold | hnew
  · exact Or.inl ((c.slots_sweep_sublist now).subset ((erase_sublist _ _).subset hold))
  · obtain rfl := List.mem_singleton.mp hnew
    exact Or.inr ⟨rfl, rfl⟩

/-- What is found is given; otherwise the expression is read, and what it denotes is stored. -/
theorem getOrParse_cases (c : Cache) (lookedUp stored : Int) (expression : String) :
    (∃ p, (c.get lookedUp expression).1 = some p ∧
        c.getOrParse lookedUp stored expression = (.ok p, (c.get lookedUp expression).2)) ∨
      (∃ p, (c.get lookedUp expression).1 = none ∧ Predicate.parse expression = .ok p ∧
        c.getOrParse lookedUp stored expression =
          (.ok p, (c.get lookedUp expression).2.set stored expression p none)) ∨
      ∃ e, (c.get lookedUp expression).1 = none ∧ Predicate.parse expression = .error e ∧
        c.getOrParse lookedUp stored expression = (.error e, (c.get lookedUp expression).2) := by
  unfold getOrParse
  rcases hget : c.get lookedUp expression with ⟨_ | p, d⟩
  · right
    cases hparse : Predicate.parse expression with
    | ok p => exact Or.inl ⟨p, rfl, rfl, rfl⟩
    | error e => exact Or.inr ⟨e, rfl, rfl, rfl⟩
  · exact Or.inl ⟨p, rfl, rfl⟩

/-! ## Faithful caches -/

/-- Each slot holds what its expression denotes. -/
def Faithful (c : Cache) : Prop :=
  ∀ s ∈ c.slots, Predicate.parse s.expression = .ok s.predicate

/-- A cache that has just been made is faithful. -/
theorem faithful_new (defaultLifetime maxEntries sweepInterval now : Int) :
    (new defaultLifetime maxEntries sweepInterval now).Faithful :=
  List.forall_mem_nil _

namespace Faithful

variable {c : Cache} (hc : c.Faithful)
include hc

/-- A cache without slots of its own is as faithful as another one. -/
theorem of_subset {d : Cache} (h : d.slots ⊆ c.slots) : d.Faithful :=
  fun s hs => hc s (h hs)

/-- Storing what an expression denotes keeps a cache faithful. -/
theorem set {now : Int} {expression : String} {p : Predicate}
    (h : Predicate.parse expression = .ok p) (lifetime : Option Int) :
    (c.set now expression p lifetime).Faithful := by
  intro s hs
  rcases mem_of_mem_set hs with hold | ⟨rfl, rfl⟩
  · exact hc s hold
  · exact h

/-- What a faithful cache hands out for an expression is what the expression denotes. -/
theorem parse_of_get {now : Int} {expression : String} {p : Predicate}
    (h : (c.get now expression).1 = some p) : Predicate.parse expression = .ok p := by
  obtain ⟨s, hs, rfl, rfl, -⟩ := exists_slot_of_get h
  exact hc s hs

/-- A faithful cache gives what an expression denotes, or why it denotes nothing, and stays
faithful. -/
theorem getOrParse (lookedUp stored : Int) (expression : String) :
    (c.getOrParse lookedUp stored expression).1 = Predicate.parse expression ∧
      (c.getOrParse lookedUp stored expression).2.Faithful := by
  -- The look-up may sweep and drop slots even where the expression turns out to denote nothing.
  have hget := hc.of_subset (c.slots_get_sublist lookedUp expression).subset
  rcases c.getOrParse_cases lookedUp stored expression with
    ⟨p, hfound, h⟩ | ⟨p, -, hparse, h⟩ | ⟨e, -, hparse, h⟩
  · rw [h]
    exact ⟨(hc.parse_of_get hfound).symm, hget⟩
  · rw [h]
    exact ⟨hparse.symm, hget.set hparse none⟩
  · rw [h]
    exact ⟨hparse.symm, hget⟩

end Faithful

end Semrange.Cache
