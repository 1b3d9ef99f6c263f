import Mathlib.Data.List.Dedup
import Mathlib.Data.List.Perm.Subperm
import Semrange.Proofs.Cache.History

/-!
# What a cache keeps

What a cache has stored last for an expression is lost in two ways: its deadline is over when the
cache is swept or the expression is looked up, or it is the oldest slot when there are too many. The
first cannot happen before the deadline. Nor can the second as long as all the expressions fit for
which something has been stored since, because the slots behind a slot are for just these (`Keeps`).
So a look-up after a run finds nothing else than what was stored last, and finds that as long as the
deadline and the capacity allow (`get_gives_latest_store`).
-/

namespace Semrange.Cache

/-! ## What is found -/

/-- If no expression is held twice, then all that can be found for an expression is its slot. -/
theorem eq_of_slot?_sweep {c : Cache} (hc : (c.slots.map Slot.expression).Nodup) {now : Int}
    {s t : Slot} (hs : s ∈ c.slots) (ht : (c.sweep now).slot? s.expression = some t) : t = s := by
  obtain ⟨hmem, hexpression⟩ := mem_of_slot? ht
  exact List.inj_on_of_nodup_map hc ((c.slots_sweep_sublist now).subset hmem) hs hexpression

/-- If no expression is held twice, then a slot that is not stale is found. -/
theorem get_of_mem {c : Cache} (hc : (c.slots.map Slot.expression).Nodup) {s : Slot}
    (hs : s ∈ c.slots) {now : Int} (hnow : now ≤ s.deadline) :
    (c.get now s.expression).1 = some s.predicate := by
  rcases c.get_cases now s.expression with ⟨hnone, -⟩ | ⟨t, ht, hstale, -⟩ | ⟨t, ht, -, hget⟩
  · -- The sweep does not give the slot up, so it cannot be missing.
    obtain ⟨keep, hslots, hkeep⟩ := c.slots_sweep now
    have hswept : s ∈ (c.sweep now).slots := hslots ▸ List.mem_filter.mpr ⟨hs, hkeep s hnow⟩
    have hmissing := List.find?_eq_none.mp hnone s hswept
    simp at hmissing
  · -- What is found is the slot itself, which is not stale.
    rw [eq_of_slot?_sweep hc hs ht] at hstale
    have hlate : s.deadline < now := Slot.isStale_iff.mp hstale
    omega
  · rw [hget, eq_of_slot?_sweep hc hs ht]

/-! ## What is kept -/

/-- A slot is held, and only slots for some expressions are held that were stored after it. -/
def Keeps (slots : List Slot) (s : Slot) (expressions : List String) : Prop :=
  ∃ newer, s :: newer <:+ slots ∧ newer.map Slot.expression ⊆ expressions

namespace Keeps

variable {slots : List Slot} {s : Slot} {expressions : List String}

/-- A slot that has just been stored is held, unless nothing can be held. -/
theorem of_store {c d : Cache} {now : Int} (h : Move c (.store now s) d)
    (hcapacity : 0 < c.capacity) : Keeps d.slots s expressions := by
  cases h with
  | store now expression p lifetime =>
    rw [slots_set]
    refine ⟨[], ?_, List.nil_subset _⟩
    refine List.suffix_of_suffix_length_le (List.suffix_append _ _) (List.drop_suffix _ _) ?_
    rw [List.length_drop, List.length_append, List.length_singleton]
    omega

/-- A slot that is held is one of the slots. -/
theorem mem (h : Keeps slots s expressions) : s ∈ slots := by
  obtain ⟨newer, hsuffix, -⟩ := h
  exact hsuffix.subset List.mem_cons_self

/-- A slot is still held when others are given up. -/
theorem filter (h : Keeps slots s expressions) {keep : Slot → Bool} (hs : keep s = true) :
    Keeps (slots.filter keep) s expressions := by
  obtain ⟨newer, hsuffix, hnewer⟩ := h
  refine ⟨newer.filter keep, ?_, ?_⟩
  · have hfilter := hsuffix.filter keep
    rwa [List.filter_cons_of_pos hs] at hfilter
  · exact List.Subset.trans (List.filter_sublist.map _).subset hnewer

/-- A slot is still held when that of another expression is given up. -/
theorem erase (h : Keeps slots s expressions) {expression : String}
    (hs : s.expression ≠ expression) : Keeps (erase expression slots) s expressions :=
  h.filter (by simpa using hs)

/-- A slot is still held when another one is stored, as long as all the expressions fit. -/
theorem concat (h : Keeps slots s expressions) {t : Slot} (ht : t.expression ∈ expressions)
    (hnodup : ((slots ++ [t]).map Slot.expression).Nodup) {capacity : ℕ}
    (hcapacity : expressions.dedup.length < capacity) :
    Keeps ((slots ++ [t]).drop (slots.length + 1 - capacity)) s expressions := by
  obtain ⟨newer, hsuffix, hnewer⟩ := h
  have hconcat : s :: (newer ++ [t]) <:+ slots ++ [t] :=
    List.suffix_append_self_iff.mpr hsuffix
  have hexpressions : (newer ++ [t]).map Slot.expression ⊆ expressions := by
    rw [List.map_append]
    exact List.append_subset.mpr ⟨hnewer, by simpa using ht⟩
  -- What is stored after the slot is for different expressions, so there is room for the slot.
  have hroom : (newer ++ [t]).length + 1 ≤ capacity := by
    have hlater : ((newer ++ [t]).map Slot.expression).Nodup :=
      hnodup.sublist (((List.sublist_cons_self _ _).trans hconcat.sublist).map _)
    have hlength := hlater.length_le_of_subset
      (List.Subset.trans hexpressions fun _ => List.mem_dedup.mpr)
    rw [List.length_map] at hlength
    omega
  refine ⟨newer ++ [t], ?_, hexpressions⟩
  have hlength := hconcat.length_le
  refine List.suffix_of_suffix_length_le hconcat (List.drop_suffix _ _) ?_
  simp only [List.length_cons, List.length_drop, List.length_append, List.length_nil] at *
  omega

/-- A slot that is not stale is still held after a sweep. -/
theorem sweep {c : Cache} (h : Keeps c.slots s expressions) {now : Int} (hnow : now ≤ s.deadline) :
    Keeps (c.sweep now).slots s expressions := by
  obtain ⟨keep, hslots, hkeep⟩ := c.slots_sweep now
  rw [hslots]
  exact h.filter (hkeep s hnow)

/-- A slot is still held after a move that does not come after its deadline and does not replace it,
as long as all the expressions fit. -/
theorem move {c d : Cache} (h : Keeps c.slots s expressions)
    (hc : (c.slots.map Slot.expression).Nodup) {event : Event} (hmove : Move c event d)
    (hkept : event.replaces s.expression = false) (htime : ∀ now ∈ event.time?, now ≤ s.deadline)
    (hexpression : ∀ e ∈ event.expression?, e ∈ expressions)
    (hcapacity : expressions.dedup.length < c.capacity) : Keeps d.slots s expressions := by
  cases hmove with
  | lookUp now expression =>
    have hnow : now ≤ s.deadline := htime now rfl
    have hswept := h.sweep hnow
    rcases c.get_cases now expression with ⟨-, hget⟩ | ⟨t, ht, hstale, hget⟩ | ⟨t, -, -, hget⟩
    · -- Nothing is found, and nothing given up after the sweep.
      rwa [hget]
    · -- What is stale and given up is another slot.
      have hother : s.expression ≠ expression := by
        rintro rfl
        rw [eq_of_slot?_sweep hc h.mem ht] at hstale
        have hlate : s.deadline < now := Slot.isStale_iff.mp hstale
        omega
      rw [hget]
      exact hswept.erase hother
    · rwa [hget]
  | store now expression p lifetime =>
    -- What is stored is for another expression, or it would replace the slot.
    have hother : s.expression ≠ expression := by
      rintro rfl
      simp [Event.replaces] at hkept
    have hnodup := nodup_erase_concat (hc.sublist ((c.slots_sweep_sublist now).map _))
      ⟨expression, p, now + lifetime.getD c.defaultLifetime⟩
    rw [slots_set]
    exact ((h.sweep (htime now rfl)).erase hother).concat (hexpression expression rfl) hnodup
      hcapacity
  | clear => cases hkept

/-- A slot is still held after moves that do not come after its deadline and do not replace it, as
long as all the expressions fit. -/
theorem moves {c d : Cache} (h : Keeps c.slots s expressions) {earlier later : List Event}
    (hc : Recorded c earlier) (hmoves : Moves c later d)
    (hkept : ∀ event ∈ later, event.replaces s.expression = false)
    (htime : ∀ now ∈ later.filterMap Event.time?, now ≤ s.deadline)
    (hexpressions : later.filterMap Event.expression? ⊆ expressions)
    (hcapacity : expressions.dedup.length < c.capacity) : Keeps d.slots s expressions := by
  induction hmoves generalizing earlier with
  | nil => exact h
  | @cons c d _ event later first _ ih =>
    have hstep := h.move hc.nodup first (hkept event List.mem_cons_self)
      (fun now hnow => htime now (List.mem_filterMap.mpr ⟨event, List.mem_cons_self, hnow⟩))
      (fun e he => hexpressions (List.mem_filterMap.mpr ⟨event, List.mem_cons_self, he⟩)) hcapacity
    have hsublist := (List.sublist_cons_self event later)
    -- The conditions on the moves to come are part of those on all of them.
    refine ih hstep (hc.move first) (fun e he => hkept e (List.mem_cons_of_mem _ he)) ?_ ?_ ?_
    · exact fun now hnow => htime now ((hsublist.filterMap _).subset hnow)
    · exact List.Subset.trans (hsublist.filterMap _).subset hexpressions
    · rwa [first.capacity_eq]

end Keeps

/-! ## What a run finds -/

/-- The last slot that is stored for an expression is held, as long as nothing happens after its
deadline and all the expressions fit for which something is stored later. -/
theorem mem_of_latest {c d : Cache} (hc : Recorded c []) {events later : List Event}
    (hmoves : Moves c events d) {s : Slot} (hlatest : Latest events s later)
    (htime : ∀ now ∈ later.filterMap Event.time?, now ≤ s.deadline)
    (hcapacity : (later.filterMap Event.expression?).dedup.length < c.capacity) : s ∈ d.slots := by
  obtain ⟨earlier, now, rfl, hkept⟩ := hlatest
  obtain ⟨before, hbefore, hrest⟩ := hmoves.split
  have hrecorded := hc.moves hbefore
  rw [← hbefore.capacity_eq] at hcapacity
  cases hrest with
  | @cons _ stored _ _ _ first rest =>
    have hheld : Keeps stored.slots s (later.filterMap Event.expression?) :=
      Keeps.of_store first (by omega)
    rw [← first.capacity_eq] at hcapacity
    exact (hheld.moves (hrecorded.move first) rest hkept htime (List.Subset.refl _) hcapacity).mem

/-- What is found for an expression after a run is what was last stored for it since everything was
cleared, and the deadline is not over. And that is found as long as no operation on the way comes
after the deadline, and fewer other expressions are stored after it than the cache has slots. -/
theorem get_gives_latest_store (defaultLifetime maxEntries sweepInterval made : Int)
    (operations : List Operation) (now : Int) (expression : String) :
    let c := new defaultLifetime maxEntries sweepInterval made
    let found := ((c.run operations).get now expression).1
    (∀ p, found = some p → ∃ s later, Latest (c.history operations) s later ∧
      s.expression = expression ∧ s.predicate = p ∧ now ≤ s.deadline) ∧
    ∀ s later, Latest (c.history operations) s later → s.expression = expression →
      (∀ time ∈ later.filterMap Event.time?, time ≤ s.deadline) → now ≤ s.deadline →
      ((later.filterMap Event.expression?).dedup.length : Int) < max 1 maxEntries →
      found = some s.predicate := by
  intro c found
  have hmoves := c.moves_run operations
  have hnew : Recorded c [] := recorded_new _ _ _ _
  have hrecorded : Recorded (c.run operations) (c.history operations) := hnew.moves hmoves
  constructor
  · -- What is found is held, and what is held stands.
    intro p hfound
    obtain ⟨s, hs, hexpression, hpredicate, hdeadline⟩ := exists_slot_of_get hfound
    obtain ⟨later, hlatest⟩ := mem_standing_iff.mp (hrecorded.sublist.subset hs)
    exact ⟨s, later, hlatest, hexpression, hpredicate, hdeadline⟩
  · rintro s later hlatest rfl htime hdeadline hroom
    -- The last slot is still held at the look-up, and no other one is held for its expression.
    have hcapacity : (c.capacity : Int) = max 1 maxEntries :=
      Int.toNat_of_nonneg (by omega)
    have hs := mem_of_latest hnew hmoves hlatest htime (by omega)
    exact get_of_mem hrecorded.nodup hs hdeadline

/-- A cache of two slots, and one other expression that is read later, with a clock that runs
backwards. The look-up is at the very deadline. -/
theorem get_gives_latest_store_deadline :
    let c := new 10 2 60 0
    let p : Predicate := ⟨[]⟩
    let q : Predicate := ⟨[⟨.atLeast, .semantic ⟨2, [], false, none, none⟩⟩]⟩
    let operations : List Operation :=
      [.set 1 "all" q none, .clear, .set 5 "all" p none, .getOrParse 3 4 ">=2", .get (-9) "<1"]
    let s : Slot := ⟨"all", p, 15⟩
    let later : List Event := [.lookUp 3, .store 4 ⟨">=2", q, 14⟩, .lookUp (-9)]
    Latest (c.history operations) s later ∧
      (∀ time ∈ later.filterMap Event.time?, time ≤ s.deadline) ∧
      ((later.filterMap Event.expression?).dedup.length : Int) < max 1 2 ∧
      ((c.run operations).get 15 "all").1 = some p ∧
      ∃ t after, Latest (c.history operations) t after ∧ t.expression = "all" ∧
        t.predicate = p ∧ 15 ≤ t.deadline := by
  intro c p q operations s later
  have hlatest : Latest (c.history operations) s later :=
    ⟨[.store 1 ⟨"all", q, 11⟩, .clear], 5, by decide +kernel, by decide⟩
  have htime : ∀ time ∈ later.filterMap Event.time?, time ≤ s.deadline := by decide
  have hroom : ((later.filterMap Event.expression?).dedup.length : Int) < max 1 2 := by decide
  obtain ⟨hsound, hcomplete⟩ := get_gives_latest_store 10 2 60 0 operations 15 "all"
  have hfound := hcomplete s later hlatest rfl htime (by decide) hroom
  exact ⟨hlatest, htime, hroom, hfound, hsound p hfound⟩

end Semrange.Cache
