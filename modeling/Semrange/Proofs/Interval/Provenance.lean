import Semrange.Proofs.Interval.Complement
import Semrange.Proofs.Interval.Mixture

/-!
# What the results of the algebra inherit

The algebra makes no new bounds. The ends of what two intervals share and those of a union are ends
that were there before, on the same side; labels stay the same; and a complement has the bounds of its
intervals on the other side. So a property of intervals that is kept where an interval takes one end
from either of two others is kept by intersections and unions (`Inherited`), and complements need to
be looked at one interval at a time (`Inherited.complementAll`). What holds of the versions at the
bounds is such a property (`inherited_bounds`).
-/

namespace Semrange.Interval

/-- A property that what is made of intervals has when they have it. -/
structure Inherited (P : Interval → Prop) : Prop where
  /-- An interval with the property has no wildcards. -/
  concrete : ∀ {i : Interval}, P i → i.Concrete
  /-- The interval of all versions has the property. -/
  all : P all
  /-- All intervals around one label have the property when one of them has it. -/
  around : ∀ {name : String} {r : Reach}, P (around name r) → ∀ q : Reach, P (around name q)
  /-- A span with the lower end of one span and the upper end of another one, further up, has the
  property when both of them have it. -/
  span : ∀ {al au bl bu : Option End}, P (span al au) → P (span bl bu) →
    lowerCut al ≤ upperCut bu → P (span al bu)

/-! ## Intersections -/

/-- What two spans share is one of them, or a span between an end of each one. -/
theorem intersectSpans_cases {al au bl bu : Option End} {k : Interval}
    (h : intersectSpans al au bl bu = some k) :
    k = span al au ∨ k = span bl bu ∨ (leavesRoom bl au = true ∧ k = span bl au) ∨
      (leavesRoom al bu = true ∧ k = span al bu) := by
  have hbetween : ∀ lower upper, spanBetween lower upper = some k →
      leavesRoom lower upper = true ∧ k = span lower upper := by
    intro lower upper hk
    unfold spanBetween at hk
    split_ifs at hk with hroom
    exact ⟨hroom, (Option.some.inj hk).symm⟩
  -- The six answers, by the order of the lower ends and that of the upper ends.
  unfold intersectSpans at h
  split at h
  · exact Or.inr (Or.inl (Option.some.inj h).symm)
  · exact Or.inl (Option.some.inj h).symm
  · exact Or.inr (Or.inr (Or.inl (hbetween _ _ h)))
  · exact Or.inr (Or.inl (Option.some.inj h).symm)
  · exact Or.inr (Or.inr (Or.inr (hbetween _ _ h)))
  · exact Or.inl (Option.some.inj h).symm

/-- A span and an interval around a label share the latter, as far as it has room, if the span has
no ends, and nothing otherwise. -/
theorem intersect_span_around (lower upper : Option End) (name : String) (reach : Reach) :
    (span lower upper).intersect (around name reach) =
      if lower = none ∧ upper = none then
        (Reach.ofFlags reach.lower? reach.upper?).map (around name)
      else none := by
  cases lower <;> cases upper <;> rfl

/-- A span and an interval around a label share the same in either order. -/
theorem intersect_around_span (lower upper : Option End) (name : String) (reach : Reach) :
    (around name reach).intersect (span lower upper) =
      (span lower upper).intersect (around name reach) := by
  cases lower <;> cases upper <;> rfl

/-- What intervals around one label share, if anything, is around that label. -/
theorem exists_around_of_intersect {name : String} {reach : Reach} {j k : Interval}
    (h : (around name reach).intersect j = some k) : ∃ q, k = around name q := by
  have hmap : ∀ o : Option Reach, o.map (around name) = some k → ∃ q, k = around name q := by
    rintro o ho
    obtain ⟨q, -, rfl⟩ := Option.map_eq_some_iff.mp ho
    exact ⟨q, rfl⟩
  cases j with
  | span lower upper =>
    rw [intersect_around_span, intersect_span_around] at h
    by_cases hall : lower = none ∧ upper = none
    · rw [if_pos hall] at h
      exact hmap _ h
    · rw [if_neg hall] at h
      exact absurd h nofun
  | around t q =>
    by_cases hname : name = t
    · -- Around one label the reaches are intersected; around two nothing is shared.
      exact hmap (reach.intersect q) ((if_pos hname).symm.trans h)
    · exact absurd ((if_neg hname).symm.trans h) nofun

/-! ## Insertions -/

/-- Where an interval around a label is added, everything is covered then, or the members were there
before or are around that label. -/
theorem insertAround_cases (name : String) (reach : Reach) (l : List Interval) :
    insertAround name reach l = [all] ∨
      ∀ i ∈ insertAround name reach l, i ∈ l ∨ ∃ r, i = around name r := by
  unfold insertAround
  split
  · -- Nothing is known of the label, and the interval is put at the end.
    refine Or.inr (List.forall_mem_append.mpr ⟨fun i hi => Or.inl hi, ?_⟩)
    exact List.forall_mem_singleton.mpr (Or.inr ⟨reach, rfl⟩)
  · dsimp only
    split_ifs with hfull
    · exact Or.inl rfl
    · -- What stands before and behind was there; what comes between is around the label.
      refine Or.inr (List.forall_mem_append.mpr ⟨List.forall_mem_append.mpr ⟨?_, ?_⟩, ?_⟩)
      · exact fun i hi => Or.inl ((List.takeWhile_sublist _).subset hi)
      · intro i hi
        obtain ⟨r, -, rfl⟩ := List.mem_map.mp hi
        exact Or.inr ⟨r, rfl⟩
      · exact fun i hi => Or.inl ((List.dropWhile_sublist _).subset (List.mem_filter.mp hi).1)

/-! ## Complements -/

/-- The complement of a list, unless it is empty, is narrowed by that of one more interval. -/
theorem complementAll_append_singleton {l : List (Option Interval)} (h : l ≠ [])
    (i : Option Interval) :
    complementAll (l ++ [i]) = intersectAll (complementAll l) (complement? i) := by
  cases l with
  | nil => exact absurd rfl h
  | cons j l => exact List.foldl_append

/-- A complement consists of everything, of half-lines that start or stop where the interval stops or
starts, and of intervals around its label. -/
theorem complement_cases {i j : Interval} (h : j ∈ complement i) :
    j = all ∨ (∃ e upper, i = span (some e) upper ∧ j = span none (some e.flip)) ∨
      (∃ lower f, i = span lower (some f) ∧ j = span (some f.flip) none) ∨
      ∃ name r q, i = around name r ∧ j = around name q := by
  unfold complement at h
  split_ifs at h with hh
  · exact Or.inl (List.mem_singleton.mp h)
  · right
    -- The first piece lies below the lower end, the second one above the upper end.
    cases i with
    | span lower upper =>
      rcases List.mem_append.mp h with h | h
      · obtain ⟨e, rfl, rfl⟩ := Option.map_eq_some_iff.mp (Option.mem_toList.mp h)
        exact Or.inl ⟨e, upper, rfl, rfl⟩
      · obtain ⟨f, rfl, rfl⟩ := Option.map_eq_some_iff.mp (Option.mem_toList.mp h)
        exact Or.inr (Or.inl ⟨lower, f, rfl, rfl⟩)
    | around name reach =>
      refine Or.inr (Or.inr ⟨name, reach, ?_⟩)
      rcases List.mem_append.mp h with h | h
      · obtain ⟨p, -, rfl⟩ := Option.map_eq_some_iff.mp (Option.mem_toList.mp h)
        exact ⟨_, rfl, rfl⟩
      · obtain ⟨p, -, rfl⟩ := Option.map_eq_some_iff.mp (Option.mem_toList.mp h)
        exact ⟨_, rfl, rfl⟩

/-! ## Inheritance -/

namespace Inherited

variable {P : Interval → Prop} (hP : Inherited P)
include hP

/-- What two intervals share inherits from them. -/
theorem intersect {i j k : Interval} (hi : P i) (hj : P j) (h : i.intersect j = some k) : P k := by
  cases i with
  | span al au =>
    cases j with
    | span bl bu =>
      obtain ⟨hal, hau⟩ := hP.concrete hi
      obtain ⟨hbl, hbu⟩ := hP.concrete hj
      rcases intersectSpans_cases h with rfl | rfl | ⟨hroom, rfl⟩ | ⟨hroom, rfl⟩
      · exact hi
      · exact hj
      · -- A span between an end of each is made only where there is room.
        exact hP.span hj hi ((leavesRoom_iff hbl hau).mp hroom).le
      · exact hP.span hi hj ((leavesRoom_iff hal hbu).mp hroom).le
    | around t q =>
      rw [← intersect_around_span] at h
      obtain ⟨p, rfl⟩ := exists_around_of_intersect h
      exact hP.around hj p
  | around s r =>
    obtain ⟨p, rfl⟩ := exists_around_of_intersect h
    exact hP.around hi p

/-- An insertion inherits from the new interval and the list. -/
theorem insert {i : Interval} (hi : P i) {l : List Interval} (hl : ∀ j ∈ l, P j) :
    ∀ j ∈ insert i l, P j := by
  have hall : ∀ j ∈ [Interval.all], P j := List.forall_mem_singleton.mpr hP.all
  cases i with
  | span lower upper =>
    rcases insert_span_cases (hP.concrete hi) fun j hj => hP.concrete (hl j hj) with ⟨heq, -⟩ | h
    · rw [heq]
      exact hall
    · exact h.forall_mem hP.span hi hl
  | around name reach =>
    -- The members that are left were there, and the others are around the same label.
    by_cases hwhole : l = [Interval.all]
    · rw [hwhole, insert_all]
      exact hall
    · rw [insert_around hwhole]
      rcases insertAround_cases name reach l with heq | hmem
      · rw [heq]
        exact hall
      · intro j hj
        rcases hmem j hj with hmem | ⟨r, rfl⟩
        · exact hl j hmem
        · exact hP.around hi r

/-- A union inherits from its members. -/
theorem unionAll {l : List Interval} (hl : ∀ i ∈ l, P i) : ∀ i ∈ unionAll l, P i := by
  induction l using List.reverseRecOn with
  | nil => exact List.forall_mem_nil _
  | append_singleton l i ih =>
    obtain ⟨hinit, hlast⟩ := List.forall_mem_append.mp hl
    rw [unionAll_append_singleton]
    exact hP.insert (hlast i (List.mem_singleton_self i)) (ih hinit)

/-- What two lists share inherits from their members. -/
theorem intersectAll {a b : List Interval} (ha : ∀ i ∈ a, P i) (hb : ∀ j ∈ b, P j) :
    ∀ k ∈ intersectAll a b, P k := by
  refine hP.unionAll fun k hk => ?_
  obtain ⟨i, hi, j, hj, h⟩ := mem_sharedPairs.mp hk
  exact hP.intersect (ha i hi) (hb j hj) h

/-- The complement of a list has the property when the complements of its members have it. -/
theorem complementAll {l : List (Option Interval)}
    (hl : ∀ i, some i ∈ l → ∀ j ∈ complement i, P j) : ∀ j ∈ complementAll l, P j := by
  have hone : ∀ i ∈ l, ∀ j ∈ complement? i, P j := by
    rintro (_ | i) hi
    · exact List.forall_mem_singleton.mpr hP.all
    · exact hl i hi
  clear hl
  -- The complement of one more interval is intersected with that of those before it.
  induction l using List.reverseRecOn with
  | nil => exact List.forall_mem_singleton.mpr hP.all
  | append_singleton l i ih =>
    obtain ⟨hinit, hlast⟩ := List.forall_mem_append.mp hone
    have hi := hlast i (List.mem_singleton_self i)
    by_cases hnil : l = []
    · rw [hnil]
      exact hi
    · rw [complementAll_append_singleton hnil]
      exact hP.intersectAll (ih hinit) hi

end Inherited

/-- What is made of spans at versions without wildcards are such spans. -/
theorem inherited_spans : Inherited fun i => i.isSemantic = true ∧ i.Concrete where
  concrete h := h.2
  all := concrete_all
  around h _ := absurd h.1 nofun
  span ha hb _ := ⟨rfl, ha.2.1, hb.2.2⟩

/-! ## The versions at the bounds -/

/-- The bounds that are there. -/
def bounds (i : Interval) : List Bound :=
  i.lower?.toList ++ i.upper?.toList

section

variable {P : Version → Prop}

/-- The bounds of a span are its ends. -/
theorem forall_bounds_span {lower upper : Option End} :
    (∀ b ∈ (span lower upper).bounds, P b.version) ↔
      (∀ e ∈ lower, P (.semantic e.version)) ∧ ∀ f ∈ upper, P (.semantic f.version) := by
  unfold bounds
  rw [List.forall_mem_append]
  cases lower <;> cases upper <;> simp [lower?, upper?]

/-- The bounds of an interval around a label are that label. -/
theorem forall_bounds_around {name : String} {reach : Reach} :
    (∀ b ∈ (around name reach).bounds, P b.version) ↔ P (.label name) := by
  unfold bounds
  cases reach <;> simp [lower?, upper?, Reach.lower?, Reach.upper?]

/-- What holds of the versions at the bounds of intervals is inherited, as long as it does not hold
of wildcards. -/
theorem inherited_bounds (hP : ∀ v, P (.semantic v) → v.wild = false) :
    Inherited fun i => ∀ b ∈ i.bounds, P b.version where
  concrete := by
    rintro (⟨lower, upper⟩ | ⟨name, reach⟩) h
    · obtain ⟨hlower, hupper⟩ := forall_bounds_span.mp h
      exact ⟨fun e he => hP _ (hlower e he), fun f hf => hP _ (hupper f hf)⟩
    · trivial
  all := List.forall_mem_nil _
  around h _ := forall_bounds_around.mpr (forall_bounds_around.mp h)
  span ha hb _ :=
    forall_bounds_span.mpr ⟨(forall_bounds_span.mp ha).1, (forall_bounds_span.mp hb).2⟩

/-- A complement has the versions of the interval at its bounds. -/
theorem forall_bounds_complement {i : Interval} (h : ∀ b ∈ i.bounds, P b.version) :
    ∀ j ∈ complement i, ∀ b ∈ j.bounds, P b.version := by
  intro j hj
  rcases complement_cases hj with rfl | ⟨e, upper, rfl, rfl⟩ | ⟨lower, f, rfl, rfl⟩ |
    ⟨name, r, q, rfl, rfl⟩
  · exact List.forall_mem_nil _
  · exact List.forall_mem_singleton.mpr ((forall_bounds_span.mp h).1 e rfl)
  · exact List.forall_mem_singleton.mpr ((forall_bounds_span.mp h).2 f rfl)
  · exact forall_bounds_around.mpr (forall_bounds_around.mp h)

end

end Semrange.Interval
