import Semrange.Proofs.Interval.Merging

/-!
# The algebra never fails

A computation on intervals makes operations one after another, each on intervals that it was given or
has come by. None of its steps ends in a `Fault`: no interval is refused, and no version is read off a
missing bound (`attempt_never_fails`). Each step returns what the operation returns without checks, and
leaves intervals that could have been given in the first place: their own bounds are accepted, and
these are at versions that were read (`Accepted`).
-/

namespace Semrange

/-- The version is what some text is read as where wildcards are not allowed. -/
def Version.Read (v : Version) : Prop :=
  ∃ s, parse false s = .ok v

namespace Interval

/-! ## Accepted intervals -/

/-- The bounds of the interval are at versions that have been read, and make up the interval. -/
def Accepted (i : Interval) : Prop :=
  (∀ b ∈ i.bounds, b.version.Read) ∧ ofBounds i.lower? i.upper? = .ok i

/-- What is inherited is inherited together with bounds that make up the interval. -/
theorem Inherited.accepted {P : Interval → Prop} (hP : Inherited P) :
    Inherited fun i => P i ∧ ofBounds i.lower? i.upper? = .ok i where
  concrete h := hP.concrete h.1
  all := ⟨hP.all, rfl⟩
  around h q := ⟨hP.around h.1 q, valid_iff.mp trivial⟩
  span ha hb hle := by
    obtain ⟨hal, -⟩ := hP.concrete ha.1
    obtain ⟨-, hbu⟩ := hP.concrete hb.1
    have hreach := (reaches_iff hbu hal).mpr hle
    exact ⟨hP.span ha.1 hb.1 hle, valid_iff.mp (valid_of_reaches hreach)⟩

/-- What is made of accepted intervals is accepted. -/
theorem inherited_accepted : Inherited Accepted :=
  (inherited_bounds (P := Version.Read) fun _ ⟨_, h⟩ =>
    (Version.legible_of_parse_false h).1).accepted

/-- The complement of an accepted interval is accepted. -/
theorem accepted_of_mem_complement {i : Interval} (h : i.Accepted) :
    ∀ j ∈ complement i, j.Accepted := by
  intro j hj
  refine ⟨forall_bounds_complement (P := Version.Read) h.1 j hj, valid_iff.mp ?_⟩
  rcases complement_cases hj with rfl | ⟨e, upper, -, rfl⟩ | ⟨lower, f, -, rfl⟩ |
    ⟨name, r, q, -, rfl⟩ <;> exact trivial

/-! ## One step -/

section

variable (store : List (Option Interval))

/-- Of the intervals at some places, those that are not empty. -/
theorem reduceOption_map_known (l : List ℕ) :
    (l.map (known store)).reduceOption = l.filterMap (known store) := by
  rw [List.reduceOption, List.filterMap_map]
  rfl

/-- No operation fails, whatever is in the store. -/
theorem Operation.attempt_eq (op : Operation) : op.attempt store = .ok (op.results store) := by
  -- Each operation is made on the intervals at the given places, those that are empty aside.
  cases op with
  | union l i =>
    have hplaces : l.map (known store) ++ [known store i] = (l ++ [i]).map (known store) := by
      rw [List.map_append, List.map_singleton]
    rw [Operation.attempt, Checked.union_eq, hplaces, reduceOption_map_known]
    rfl
  | unionAll l =>
    rw [Operation.attempt, Checked.unionAll_eq, reduceOption_map_known]
    rfl
  | intersect i j =>
    rw [Operation.attempt, Checked.intersect_eq]
    rfl
  | intersectAll a b =>
    rw [Operation.attempt, Checked.intersectAll_eq, reduceOption_map_known, reduceOption_map_known]
    rfl
  | complement i =>
    rw [Operation.attempt, Checked.complement_eq]
    rfl
  | complementAll l =>
    rw [Operation.attempt, Checked.complementAll_eq]
    rfl

variable {store} (h : ∀ i, some i ∈ store → i.Accepted)
include h

/-- The intervals at the places of a store of accepted intervals are accepted. -/
theorem accepted_of_known {place : ℕ} {i : Interval} (hi : known store place = some i) :
    i.Accepted := by
  refine h i (List.mem_of_getElem? (i := place) ?_)
  unfold known at hi
  rw [List.getD_eq_getElem?_getD] at hi
  cases hplace : store[place]? with
  | none =>
    rw [hplace] at hi
    exact absurd hi nofun
  | some o =>
    rw [hplace] at hi
    exact congrArg some hi

/-- An operation on accepted intervals makes accepted intervals. -/
theorem Operation.accepted_results (op : Operation) :
    ∀ i, some i ∈ op.results store → i.Accepted := by
  -- What is taken from the store is accepted, and what is made of that inherits it.
  have hplaces : ∀ l : List ℕ, ∀ i ∈ l.filterMap (known store), i.Accepted := by
    intro l i hi
    obtain ⟨place, -, hplace⟩ := List.mem_filterMap.mp hi
    exact accepted_of_known h hplace
  have hsome : ∀ {l : List Interval}, (∀ i ∈ l, i.Accepted) →
      ∀ i, some i ∈ l.map some → i.Accepted :=
    fun hl i hi => hl i ((List.mem_map_of_injective (Option.some_injective _)).mp hi)
  cases op with
  | union l i => exact hsome (inherited_accepted.unionAll (hplaces (l ++ [i])))
  | unionAll l => exact hsome (inherited_accepted.unionAll (hplaces l))
  | intersect i j =>
    intro k hk
    -- Where something is shared, both intervals are there.
    obtain ⟨a, ha, hk⟩ := Option.bind_eq_some_iff.mp (List.mem_singleton.mp hk).symm
    obtain ⟨b, hb, hk⟩ := Option.bind_eq_some_iff.mp hk
    exact inherited_accepted.intersect (accepted_of_known h ha) (accepted_of_known h hb) hk
  | intersectAll a b => exact hsome (inherited_accepted.intersectAll (hplaces a) (hplaces b))
  | complement i =>
    refine hsome ?_
    cases hi : known store i with
    | none => exact List.forall_mem_singleton.mpr inherited_accepted.all
    | some j => exact accepted_of_mem_complement (accepted_of_known h hi)
  | complementAll l =>
    refine hsome (inherited_accepted.complementAll fun i hi => ?_)
    obtain ⟨place, -, hplace⟩ := List.mem_map.mp hi
    exact accepted_of_mem_complement (accepted_of_known h hplace)

end

/-! ## Computations -/

/-- No computation fails, whatever is in the store. -/
theorem attempt_eq (ops : List Operation) (store : List (Option Interval)) :
    attempt store ops = .ok (outcome store ops) := by
  induction ops generalizing store with
  | nil => rfl
  | cons op ops ih =>
    rw [attempt, op.attempt_eq, Checked.ok_bind, ih]
    rfl

/-- A computation on accepted intervals comes by accepted intervals only. -/
theorem accepted_outcome (ops : List Operation) {store : List (Option Interval)}
    (h : ∀ i, some i ∈ store → i.Accepted) : ∀ i, some i ∈ outcome store ops → i.Accepted := by
  induction ops generalizing store with
  | nil => exact h
  | cons op ops ih =>
    -- Known after the step is what was known before and what the step returned.
    refine ih fun i hi => ?_
    rcases List.mem_append.mp hi with hi | hi
    · exact h i hi
    · exact op.accepted_results h i hi

/-- The algebra never fails: whatever operations are made one after another, on any intervals that are
given or come from earlier steps, no interval is refused and no version is read off a missing bound.
Each step returns what the operation returns without checks; and from accepted intervals all intervals
on the way are accepted. -/
theorem attempt_never_fails (ops : List Operation) (store : List (Option Interval)) :
    attempt store ops = .ok (outcome store ops) ∧
      ((∀ i, some i ∈ store → i.Accepted) → ∀ i, some i ∈ outcome store ops → i.Accepted) :=
  ⟨attempt_eq ops store, accepted_outcome ops⟩

/-- A span that is empty between two ways to write its version, a half-line and a point: the complement
of the first one in two pieces, these joined over the seam with the point in the list, what the
half-line and the lower piece share, and the rest one by one. -/
theorem attempt_never_fails_seam :
    let v (n : ℕ) : Semantic := ⟨n, [], false, none, none⟩
    let v' : Semantic := ⟨1, [0], false, none, some "x"⟩
    let i := span (some ⟨v 1, false⟩) (some ⟨v', false⟩)
    let ray := span (some ⟨v 2, true⟩) none
    let foo := around "foo" (.within true true)
    let store := [some i, some ray, some foo]
    let ops := [.complement 0, .unionAll [3, 2, 4], .intersect 1 3, .intersectAll [1, 2] [5],
      .complementAll [1, 3], .union [2, 0] 3]
    (∀ j, some j ∈ store → j.Accepted) ∧ attempt store ops = .ok (outcome store ops) ∧
      outcome store ops = store ++ [some (span none (some ⟨v 1, true⟩)),
        some (span (some ⟨v', true⟩) none), some all, none, some ray, some foo,
        some (span (some ⟨v 1, false⟩) (some ⟨v 2, false⟩)), some foo,
        some (span none (some ⟨v 1, true⟩))] ∧
      ∀ j, some j ∈ outcome store ops → j.Accepted := by
  intro v v' i ray foo store ops
  have hread : ∀ {s : String} {w : Version}, Version.parse false s = .ok w → w.Read :=
    fun h => ⟨_, h⟩
  have hone : Version.parse false "1" = .ok (.semantic (v 1)) := by decide +kernel
  have hone' : Version.parse false "1.0+x" = .ok (.semantic v') := by decide +kernel
  have htwo : Version.parse false "2" = .ok (.semantic (v 2)) := by decide +kernel
  have hfoo : Version.parse false "foo" = .ok (.label "foo") := by decide +kernel
  have hstore : ∀ j, some j ∈ store → j.Accepted := by
    intro j hj
    simp only [store, List.mem_cons, Option.some.injEq, List.not_mem_nil, or_false] at hj
    rcases hj with rfl | rfl | rfl
    · exact ⟨List.forall_mem_cons.mpr ⟨hread hone, List.forall_mem_singleton.mpr (hread hone')⟩, rfl⟩
    · exact ⟨List.forall_mem_singleton.mpr (hread htwo), rfl⟩
    · exact ⟨forall_bounds_around.mpr (hread hfoo), rfl⟩
  obtain ⟨heq, haccepted⟩ := attempt_never_fails ops store
  exact ⟨hstore, heq, by decide, haccepted hstore⟩

end Interval

end Semrange
