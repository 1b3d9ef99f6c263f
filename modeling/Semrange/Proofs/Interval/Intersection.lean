import Semrange.Proofs.Interval.Union

/-!
# Intersections are exact

What two spans share extends over the cuts that both extend over (`extentOf_intersect`), and so does
what two lists of spans share (`extentOf_intersectAll`). Two spans with room share a span with room
or nothing, so from proper spans the shared list comes out in canonical form.
-/

namespace Semrange.Interval

/-- What two spans share: the span from the greater of the lower cuts to the smaller of the upper
ones, or nothing if there is no room between these. -/
inductive Shared (al au bl bu : Option End) : Option Interval → Prop where
  /-- There is a span between two of the ends. -/
  | span (lower upper : Option End) : lower = al ∨ lower = bl → upper = au ∨ upper = bu →
    lowerCut lower = max (lowerCut al) (lowerCut bl) →
    upperCut upper = min (upperCut au) (upperCut bu) →
    (lowerCut al < upperCut au → lowerCut bl < upperCut bu → lowerCut lower < upperCut upper) →
    Shared al au bl bu (some (Interval.span lower upper))
  /-- There is no room between the two cuts. -/
  | nothing : min (upperCut au) (upperCut bu) ≤ max (lowerCut al) (lowerCut bl) →
    Shared al au bl bu none

/-- Between two ends there is a span if there is room. -/
theorem shared_spanBetween {al au bl bu lower upper : Option End}
    (hc : (span lower upper).Concrete) (hl' : lower = al ∨ lower = bl)
    (hu' : upper = au ∨ upper = bu)
    (hl : lowerCut lower = max (lowerCut al) (lowerCut bl))
    (hu : upperCut upper = min (upperCut au) (upperCut bu)) :
    Shared al au bl bu (spanBetween lower upper) := by
  have hroom := leavesRoom_iff hc.1 hc.2
  unfold spanBetween
  by_cases h : leavesRoom lower upper = true
  · rw [if_pos h]
    exact .span lower upper hl' hu' hl hu fun _ _ => hroom.mp h
  · rw [if_neg h]
    refine .nothing ?_
    rw [← hl, ← hu]
    exact not_lt.mp (mt hroom.mpr h)

/-- Two spans share the first one if it lies within the second one. -/
theorem shared_left {al au bl bu : Option End} (hl : lowerCut bl ≤ lowerCut al)
    (hu : upperCut au ≤ upperCut bu) : Shared al au bl bu (some (span al au)) :=
  .span al au (Or.inl rfl) (Or.inl rfl) (max_eq_left hl).symm (min_eq_left hu).symm fun h _ => h

/-- Two spans share the second one if it lies within the first one. -/
theorem shared_right {al au bl bu : Option End} (hl : lowerCut al ≤ lowerCut bl)
    (hu : upperCut bu ≤ upperCut au) : Shared al au bl bu (some (span bl bu)) :=
  .span bl bu (Or.inr rfl) (Or.inr rfl) (max_eq_right hl).symm (min_eq_right hu).symm fun _ h => h

/-- The intersection of two spans is what they share. -/
theorem shared_intersectSpans {al au bl bu : Option End} (ha : (span al au).Concrete)
    (hb : (span bl bu).Concrete) : Shared al au bl bu (intersectSpans al au bl bu) := by
  have hL := compares_compareLower ha.1 hb.1
  have hU := compares_compareUpper ha.2 hb.2
  unfold intersectSpans
  -- Where one span begins first and the other one ends first, they share what is between.
  cases hcl : compareLower al bl with
  | lt =>
    rw [hcl] at hL
    have hl : lowerCut al ≤ lowerCut bl := le_of_lt hL
    cases hcu : compareUpper au bu with
    | lt =>
      rw [hcu] at hU
      exact shared_spanBetween ⟨hb.1, ha.2⟩ (Or.inr rfl) (Or.inl rfl) (max_eq_right hl).symm
        (min_eq_left (le_of_lt hU)).symm
    | eq =>
      rw [hcu] at hU
      exact shared_right hl (ge_of_eq hU)
    | gt =>
      rw [hcu] at hU
      exact shared_right hl (le_of_lt hU)
  | eq =>
    rw [hcl] at hL
    have hl : lowerCut al = lowerCut bl := hL
    cases hcu : compareUpper au bu with
    | lt =>
      rw [hcu] at hU
      exact shared_left hl.ge (le_of_lt hU)
    | eq =>
      rw [hcu] at hU
      exact shared_left hl.ge (le_of_eq hU)
    | gt =>
      rw [hcu] at hU
      exact shared_right hl.le (le_of_lt hU)
  | gt =>
    rw [hcl] at hL
    have hl : lowerCut bl ≤ lowerCut al := le_of_lt hL
    cases hcu : compareUpper au bu with
    | lt =>
      rw [hcu] at hU
      exact shared_left hl (le_of_lt hU)
    | eq =>
      rw [hcu] at hU
      exact shared_left hl (le_of_eq hU)
    | gt =>
      rw [hcu] at hU
      exact shared_spanBetween ⟨ha.1, hb.2⟩ (Or.inl rfl) (Or.inr rfl) (max_eq_left hl).symm
        (min_eq_right (le_of_lt hU)).symm

/-- An interval that two spans share is what they share. -/
theorem shared_of_intersect {al au bl bu : Option End} (ha : (span al au).Concrete)
    (hb : (span bl bu).Concrete) {k : Interval}
    (h : (span al au).intersect (span bl bu) = some k) : Shared al au bl bu (some k) := by
  rw [← h]
  exact shared_intersectSpans ha hb

/-! ## Two spans -/

section

variable {i j : Interval} (hi : i.isSemantic = true ∧ i.Concrete)
  (hj : j.isSemantic = true ∧ j.Concrete)
include hi hj

/-- Two spans share a span or nothing. -/
theorem shared_intersect : ∃ al au bl bu, i = span al au ∧ j = span bl bu ∧
    Shared al au bl bu (i.intersect j) := by
  cases i with
  | around name reach => exact absurd hi.1 nofun
  | span al au =>
    cases j with
    | around name reach => exact absurd hj.1 nofun
    | span bl bu => exact ⟨al, au, bl, bu, rfl, rfl, shared_intersectSpans hi.2 hj.2⟩

/-- What two spans share is a span with ends that were there. -/
theorem concrete_intersect {k : Interval} (h : i.intersect j = some k) :
    k.isSemantic = true ∧ k.Concrete := by
  obtain ⟨al, au, bl, bu, rfl, rfl, hs⟩ := shared_intersect hi hj
  rw [h] at hs
  cases hs with
  | span lower upper hl hu =>
    -- Each end is an end of one of the two spans.
    refine ⟨rfl, ?_, ?_⟩
    · rcases hl with rfl | rfl
      · exact hi.2.1
      · exact hj.2.1
    · rcases hu with rfl | rfl
      · exact hi.2.2
      · exact hj.2.2

/-- What two spans with room share has room. -/
theorem room_intersect (hri : i.start < i.stop) (hrj : j.start < j.stop) {k : Interval}
    (h : i.intersect j = some k) : k.start < k.stop := by
  obtain ⟨al, au, bl, bu, rfl, rfl, hs⟩ := shared_intersect hi hj
  rw [h] at hs
  cases hs with
  | span lower upper _ _ _ _ hroom => exact hroom hri hrj

/-- What two spans share extends over the cuts that both extend over. -/
theorem extentOf_intersect : extentOf (i.intersect j).toList = i.extent ∩ j.extent := by
  obtain ⟨al, au, bl, bu, rfl, rfl, hs⟩ := shared_intersect hi hj
  have hinter : (span al au).extent ∩ (span bl bu).extent =
      Set.Ico (max (lowerCut al) (lowerCut bl)) (min (upperCut au) (upperCut bu)) :=
    Set.Ico_inter_Ico
  rw [hinter]
  generalize (span al au).intersect (span bl bu) = o at hs
  cases hs with
  | span lower upper _ _ hl hu =>
    rw [← hl, ← hu]
    exact extentOf_singleton _
  | nothing hle =>
    show extentOf [] = _
    rw [extentOf_nil, Set.Ico_eq_empty_of_le hle]

end

/-! ## Lists of spans -/

/-- What the members of two lists share, pair by pair. -/
def sharedPairs (a b : List Interval) : List Interval :=
  a.flatMap fun i => b.filterMap fun j => i.intersect j

/-- A shared piece is shared by a member of the one list and a member of the other one. -/
theorem mem_sharedPairs {a b : List Interval} {k : Interval} :
    k ∈ sharedPairs a b ↔ ∃ i ∈ a, ∃ j ∈ b, i.intersect j = some k := by
  simp [sharedPairs]

section

variable {a b : List Interval} (ha : ∀ i ∈ a, i.isSemantic = true ∧ i.Concrete)
  (hb : ∀ i ∈ b, i.isSemantic = true ∧ i.Concrete)
include ha hb

/-- The shared pieces of two lists of spans are spans. -/
theorem concrete_sharedPairs : ∀ k ∈ sharedPairs a b, k.isSemantic = true ∧ k.Concrete := by
  intro k hk
  obtain ⟨i, hi, j, hj, h⟩ := mem_sharedPairs.mp hk
  exact concrete_intersect (ha i hi) (hb j hj) h

/-- The shared pieces extend over the cuts that both lists extend over. -/
theorem extentOf_sharedPairs : extentOf (sharedPairs a b) = extentOf a ∩ extentOf b := by
  ext x
  have hpair : ∀ i ∈ a, ∀ j ∈ b, x ∈ extentOf (i.intersect j).toList ↔
      x ∈ i.extent ∧ x ∈ j.extent := by
    intro i hi j hj
    rw [extentOf_intersect (ha i hi) (hb j hj)]
    rfl
  constructor
  · -- A shared piece lies in the two members that it comes from.
    rintro ⟨k, hk, hx⟩
    obtain ⟨i, hi, j, hj, h⟩ := mem_sharedPairs.mp hk
    have hx' := (hpair i hi j hj).mp ⟨k, by rw [h]; exact List.mem_singleton_self k, hx⟩
    exact ⟨⟨i, hi, hx'.1⟩, ⟨j, hj, hx'.2⟩⟩
  · -- A cut that both lists extend over lies in what one member of each shares.
    rintro ⟨⟨i, hi, hxi⟩, ⟨j, hj, hxj⟩⟩
    obtain ⟨k, hk, hx⟩ := (hpair i hi j hj).mpr ⟨hxi, hxj⟩
    exact ⟨k, mem_sharedPairs.mpr ⟨i, hi, j, hj, Option.mem_toList.mp hk⟩, hx⟩

/-- What two lists of spans share is a list of spans. -/
theorem spanList_intersectAll : SpanList (intersectAll a b) :=
  spanList_unionAll (concrete_sharedPairs ha hb)

/-- What two lists of spans share extends over the cuts that both extend over. -/
theorem extentOf_intersectAll : extentOf (intersectAll a b) = extentOf a ∩ extentOf b :=
  (extentOf_unionAll (concrete_sharedPairs ha hb)).trans (extentOf_sharedPairs ha hb)

/-- What two lists of spans with room share is spaced. -/
theorem spaced_intersectAll (hra : ∀ i ∈ a, i.start < i.stop)
    (hrb : ∀ i ∈ b, i.start < i.stop) : Spaced (intersectAll a b) := by
  refine spaced_unionAll (concrete_sharedPairs ha hb) fun k hk => ?_
  obtain ⟨i, hi, j, hj, h⟩ := mem_sharedPairs.mp hk
  exact room_intersect (ha i hi) (hb j hj) (hra i hi) (hrb j hj) h

end

/-- Intersections of lists of spans are exact and canonical, whatever the order of the members and
whether or not these overlap or are empty: they contain the versions that a member of each list
contains, and from proper members they come out in canonical form. -/
theorem intersection_exact_and_canonical {a b : List Interval}
    (ha : ∀ i ∈ a, i.isSemantic = true ∧ i.Concrete)
    (hb : ∀ j ∈ b, j.isSemantic = true ∧ j.Concrete) :
    (∀ v : Semantic, v.wild = false →
      ((∃ k ∈ intersectAll a b, k.contains (.semantic v) = true) ↔
        (∃ i ∈ a, i.contains (.semantic v) = true) ∧ ∃ j ∈ b, j.contains (.semantic v) = true)) ∧
      ((∀ i ∈ a, i.Proper) → (∀ j ∈ b, j.Proper) → Canonical (intersectAll a b)) := by
  have hspans := (spanList_intersectAll ha hb).concrete
  refine ⟨fun v hv => ?_, fun hpa hpb => ?_⟩
  · -- Versions are contained where their cuts are extended over.
    rw [exists_contains_iff hspans hv, exists_contains_iff ha hv, exists_contains_iff hb hv,
      extentOf_intersectAll ha hb]
    exact Iff.rfl
  · rw [canonical_iff_spaced hspans]
    have hra : ∀ i ∈ a, i.start < i.stop := fun i hi => (proper_iff (ha i hi)).mp (hpa i hi)
    have hrb : ∀ j ∈ b, j.start < j.stop := fun j hj => (proper_iff (hb j hj)).mp (hpb j hj)
    exact spaced_intersectAll ha hb hra hrb

/-- Two overlapping spans out of order on one side, and on the other side two that meet inside both
of them: the four pieces come out as one span. -/
theorem intersection_exact_and_canonical_pieces :
    let v (n : ℕ) : Semantic := ⟨n, [], false, none, none⟩
    let a := [span (some ⟨v 2, false⟩) (some ⟨v 5, true⟩),
      span (some ⟨v 1, true⟩) (some ⟨v 4, false⟩)]
    let b := [span (some ⟨v 3, true⟩) none, span none (some ⟨v 3, false⟩)]
    (∀ i ∈ a, i.isSemantic = true ∧ i.Concrete) ∧ (∀ j ∈ b, j.isSemantic = true ∧ j.Concrete) ∧
      (∀ i ∈ a, i.Proper) ∧ (∀ j ∈ b, j.Proper) ∧
      intersectAll a b = [span (some ⟨v 1, true⟩) (some ⟨v 5, true⟩)] ∧
      Canonical (intersectAll a b) ∧
      ((∃ k ∈ intersectAll a b, k.contains (.semantic (v 3)) = true) ↔
        (∃ i ∈ a, i.contains (.semantic (v 3)) = true) ∧
          ∃ j ∈ b, j.contains (.semantic (v 3)) = true) := by
  intro v a b
  have ha : ∀ i ∈ a, i.isSemantic = true ∧ i.Concrete := by
    simp [a, v, isSemantic, Concrete, End.ConcreteOrNone]
  have hb : ∀ j ∈ b, j.isSemantic = true ∧ j.Concrete := by
    simp [b, v, isSemantic, Concrete, End.ConcreteOrNone]
  have hpa : ∀ i ∈ a, i.Proper := List.forall_mem_cons.mpr
    ⟨Or.inl (by decide), List.forall_mem_singleton.mpr (Or.inl (by decide))⟩
  have hpb : ∀ j ∈ b, j.Proper :=
    List.forall_mem_cons.mpr ⟨trivial, List.forall_mem_singleton.mpr trivial⟩
  have h := intersection_exact_and_canonical ha hb
  exact ⟨ha, hb, hpa, hpb, by decide, h.2 hpa hpb, h.1 (v 3) rfl⟩

end Semrange.Interval
