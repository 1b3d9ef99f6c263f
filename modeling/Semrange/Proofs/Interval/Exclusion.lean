import Semrange.Proofs.Interval.Complement
import Semrange.Proofs.Interval.Settled

/-!
# What the complement of a settled list contains

The complement of a list of spans contains the semantic versions that the list does not contain, and
no label, since all of its members have an end. Labels have no order, so what lies outside of a
label is two intervals around it that hold nothing, and these share nothing with what lies outside
of any other member (`complementAll_of_label`). So a complement says nothing about versions where a
label is involved (`exists_contains_complementAll_iff`).
-/

namespace Semrange.Interval

/-! ## What a complement is made of -/

/-- The complement of legible intervals is legible. -/
theorem legible_complementAll {l : List Interval} (hl : ∀ i ∈ l, i.Legible) :
    ∀ j ∈ complementAll (l.map some), j.Legible :=
  inherited_legible.complementAll fun i hi =>
    forall_bounds_complement (hl i ((List.mem_map_of_injective (Option.some_injective _)).mp hi))

/-! ## Complements of spans -/

/-- No interval of a list of intervals is missing. -/
theorem reduceOption_map_some (l : List Interval) : (l.map some).reduceOption = l := by
  rw [List.reduceOption, List.filterMap_map]
  exact List.filterMap_some

section

variable {l : List Interval} (hl : ∀ i ∈ l, i.isSemantic = true ∧ i.Concrete)
include hl

/-- The complement of a list of spans is a list of spans, which extends over the cuts that none of
them extends over. -/
theorem extentOf_complementAll_map :
    (∀ i ∈ complementAll (l.map some), i.isSemantic = true ∧ i.Concrete) ∧
      extentOf (complementAll (l.map some)) = all.extent \ extentOf l := by
  have h := extentOf_complementAll (l := l.map some) (by rwa [reduceOption_map_some])
  rwa [reduceOption_map_some] at h

/-- The complement of spans of which one has room consists of spans with an end. -/
theorem bounded_complementAll (hroom : ∃ i ∈ l, i.start < i.stop) :
    ∀ j ∈ complementAll (l.map some), j.isSemantic = true ∧ j ≠ all := by
  obtain ⟨hspans, hext⟩ := extentOf_complementAll_map hl
  obtain ⟨i, hi, hlt⟩ := hroom
  -- The cut at which that span starts is missing.
  have hnot : i.start ∉ extentOf (complementAll (l.map some)) := by
    rw [hext]
    exact fun h => h.2 ⟨i, hi, le_rfl, hlt⟩
  intro j hj
  refine ⟨(hspans j hj).1, ?_⟩
  rintro rfl
  exact hnot ⟨all, hj, bot_le, hlt.trans_le le_top⟩

end

/-! ## Complements where there is a label -/

/-- Where no two members share anything, nothing is shared. -/
theorem intersectAll_eq_nil {a b : List Interval} (h : ∀ i ∈ a, ∀ j ∈ b, i.intersect j = none) :
    intersectAll a b = [] := by
  have hnil : sharedPairs a b = [] := by
    refine List.eq_nil_iff_forall_not_mem.mpr fun k hk => ?_
    obtain ⟨i, hi, j, hj, hk⟩ := mem_sharedPairs.mp hk
    rw [h i hi j hj] at hk
    exact absurd hk nofun
  exact congrArg unionAll hnil

/-- A span with an end shares nothing with an interval around a label. -/
theorem intersect_around_eq_none {i : Interval} (hi : i.isSemantic = true ∧ i ≠ all) (name : String)
    (reach : Reach) : i.intersect (around name reach) = none := by
  obtain ⟨hsem, hne⟩ := hi
  cases i with
  | around t q => exact absurd hsem nofun
  | span lower upper =>
    rw [intersect_span_around]
    refine if_neg ?_
    rintro ⟨rfl, rfl⟩
    exact hne rfl

/-- What lies outside of a label is around it and does not hold it. -/
theorem mem_complement_point {name : String} {i : Interval} (h : i ∈ complement (point name)) :
    ∃ reach, i = around name reach ∧ reach.coverage.point = false := by
  have hpieces : complement (point name) =
      [around name (.below false), around name (.above false)] := rfl
  rw [hpieces, List.mem_cons, List.mem_singleton] at h
  rcases h with rfl | rfl
  · exact ⟨.below false, rfl, rfl⟩
  · exact ⟨.above false, rfl, rfl⟩

/-- Spans with an end share nothing with what lies outside of a label. -/
theorem intersectAll_complement_point {a : List Interval}
    (ha : ∀ i ∈ a, i.isSemantic = true ∧ i ≠ all) (name : String) :
    intersectAll a (complement (point name)) = [] := by
  refine intersectAll_eq_nil fun i hi j hj => ?_
  obtain ⟨reach, rfl, -⟩ := mem_complement_point hj
  exact intersect_around_eq_none (ha i hi) name reach

/-- What lies outside of a label shares nothing with what lies outside of another plain interval. -/
theorem intersectAll_point_complement {name : String} {i : Interval} (hi : i.Legible)
    (hplain : i.Plain) (hne : i ≠ point name) :
    intersectAll (complement (point name)) (complement i) = [] := by
  refine intersectAll_eq_nil fun j hj k hk => ?_
  obtain ⟨reach, rfl, -⟩ := mem_complement_point hj
  cases i with
  | span lower upper =>
    -- A span has room, so what lies outside of it has an end.
    have hspan : ∀ i ∈ [span lower upper], i.isSemantic = true ∧ i.Concrete :=
      List.forall_mem_singleton.mpr ⟨rfl, hi.concrete⟩
    have hbounded := bounded_complementAll hspan ⟨_, List.mem_singleton_self _, hplain⟩ k hk
    cases k with
    | around t q => exact absurd hbounded.1 nofun
    | span bl bu =>
      rw [intersect_around_span]
      exact intersect_around_eq_none hbounded name reach
  | around t q =>
    obtain rfl : q = .within true true := hplain
    obtain ⟨q, rfl, -⟩ := mem_complement_point hk
    -- Around two labels nothing is shared.
    refine if_neg ?_
    rintro rfl
    exact hne rfl

/-- The complement of a settled list of spans consists of spans with an end. -/
theorem bounded_of_settled {l : List Interval} (h : Settled l)
    (hsem : ∀ i ∈ l, i.isSemantic = true) (hne : l ≠ []) :
    ∀ j ∈ complementAll (l.map some), j.isSemantic = true ∧ j ≠ all := by
  have hspans : ∀ i ∈ l, i.isSemantic = true ∧ i.Concrete :=
    fun i hi => ⟨hsem i hi, (h.legible i hi).concrete⟩
  obtain ⟨i, hi⟩ := List.exists_mem_of_ne_nil l hne
  exact bounded_complementAll hspans
    ⟨i, hi, h.spaced.room i (List.mem_filter.mpr ⟨hi, hsem i hi⟩)⟩

/-- The complement of a settled list with a label is empty, unless the label is all there is. -/
theorem complementAll_of_label {l : List Interval} (h : Settled l)
    (hlabel : ¬∀ i ∈ l, i.isSemantic = true) :
    complementAll (l.map some) = [] ∨ ∃ name, l = [point name] := by
  induction l using List.reverseRecOn with
  | nil => exact absurd (List.forall_mem_nil _) hlabel
  | append_singleton l i ih =>
    have hinit := h.init.1
    have hmem : i ∈ l ++ [i] := List.mem_append_right _ (List.mem_singleton_self i)
    -- Where all members before it are spans, the last one is the label.
    have hlast : (∀ j ∈ l, j.isSemantic = true) → ∃ name, i = point name := by
      intro hsem
      refine h.eq_point (List.mem_filter.mpr ⟨hmem, ?_⟩)
      rw [Bool.not_eq_true', Bool.eq_false_iff]
      exact fun hi => hlabel (List.forall_mem_append.mpr ⟨hsem, List.forall_mem_singleton.mpr hi⟩)
    by_cases hnil : l = []
    · subst hnil
      obtain ⟨name, rfl⟩ := hlast (List.forall_mem_nil _)
      exact Or.inr ⟨name, rfl⟩
    · left
      rw [List.map_append, List.map_singleton,
        complementAll_append_singleton (mt List.map_eq_nil_iff.mp hnil)]
      by_cases hsem : ∀ j ∈ l, j.isSemantic = true
      · -- The label is the last member, and what lies outside of the spans before it has an end.
        obtain ⟨name, rfl⟩ := hlast hsem
        exact intersectAll_complement_point (bounded_of_settled hinit hsem hnil) name
      · -- There is a label among the members before the last one: nothing is left already, or that
        -- label is all there was.
        rcases ih hinit hsem with hempty | ⟨name, rfl⟩
        · rw [hempty]
          rfl
        · refine intersectAll_point_complement (h.legible i hmem) (h.plain i hmem) ?_
          rintro rfl
          exact (List.nodup_cons.mp h.nodup).1 (List.mem_singleton_self _)

/-! ## Membership -/

/-- Spans with an end contain no label. -/
theorem contains_label_of_bounded {i : Interval} (hi : i.Legible)
    (hbounded : i.isSemantic = true ∧ i ≠ all) {name : String}
    (hname : Version.Legible (.label name)) : ¬i.contains (.label name) = true := by
  obtain ⟨hsem, hne⟩ := hbounded
  cases i with
  | around t q => exact absurd hsem nofun
  | span lower upper =>
    rw [contains_span_label hname hi rfl]
    rintro ⟨rfl, rfl⟩
    exact hne rfl

/-- The complement of a settled list with a label contains nothing. -/
theorem not_contains_of_label {l : List Interval} (h : Settled l)
    (hlabel : ¬∀ i ∈ l, i.isSemantic = true) {v : Version} (hv : v.Legible) :
    ¬∃ i ∈ complementAll (l.map some), i.contains v = true := by
  rintro ⟨i, hi, hc⟩
  rcases complementAll_of_label h hlabel with hempty | ⟨name, rfl⟩
  · rw [hempty] at hi
    exact absurd hi List.not_mem_nil
  · have hlegible := legible_complementAll h.legible i hi
    obtain ⟨reach, rfl, hpoint⟩ := mem_complement_point hi
    rw [contains_around hv hlegible, hpoint] at hc
    exact absurd hc.2 nofun

/-- The complement of a settled list contains the versions that the list does not contain, but only
where no label is involved: semantic versions if the list is all spans, and labels if the list is
empty. -/
theorem exists_contains_complementAll_iff {l : List Interval} (h : Settled l) {v : Version}
    (hv : v.Legible) :
    (∃ i ∈ complementAll (l.map some), i.contains v = true) ↔
      (¬∃ i ∈ l, i.contains v = true) ∧
        (l = [] ∨ v.isSemantic = true ∧ ∀ i ∈ l, i.isSemantic = true) := by
  by_cases hnil : l = []
  · subst hnil
    -- Outside of nothing is everything.
    have hall : all.contains v = true := by
      cases v with
      | semantic u => rfl
      | label name => exact (contains_span_label hv inherited_legible.all rfl).mpr ⟨rfl, rfl⟩
    have hnone : ¬∃ i ∈ ([] : List Interval), i.contains v = true :=
      fun ⟨_, hi, _⟩ => List.not_mem_nil hi
    exact iff_of_true ⟨all, List.mem_singleton_self all, hall⟩ ⟨hnone, Or.inl rfl⟩
  · rw [or_iff_right hnil]
    by_cases hsem : ∀ i ∈ l, i.isSemantic = true
    · cases v with
      | label name =>
        -- What lies outside of spans has an end, so it contains no label.
        refine iff_of_false ?_ fun hr => absurd hr.2.1 nofun
        rintro ⟨i, hi, hc⟩
        exact contains_label_of_bounded (legible_complementAll h.legible i hi)
          (bounded_of_settled h hsem hnil i hi) hv hc
      | semantic u =>
        -- Among spans it is the extents that count.
        have hspans : ∀ i ∈ l, i.isSemantic = true ∧ i.Concrete :=
          fun i hi => ⟨hsem i hi, (h.legible i hi).concrete⟩
        obtain ⟨hpieces, hext⟩ := extentOf_complementAll_map hspans
        rw [exists_contains_iff hpieces hv.1, exists_contains_iff hspans hv.1, hext,
          and_iff_left ⟨rfl, hsem⟩]
        exact and_iff_right ⟨bot_le, Cut.beside_lt_top _ _⟩
    · exact iff_of_false (not_contains_of_label h hsem hv) fun hr => hsem hr.2.2

/-- The complement of a union of plain intervals contains the versions that no member contains, but
only where no label is involved. -/
theorem exists_contains_complementAll_unionAll_iff {l : List Interval}
    (hl : ∀ i ∈ l, i.Legible ∧ i.Plain) {v : Version} (hv : v.Legible) :
    (∃ i ∈ complementAll ((unionAll l).map some), i.contains v = true) ↔
      (¬∃ i ∈ l, i.contains v = true) ∧
        (unionAll l = [] ∨ v.isSemantic = true ∧ ∀ i ∈ unionAll l, i.isSemantic = true) := by
  rw [exists_contains_complementAll_iff (settled_unionAll hl) hv]
  -- Where the complement contains anything, the union contains what its members do.
  refine and_congr_left fun hfree => not_congr ?_
  rcases hfree with hnil | ⟨hsem, -⟩
  · rw [hnil, not_not.mp (mt (unionAll_ne_nil hl) (not_not_intro hnil))]
  · have hkept : ∀ name, v = .label name → point name ∈ l → Lost name l → unionAll l = [all] := by
      rintro name rfl
      exact absurd hsem nofun
    rw [exists_contains_unionAll_iff hl hv hkept, or_iff_left]
    exact fun h => absurd (hsem.symm.trans h.1) nofun

end Semrange.Interval
