import Semrange.Proofs.Interval.Labels

/-!
# Unions are settled

What a union of plain intervals leaves is `Settled`: its spans are in canonical form, each label is
there once, and the interval of all versions stands alone. A settled list is its own union
(`unionAll_of_settled`), so unions may be taken again on the way (`unionAll_append_unionAll`).

A union contains a semantic version when one of its members does, labels among them or not. A label
is in a union as a point, or because everything is (`exists_contains_unionAll_iff`).
-/

namespace Semrange.Interval

/-! ## What a union is made of -/

/-- A span with a lower end is not everything. -/
theorem all_ne_of_lower (e : End) (upper : Option End) : all ≠ span (some e) upper :=
  nofun

/-- A span with an upper end is not everything. -/
theorem all_ne_of_upper (lower : Option End) (f : End) : all ≠ span lower (some f) :=
  nofun

/-- An interval around a label is not everything. -/
theorem all_ne_around (name : String) (reach : Reach) : all ≠ around name reach :=
  nofun

/-- An insertion makes no member that is everything: where a span would grow to that, all is
covered. -/
theorem all_notMem_insertSpan {lower upper : Option End} (hi : span lower upper ≠ all)
    {l r : List Interval} (hl : all ∉ l) (h : insertSpan lower upper l = some r) : all ∉ r := by
  -- The span grows on its way through the list, and its lower end may change: so the induction is
  -- for all lower ends.
  induction l generalizing lower r with
  | nil =>
    cases h
    exact fun hmem => hi (List.mem_singleton.mp hmem).symm
  | cons i l ih =>
    obtain ⟨hhead, htail⟩ := not_or.mp (mt List.mem_cons.mpr hl)
    cases i with
    | around name reach =>
      -- A label is passed.
      obtain ⟨m, hm, rfl⟩ := Option.map_eq_some_iff.mp h
      exact List.not_mem_cons_of_ne_of_not_mem (all_ne_around name reach) (ih hi htail hm)
    | span cl cu =>
      have hplaced : all ∉ span lower upper :: span cl cu :: l :=
        List.not_mem_cons_of_ne_of_not_mem hi.symm hl
      cases lower with
      | none =>
        cases cu with
        | none =>
          -- Where a span without lower end meets one without upper end, nothing is returned.
          simp only [insertSpan] at h
          split_ifs at h
          cases h
          exact hplaced
        | some f =>
          simp only [insertSpan] at h
          split_ifs at h
          · -- The member is swallowed.
            exact ih hi htail h
          all_goals cases h
          · -- The member encompasses the new span.
            exact hl
          · -- The two are joined, up to the end of the member.
            exact List.not_mem_cons_of_ne_of_not_mem (all_ne_of_upper none f) htail
          · -- The new span ends before the member.
            exact hplaced
      | some e =>
        cases cu with
        | none =>
          simp only [insertSpan] at h
          split_ifs at h
          all_goals cases h
          · -- The member encompasses the new span.
            exact hl
          · -- The new span has no upper end and takes the place of all that follows.
            exact fun hmem => hi (List.mem_singleton.mp hmem).symm
          · -- The two are joined, from the lower end of the new span.
            exact List.not_mem_cons_of_ne_of_not_mem (all_ne_of_lower e none) htail
          · -- The new span ends before the member.
            exact hplaced
        | some f =>
          simp only [insertSpan] at h
          split_ifs at h with hback hreach hle hlt hgt hnone
          · -- The two are joined, from the lower end of the new span.
            cases h
            exact List.not_mem_cons_of_ne_of_not_mem (all_ne_of_lower e (some f)) htail
          · -- The member encompasses the new span.
            cases h
            exact hl
          · -- The member is swallowed and its lower end taken over. Were the longer span everything,
            -- neither of its ends would be there.
            refine ih (fun hall => hnone ?_) htail h
            cases hall
            rfl
          · -- The member is swallowed.
            exact ih hi htail h
          · -- The new span ends before the member.
            cases h
            exact hplaced
          · -- The member ends before the new span and is passed.
            obtain ⟨m, hm, rfl⟩ := Option.map_eq_some_iff.mp h
            exact List.not_mem_cons_of_ne_of_not_mem hhead (ih hi htail hm)

/-- A union is everything by itself, or no member of it is. -/
theorem unionAll_eq_all_or (l : List Interval) : unionAll l = [all] ∨ all ∉ unionAll l := by
  induction l using List.reverseRecOn with
  | nil => exact Or.inr List.not_mem_nil
  | append_singleton l i ih =>
    rw [unionAll_append_singleton]
    rcases ih with hall | hall
    · -- Everything absorbs what is added.
      rw [hall]
      exact Or.inl (insert_all i)
    · have hne : unionAll l ≠ [all] := fun heq => hall (heq ▸ List.mem_singleton_self all)
      cases i with
      | around name reach =>
        -- What is added around a label leaves the other members and puts some around that label.
        rw [insert_around hne]
        refine (insertAround_cases name reach _).imp_right fun hmem h => ?_
        rcases hmem all h with h | ⟨r, h⟩
        · exact hall h
        · exact absurd h nofun
      | span lower upper =>
        by_cases hspan : span lower upper = all
        · rw [hspan]
          exact Or.inl (insert_all_eq _)
        · by_cases heq : insert (span lower upper) (unionAll l) = [all]
          · exact Or.inl heq
          · exact Or.inr (all_notMem_insertSpan hspan hall (insertSpan_eq_some heq))

/-- Where a member is everything, so is the union. -/
theorem unionAll_of_mem {l : List Interval} (h : all ∈ l) : unionAll l = [all] := by
  induction l using List.reverseRecOn with
  | nil => exact absurd h List.not_mem_nil
  | append_singleton l i ih =>
    rw [unionAll_append_singleton]
    rcases List.mem_append.mp h with h | h
    · rw [ih h, insert_all]
    · rw [← List.mem_singleton.mp h, insert_all_eq]

/-! ## Settled lists -/

/-- A list of plain intervals as a union leaves it. -/
structure Settled (l : List Interval) : Prop where
  /-- The members are legible. -/
  legible : ∀ i ∈ l, i.Legible
  /-- The members are spans with room or hold one label. -/
  plain : ∀ i ∈ l, i.Plain
  /-- Each label is there once. -/
  nodup : (labels l).Nodup
  /-- The spans are in order and apart. -/
  spaced : Spaced (l.filter isSemantic)
  /-- Where a member is everything, it is the only one. -/
  whole : all ∈ l → l = [all]

/-- The interval of all versions is settled by itself. -/
theorem settled_all : Settled [all] :=
  ⟨List.forall_mem_singleton.mpr inherited_legible.all, List.forall_mem_singleton.mpr bot_lt_top,
    List.nodup_nil, spaced_all, fun _ => rfl⟩

/-- No span of a settled list stands behind one without an upper end. -/
theorem Settled.rayLast {l : List Interval} (h : Settled l) : RayLast l := by
  refine (List.pairwise_filter.mp h.spaced.gaps).imp fun {i j} hij hray => ?_
  cases i with
  | around name reach => exact absurd hray nofun
  | span lower upper =>
    obtain rfl : upper = none := Option.isNone_iff_eq_none.mp hray
    rw [Bool.eq_false_iff]
    exact fun hsem => absurd (hij rfl hsem) not_top_lt

/-- What is around a label in a settled list is its point. -/
theorem Settled.eq_point {l : List Interval} (h : Settled l) {i : Interval} (hi : i ∈ labels l) :
    ∃ name, i = point name := by
  obtain ⟨hmem, hlabel⟩ := List.mem_filter.mp hi
  cases i with
  | span lower upper => exact absurd hlabel nofun
  | around name reach =>
    obtain rfl : reach = .within true true := h.plain _ hmem
    exact ⟨name, rfl⟩

/-- What stands before the last member of a settled list is settled and has no member that is
everything. -/
theorem Settled.init {l : List Interval} {i : Interval} (h : Settled (l ++ [i])) :
    Settled l ∧ all ∉ l := by
  have hall : all ∉ l := by
    intro hmem
    -- Everything would be the only member, and so the last one as well.
    rcases List.append_eq_singleton_iff.mp (h.whole (List.mem_append_left _ hmem)) with h | h
    · exact List.not_mem_nil (h.1 ▸ hmem)
    · exact absurd h.2 (List.cons_ne_nil i [])
  have hspaced := h.spaced
  rw [List.filter_append] at hspaced
  refine ⟨⟨fun j hj => h.legible j (List.mem_append_left _ hj),
    fun j hj => h.plain j (List.mem_append_left _ hj), ?_, ⟨fun j hj => ?_, ?_⟩,
    fun hmem => absurd hmem hall⟩, hall⟩
  · exact h.nodup.sublist ((List.sublist_append_left l [i]).filter _)
  · exact hspaced.room j (List.mem_append_left _ hj)
  · exact (List.pairwise_append.mp hspaced.gaps).1

/-- A settled list is its own union. -/
theorem unionAll_of_settled {l : List Interval} (h : Settled l) : unionAll l = l := by
  -- The members are added one by one: each goes to the end, because it lies behind all spans before it
  -- and its label is new.
  induction l using List.reverseRecOn with
  | nil => rfl
  | append_singleton l i ih =>
    obtain ⟨hinit, hall⟩ := h.init
    have hne : l ≠ [all] := by
      rintro rfl
      exact hall (List.mem_singleton_self all)
    have hmem : i ∈ l ++ [i] := List.mem_append_right _ (List.mem_singleton_self i)
    rw [unionAll_append_singleton, ih hinit]
    cases i with
    | span lower upper =>
      have hlast : ∀ j ∈ l, j.isSemantic = true → j.stop < lowerCut lower := by
        intro j hj hsem
        have hgaps := List.pairwise_append.mp (List.pairwise_filter.mp h.spaced.gaps)
        exact hgaps.2.2 j hj _ (List.mem_singleton_self _) hsem rfl
      rcases insert_span lower upper l with ⟨-, hwhole | hspan⟩ | heq
      · exact absurd hwhole hne
      · -- Everything is the only member of the list, and so the first one.
        rw [hspan] at hmem ⊢
        have hwhole := h.whole (hspan ▸ hmem)
        rw [hspan] at hwhole
        rw [insert_all_eq, hwhole]
      · rw [heq, insertSpan_of_forall_lt (h.legible _ hmem).concrete.1
          (fun j hj => (hinit.legible j hj).concrete) hlast]
        rfl
    | around name reach =>
      obtain rfl : reach = .within true true := h.plain _ hmem
      have hnodup := h.nodup
      rw [insert_around hne, insertAround_of_notMem _ fun r hr => ?_]
      obtain rfl : r = .within true true := hinit.plain _ hr
      rw [labels, List.filter_append] at hnodup
      exact (List.nodup_append.mp hnodup).2.2 _ (point_mem_labels_iff.mpr hr) _
        (List.mem_singleton_self _) rfl

/-- A point that is added to a settled list is put at the end or changes nothing. -/
theorem Settled.insert_point_cases {l : List Interval} (h : Settled l) (name : String) :
    insert (point name) l = l ∧ l ≠ [] ∨ insert (point name) l = l ++ [point name] := by
  by_cases hall : l = [all]
  · rw [hall]
    exact Or.inl ⟨insert_all (point name), List.cons_ne_nil all []⟩
  · have hinsert : insert (point name) l = insertAround name (.within true true) l :=
      insert_around hall
    rw [hinsert]
    rcases insertAround_point_cases name (fun _ hi => h.eq_point hi) h.nodup with
      ⟨heq, hmem⟩ | ⟨heq, -⟩
    · exact Or.inl ⟨heq, List.ne_nil_of_mem hmem⟩
    · exact Or.inr heq

/-! ## Unions of plain intervals -/

section

variable {l : List Interval} (hl : ∀ i ∈ l, i.Legible ∧ i.Plain)
include hl

/-- A union of plain intervals is settled. -/
theorem settled_unionAll : Settled (unionAll l) := by
  by_cases hall : unionAll l = [all]
  · rw [hall]
    exact settled_all
  · have htracks := tracks_unionAll hl hall
    obtain ⟨-, hspaced⟩ := spaced_filter_unionAll hl hall
    refine ⟨inherited_legible.unionAll fun i hi => (hl i hi).1, fun i hi => ?_, htracks.nodup, hspaced,
      (unionAll_eq_all_or l).resolve_right ∘ not_not_intro⟩
    cases i with
    | span lower upper => exact hspaced.room _ (List.mem_filter.mpr ⟨hi, rfl⟩)
    | around name reach => exact (hl _ (htracks.mem _ (List.mem_filter.mpr ⟨hi, rfl⟩))).2

/-- A union of plain intervals is empty only where there are none. -/
theorem unionAll_ne_nil (h : l ≠ []) : unionAll l ≠ [] := by
  rcases List.eq_nil_or_concat l with rfl | ⟨m, i, rfl⟩
  · exact absurd rfl h
  · rw [List.concat_eq_append] at hl ⊢
    obtain ⟨hinit, hlast⟩ := List.forall_mem_append.mp hl
    obtain ⟨hlegible, hplain⟩ := hlast i (List.mem_singleton_self i)
    have hsettled := settled_unionAll hinit
    rw [unionAll_append_singleton]
    cases i with
    | span lower upper =>
      have hconcrete : ∀ j ∈ unionAll m, j.Concrete := fun j hj => (hsettled.legible j hj).concrete
      -- A span collapses the list to everything or is inserted.
      rcases insert_span_cases hlegible.concrete hconcrete with ⟨heq, -⟩ | hinserted
      · rw [heq]
        exact List.cons_ne_nil all []
      · exact hinserted.ne_nil
    | around name reach =>
      obtain rfl : reach = .within true true := hplain
      show insert (point name) (unionAll m) ≠ []
      -- A point changes nothing, in a list that has members, or is put at the end.
      rcases hsettled.insert_point_cases name with ⟨heq, hne⟩ | heq
      · rw [heq]
        exact hne
      · rw [heq]
        exact List.append_ne_nil_of_right_ne_nil _ (List.cons_ne_nil _ _)

/-- A union of plain intervals may be taken before others are added. -/
theorem unionAll_append_unionAll (m : List Interval) :
    unionAll (unionAll l ++ m) = unionAll (l ++ m) := by
  rw [unionAll_append, unionAll_append, unionAll_of_settled (settled_unionAll hl)]

/-- A union of plain intervals extends over what one of them extends over. -/
theorem extentOf_unionAll_of_plain : extentOf (unionAll l) = extentOf l := by
  induction l using List.reverseRecOn with
  | nil => rfl
  | append_singleton l i ih =>
    obtain ⟨hinit, hlast⟩ := List.forall_mem_append.mp hl
    obtain ⟨hlegible, hplain⟩ := hlast i (List.mem_singleton_self i)
    have hsettled := settled_unionAll hinit
    rw [unionAll_append_singleton, extentOf_append, extentOf_singleton]
    cases i with
    | span lower upper =>
      rw [extentOf_insert_span hlegible.concrete (fun j hj => (hsettled.legible j hj).concrete)
        hsettled.rayLast, ih hinit, Set.union_comm]
    | around name reach =>
      obtain rfl : reach = .within true true := hplain
      -- A point extends over nothing, before and after.
      have hempty : (point name).extent = ∅ := extent_of_not_isSemantic rfl
      show extentOf (insert (point name) (unionAll l)) = extentOf l ∪ (point name).extent
      rw [hempty, Set.union_empty, ← ih hinit]
      rcases hsettled.insert_point_cases name with ⟨heq, -⟩ | heq
      · rw [heq]
      · rw [heq, extentOf_append, extentOf_singleton, hempty, Set.union_empty]

/-! ## What lists of plain intervals contain -/

/-- A plain interval contains a semantic version just when its extent has the cut before it. -/
theorem exists_contains_semantic_iff {v : Semantic} (hv : Version.Legible (.semantic v)) :
    (∃ i ∈ l, i.contains (.semantic v) = true) ↔ v.cut ∈ extentOf l := by
  refine exists_congr fun i => and_congr_right fun hi => ?_
  cases i with
  | span lower upper => exact contains_iff rfl (hl _ hi).1.concrete hv.1
  | around name reach =>
    -- What is around a label contains no semantic version and extends over nothing.
    rw [contains_around hv (hl _ hi).1, extent_of_not_isSemantic rfl]
    exact iff_of_false (fun h => absurd h.1 nofun) (Set.notMem_empty _)

/-- Of plain intervals, that of all versions and its own point contain a label. -/
theorem exists_contains_label_iff {name : String} (hname : Version.Legible (.label name)) :
    (∃ i ∈ l, i.contains (.label name) = true) ↔ all ∈ l ∨ point name ∈ l := by
  constructor
  · rintro ⟨i, hi, hc⟩
    obtain ⟨hlegible, hplain⟩ := hl i hi
    -- Of spans only the one of all versions has labels in it, and of the others only the point.
    cases i with
    | span lower upper =>
      obtain ⟨rfl, rfl⟩ := (contains_span_label hname hlegible rfl).mp hc
      exact Or.inl hi
    | around t reach =>
      obtain rfl : reach = .within true true := hplain
      obtain ⟨⟨⟩, -⟩ := (contains_around hname hlegible).mp hc
      exact Or.inr hi
  · rintro (h | h)
    · exact ⟨all, h, (contains_span_label hname inherited_legible.all rfl).mpr ⟨rfl, rfl⟩⟩
    · exact ⟨point name, h, (contains_around hname (hl _ h).1).mpr ⟨rfl, rfl⟩⟩

/-- A union of plain intervals contains the versions that a member contains and, where everything is
covered, the labels, unless a label of a member is lost. -/
theorem exists_contains_unionAll_iff {v : Version} (hv : v.Legible)
    (hkept : ∀ name, v = .label name → point name ∈ l → Lost name l → unionAll l = [all]) :
    (∃ i ∈ unionAll l, i.contains v = true) ↔
      (∃ i ∈ l, i.contains v = true) ∨ v.isSemantic = false ∧ unionAll l = [all] := by
  have hsettled := settled_unionAll hl
  have hunion : ∀ i ∈ unionAll l, i.Legible ∧ i.Plain :=
    fun i hi => ⟨hsettled.legible i hi, hsettled.plain i hi⟩
  cases v with
  | semantic u =>
    rw [exists_contains_semantic_iff hunion hv, exists_contains_semantic_iff hl hv,
      extentOf_unionAll_of_plain hl]
    exact (or_iff_left fun h => absurd h.1 nofun).symm
  | label name =>
    rw [exists_contains_label_iff hunion hv, exists_contains_label_iff hl hv]
    by_cases hall : unionAll l = [all]
    · rw [hall]
      exact iff_of_true (Or.inl (List.mem_singleton_self all)) (Or.inr ⟨rfl, rfl⟩)
    · -- Where not all is covered, the label is there as a point or not at all.
      have hnot : point name ∈ l → ¬Lost name l := fun hmem => mt (hkept name rfl hmem) hall
      rw [(tracks_unionAll hl hall).point, and_iff_left_of_imp hnot,
        or_iff_right (mt hsettled.whole hall), or_iff_right (mt unionAll_of_mem hall)]
      exact (or_iff_left fun h => hall h.2).symm

end

end Semrange.Interval
