import Semrange.Proofs.Interval.Semilattice
import Semrange.Proofs.Interval.Settled

/-!
# Unions of intervals around labels

A union of intervals around labels covers around each label what its members cover, and holds one
interval around it, or the two half-lines beside it (`labels_covered_exactly`). Where everything is
covered around some label, the union is the interval of all versions.

The list stays gathered: all that is known of one label stands together, in as few intervals as it
takes (`Gathered`). An insertion appends an interval around a new label, and replaces what is known
of an old one where it stands (`Gathered.insertAround`).

An interval between a label and itself that does not hold it covers nothing, but it is kept until
something is added around that label. So where nothing is covered, what is left depends on the order
(`unionAll_hollow_depends_on_order`).
-/

namespace Semrange

namespace Coverage

/-! ## Lists of reaches -/

/-- What is covered by any of some reaches. -/
def ofReaches (rs : List Reach) : Coverage :=
  rs.foldl (fun c r => c.or r.coverage) .nothing

/-- The order of two coverages does not matter. -/
theorem or_comm (c d : Coverage) : c.or d = d.or c := by
  simp only [or, Bool.or_comm]

/-- The grouping of three coverages does not matter. -/
theorem or_assoc (c d e : Coverage) : (c.or d).or e = c.or (d.or e) := by
  simp only [or, Bool.or_assoc]

@[simp]
theorem or_nothing (c : Coverage) : c.or nothing = c := by
  simp only [or, nothing, Bool.or_false]

/-- What is covered already is added to what reaches cover. -/
theorem foldl_or (c : Coverage) (rs : List Reach) :
    rs.foldl (fun c r => c.or r.coverage) c = (ofReaches rs).or c := by
  induction rs using List.reverseRecOn with
  | nil => rfl
  | append_singleton rs r ih =>
    rw [ofReaches, List.foldl_append, List.foldl_append, ih]
    show ((ofReaches rs).or c).or r.coverage = ((ofReaches rs).or r.coverage).or c
    rw [or_assoc, or_comm c, ← or_assoc]

/-- Two lists of reaches cover what either of them covers. -/
theorem ofReaches_append (rs qs : List Reach) :
    ofReaches (rs ++ qs) = (ofReaches rs).or (ofReaches qs) := by
  rw [ofReaches, List.foldl_append, foldl_or, or_comm]
  rfl

/-- The order of reaches does not matter for what they cover. -/
theorem ofReaches_perm {rs qs : List Reach} (h : rs.Perm qs) : ofReaches rs = ofReaches qs := by
  refine h.foldl_eq' (fun r _ q _ c => ?_) _
  rw [or_assoc, or_assoc, or_comm r.coverage]

/-- Everything is covered when a coverage is full. -/
theorem isFull_iff {c : Coverage} : c.isFull = true ↔ c = .everything := by
  obtain ⟨below, point, above⟩ := c
  revert below point above
  decide

/-- More is not full only if less is not. -/
theorem isFull_of_or {c d : Coverage} (h : (c.or d).isFull = false) : c.isFull = false := by
  obtain ⟨below, point, above⟩ := c
  obtain ⟨below', point', above'⟩ := d
  revert below point above below' point' above'
  decide

/-- A single reach does not cover everything. -/
theorem isFull_coverage (r : Reach) : r.coverage.isFull = false := by
  cases r with
  | below inclusive => exact Bool.and_false _
  | above inclusive => rfl
  | within lower upper => rfl

/-- The reaches for a coverage cover it, unless it is full. -/
theorem ofReaches_reaches {c : Coverage} (h : c.isFull = false) : ofReaches c.reaches = c := by
  obtain ⟨below, point, above⟩ := c
  revert below point above
  decide

/-- Reaches are reduced when they are those for what they cover, or one that covers nothing. -/
def Reduced (rs : List Reach) : Prop :=
  rs = (ofReaches rs).reaches ∨
    ofReaches rs = .nothing ∧ ∃ lower upper, rs = [.within lower upper]

/-- The reaches for a coverage are reduced, unless it is full. -/
theorem reduced_reaches {c : Coverage} (h : c.isFull = false) : Reduced c.reaches :=
  Or.inl (congrArg reaches (ofReaches_reaches h).symm)

/-- A single reach is reduced. -/
theorem reduced_singleton (r : Reach) : Reduced [r] := by
  cases r with
  | below inclusive => exact Or.inl rfl
  | above inclusive => exact Or.inl rfl
  | within lower upper =>
    by_cases h : lower = true ∧ upper = true
    · obtain ⟨rfl, rfl⟩ := h
      exact Or.inl rfl
    · have hpoint : (lower && upper) = false :=
        Bool.eq_false_iff.mpr (mt Bool.and_eq_true_iff.mp h)
      exact Or.inr ⟨congrArg (Coverage.mk false · false) hpoint, lower, upper, rfl⟩

/-- Reduced reaches do not cover everything: the two half-lines leave out what is between them. -/
theorem Reduced.isFull_eq_false {rs : List Reach} (h : Reduced rs) :
    (ofReaches rs).isFull = false := by
  rcases h with heq | ⟨hnothing, -⟩
  · by_contra hfull
    rw [Bool.not_eq_false, isFull_iff] at hfull
    rw [hfull] at heq
    rw [heq] at hfull
    exact absurd hfull (by decide)
  · rw [hnothing]
    rfl

/-- Reduced reaches are at most one, or the two half-lines. -/
theorem Reduced.le_one_or {rs : List Reach} (h : Reduced rs) :
    rs.length ≤ 1 ∨ rs = [.below false, .above false] := by
  have hreaches : ∀ c : Coverage,
      c.reaches.length ≤ 1 ∨ c.reaches = [.below false, .above false] := by
    rintro ⟨below, point, above⟩
    revert below point above
    decide
  rcases h with heq | ⟨-, lower, upper, rfl⟩
  · rw [heq]
    exact hreaches _
  · exact Or.inl le_rfl

end Coverage

namespace Interval

open Coverage (ofReaches Reduced)

/-! ## Lists gathered label by label -/

/-- How far the intervals around a label reach. -/
def reachesAround (name : String) (l : List Interval) : List Reach :=
  l.filterMap (reachAround? name)

/-- What the intervals around a label cover. -/
def covered (name : String) (l : List Interval) : Coverage :=
  ofReaches (reachesAround name l)

/-- Nothing reaches around a label that no interval is around. -/
theorem reachesAround_of_notMem {name : String} {l : List Interval} (h : ∀ r, around name r ∉ l) :
    reachesAround name l = [] :=
  List.filterMap_eq_nil_iff.mpr (reachAround?_eq_none h)

/-- Intervals around one label reach as far as they do, and around no other label. -/
theorem reachesAround_map (name t : String) (rs : List Reach) :
    reachesAround name (rs.map (around t)) = if t = name then rs else [] := by
  unfold reachesAround
  rw [List.filterMap_map]
  by_cases h : t = name
  · rw [if_pos h]
    exact (List.filterMap_congr fun r _ => if_pos h).trans List.filterMap_some
  · rw [if_neg h]
    exact List.filterMap_eq_nil_iff.mpr fun r _ => if_neg h

/-- The reaches around a label are those of the only block of intervals around it. -/
theorem reachesAround_block {name : String} {l m : List Interval} (hl : ∀ r, around name r ∉ l)
    (hm : ∀ r, around name r ∉ m) (rs : List Reach) :
    reachesAround name (l ++ rs.map (around name) ++ m) = rs := by
  have hself := (reachesAround_map name name rs).trans (if_pos rfl)
  have hbefore := reachesAround_of_notMem hl
  have hbehind := reachesAround_of_notMem hm
  unfold reachesAround at hself hbefore hbehind ⊢
  rw [List.filterMap_append, List.filterMap_append, hbefore, hself, hbehind, List.append_nil,
    List.nil_append]

/-- A block of intervals around one label makes no difference to the reaches around another. -/
theorem reachesAround_block_of_ne {name t : String} (h : t ≠ name) (l m : List Interval)
    (rs : List Reach) :
    reachesAround name (l ++ rs.map (around t) ++ m) = reachesAround name (l ++ m) := by
  have hother := (reachesAround_map name t rs).trans (if_neg h)
  unfold reachesAround at hother ⊢
  rw [List.filterMap_append, List.filterMap_append, hother, List.append_nil, List.filterMap_append]

/-- Two lists cover around a label what either of them covers. -/
theorem covered_append (name : String) (l m : List Interval) :
    covered name (l ++ m) = (covered name l).or (covered name m) :=
  (congrArg ofReaches List.filterMap_append).trans (Coverage.ofReaches_append _ _)

/-- An interval around a label adds what it covers there. -/
theorem covered_append_around (name : String) (l : List Interval) (r : Reach) :
    covered name (l ++ [around name r]) = (covered name l).or r.coverage := by
  have hself : reachesAround name [around name r] = [r] :=
    (reachesAround_map name name [r]).trans (if_pos rfl)
  rw [covered_append, covered, covered, hself]
  rfl

/-- An interval around a label adds nothing around another one. -/
theorem covered_append_around_of_ne {name t : String} (h : t ≠ name) (l : List Interval)
    (r : Reach) : covered name (l ++ [around t r]) = covered name l := by
  have hother : reachesAround name [around t r] = [] :=
    (reachesAround_map name t [r]).trans (if_neg h)
  rw [covered_append, covered, covered, hother]
  exact Coverage.or_nothing _

/-- The order of intervals does not matter for what they cover around a label. -/
theorem covered_perm {l m : List Interval} (h : l.Perm m) (name : String) :
    covered name l = covered name m :=
  Coverage.ofReaches_perm (h.filterMap _)

/-- Intervals around labels, given label by label. -/
def gather (gs : List (String × List Reach)) : List Interval :=
  gs.flatMap fun g => g.2.map (around g.1)

/-- The intervals of a label stand between those of the labels before it and behind it. -/
theorem gather_append_cons (gs hs : List (String × List Reach)) (name : String)
    (rs : List Reach) :
    gather (gs ++ (name, rs) :: hs) = gather gs ++ rs.map (around name) ++ gather hs := by
  unfold gather
  rw [List.flatMap_append, List.flatMap_cons, List.append_assoc]

/-- No interval is around a label that is not given. -/
theorem around_notMem_gather {name : String} {gs : List (String × List Reach)}
    (h : name ∉ gs.map Prod.fst) (r : Reach) : around name r ∉ gather gs := by
  intro hr
  obtain ⟨g, hg, hmem⟩ := List.mem_flatMap.mp hr
  obtain ⟨q, -, heq⟩ := List.mem_map.mp hmem
  cases heq
  exact h (List.mem_map_of_mem hg)

/-- Labels, each of which is given once, are split at one of them. -/
theorem exists_split {name : String} {gs : List (String × List Reach)}
    (hnodup : (gs.map Prod.fst).Nodup) (h : name ∈ gs.map Prod.fst) :
    ∃ as rs bs, gs = as ++ (name, rs) :: bs ∧ name ∉ as.map Prod.fst ∧ name ∉ bs.map Prod.fst := by
  obtain ⟨⟨_, rs⟩, hg, rfl⟩ := List.mem_map.mp h
  obtain ⟨as, bs, rfl⟩ := List.append_of_mem hg
  rw [List.map_append, List.map_cons, List.nodup_middle, List.nodup_cons, List.mem_append,
    not_or] at hnodup
  exact ⟨as, rs, bs, rfl, hnodup.1⟩

/-- A list is gathered when it gives the intervals label by label, each label once, and of each label
no more intervals than it takes. -/
structure Gathered (l : List Interval) (gs : List (String × List Reach)) : Prop where
  /-- The list consists of these intervals. -/
  eq_gather : l = gather gs
  /-- No label is given twice. -/
  nodup : (gs.map Prod.fst).Nodup
  /-- There are intervals around each label. -/
  ne_nil : ∀ g ∈ gs, g.2 ≠ []
  /-- There are no more of them than it takes. -/
  reduced : ∀ g ∈ gs, Reduced g.2

namespace Gathered

variable {l : List Interval} {gs : List (String × List Reach)} (h : Gathered l gs)
include h

/-- All that is known of a label stands together in a gathered list. -/
theorem exists_block (name : String) :
    ∃ a b, l = a ++ (reachesAround name l).map (around name) ++ b ∧ (∀ r, around name r ∉ a) ∧
      (∀ r, around name r ∉ b) ∧ Reduced (reachesAround name l) := by
  obtain ⟨rfl, hnodup, -, hreduced⟩ := h
  by_cases hname : name ∈ gs.map Prod.fst
  · obtain ⟨as, rs, bs, rfl, has, hbs⟩ := exists_split hnodup hname
    have hbefore := around_notMem_gather has
    have hbehind := around_notMem_gather hbs
    rw [gather_append_cons, reachesAround_block hbefore hbehind]
    exact ⟨gather as, gather bs, rfl, hbefore, hbehind,
      hreduced _ (List.mem_append_right _ List.mem_cons_self)⟩
  · have hfree := around_notMem_gather hname
    rw [reachesAround_of_notMem hfree]
    refine ⟨gather gs, [], ?_, hfree, fun r => List.not_mem_nil, Or.inl rfl⟩
    rw [List.map_nil, List.append_nil, List.append_nil]

/-- A gathered list does not cover everything around a label. -/
theorem isFull_covered (name : String) : (covered name l).isFull = false := by
  obtain ⟨-, -, -, -, -, hreduced⟩ := h.exists_block name
  exact hreduced.isFull_eq_false

/-- Where everything is covered around the label of an interval that is added, the list collapses. -/
theorem insertAround_of_full {name : String} {reach : Reach}
    (hfull : (covered name (l ++ [around name reach])).isFull = true) :
    insertAround name reach l = [all] := by
  obtain ⟨a, b, heq, ha, hb, -⟩ := h.exists_block name
  rw [covered_append_around] at hfull
  have hknown : reachesAround name l ≠ [] := by
    intro hnil
    rw [covered, hnil] at hfull
    exact absurd ((Coverage.isFull_coverage reach).symm.trans hfull) nofun
  have hinsert := insertAround_block reach ha hb hknown (Coverage.foldl_or reach.coverage _)
  rw [← heq] at hinsert
  exact hinsert.trans (if_pos hfull)

/-- No member of a gathered list is a span. -/
theorem isSemantic_eq_false : ∀ i ∈ l, i.isSemantic = false := by
  intro i hi
  rw [h.eq_gather] at hi
  obtain ⟨g, -, hmem⟩ := List.mem_flatMap.mp hi
  obtain ⟨r, -, rfl⟩ := List.mem_map.mp hmem
  rfl

/-- A gathered list is not the interval of all versions. -/
theorem ne_all : l ≠ [all] := by
  rintro rfl
  exact absurd (h.isSemantic_eq_false all (List.mem_singleton_self all)) nofun

/-- A list stays gathered where an interval around a new label is appended. -/
theorem append_singleton {name : String} (hname : name ∉ gs.map Prod.fst) (reach : Reach) :
    Gathered (l ++ [around name reach]) (gs ++ [(name, [reach])]) := by
  refine ⟨?_, ?_, ?_, ?_⟩
  · rw [gather_append_cons, h.eq_gather]
    exact (List.append_nil _).symm
  · rw [List.map_append]
    exact List.nodup_append_comm.mp (List.nodup_cons.mpr ⟨hname, h.nodup⟩)
  · exact List.forall_mem_append.mpr ⟨h.ne_nil, List.forall_mem_singleton.mpr (List.cons_ne_nil _ _)⟩
  · exact List.forall_mem_append.mpr
      ⟨h.reduced, List.forall_mem_singleton.mpr (Coverage.reduced_singleton reach)⟩

end Gathered

/-- A list stays gathered where what is known of a label is replaced by the reaches for another
coverage. -/
theorem Gathered.replace {l : List Interval} {gs hs : List (String × List Reach)} {name : String}
    {rs : List Reach} (h : Gathered l (gs ++ (name, rs) :: hs)) {c : Coverage}
    (hc : c.isFull = false) :
    ∃ ks, Gathered (gather gs ++ c.reaches.map (around name) ++ gather hs) ks := by
  by_cases hnil : c.reaches = []
  · -- A label around which nothing is covered any more is given up with its place.
    have hsub : (gs ++ hs).Sublist (gs ++ (name, rs) :: hs) :=
      (List.sublist_cons_self _ hs).append_left gs
    refine ⟨gs ++ hs, ?_, h.nodup.sublist (hsub.map Prod.fst),
      fun g hg => h.ne_nil g (hsub.subset hg), fun g hg => h.reduced g (hsub.subset hg)⟩
    rw [hnil, List.map_nil, List.append_nil]
    exact List.flatMap_append.symm
  · -- Otherwise the label keeps its place.
    have hmem : ∀ {P : String × List Reach → Prop}, (∀ g ∈ gs ++ (name, rs) :: hs, P g) →
        P (name, c.reaches) → ∀ g ∈ gs ++ (name, c.reaches) :: hs, P g := by
      intro P hP hnew
      rw [List.forall_mem_append, List.forall_mem_cons] at hP ⊢
      exact ⟨hP.1, hnew, hP.2.2⟩
    refine ⟨gs ++ (name, c.reaches) :: hs, (gather_append_cons gs hs name c.reaches).symm, ?_,
      hmem h.ne_nil hnil, hmem h.reduced (Coverage.reduced_reaches hc)⟩
    have hnodup := h.nodup
    rw [List.map_append, List.map_cons] at hnodup ⊢
    exact hnodup

/-- Where not everything is covered around the label of an interval that is added, the list stays
gathered, and it covers around each label what was covered and what is added. -/
theorem Gathered.insertAround {l : List Interval} {gs : List (String × List Reach)}
    (h : Gathered l gs) {name : String} {reach : Reach}
    (hfull : (covered name (l ++ [around name reach])).isFull = false) :
    (∃ hs, Gathered (Interval.insertAround name reach l) hs) ∧
      ∀ t, covered t (Interval.insertAround name reach l) =
        covered t (l ++ [around name reach]) := by
  by_cases hname : name ∈ gs.map Prod.fst
  · -- The label is known: its block is replaced, and what it covers is added up.
    obtain ⟨as, rs, bs, rfl, has, hbs⟩ := exists_split h.nodup hname
    have hbefore := around_notMem_gather has
    have hbehind := around_notMem_gather hbs
    have hknown : rs ≠ [] := h.ne_nil _ (List.mem_append_right _ List.mem_cons_self)
    have hl : l = gather as ++ rs.map (around name) ++ gather bs :=
      h.eq_gather.trans (gather_append_cons as bs name rs)
    have hcovered : covered name (l ++ [around name reach]) =
        (ofReaches rs).or reach.coverage := by
      rw [covered_append_around, hl, covered, reachesAround_block hbefore hbehind]
    rw [hcovered] at hfull
    have hinsert : Interval.insertAround name reach l = gather as ++
        ((ofReaches rs).or reach.coverage).reaches.map (around name) ++ gather bs := by
      rw [hl, insertAround_block reach hbefore hbehind hknown (Coverage.foldl_or reach.coverage rs),
        if_neg (Bool.eq_false_iff.mp hfull)]
    rw [hinsert]
    refine ⟨h.replace hfull, fun t => ?_⟩
    -- Around the label just that is covered; around the others nothing changes.
    by_cases ht : name = t
    · rw [← ht, hcovered, covered, reachesAround_block hbefore hbehind,
        Coverage.ofReaches_reaches hfull]
    · rw [covered_append_around_of_ne ht, hl, covered, covered, reachesAround_block_of_ne ht,
        reachesAround_block_of_ne ht]
  · -- The label is new, and the interval is put at the end.
    have hfree : ∀ r, around name r ∉ l := by
      rw [h.eq_gather]
      exact around_notMem_gather hname
    rw [insertAround_of_notMem reach hfree]
    exact ⟨⟨_, h.append_singleton hname reach⟩, fun t => rfl⟩

/-! ## Unions -/

/-- The union of intervals around labels is the interval of all versions, and everything is covered
around some label, or it is gathered and covers what they cover. -/
theorem gathered_unionAll {l : List Interval} (hl : ∀ i ∈ l, i.isSemantic = false) :
    ((∃ name, (covered name l).isFull = true) ∧ unionAll l = [all]) ∨
      (∃ gs, Gathered (unionAll l) gs) ∧ ∀ name, covered name (unionAll l) = covered name l := by
  induction l using List.reverseRecOn with
  | nil =>
    exact Or.inr ⟨⟨[], rfl, List.nodup_nil, List.forall_mem_nil _, List.forall_mem_nil _⟩,
      fun name => rfl⟩
  | append_singleton l i ih =>
    obtain ⟨hinit, hlast⟩ := List.forall_mem_append.mp hl
    obtain ⟨t, r, rfl⟩ : ∃ t r, i = around t r := by
      cases i with
      | around t r => exact ⟨t, r, rfl⟩
      | span lower upper => exact absurd (hlast _ (List.mem_singleton_self _)) nofun
    rw [unionAll_append_singleton]
    rcases ih hinit with ⟨⟨name, hname⟩, hall⟩ | ⟨⟨gs, hgs⟩, hcovered⟩
    · -- What is full stays full, and nothing is added to all versions.
      refine Or.inl ⟨⟨name, ?_⟩, ?_⟩
      · by_contra hnot
        rw [covered_append, Bool.not_eq_true] at hnot
        exact absurd (hname.symm.trans (Coverage.isFull_of_or hnot)) nofun
      · rw [hall]
        exact insert_all _
    · -- The union so far covers what its members cover, so the new interval makes both full or
      -- neither.
      have hboth : ∀ name, covered name (unionAll l ++ [around t r]) =
          covered name (l ++ [around t r]) := by
        intro name
        rw [covered_append, covered_append, hcovered]
      rw [insert_around hgs.ne_all]
      by_cases hfull : (covered t (unionAll l ++ [around t r])).isFull = true
      · exact Or.inl ⟨⟨t, (congrArg Coverage.isFull (hboth t)).symm.trans hfull⟩,
          hgs.insertAround_of_full hfull⟩
      · rw [Bool.not_eq_true] at hfull
        obtain ⟨hgathered, hnew⟩ := hgs.insertAround hfull
        exact Or.inr ⟨hgathered, fun name => (hnew name).trans (hboth name)⟩

/-- The union of intervals around labels is the interval of all versions if everything is covered
around some label, and only then. -/
theorem unionAll_eq_all_iff {l : List Interval} (hl : ∀ i ∈ l, i.isSemantic = false) :
    unionAll l = [all] ↔ ∃ name, covered name l = .everything := by
  simp only [← Coverage.isFull_iff]
  rcases gathered_unionAll hl with ⟨hfull, hall⟩ | ⟨⟨gs, hgs⟩, hcovered⟩
  · exact iff_of_true hall hfull
  · -- A gathered list is full around no label.
    refine iff_of_false hgs.ne_all ?_
    rintro ⟨name, hname⟩
    rw [← hcovered, hgs.isFull_covered] at hname
    exact absurd hname nofun

/-- Where something is covered around a label, but not everything around any, the union holds the
reaches for what is covered. -/
theorem reachesAround_unionAll {l : List Interval} (hl : ∀ i ∈ l, i.isSemantic = false)
    (hall : unionAll l ≠ [all]) {name : String} (hname : covered name l ≠ .nothing) :
    reachesAround name (unionAll l) = (covered name l).reaches := by
  rcases gathered_unionAll hl with ⟨-, h⟩ | ⟨⟨gs, hgs⟩, hcovered⟩
  · exact absurd h hall
  · -- What is reduced is given by what it covers, unless that is nothing.
    obtain ⟨-, -, -, -, -, heq | ⟨hnothing, -⟩⟩ := hgs.exists_block name
    · exact heq.trans (congrArg Coverage.reaches (hcovered name))
    · exact absurd ((hcovered name).symm.trans hnothing) hname

/-- The union of intervals around labels is the interval of all versions if everything is covered
around some label, and only then. Otherwise it covers around each label what its members cover, and
what it holds around a label stands together and is at most one interval or the two half-lines beside
the label. The order of the members makes no difference to whether all versions are covered, and none
to what is held around a label around which anything is covered. -/
theorem labels_covered_exactly {l : List Interval} (hl : ∀ i ∈ l, i.isSemantic = false) :
    (unionAll l = [all] ↔ ∃ name, covered name l = .everything) ∧
      (unionAll l ≠ [all] → (∀ i ∈ unionAll l, i.isSemantic = false) ∧
        ∀ name, covered name (unionAll l) = covered name l ∧
          ∃ a rs b, unionAll l = a ++ rs.map (around name) ++ b ∧ (∀ r, around name r ∉ a) ∧
            (∀ r, around name r ∉ b) ∧ (rs.length ≤ 1 ∨ rs = [.below false, .above false])) ∧
      ∀ m, l.Perm m → (unionAll m = [all] ↔ unionAll l = [all]) ∧
        (unionAll l ≠ [all] → ∀ name, covered name l ≠ .nothing →
          reachesAround name (unionAll m) = reachesAround name (unionAll l)) := by
  refine ⟨unionAll_eq_all_iff hl, fun hall => ?_, fun m hperm => ?_⟩
  · rcases gathered_unionAll hl with ⟨-, h⟩ | ⟨⟨gs, hgs⟩, hcovered⟩
    · exact absurd h hall
    · refine ⟨hgs.isSemantic_eq_false, fun name => ⟨hcovered name, ?_⟩⟩
      obtain ⟨a, b, heq, ha, hb, hreduced⟩ := hgs.exists_block name
      exact ⟨a, _, b, heq, ha, hb, hreduced.le_one_or⟩
  · have hm : ∀ i ∈ m, i.isSemantic = false := fun i hi => hl i (hperm.mem_iff.mpr hi)
    -- Whether all is covered is read off what the members cover, in which their order does not
    -- count.
    have hiff : unionAll m = [all] ↔ unionAll l = [all] := by
      rw [unionAll_eq_all_iff hm, unionAll_eq_all_iff hl]
      exact exists_congr fun name => by rw [covered_perm hperm]
    refine ⟨hiff, fun hall name hname => ?_⟩
    have hname' : covered name m ≠ .nothing := covered_perm hperm name ▸ hname
    rw [reachesAround_unionAll hl hall hname, reachesAround_unionAll hm (mt hiff.mp hall) hname',
      covered_perm hperm]

/-- Two half-lines beside a label with another label between them, in two orders. -/
theorem labels_covered_exactly_beside :
    let l := [around "foo" (.above false), around "bar" (.within true true),
      around "foo" (.below false), around "foo" (.within true false)]
    let m := [around "bar" (.within true true), around "foo" (.within true false),
      around "foo" (.below false), around "foo" (.above false)]
    (∀ i ∈ l, i.isSemantic = false) ∧ l.Perm m ∧ covered "foo" l = ⟨true, false, true⟩ ∧
      unionAll l = [around "foo" (.below false), around "foo" (.above false),
        around "bar" (.within true true)] ∧
      covered "foo" (unionAll l) = ⟨true, false, true⟩ ∧
      reachesAround "foo" (unionAll m) = [.below false, .above false] := by
  intro l m
  have hl : ∀ i ∈ l, i.isSemantic = false := by decide
  have hperm : l.Perm m := by decide
  have hcovered : covered "foo" l = ⟨true, false, true⟩ := by decide
  have hunion : unionAll l = [around "foo" (.below false), around "foo" (.above false),
      around "bar" (.within true true)] := by decide
  have hall : unionAll l ≠ [all] := by
    rw [hunion]
    nofun
  obtain ⟨-, hexact, horder⟩ := labels_covered_exactly hl
  refine ⟨hl, hperm, hcovered, hunion, (((hexact hall).2 "foo").1).trans hcovered, ?_⟩
  rw [(horder m hperm).2 hall "foo" (by rw [hcovered]; nofun), hunion]
  decide

/-- Two intervals that cover nothing around a label and cancel each other, and another such: which
one is left depends on the order. -/
theorem unionAll_hollow_depends_on_order :
    let l := [around "s" (.within false false), around "s" (.within false false),
      around "s" (.within true false)]
    let m := [around "s" (.within true false), around "s" (.within false false),
      around "s" (.within false false)]
    (∀ i ∈ l, i.isSemantic = false) ∧ l.Perm m ∧
      unionAll l = [around "s" (.within true false)] ∧
      unionAll m = [around "s" (.within false false)] := by
  decide

end Interval

end Semrange
