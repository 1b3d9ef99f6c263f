import Semrange.Proofs.Interval.Insertion

/-!
# Unions are exact and canonical

A union of spans extends over just what its members extend over (`extentOf_unionAll`), whatever
their order and even where one of them is empty, and from proper spans it comes out in canonical
form (`spaced_unionAll`); what is in that form already stays as it is (`unionAll_of_spaced`).

An insertion drops the rest of the list when both the new span and the head are unbounded above.
That loses nothing, since no span ever stands behind one that is unbounded above (`RayLast`).
-/

namespace Semrange.Interval

/-- Whether an interval is a span without an upper end. -/
def isRay : Interval → Bool
  | .span _ upper => upper.isNone
  | .around _ _ => false

/-- No span stands behind a span without an upper end. -/
def RayLast (l : List Interval) : Prop :=
  l.Pairwise fun i j => i.isRay = true → j.isSemantic = false

/-! ## Insertions -/

/-- A span that stops before some cut has an upper end. -/
theorem not_isRay_of_lt {lower upper : Option End} {x : Cut} (h : upperCut upper < x) :
    ¬(span lower upper).isRay = true := by
  obtain ⟨e, rfl⟩ := exists_of_upperCut_lt h
  exact nofun

/-- Two spans of which one begins before the other one begins and ends after it ends, and which
leave nothing between them, together are one span. -/
theorem extent_union {lower upper cl cu : Option End} (hl : lowerCut lower ≤ lowerCut cl)
    (hr : lowerCut cl ≤ upperCut upper) (hu : upperCut upper ≤ upperCut cu) :
    (span lower upper).extent ∪ (span cl cu).extent = (span lower cu).extent := by
  have h := Set.Ico_union_Ico' hr (hl.trans (hr.trans hu))
  rw [min_eq_left hl, max_eq_right hu] at h
  exact h

/-- Where everything is covered, the new span and the list extend over everything. -/
theorem Covered.extent_eq {lower upper : Option End} {l : List Interval}
    (h : Covered upper lower l) : (span lower upper).extent ∪ extentOf l = all.extent := by
  -- The head makes up everything together with the new span, or nothing is lost on the way to the
  -- member that does.
  induction h with
  | @head lower cl cu l heq =>
    have hall : (span lower upper).extent ∪ (span cl cu).extent = all.extent := heq
    rw [extentOf_cons, ← Set.union_assoc, hall]
    exact Set.union_eq_left.mpr (extentOf_subset_all l)
  | tail i _ ih =>
    rw [extentOf_cons, Set.union_left_comm, ih]
    exact Set.union_eq_right.mpr (extent_subset_all i)
  | @grown lower cl f l hl hr hu _ ih =>
    rw [extentOf_cons, ← Set.union_assoc, Set.union_comm (span lower upper).extent,
      extent_union hl hr hu, ih]

/-- The interval of all versions is spaced by itself. -/
theorem spaced_all : Spaced [all] :=
  ⟨List.forall_mem_singleton.mpr bot_lt_top, List.pairwise_singleton _ _⟩

/-- An interval with room that stops before all others start can stand before them. -/
theorem Spaced.cons {i : Interval} {l : List Interval} (hroom : i.start < i.stop)
    (hgaps : ∀ j ∈ l, i.stop < j.start) (h : Spaced l) : Spaced (i :: l) :=
  ⟨List.forall_mem_cons.mpr ⟨hroom, h.room⟩, List.pairwise_cons.mpr ⟨hgaps, h.gaps⟩⟩

namespace Inserted

variable {lower upper : Option End} {l r : List Interval}

/-- An insertion keeps what is kept where a span takes its lower end from one span and its upper end
from another one, further up. -/
theorem forall_mem {P : Interval → Prop}
    (hP : ∀ {al au bl bu : Option End}, P (span al au) → P (span bl bu) →
      lowerCut al ≤ upperCut bu → P (span al bu))
    (h : Inserted upper lower l r) (hi : P (span lower upper)) (hl : ∀ i ∈ l, P i) :
    ∀ i ∈ r, P i := by
  induction h with
  | last | replaced => exact List.forall_mem_singleton.mpr hi
  | around name reach _ ih =>
    obtain ⟨hhead, htail⟩ := List.forall_mem_cons.mp hl
    exact List.forall_mem_cons.mpr ⟨hhead, ih hi htail⟩
  | kept => exact hl
  | placed => exact List.forall_mem_cons.mpr ⟨hi, hl⟩
  -- Where spans grow together, the one that is left starts with one of them and ends with the
  -- other.
  | widened _ hlow hr hup =>
    obtain ⟨hhead, htail⟩ := List.forall_mem_cons.mp hl
    exact List.forall_mem_cons.mpr ⟨hP hi hhead (hlow.trans (hr.trans hup)), htail⟩
  | swallowed _ _ _ ih => exact ih hi (List.forall_mem_cons.mp hl).2
  | grown hlow hr hup _ ih =>
    obtain ⟨hhead, htail⟩ := List.forall_mem_cons.mp hl
    exact ih (hP hhead hi (hlow.trans (hr.trans hup))) htail
  | passed _ _ ih =>
    obtain ⟨hhead, htail⟩ := List.forall_mem_cons.mp hl
    exact List.forall_mem_cons.mpr ⟨hhead, ih hi htail⟩

/-- An insertion into a list of spans makes a list of spans with ends that were there. -/
theorem concrete (h : Inserted upper lower l r) (hi : (span lower upper).Concrete)
    (hl : ∀ i ∈ l, i.isSemantic = true ∧ i.Concrete) :
    ∀ i ∈ r, i.isSemantic = true ∧ i.Concrete :=
  h.forall_mem (P := fun i => i.isSemantic = true ∧ i.Concrete)
    (fun ha hb _ => ⟨rfl, ha.2.1, hb.2.2⟩) ⟨rfl, hi⟩ hl

/-- An insertion leaves something. -/
theorem ne_nil (h : Inserted upper lower l r) : r ≠ [] := by
  induction h with
  | last | around | kept | placed | widened | passed | replaced => exact List.cons_ne_nil _ _
  | swallowed _ _ _ ih | grown _ _ _ _ ih => exact ih

/-- After an insertion there still is no span behind one without an upper end. -/
theorem rayLast (h : Inserted upper lower l r) (hl : RayLast l) : RayLast r := by
  induction h with
  | last | replaced => exact List.pairwise_singleton _ _
  | around name reach _ ih => exact List.pairwise_cons.mpr ⟨fun _ _ => nofun, ih hl.tail⟩
  | kept => exact hl
  | placed hlt =>
    exact List.pairwise_cons.mpr ⟨fun _ _ hray => absurd hray (not_isRay_of_lt hlt), hl⟩
  | widened => exact List.pairwise_cons.mpr ⟨(List.pairwise_cons.mp hl).1, hl.tail⟩
  | swallowed _ _ _ ih | grown _ _ _ _ ih => exact ih hl.tail
  | passed _ _ ih => exact List.pairwise_cons.mpr ⟨fun _ _ => nofun, ih hl.tail⟩

/-- An insertion adds the extent of the new span to that of the list. -/
theorem extentOf_eq (h : Inserted upper lower l r) (hl : RayLast l) :
    extentOf r = (span lower upper).extent ∪ extentOf l := by
  induction h with
  | last => exact extentOf_cons _ _
  | around name reach _ ih => rw [extentOf_cons, ih hl.tail, extentOf_cons, Set.union_left_comm]
  | @kept lower cl cu l hlow hup =>
    have hsub : (span lower upper).extent ⊆ (span cl cu).extent := Set.Ico_subset_Ico hlow hup
    rw [extentOf_cons, ← Set.union_assoc, Set.union_eq_right.mpr hsub]
  | placed => exact extentOf_cons _ _
  | widened _ hlow hr hup =>
    rw [extentOf_cons, extentOf_cons, ← Set.union_assoc, extent_union hlow hr hup]
  | @swallowed lower cl f l r hlow hup _ ih =>
    have hsub : (span cl (some f)).extent ⊆ (span lower upper).extent :=
      Set.Ico_subset_Ico hlow hup
    rw [ih hl.tail, extentOf_cons, ← Set.union_assoc, Set.union_eq_left.mpr hsub]
  | @grown lower cl f l r hlow hr hup _ ih =>
    calc extentOf r = (span cl upper).extent ∪ extentOf l := ih hl.tail
      _ = (span cl (some f)).extent ∪ (span lower upper).extent ∪ extentOf l := by
          rw [extent_union hlow hr hup]
      _ = (span lower upper).extent ∪ extentOf (span cl (some f) :: l) := by
          rw [Set.union_comm (span cl (some f)).extent, Set.union_assoc, extentOf_cons]
  | passed _ _ ih => rw [extentOf_cons, ih hl.tail, extentOf_cons, Set.union_left_comm]
  | @replaced lower cl l hupper hlow =>
    subst hupper
    -- Behind the head there are only labels.
    have hnone : extentOf l = ∅ := by
      apply Set.eq_empty_of_forall_notMem
      rintro x ⟨i, hmem, hx⟩
      rw [extent_of_not_isSemantic (List.rel_of_pairwise_cons hl hmem rfl)] at hx
      exact hx
    have hsub : (span cl none).extent ⊆ (span lower none).extent := Set.Ico_subset_Ico_left hlow.le
    rw [extentOf_singleton, extentOf_cons, hnone, Set.union_empty, Set.union_eq_left.mpr hsub]

/-- A cut below the new span and below all members is below all members of the outcome. -/
theorem lt_start (h : Inserted upper lower l r) {x : Cut} (hx : x < lowerCut lower)
    (hl : ∀ i ∈ l, x < i.start) : ∀ i ∈ r, x < i.start := by
  induction h with
  | last | replaced => exact List.forall_mem_singleton.mpr hx
  | around name reach _ ih =>
    obtain ⟨hhead, htail⟩ := List.forall_mem_cons.mp hl
    exact List.forall_mem_cons.mpr ⟨hhead, ih hx htail⟩
  | kept => exact hl
  | placed => exact List.forall_mem_cons.mpr ⟨hx, hl⟩
  -- What is widened starts with the new span, and what has grown with the head.
  | widened => exact List.forall_mem_cons.mpr ⟨hx, (List.forall_mem_cons.mp hl).2⟩
  | swallowed _ _ _ ih => exact ih hx (List.forall_mem_cons.mp hl).2
  | grown _ _ _ _ ih =>
    obtain ⟨hhead, htail⟩ := List.forall_mem_cons.mp hl
    exact ih hhead htail
  | passed _ _ ih =>
    obtain ⟨hhead, htail⟩ := List.forall_mem_cons.mp hl
    exact List.forall_mem_cons.mpr ⟨hhead, ih hx htail⟩

/-- An insertion of a span with room keeps a list spaced. -/
theorem spaced (h : Inserted upper lower l r) (hroom : lowerCut lower < upperCut upper)
    (hl : Spaced l) : Spaced r := by
  induction h with
  | last | replaced => exact ⟨List.forall_mem_singleton.mpr hroom, List.pairwise_singleton _ _⟩
  | around => exact absurd (hl.room _ List.mem_cons_self) (lt_irrefl _)
  | kept => exact hl
  | @placed lower cl cu l hlt =>
    have hhead : lowerCut cl < upperCut cu := hl.room _ List.mem_cons_self
    refine Spaced.cons hroom (List.forall_mem_cons.mpr ⟨hlt, fun j hj => ?_⟩) hl
    calc upperCut upper < lowerCut cl := hlt
      _ < upperCut cu := hhead
      _ < j.start := List.rel_of_pairwise_cons hl.gaps hj
  | @widened lower cl cu l _ hlow =>
    have hhead : lowerCut cl < upperCut cu := hl.room _ List.mem_cons_self
    exact Spaced.cons (hlow.trans_lt hhead) (List.pairwise_cons.mp hl.gaps).1 hl.tail
  | swallowed _ _ _ ih => exact ih hroom hl.tail
  | @grown lower cl f l r _ _ hup _ ih =>
    have hhead : lowerCut cl < upperCut (some f) := hl.room _ List.mem_cons_self
    exact ih (hhead.trans_le hup) hl.tail
  | passed hlt h ih =>
    -- The head stays apart, since nothing comes to lie below the new span and the tail.
    have hgaps := h.lt_start hlt (List.pairwise_cons.mp hl.gaps).1
    exact Spaced.cons (hl.room _ List.mem_cons_self) hgaps (ih hroom hl.tail)

end Inserted

/-- A span that starts after all others have stopped is put at the end. -/
theorem insertSpan_of_forall_lt {lower upper : Option End} (hlower : End.ConcreteOrNone lower)
    {l : List Interval} (hl : ∀ i ∈ l, i.Concrete)
    (h : ∀ i ∈ l, i.isSemantic = true → i.stop < lowerCut lower) :
    insertSpan lower upper l = some (l ++ [span lower upper]) := by
  induction l with
  | nil => rfl
  | cons i l ih =>
    obtain ⟨hc, htail⟩ := List.forall_mem_cons.mp hl
    obtain ⟨hhead, hlts⟩ := List.forall_mem_cons.mp h
    cases i with
    | around name reach =>
      rw [insertSpan, ih htail hlts]
      rfl
    | span cl cu =>
      have hlt := hhead rfl
      -- The new span has a lower end and the head an upper one, and they do not reach each other.
      have hnr : ¬reaches cu lower = true := mt (reaches_iff hc.2 hlower).mp hlt.not_ge
      cases lower with
      | none => exact absurd hlt not_lt_bot
      | some e =>
        cases cu with
        | none => exact absurd hlt not_top_lt
        | some f =>
          rw [insertSpan, if_neg hnr, ih htail hlts]
          rfl

/-! ## Unions -/

/-- A span is inserted step by step, unless it or the list is everything. -/
theorem insert_span (lower upper : Option End) (l : List Interval) :
    insert (span lower upper) l = [all] ∧ (l = [all] ∨ span lower upper = all) ∨
      insert (span lower upper) l = (insertSpan lower upper l).getD [all] := by
  unfold insert
  cases l with
  | nil => exact Or.inr rfl
  | cons i l =>
    rw [if_neg (by simp)]
    -- The span of all versions is tested for before any insertion is made.
    by_cases hall : i :: l = [all]
    · rw [if_pos hall]
      exact Or.inl ⟨hall, Or.inl hall⟩
    · rw [if_neg hall]
      cases lower with
      | none =>
        cases upper with
        | none => exact Or.inl ⟨rfl, Or.inr rfl⟩
        | some e => exact Or.inr rfl
      | some e => exact Or.inr rfl

/-- A span is inserted into a list as `Inserted` says, unless the two cover everything. -/
theorem insert_span_cases {lower upper : Option End} (hi : (span lower upper).Concrete)
    {l : List Interval} (hl : ∀ i ∈ l, i.Concrete) :
    insert (span lower upper) l = [all] ∧ (span lower upper).extent ∪ extentOf l = all.extent ∨
      Inserted upper lower l (insert (span lower upper) l) := by
  rcases insert_span lower upper l with ⟨heq, rfl | hall⟩ | heq
  · refine Or.inl ⟨heq, ?_⟩
    rw [extentOf_singleton]
    exact Set.union_eq_right.mpr (extent_subset_all _)
  · refine Or.inl ⟨heq, ?_⟩
    rw [hall]
    exact Set.union_eq_left.mpr (extentOf_subset_all l)
  · -- The insertion is followed step by step, and where it gives up all is covered.
    have houtcome := outcome_insertSpan hi hl
    rw [heq]
    cases hr : insertSpan lower upper l with
    | none =>
      rw [hr] at houtcome
      exact Or.inl ⟨rfl, houtcome.extent_eq⟩
    | some r =>
      rw [hr] at houtcome
      exact Or.inr houtcome

/-- Inserting a span into a list adds its extent, also where there are labels in the list. -/
theorem extentOf_insert_span {lower upper : Option End} (hi : (span lower upper).Concrete)
    {l : List Interval} (hl : ∀ i ∈ l, i.Concrete) (hray : RayLast l) :
    extentOf (insert (span lower upper) l) = (span lower upper).extent ∪ extentOf l := by
  rcases insert_span_cases hi hl with ⟨heq, hall⟩ | h
  · rw [heq, hall, extentOf_singleton]
  · exact h.extentOf_eq hray

/-- A list of spans as insertions leave it. -/
structure SpanList (l : List Interval) : Prop where
  /-- The members are spans at versions without wildcards. -/
  concrete : ∀ i ∈ l, i.isSemantic = true ∧ i.Concrete
  /-- No member stands behind one without an upper end. -/
  rayLast : RayLast l

/-- The interval of all versions is a list of spans by itself. -/
theorem spanList_all : SpanList [all] :=
  ⟨List.forall_mem_singleton.mpr concrete_all, List.pairwise_singleton _ _⟩

section

variable {i : Interval} (hi : i.isSemantic = true ∧ i.Concrete) {l : List Interval}
  (hl : SpanList l)
include hi hl

/-- Inserting a span keeps a list of spans one. -/
theorem spanList_insert : SpanList (insert i l) := by
  cases i with
  | around name reach => exact absurd hi.1 nofun
  | span lower upper =>
    rcases insert_span_cases hi.2 fun i h => (hl.concrete i h).2 with ⟨heq, -⟩ | h
    · rw [heq]
      exact spanList_all
    · exact ⟨h.concrete hi.2 hl.concrete, h.rayLast hl.rayLast⟩

/-- Inserting a span adds its extent. -/
theorem extentOf_insert : extentOf (insert i l) = i.extent ∪ extentOf l := by
  cases i with
  | around name reach => exact absurd hi.1 nofun
  | span lower upper =>
    exact extentOf_insert_span hi.2 (fun i h => (hl.concrete i h).2) hl.rayLast

/-- Inserting a span with room keeps a list of spans spaced. -/
theorem spaced_insert (hroom : i.start < i.stop) (h : Spaced l) : Spaced (insert i l) := by
  cases i with
  | around name reach => exact absurd hi.1 nofun
  | span lower upper =>
    rcases insert_span_cases hi.2 fun i h => (hl.concrete i h).2 with ⟨heq, -⟩ | hinserted
    · rw [heq]
      exact spaced_all
    · exact hinserted.spaced hroom h

end

/-- A union of intervals and others is made by inserting these into the union of the former. -/
theorem unionAll_append (l m : List Interval) :
    unionAll (l ++ m) = m.foldl (fun known i => insert i known) (unionAll l) :=
  List.foldl_append

/-- A union of intervals and one more is an insertion into their union. -/
theorem unionAll_append_singleton (l : List Interval) (i : Interval) :
    unionAll (l ++ [i]) = insert i (unionAll l) :=
  unionAll_append l [i]

/-- A union of spans is a list of spans. -/
theorem spanList_unionAll {l : List Interval} (hl : ∀ i ∈ l, i.isSemantic = true ∧ i.Concrete) :
    SpanList (unionAll l) := by
  induction l using List.reverseRecOn with
  | nil => exact ⟨List.forall_mem_nil _, List.Pairwise.nil⟩
  | append_singleton l i ih =>
    rw [unionAll_append_singleton]
    obtain ⟨hinit, hlast⟩ := List.forall_mem_append.mp hl
    exact spanList_insert (hlast i (List.mem_singleton_self i)) (ih hinit)

/-- A union of spans extends over what one of them extends over. -/
theorem extentOf_unionAll {l : List Interval} (hl : ∀ i ∈ l, i.isSemantic = true ∧ i.Concrete) :
    extentOf (unionAll l) = extentOf l := by
  induction l using List.reverseRecOn with
  | nil => rfl
  | append_singleton l i ih =>
    obtain ⟨hinit, hlast⟩ := List.forall_mem_append.mp hl
    have hi := hlast i (List.mem_singleton_self i)
    calc extentOf (unionAll (l ++ [i]))
        = extentOf (insert i (unionAll l)) := by rw [unionAll_append_singleton]
      _ = i.extent ∪ extentOf (unionAll l) := extentOf_insert hi (spanList_unionAll hinit)
      _ = extentOf l ∪ i.extent := by rw [ih hinit, Set.union_comm]
      _ = extentOf (l ++ [i]) := by rw [extentOf_append, extentOf_singleton]

/-- A union of spans with room is spaced. -/
theorem spaced_unionAll {l : List Interval} (hl : ∀ i ∈ l, i.isSemantic = true ∧ i.Concrete)
    (hroom : ∀ i ∈ l, i.start < i.stop) : Spaced (unionAll l) := by
  induction l using List.reverseRecOn with
  | nil => exact ⟨List.forall_mem_nil _, List.Pairwise.nil⟩
  | append_singleton l i ih =>
    rw [unionAll_append_singleton]
    obtain ⟨hinit, hlast⟩ := List.forall_mem_append.mp hl
    obtain ⟨hrooms, hroom⟩ := List.forall_mem_append.mp hroom
    exact spaced_insert (hlast i (List.mem_singleton_self i)) (spanList_unionAll hinit)
      (hroom i (List.mem_singleton_self i)) (ih hinit hrooms)

/-- A spaced list of spans is its own union. -/
theorem unionAll_of_spaced {l : List Interval} (hl : ∀ i ∈ l, i.isSemantic = true ∧ i.Concrete)
    (h : Spaced l) : unionAll l = l := by
  induction l using List.reverseRecOn with
  | nil => rfl
  | append_singleton l i ih =>
    obtain ⟨hinit, hlast⟩ := List.forall_mem_append.mp hl
    obtain ⟨hgaps, -, hbefore⟩ := List.pairwise_append.mp h.gaps
    have hspaced : Spaced l := ⟨(List.forall_mem_append.mp h.room).1, hgaps⟩
    have hlt : ∀ j ∈ l, j.stop < i.start := fun j hj => hbefore j hj i (List.mem_singleton_self i)
    obtain ⟨hsem, hc⟩ := hlast i (List.mem_singleton_self i)
    rw [unionAll_append_singleton, ih hinit hspaced]
    cases i with
    | around name reach => exact absurd hsem nofun
    | span lower upper =>
      -- Something stands before the last span unless it is the only one, so it is not everything.
      rcases insert_span lower upper l with ⟨heq, rfl | hall⟩ | heq
      · exact absurd (hlt all (List.mem_singleton_self all)) not_top_lt
      · cases l with
        | nil => rw [heq, hall]; rfl
        | cons j l =>
          rw [hall] at hlt
          exact absurd (hlt j List.mem_cons_self) not_lt_bot
      · rw [heq, insertSpan_of_forall_lt hc.1 (fun j hj => (hinit j hj).2) fun j hj _ => hlt j hj]
        rfl

/-- What makes `r` the union of `l`. -/
structure UnionLaw (l r : List Interval) : Prop where
  /-- One of `r` contains a version without wildcards just when one of `l` does. -/
  contains_iff : ∀ v : Semantic, v.wild = false →
    ((∃ i ∈ r, i.contains (.semantic v) = true) ↔ ∃ i ∈ l, i.contains (.semantic v) = true)
  /-- From proper intervals the union comes out in canonical form. -/
  canonical : (∀ i ∈ l, i.Proper) → Canonical r
  /-- A list in canonical form is its own union. -/
  fixed : Canonical l → r = l

/-- The union of spans obeys the law of unions. -/
theorem unionLaw_unionAll {l : List Interval} (hl : ∀ i ∈ l, i.isSemantic = true ∧ i.Concrete) :
    UnionLaw l (unionAll l) := by
  have hspans := (spanList_unionAll hl).concrete
  refine ⟨fun v hv => ?_, fun hproper => ?_, fun hcanonical => ?_⟩
  · rw [exists_contains_iff hspans hv, exists_contains_iff hl hv, extentOf_unionAll hl]
  · rw [canonical_iff_spaced hspans]
    exact spaced_unionAll hl fun i hi => (proper_iff (hl i hi)).mp (hproper i hi)
  · exact unionAll_of_spaced hl ((canonical_iff_spaced hl).mp hcanonical)

/-- Unions of spans are exact and canonical, those of a list and those of a list and one more: they
contain the versions that a member contains, whatever the order of the members and whether or not
these overlap or are empty; from proper members they come out in canonical form; and they leave what
is canonical as it is. -/
theorem union_exact_and_canonical {l : List Interval}
    (hl : ∀ i ∈ l, i.isSemantic = true ∧ i.Concrete) :
    UnionLaw l (unionAll l) ∧
      ∀ b : Interval, b.isSemantic = true ∧ b.Concrete → UnionLaw (l ++ [b]) (union l b) := by
  refine ⟨unionLaw_unionAll hl, fun b hb => unionLaw_unionAll ?_⟩
  exact List.forall_mem_append.mpr ⟨hl, List.forall_mem_singleton.mpr hb⟩

/-- Three spans out of order that meet at `1` and at `3`, where one side holds the version, and a
point between them that the union has already. -/
theorem union_exact_and_canonical_seams :
    let v (n : ℕ) : Semantic := ⟨n, [], false, none, none⟩
    let l := [span (some ⟨v 3, true⟩) none, span none (some ⟨v 1, false⟩),
      span (some ⟨v 1, true⟩) (some ⟨v 3, false⟩)]
    let b := span (some ⟨v 2, true⟩) (some ⟨v 2, true⟩)
    (∀ i ∈ l, i.isSemantic = true ∧ i.Concrete) ∧ unionAll l = [all] ∧ union l b = [all] ∧
      UnionLaw l (unionAll l) ∧ UnionLaw (l ++ [b]) (union l b) := by
  intro v l b
  have hl : ∀ i ∈ l, i.isSemantic = true ∧ i.Concrete := by
    simp [l, v, isSemantic, Concrete, End.ConcreteOrNone]
  have hb : b.isSemantic = true ∧ b.Concrete := by
    simp [b, v, isSemantic, Concrete, End.ConcreteOrNone]
  have h := union_exact_and_canonical hl
  exact ⟨hl, by decide, by decide, h.1, h.2 b hb⟩

end Semrange.Interval
