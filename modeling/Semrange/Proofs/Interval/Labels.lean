import Mathlib.Data.List.Nodup
import Semrange.Proofs.Interval.Mixture
import Semrange.Proofs.Predicate.Agreement

/-!
# The labels of a union

Which labels a union keeps is read off the order of the members. The first ray goes to the end of
the list, so before it stand the labels that came before it, and these stay. What comes later stands
behind it until the next ray that begins below the one in the union so far (`Lost`). `Tracks` says
this of a list and what its insertions make of it, and each insertion keeps it true
(`Tracks.insertAround_point`, `Tracks.insertSpan`).
-/

namespace Semrange.Interval

/-! ## Points -/

/-- The interval that holds one label. -/
def point (name : String) : Interval :=
  .around name (.within true true)

/-- Where nothing is known of a label, no member is around it. -/
theorem reachAround?_eq_none {name : String} {l : List Interval} (h : ∀ r, around name r ∉ l) :
    ∀ i ∈ l, reachAround? name i = none := by
  intro i hi
  cases i with
  | span lower upper => rfl
  | around t q =>
    refine if_neg fun hname => ?_
    rw [hname] at hi
    exact h q hi

/-- A label of which nothing is known yet is put at the end. -/
theorem insertAround_of_notMem {name : String} (reach : Reach) {l : List Interval}
    (h : ∀ r, around name r ∉ l) : insertAround name reach l = l ++ [around name reach] := by
  have hnone := List.filterMap_eq_nil_iff.mpr (reachAround?_eq_none h)
  simp only [insertAround, hnone]

/-- What is known of a label is replaced, where it stands, by what it covers together with what is
added. -/
theorem insertAround_block {name : String} (reach : Reach) {l m : List Interval}
    (hl : ∀ r, around name r ∉ l) (hm : ∀ r, around name r ∉ m) {known : List Reach}
    (hknown : known ≠ []) {c : Coverage}
    (hc : known.foldl (fun c r => c.or r.coverage) reach.coverage = c) :
    insertAround name reach (l ++ known.map (around name) ++ m) =
      if c.isFull then [all] else l ++ c.reaches.map (around name) ++ m := by
  have hl' := reachAround?_eq_none hl
  have hm' := reachAround?_eq_none hm
  have hself : ∀ r, reachAround? name (around name r) = some r := fun r => if_pos rfl
  -- Only the block is around the label, so its reaches are all that is known.
  have hall : (l ++ known.map (around name) ++ m).filterMap (reachAround? name) = known := by
    rw [List.filterMap_append, List.filterMap_append, List.filterMap_eq_nil_iff.mpr hl',
      List.filterMap_eq_nil_iff.mpr hm', List.filterMap_map, List.append_nil, List.nil_append]
    exact (List.filterMap_congr fun r _ => hself r).trans List.filterMap_some
  have hbefore : ∀ i ∈ l, (reachAround? name i).isNone = true := fun i hi => by rw [hl' i hi]; rfl
  have hbehind : ∀ i ∈ m, (reachAround? name i).isNone = true := fun i hi => by rw [hm' i hi]; rfl
  have hnot : ∀ i ∈ known.map (around name), ¬(reachAround? name i).isNone = true := by
    intro i hi
    obtain ⟨r, -, rfl⟩ := List.mem_map.mp hi
    rw [hself]
    exact nofun
  obtain ⟨r, rs, rfl⟩ := List.exists_cons_of_ne_nil hknown
  -- The list is cut where the block begins, and of what follows all but the block is kept.
  have hsplit : (l ++ (r :: rs).map (around name) ++ m).takeWhile
        (fun i => (reachAround? name i).isNone) = l ∧
      (l ++ (r :: rs).map (around name) ++ m).dropWhile (fun i => (reachAround? name i).isNone) =
        (r :: rs).map (around name) ++ m := by
    rw [List.append_assoc, List.takeWhile_append_of_pos hbefore,
      List.dropWhile_append_of_pos hbefore]
    simp [hself]
  simp only [insertAround, hall, hc]
  rw [hsplit.1, hsplit.2, List.filter_append, List.filter_eq_nil_iff.mpr hnot,
    List.filter_eq_self.mpr hbehind, List.nil_append]

/-- A point that is there already changes nothing, if nothing else is known of its label. -/
theorem insertAround_point {name : String} {l m : List Interval} (hl : ∀ r, around name r ∉ l)
    (hm : ∀ r, around name r ∉ m) :
    insertAround name (.within true true) (l ++ point name :: m) = l ++ point name :: m := by
  have hblock : l ++ point name :: m = l ++ [Reach.within true true].map (around name) ++ m :=
    List.append_cons l (point name) m
  -- A point covers nothing else, so what is known stays as it is and where it is.
  rw [hblock]
  exact insertAround_block _ hl hm (List.cons_ne_nil _ _) rfl

/-! ## The labels of a union -/

/-- A ray that begins below a ray of the list. -/
def Undercuts (i : Interval) (l : List Interval) : Prop :=
  ∃ lower lo, i = span lower none ∧ span lo none ∈ l ∧ compareLower lower lo = .lt

/-- A point is lost when it came after the first ray, a later ray undercuts the union so far, and
the point does not come again. -/
def Lost (name : String) (l : List Interval) : Prop :=
  ∃ a i b, l = a ++ i :: b ∧ Undercuts i (unionAll a) ∧ point name ∉ front a ∧ point name ∉ b

/-- A span undercuts a list when it cuts it off. -/
theorem undercuts_span_iff {lower upper : Option End} (hi : (span lower upper).Concrete)
    {l : List Interval} (hl : ∀ i ∈ l, i.Concrete) :
    Undercuts (span lower upper) l ↔ CutsOff lower upper l := by
  constructor
  · rintro ⟨e, lo, ⟨⟩, hmem, hlt⟩
    exact ⟨rfl, lo, hmem, (compares_compareLower hi.1 (hl _ hmem).1).eq_lt.mp hlt⟩
  · rintro ⟨rfl, lo, hmem, hlt⟩
    exact ⟨lower, lo, rfl, hmem, (compares_compareLower hi.1 (hl _ hmem).1).eq_lt.mpr hlt⟩

/-- A point undercuts nothing. -/
theorem not_undercuts_point (name : String) (l : List Interval) : ¬Undercuts (point name) l := by
  rintro ⟨lower, lo, heq, -⟩
  exact absurd heq nofun

/-- A point is lost from a list with one more member when it was lost before, and is not that
member, or when that member makes it so. -/
theorem lost_append_singleton_iff {name : String} {l : List Interval} {i : Interval} :
    Lost name (l ++ [i]) ↔
      Lost name l ∧ i ≠ point name ∨ Undercuts i (unionAll l) ∧ point name ∉ front l := by
  constructor
  · rintro ⟨a, j, b, heq, hcut, hfront, hb⟩
    -- The ray that undercuts is the last member, or the last member is behind it.
    rcases List.eq_nil_or_concat b with rfl | ⟨c, k, rfl⟩
    · obtain ⟨rfl, hlast⟩ := List.append_inj' heq rfl
      cases hlast
      exact Or.inr ⟨hcut, hfront⟩
    · rw [List.concat_eq_append] at heq hb
      rw [← List.cons_append, ← List.append_assoc] at heq
      obtain ⟨rfl, hlast⟩ := List.append_inj' heq rfl
      cases hlast
      rw [List.mem_append, List.mem_singleton, not_or] at hb
      exact Or.inl ⟨⟨a, j, c, rfl, hcut, hfront, hb.1⟩, fun h => hb.2 h.symm⟩
  · -- The ray that made the point lost is still there, or it is the new member.
    rintro (⟨⟨a, j, b, rfl, hcut, hfront, hb⟩, hne⟩ | ⟨hcut, hfront⟩)
    · refine ⟨a, j, b ++ [i], by rw [List.append_assoc, List.cons_append], hcut, hfront, ?_⟩
      rw [List.mem_append, List.mem_singleton, not_or]
      exact ⟨hb, fun h => hne h.symm⟩
    · exact ⟨l, i, [], rfl, hcut, hfront, nofun⟩

/-- Before the first ray of a list with one more member there is a point if it was there, or if it
is that member and there is no ray. -/
theorem point_mem_front_append_iff {name : String} {l : List Interval} {i : Interval} :
    point name ∈ front (l ++ [i]) ↔
      point name ∈ front l ∨ l.any isRay = false ∧ i = point name := by
  -- The members before the first ray are passed one by one; a ray ends them.
  induction l with
  | nil =>
    cases hray : i.isRay with
    | true =>
      have hne : i ≠ point name := by
        rintro rfl
        exact absurd hray nofun
      simp [front, hray, hne]
    | false => simp [front, hray, eq_comm]
  | cons j l ih =>
    cases hray : j.isRay with
    | true => simp [front, hray]
    | false =>
      simp only [front, List.cons_append, List.takeWhile_cons, hray, Bool.not_false, if_true,
        List.mem_cons, List.any_cons, Bool.false_or] at ih ⊢
      rw [ih, or_assoc]

/-- What stands before the first ray of a list stands in the list. -/
theorem mem_of_mem_front {i : Interval} {l : List Interval} (h : i ∈ front l) : i ∈ l :=
  (List.takeWhile_sublist _).subset h

/-- Where there is no ray, everything is before one. -/
theorem front_of_not_any {l : List Interval} (h : l.any isRay = false) : front l = l := by
  refine List.takeWhile_eq_self_iff.mpr fun i hi => ?_
  rw [List.any_eq_false] at h
  rw [Bool.not_eq_true', Bool.eq_false_iff]
  exact h i hi

/-- A point of a list is one of its labels. -/
theorem point_mem_labels_iff {name : String} {l : List Interval} :
    point name ∈ labels l ↔ point name ∈ l :=
  List.mem_filter.trans (and_iff_left rfl)

/-- What becomes of the labels of a list in its union. -/
structure Tracks (l out : List Interval) : Prop where
  /-- The intervals around labels are members of the list. -/
  mem : ∀ i ∈ labels out, i ∈ l
  /-- None is there twice. -/
  nodup : (labels out).Nodup
  /-- There is a ray when the list has one. -/
  ray : out.any isRay = l.any isRay
  /-- Before the ray are the points that come before one in the list. -/
  front : ∀ name, point name ∈ front out ↔ point name ∈ front l
  /-- A point of the list is there unless it is lost. -/
  point : ∀ name, point name ∈ out ↔ point name ∈ l ∧ ¬Lost name l

/-- Where only points are known and each one once, a point is added at the end if it is new. -/
theorem insertAround_point_cases (name : String) {out : List Interval}
    (hpoints : ∀ i ∈ labels out, ∃ t, i = point t) (hnodup : (labels out).Nodup) :
    insertAround name (.within true true) out = out ∧ point name ∈ out ∨
      insertAround name (.within true true) out = out ++ [point name] ∧ point name ∉ out := by
  have hreach : ∀ r, around name r ∈ out → around name r = point name := by
    intro r hr
    obtain ⟨t, ht⟩ := hpoints _ (List.mem_filter.mpr ⟨hr, rfl⟩)
    cases ht
    rfl
  by_cases hmem : point name ∈ out
  · -- The point is there, and nothing else around its label, since each is there once.
    obtain ⟨l, m, rfl⟩ := List.append_of_mem hmem
    have hsplit : labels (l ++ point name :: m) = labels l ++ point name :: labels m :=
      List.filter_append _ _
    rw [hsplit, List.nodup_middle, List.nodup_cons, List.mem_append, not_or, point_mem_labels_iff,
      point_mem_labels_iff] at hnodup
    refine Or.inl ⟨insertAround_point ?_ ?_, hmem⟩
    · intro r hr
      rw [hreach r (List.mem_append_left _ hr)] at hr
      exact hnodup.1.1 hr
    · intro r hr
      rw [hreach r (List.mem_append_right _ (List.mem_cons_of_mem _ hr))] at hr
      exact hnodup.1.2 hr
  · -- Nothing is around the label, since that would be the point.
    refine Or.inr ⟨insertAround_of_notMem _ fun r hr => ?_, hmem⟩
    rw [hreach r hr] at hr
    exact hmem hr

/-- Adding a point keeps track of the labels. -/
theorem Tracks.insertAround_point {l out : List Interval} (h : Tracks l out)
    (hpoints : ∀ i ∈ l, i.isSemantic = false → ∃ t, i = Interval.point t) (name : String) :
    Tracks (l ++ [Interval.point name]) (insertAround name (.within true true) out) := by
  have hout : ∀ i ∈ labels out, ∃ t, i = Interval.point t :=
    fun i hi => hpoints i (h.mem i hi) ((Bool.not_eq_true' _).mp (List.mem_filter.mp hi).2)
  -- A point undercuts nothing: what was lost stays so, unless it is that point.
  have hlost : ∀ t, Lost t (l ++ [Interval.point name]) ↔
      Lost t l ∧ Interval.point name ≠ Interval.point t := by
    intro t
    rw [lost_append_singleton_iff]
    exact or_iff_left fun hcut => not_undercuts_point _ _ hcut.1
  rcases insertAround_point_cases name hout h.nodup with ⟨heq, hmem⟩ | ⟨heq, hmem⟩
  · -- The point was there, and the union stays the same.
    rw [heq]
    refine ⟨fun i hi => List.mem_append_left _ (h.mem i hi), h.nodup, ?_, fun t => ?_, fun t => ?_⟩
    · rw [h.ray, List.any_append]
      exact (Bool.or_false _).symm
    · -- If the point is the first one of its label and there is no ray, it was there already.
      rw [h.front, point_mem_front_append_iff]
      refine (or_iff_left_of_imp ?_).symm
      rintro ⟨hray, ht⟩
      rw [← h.front, ← ht, front_of_not_any (h.ray.trans hray)]
      exact hmem
    · -- The point comes again, and any other one is there as before.
      rw [hlost, List.mem_append, List.mem_singleton]
      by_cases ht : Interval.point t = Interval.point name
      · rw [ht]
        exact iff_of_true hmem ⟨Or.inr rfl, fun hl => hl.2 rfl⟩
      · rw [h.point, or_iff_left ht, and_iff_left (Ne.symm ht)]
  · -- The point is new and goes to the end.
    rw [heq]
    have hlabels : labels (out ++ [Interval.point name]) = labels out ++ [Interval.point name] :=
      List.filter_append _ _
    refine ⟨?_, ?_, ?_, fun t => ?_, fun t => ?_⟩
    · rw [hlabels]
      exact List.forall_mem_append.mpr ⟨fun i hi => List.mem_append_left _ (h.mem i hi),
        fun i hi => List.mem_append_right _ hi⟩
    · rw [hlabels, ← List.concat_eq_append, List.nodup_concat]
      exact ⟨mt point_mem_labels_iff.mp hmem, h.nodup⟩
    · rw [List.any_append, List.any_append, h.ray]
    · rw [point_mem_front_append_iff, point_mem_front_append_iff, h.front, h.ray]
    · rw [hlost, List.mem_append, List.mem_append, List.mem_singleton, h.point]
      by_cases ht : Interval.point t = Interval.point name
      · exact iff_of_true (Or.inr ht) ⟨Or.inr ht, fun hl => hl.2 ht.symm⟩
      · rw [or_iff_left ht, or_iff_left ht, and_iff_left (Ne.symm ht)]

/-- Inserting a span keeps track of the labels. -/
theorem Tracks.insertSpan {l : List Interval} (h : Tracks l (unionAll l))
    {lower upper : Option End} (hi : (span lower upper).Concrete)
    (hout : ∀ i ∈ unionAll l, i.Concrete) (hs : Spaced ((unionAll l).filter isSemantic))
    {r : List Interval} (hr : Inserted upper lower (unionAll l) r) :
    Tracks (l ++ [span lower upper]) r := by
  have hfront := hr.labels_front
  have hback := hr.labels_back hs
  have hne : ∀ t, span lower upper ≠ Interval.point t := fun t => nofun
  -- A ray that cuts the list off leaves the labels before the first ray, any other span all labels.
  have hcutoff : CutsOff lower upper (unionAll l) →
      labels r = labels (Interval.front (unionAll l)) := by
    intro hcut
    rw [labels_eq_append r, hfront, hback.1 hcut, List.append_nil]
  have hkept : ¬CutsOff lower upper (unionAll l) → labels r = labels (unionAll l) := by
    intro hcut
    rw [labels_eq_append r, hfront, hback.2 hcut, ← labels_eq_append]
  have hsublist : (labels r).Sublist (labels (unionAll l)) := by
    by_cases hcut : CutsOff lower upper (unionAll l)
    · rw [hcutoff hcut]
      exact (List.takeWhile_sublist _).filter _
    · rw [hkept hcut]
  refine ⟨fun i hi => List.mem_append_left _ (h.mem i (hsublist.subset hi)),
    h.nodup.sublist hsublist, ?_, fun t => ?_, fun t => ?_⟩
  · rw [hr.any_isRay, h.ray, List.any_append, Bool.or_comm]
    exact congrArg _ (Bool.or_false _).symm
  · -- Before the first ray the labels stay, and the span is none.
    rw [← point_mem_labels_iff, hfront, point_mem_labels_iff, h.front, point_mem_front_append_iff]
    exact (or_iff_left fun hlast => hne t hlast.2).symm
  · rw [List.mem_append, List.mem_singleton, or_iff_left (hne t).symm, lost_append_singleton_iff,
      and_iff_left (hne t), undercuts_span_iff hi hout, ← point_mem_labels_iff]
    by_cases hcut : CutsOff lower upper (unionAll l)
    · -- Just the points before the first ray remain, and these have never been lost.
      rw [hcutoff hcut, point_mem_labels_iff, h.front]
      constructor
      · intro hf
        obtain ⟨hl, hnot⟩ := (h.point t).mp (mem_of_mem_front ((h.front t).mpr hf))
        exact ⟨hl, not_or.mpr ⟨hnot, fun hlost => hlost.2 hf⟩⟩
      · rintro ⟨-, hnot⟩
        exact not_not.mp fun hf => hnot (Or.inr ⟨hcut, hf⟩)
    · rw [hkept hcut, point_mem_labels_iff, h.point, or_iff_left fun hlost => hcut hlost.1]

/-! ## Unions of what predicates allow -/

section

variable {l : List Interval} (hl : ∀ i ∈ l, i.Legible ∧ i.Plain)
include hl

/-- The spans among plain intervals have no wildcards and have room. -/
theorem room_of_plain : ∀ i ∈ l.filter isSemantic,
    (i.isSemantic = true ∧ i.Concrete) ∧ i.start < i.stop := by
  intro i hi
  obtain ⟨hmem, hsem⟩ := List.mem_filter.mp hi
  obtain ⟨hlegible, hplain⟩ := hl i hmem
  cases i with
  | span lower upper => exact ⟨⟨rfl, hlegible.concrete⟩, hplain⟩
  | around name reach => exact absurd hsem nofun

/-- The spans in a union of plain intervals are spaced, unless all is covered. -/
theorem spaced_filter_unionAll (hall : unionAll l ≠ [all]) :
    (∀ i ∈ unionAll l, i.Concrete) ∧ Spaced ((unionAll l).filter isSemantic) := by
  have hspans : ∀ i ∈ l.filter isSemantic, i.isSemantic = true ∧ i.Concrete :=
    fun i hi => (room_of_plain hl i hi).1
  constructor
  · intro i hi
    cases i with
    | around name reach => exact trivial
    | span lower upper =>
      have hmem : span lower upper ∈ (unionAll l).filter isSemantic := List.mem_filter.mpr ⟨hi, rfl⟩
      rw [filter_unionAll hall] at hmem
      exact ((spanList_unionAll hspans).concrete _ hmem).2
  · -- The spans are those of a union of spans.
    rw [filter_unionAll hall]
    exact spaced_unionAll hspans fun i hi => (room_of_plain hl i hi).2

/-- The union of plain intervals keeps track of their labels, unless all is covered. -/
theorem tracks_unionAll (hall : unionAll l ≠ [all]) : Tracks l (unionAll l) := by
  induction l using List.reverseRecOn with
  | nil =>
    refine ⟨List.forall_mem_nil _, List.nodup_nil, rfl, fun _ => Iff.rfl, fun name => ?_⟩
    exact iff_of_false List.not_mem_nil fun h => List.not_mem_nil h.1
  | append_singleton l i ih =>
    obtain ⟨hinit, hlast⟩ := List.forall_mem_append.mp hl
    obtain ⟨hlegible, hplain⟩ := hlast i (List.mem_singleton_self i)
    -- Once all is covered it stays so, so it was not before.
    have hknown := unionAll_ne_all_of_append hall
    have htracks := ih hinit hknown
    rw [unionAll_append_singleton] at hall ⊢
    cases i with
    | span lower upper =>
      -- The span does not complete the union, so it is inserted.
      obtain ⟨hconcrete, hspaced⟩ := spaced_filter_unionAll hinit hknown
      have hinserted := (insert_span_cases hlegible.concrete hconcrete).resolve_left
        fun h => hall h.1
      exact htracks.insertSpan hlegible.concrete hconcrete hspaced hinserted
    | around name reach =>
      obtain rfl : reach = .within true true := hplain
      rw [insert_around hknown]
      -- The labels known so far are points, since all members are plain.
      refine htracks.insertAround_point (fun j hj hlabel => ?_) name
      cases j with
      | span lower upper => exact absurd hlabel nofun
      | around t q =>
        obtain rfl : q = .within true true := (hinit _ hj).2
        exact ⟨t, rfl⟩

end

/-- In a union of intervals that predicates allow, unless all is covered, spans and labels are kept
apart but for one thing. The spans are the union of the spans. The labels are points of the list,
each one once, but those are missing that are lost to a ray: that came behind a ray, before a second
one that begins below the ray in the union so far, and not again. -/
theorem spans_and_labels_of_unionAll {l : List Interval}
    (hl : ∀ i ∈ l, ∃ e p, Predicate.parse e = .ok p ∧ p.interval = .ok (some i))
    (hall : unionAll l ≠ [all]) :
    (unionAll l).filter isSemantic = unionAll (l.filter isSemantic) ∧
      (labels (unionAll l)).Nodup ∧
        (∀ i ∈ labels (unionAll l), i ∈ l ∧ ∃ name, i = point name) ∧
          ∀ name, point name ∈ unionAll l ↔ point name ∈ l ∧ ¬Lost name l := by
  have hplain : ∀ i ∈ l, i.Legible ∧ i.Plain := by
    intro i hi
    obtain ⟨e, p, he, hp⟩ := hl i hi
    exact Predicate.plain_of_parse he hp
  have htracks := tracks_unionAll hplain hall
  refine ⟨filter_unionAll hall, htracks.nodup, fun i hi => ?_, htracks.point⟩
  have hmem := htracks.mem i hi
  refine ⟨hmem, ?_⟩
  cases i with
  | span lower upper => exact absurd (List.mem_filter.mp hi).2 nofun
  | around name reach =>
    obtain rfl : reach = .within true true := (hplain _ hmem).2
    exact ⟨name, rfl⟩

/-- A ray that begins below the one in the list, with one label before that, one behind it, and one
that comes later. -/
theorem spans_and_labels_of_unionAll_ray :
    let v (n : ℕ) : Semantic := ⟨n, [], false, none, none⟩
    let l := [point "foo", span (some ⟨v 2, true⟩) none, point "bar", span (some ⟨v 1, true⟩) none,
      point "baz"]
    (∀ i ∈ l, ∃ e p, Predicate.parse e = .ok p ∧ p.interval = .ok (some i)) ∧
      unionAll l = [point "foo", span (some ⟨v 1, true⟩) none, point "baz"] ∧
        ¬Lost "foo" l ∧ Lost "bar" l ∧ ¬Lost "baz" l := by
  intro v l
  have hl : ∀ i ∈ l, ∃ e p, Predicate.parse e = .ok p ∧ p.interval = .ok (some i) := by
    intro i hi
    simp only [l, List.mem_cons, List.not_mem_nil, or_false] at hi
    rcases hi with rfl | rfl | rfl | rfl | rfl
    · exact ⟨"foo", ⟨[⟨.equal, .label "foo"⟩]⟩, by decide +kernel, rfl⟩
    · exact ⟨">=2", ⟨[⟨.atLeast, .semantic (v 2)⟩]⟩, by decide +kernel, rfl⟩
    · exact ⟨"bar", ⟨[⟨.equal, .label "bar"⟩]⟩, by decide +kernel, rfl⟩
    · exact ⟨">=1", ⟨[⟨.atLeast, .semantic (v 1)⟩]⟩, by decide +kernel, rfl⟩
    · exact ⟨"baz", ⟨[⟨.equal, .label "baz"⟩]⟩, by decide +kernel, rfl⟩
  have hunion : unionAll l = [point "foo", span (some ⟨v 1, true⟩) none, point "baz"] := by decide
  have hall : unionAll l ≠ [all] := by
    rw [hunion]
    exact nofun
  obtain ⟨-, -, -, hpoint⟩ := spans_and_labels_of_unionAll hl hall
  rw [hunion] at hpoint
  -- Only the label between the two rays is gone.
  have hbar : point "bar" ∉ [point "foo", span (some ⟨v 1, true⟩) none, point "baz"] := by decide
  refine ⟨hl, hunion, ((hpoint "foo").mp (by decide)).2, ?_, ((hpoint "baz").mp (by decide)).2⟩
  exact not_not.mp fun h => hbar ((hpoint "bar").mpr ⟨by decide, h⟩)

/-- A label that is lost: the union of what `>=2`, `foo` and `>=1` allow is not everything, and the
label is not in it. -/
theorem unionAll_drops_label :
    let v (n : ℕ) : Semantic := ⟨n, [], false, none, none⟩
    let l := [span (some ⟨v 2, true⟩) none, point "foo", span (some ⟨v 1, true⟩) none]
    (∀ i ∈ l, ∃ e p, Predicate.parse e = .ok p ∧ p.interval = .ok (some i)) ∧
      unionAll l ≠ [all] ∧ point "foo" ∈ l ∧ point "foo" ∉ unionAll l := by
  intro v l
  refine ⟨fun i hi => ?_, by decide, by decide, by decide⟩
  simp only [l, List.mem_cons, List.not_mem_nil, or_false] at hi
  rcases hi with rfl | rfl | rfl
  · exact ⟨">=2", ⟨[⟨.atLeast, .semantic (v 2)⟩]⟩, by decide +kernel, rfl⟩
  · exact ⟨"foo", ⟨[⟨.equal, .label "foo"⟩]⟩, by decide +kernel, rfl⟩
  · exact ⟨">=1", ⟨[⟨.atLeast, .semantic (v 1)⟩]⟩, by decide +kernel, rfl⟩

end Semrange.Interval
