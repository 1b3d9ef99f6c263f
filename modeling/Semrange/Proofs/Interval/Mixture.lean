import Mathlib.Data.List.TakeWhile
import Semrange.Proofs.Interval.Union

/-!
# Spans and labels in one list

In a list that mixes spans and intervals around labels, an insertion does to the spans what it does
to them alone (`filter_insertSpan`), so the spans of a union are the union of the spans
(`filter_unionAll`). The labels are no concern of a span that is inserted, with one exception: where
the new span and one in the list are both unbounded above, rays for short, and the new one begins
below, all that stands behind the old one goes, labels included (`Inserted.labels_back`).
-/

namespace Semrange.Interval

/-! ## The spans of a union -/

/-- Spans are kept where labels are dropped. -/
theorem filter_isSemantic_span (lower upper : Option End) (l : List Interval) :
    (span lower upper :: l).filter isSemantic = span lower upper :: l.filter isSemantic :=
  rfl

/-- Labels are dropped. -/
theorem filter_isSemantic_around (name : String) (reach : Reach) (l : List Interval) :
    (around name reach :: l).filter isSemantic = l.filter isSemantic :=
  rfl

/-- An insertion of a span does to the spans of a list what it does to them alone. -/
theorem filter_insertSpan (lower upper : Option End) (l : List Interval) :
    (insertSpan lower upper l).map (List.filter isSemantic) =
      insertSpan lower upper (l.filter isSemantic) := by
  induction l generalizing lower with
  | nil => rfl
  | cons i l ih =>
    cases i with
    | around name reach =>
      rw [insertSpan, Option.map_map, filter_isSemantic_around, ← ih]
      rfl
    | span cl cu =>
      rw [filter_isSemantic_span]
      cases lower with
      | none =>
        cases cu with
        | none =>
          simp only [insertSpan]
          split_ifs <;> rfl
        | some f =>
          -- No question is put to the tail, so both sides branch alike.
          simp only [insertSpan, ← ih]
          split_ifs <;> rfl
      | some e =>
        cases cu with
        | none =>
          simp only [insertSpan]
          split_ifs <;> rfl
        | some f =>
          -- Where the head is passed by, it is put back before the outcome.
          have hback : ((insertSpan (some e) upper l).map (span cl (some f) :: ·)).map
              (List.filter isSemantic) = ((insertSpan (some e) upper l).map
                (List.filter isSemantic)).map (span cl (some f) :: ·) := by
            rw [Option.map_map, Option.map_map]
            rfl
          simp only [insertSpan, ← ih, ← hback]
          split_ifs <;> rfl

/-- Nothing is added to the interval of all versions. -/
theorem insert_all (i : Interval) : insert i [all] = [all] :=
  rfl

/-- Where the interval of all versions is added, nothing else is left. -/
theorem insert_all_eq (l : List Interval) : insert all l = [all] := by
  unfold insert
  cases l with
  | nil => rfl
  | cons i l =>
    rw [if_neg (by simp)]
    -- What is there is everything already, or the new interval has no ends.
    by_cases hall : i :: l = [all]
    · rw [if_pos hall, hall]
    · rw [if_neg hall]
      rfl

/-- Inserting a span into the interval of all versions leaves that or is everything. -/
theorem insertSpan_all (lower upper : Option End) :
    insertSpan lower upper [all] = none ∨ insertSpan lower upper [all] = some [all] := by
  cases lower with
  | none => cases upper <;> exact Or.inl rfl
  | some e => exact Or.inr rfl

/-- No interval around a label is a span. -/
theorem filter_isSemantic_map_around (name : String) (l : List Reach) :
    (l.map (around name)).filter isSemantic = [] := by
  refine List.filter_eq_nil_iff.mpr fun i hi => ?_
  obtain ⟨reach, -, rfl⟩ := List.mem_map.mp hi
  exact nofun

/-- The spans are no others where an interval around a label is added, unless all is covered
then. -/
theorem filter_insertAround {name : String} {reach : Reach} {l : List Interval}
    (h : insertAround name reach l ≠ [all]) :
    (insertAround name reach l).filter isSemantic = l.filter isSemantic := by
  cases hk : l.filterMap (reachAround? name) with
  | nil =>
    simp only [insertAround, hk]
    -- The interval is put at the end.
    rw [List.filter_append]
    exact List.append_nil _
  | cons r known =>
    simp only [insertAround, hk] at h ⊢
    split_ifs at h ⊢ with hfull
    · exact absurd rfl h
    · -- What is known of the label has gone, and what replaces it is around that label as well.
      have hother : ∀ m : List Interval,
          (m.filter fun i => (reachAround? name i).isNone).filter isSemantic =
            m.filter isSemantic := by
        intro m
        rw [List.filter_filter]
        refine List.filter_congr fun i _ => ?_
        cases i with
        | span lower upper => rfl
        | around t q => rfl
      rw [List.filter_append, List.filter_append, filter_isSemantic_map_around, List.append_nil,
        hother, ← List.filter_append, List.takeWhile_append_dropWhile]

/-- Where not all is covered, an interval around a label is added to what is known of that label. -/
theorem insert_around {name : String} {reach : Reach} {l : List Interval} (h : l ≠ [all]) :
    insert (around name reach) l = insertAround name reach l := by
  unfold insert
  cases l with
  | nil => rfl
  | cons i l => rw [if_neg (by simp), if_neg h]

/-- Where not all is covered, neither before nor then, a span is inserted step by step. -/
theorem insertSpan_eq_some {lower upper : Option End} {l : List Interval}
    (h : insert (span lower upper) l ≠ [all]) :
    insertSpan lower upper l = some (insert (span lower upper) l) := by
  rcases insert_span lower upper l with ⟨hall, -⟩ | heq
  · exact absurd hall h
  · cases hm : insertSpan lower upper l with
    | none =>
      rw [heq, hm] at h
      exact absurd rfl h
    | some m =>
      rw [heq, hm]
      rfl

/-- An insertion of a span does to the spans of a list what it does to them alone, unless all is
covered then. -/
theorem filter_insert_span {lower upper : Option End} {l : List Interval}
    (h : insert (span lower upper) l ≠ [all]) :
    (insert (span lower upper) l).filter isSemantic =
      insert (span lower upper) (l.filter isSemantic) := by
  have hfilter := filter_insertSpan lower upper l
  rw [insertSpan_eq_some h, Option.map_some] at hfilter
  rcases insert_span lower upper (l.filter isSemantic) with ⟨hall, hspans | hspan⟩ | heq
  · -- The only span is that of all versions, and it stays.
    rw [hall]
    rw [hspans] at hfilter
    rcases insertSpan_all lower upper with hnone | hsome
    · exact absurd (hfilter.trans hnone) nofun
    · exact Option.some.inj (hfilter.trans hsome)
  · rw [hspan] at h
    exact absurd (insert_all_eq l) h
  · rw [heq, ← hfilter]
    rfl

/-- Where not all is covered in the end, not all was covered before. -/
theorem unionAll_ne_all_of_append {l : List Interval} {i : Interval}
    (h : unionAll (l ++ [i]) ≠ [all]) : unionAll l ≠ [all] := by
  intro hl
  rw [unionAll_append_singleton, hl] at h
  exact h (insert_all i)

/-- The spans of a union are the union of the spans, unless all is covered. -/
theorem filter_unionAll {l : List Interval} (h : unionAll l ≠ [all]) :
    (unionAll l).filter isSemantic = unionAll (l.filter isSemantic) := by
  induction l using List.reverseRecOn with
  | nil => rfl
  | append_singleton l i ih =>
    have hl := unionAll_ne_all_of_append h
    rw [unionAll_append_singleton] at h ⊢
    rw [List.filter_append]
    cases i with
    | span lower upper =>
      -- A span is added to the spans as well, and a label leaves them as they are.
      rw [filter_isSemantic_span, List.filter_nil, unionAll_append_singleton, ← ih hl]
      exact filter_insert_span h
    | around name reach =>
      rw [filter_isSemantic_around, List.filter_nil, List.append_nil, ← ih hl]
      rw [insert_around hl] at h ⊢
      exact filter_insertAround h

/-! ## Labels before and behind a ray -/

/-- The intervals around labels. -/
def labels (l : List Interval) : List Interval :=
  l.filter fun i => !i.isSemantic

/-- What stands before the first span without an upper end. -/
def front (l : List Interval) : List Interval :=
  l.takeWhile fun i => !i.isRay

/-- The first span without an upper end, and what stands behind it. -/
def back (l : List Interval) : List Interval :=
  l.dropWhile fun i => !i.isRay

/-- An interval around a label comes before what is behind it. -/
@[simp]
theorem labels_front_around (name : String) (reach : Reach) (l : List Interval) :
    labels (front (around name reach :: l)) = around name reach :: labels (front l) :=
  rfl

/-- The labels before a ray are none, those before a span are counted from behind it. -/
@[simp]
theorem labels_front_span (lower upper : Option End) (l : List Interval) :
    labels (front (span lower upper :: l)) = if upper.isNone then [] else labels (front l) := by
  cases upper <;> rfl

/-- An interval around a label is not behind a ray that comes later. -/
@[simp]
theorem labels_back_around (name : String) (reach : Reach) (l : List Interval) :
    labels (back (around name reach :: l)) = labels (back l) :=
  rfl

/-- All labels are behind a ray at the head, and those behind another span are counted from behind
it. -/
@[simp]
theorem labels_back_span (lower upper : Option End) (l : List Interval) :
    labels (back (span lower upper :: l)) =
      if upper.isNone then labels l else labels (back l) := by
  cases upper <;> rfl

/-- The labels of a list are those before its first ray and those behind it. -/
theorem labels_eq_append (l : List Interval) :
    labels l = labels (front l) ++ labels (back l) := by
  unfold labels front back
  rw [← List.filter_append, List.takeWhile_append_dropWhile]

namespace Inserted

variable {lower upper : Option End} {l r : List Interval}

/-- An insertion of a span leaves the labels before the first ray. -/
theorem labels_front (h : Inserted upper lower l r) : labels (front r) = labels (front l) := by
  induction h with
  | last lower =>
    rw [labels_front_span]
    split_ifs <;> rfl
  | around name reach _ ih => rw [labels_front_around, labels_front_around, ih]
  | kept => rfl
  | placed hlt =>
    obtain ⟨f, rfl⟩ := exists_of_upperCut_lt hlt
    exact labels_front_span _ _ _
  | widened => rw [labels_front_span, labels_front_span]
  | swallowed _ _ _ ih | grown _ _ _ _ ih | passed _ _ ih => exact ih
  | replaced hupper =>
    subst hupper
    rfl

/-- After an insertion of a span there is a ray when there was one or the new span is one. -/
theorem any_isRay (h : Inserted upper lower l r) :
    r.any isRay = (upper.isNone || l.any isRay) := by
  induction h with
  | last => rfl
  | around _ _ _ ih => exact ih
  | @kept lower cl cu l _ hup =>
    cases cu with
    | none => exact (Bool.or_true _).symm
    | some f =>
      -- A span within one that ends is no ray.
      obtain ⟨e, rfl⟩ := Option.isSome_iff_exists.mp (isSome_of_upperCut_le hup)
      rfl
  | placed => rfl
  | widened hsome =>
    obtain ⟨f, rfl⟩ := Option.isSome_iff_exists.mp hsome
    rfl
  | swallowed _ _ _ ih | grown _ _ _ _ ih | passed _ _ ih => exact ih
  | replaced hupper =>
    subst hupper
    rfl

end Inserted

/-- A span without an upper end that begins below another one of the list. -/
def CutsOff (lower upper : Option End) (l : List Interval) : Prop :=
  upper = none ∧ ∃ lo, span lo none ∈ l ∧ lowerCut lower < lowerCut lo

/-- An interval that is no ray has no part in whether a list is cut off. -/
theorem cutsOff_cons_iff {lower upper : Option End} {i : Interval} (hi : i.isRay = false)
    (l : List Interval) : CutsOff lower upper (i :: l) ↔ CutsOff lower upper l := by
  refine and_congr_right fun _ => exists_congr fun lo => and_congr_left fun _ => ?_
  rw [List.mem_cons]
  refine or_iff_right ?_
  rintro rfl
  exact absurd hi nofun

/-- A ray that is not below a ray at the head, with no span behind that, does not cut the list
off. -/
theorem not_cutsOff_of_le {lower upper cl cu : Option End} {l : List Interval}
    (hs : Spaced (span cl cu :: l.filter isSemantic)) (hl : lowerCut cl ≤ lowerCut lower)
    (hu : upperCut upper ≤ upperCut cu) : ¬CutsOff lower upper (span cl cu :: l) := by
  rintro ⟨rfl, lo, hmem, hlt⟩
  obtain rfl : cu = none := upperCut_eq_top.mp (top_le_iff.mp hu)
  rcases List.mem_cons.mp hmem with heq | hmem
  · cases heq
    exact absurd hlt hl.not_gt
  · have hgap := List.rel_of_pairwise_cons hs.gaps (List.mem_filter.mpr ⟨hmem, rfl⟩)
    exact absurd hgap not_top_lt

/-- Where all rays of the list are past both, the new span cuts it off if and only if the longer one
does. -/
theorem cutsOff_iff_of_le {lower upper cl cu : Option End} {l : List Interval}
    (hs : Spaced (span cl cu :: l.filter isSemantic)) (hl : lowerCut cl ≤ lowerCut lower)
    (hlower : lowerCut lower ≤ upperCut cu) : CutsOff cl upper l ↔ CutsOff lower upper l := by
  refine and_congr_right fun _ => exists_congr fun lo => and_congr_right fun hmem => ?_
  have hgap : upperCut cu < lowerCut lo :=
    List.rel_of_pairwise_cons hs.gaps (List.mem_filter.mpr ⟨hmem, rfl⟩)
  exact iff_of_true ((hl.trans hlower).trans_lt hgap) (hlower.trans_lt hgap)

/-- An insertion of a span leaves the labels behind the first ray, unless it cuts them off. -/
theorem Inserted.labels_back {lower upper : Option End} {l r : List Interval}
    (h : Inserted upper lower l r) (hs : Spaced (l.filter isSemantic)) :
    (CutsOff lower upper l → labels (back r) = []) ∧
      (¬CutsOff lower upper l → labels (back r) = labels (back l)) := by
  induction h with
  | last lower =>
    have hnil : labels (back [span lower upper]) = [] := by
      rw [labels_back_span]
      split_ifs <;> rfl
    exact ⟨fun _ => hnil, fun _ => hnil⟩
  | around name reach _ ih =>
    rw [cutsOff_cons_iff rfl, labels_back_around, labels_back_around]
    exact ih hs
  | kept hlow hup => exact ⟨fun h => absurd h (not_cutsOff_of_le hs hlow hup), fun _ => rfl⟩
  | placed hlt =>
    obtain ⟨f, rfl⟩ := exists_of_upperCut_lt hlt
    exact ⟨fun h => absurd h.1 nofun, fun _ => labels_back_span _ _ _⟩
  | widened hsome =>
    obtain ⟨f, rfl⟩ := Option.isSome_iff_exists.mp hsome
    refine ⟨fun h => absurd h.1 nofun, fun _ => ?_⟩
    rw [labels_back_span, labels_back_span]
  | swallowed _ _ _ ih =>
    rw [cutsOff_cons_iff rfl]
    exact ih hs.tail
  | @grown lower cl f l r hlow hr _ _ ih =>
    -- The lower end is another one now, but a ray behind the head starts past both.
    have hiff : CutsOff cl upper l ↔ CutsOff lower upper l := cutsOff_iff_of_le hs hlow hr
    rw [cutsOff_cons_iff rfl, ← hiff]
    exact ih hs.tail
  | passed _ _ ih =>
    rw [cutsOff_cons_iff rfl]
    exact ih hs.tail
  | @replaced lower cl l hupper hlt =>
    -- This is the one step that drops what is behind the head.
    subst hupper
    exact ⟨fun _ => rfl, fun h => absurd ⟨rfl, cl, List.mem_cons_self, hlt⟩ h⟩

end Semrange.Interval
