import Semrange.Proofs.Interval.Exclusion
import Semrange.Proofs.Interval.Uniqueness

/-!
# Laws of complements

Each of these laws says what a list of intervals is, and not only what it contains. Where lists are
spaced, what they extend over decides that (`cuts_eq_of_extentOf_eq`): a spaced list that extends over
everything is the interval of all versions alone, and one that extends over nothing is empty.

A canonical list is the complement of its complement, down to how its versions are written. The two
extend over the same cuts, and the double complement has no ends but those of the list, flipped twice
(`inherited_endsOf`). No two ends of a spaced list cut at one place, so which end stands where is
settled by its cut (`eq_of_endsOf`).
-/

namespace Semrange.Interval

/-! ## Lists that extend over everything -/

/-- A spaced list of spans that extends over everything is the interval of all versions alone. -/
theorem eq_all_of_extentOf_eq {l : List Interval} (hl : ∀ i ∈ l, i.isSemantic = true)
    (hs : Spaced l) (h : extentOf l = all.extent) : l = [all] := by
  have hcuts := cuts_eq_of_extentOf_eq hs spaced_all (h.trans (extentOf_singleton all).symm)
  obtain ⟨i, m, hends, htail, rfl⟩ := List.forall₂_cons_right_iff.mp hcuts
  obtain rfl := List.forall₂_nil_right_iff.mp htail
  -- One span remains, and its cuts are the outermost ones.
  cases i with
  | around name reach => exact absurd (hl _ (List.mem_singleton_self _)) nofun
  | span lower upper =>
    obtain rfl : lower = none := lowerCut_eq_bot.mp hends.1
    obtain rfl : upper = none := upperCut_eq_top.mp hends.2
    rfl

/-- A union of spans with room that extend over everything is the interval of all versions. -/
theorem unionAll_eq_all {l : List Interval}
    (hl : ∀ i ∈ l, (i.isSemantic = true ∧ i.Concrete) ∧ i.start < i.stop)
    (h : extentOf l = all.extent) : unionAll l = [all] := by
  have hspans : ∀ i ∈ l, i.isSemantic = true ∧ i.Concrete := fun i hi => (hl i hi).1
  refine eq_all_of_extentOf_eq (fun i hi => ((spanList_unionAll hspans).concrete i hi).1)
    (spaced_unionAll hspans fun i hi => (hl i hi).2) ?_
  rw [extentOf_unionAll hspans, h]

/-! ## What the complement of several spans is -/

section

variable {l : List Interval} (hl : ∀ i ∈ l, i.isSemantic = true ∧ i.Concrete)
  (hroom : ∀ i ∈ l, i.start < i.stop)
include hl hroom

/-- The complement of a list of spans with room is spaced. -/
theorem spaced_complementAll_map : Spaced (complementAll (l.map some)) := by
  have hspans : ∀ i ∈ (l.map some).reduceOption, i.isSemantic = true ∧ i.Concrete := by
    rwa [reduceOption_map_some]
  exact spaced_complementAll hspans (by rwa [reduceOption_map_some])

/-- Spans with room and their complement make up everything. -/
theorem unionAll_append_complementAll : unionAll (l ++ complementAll (l.map some)) = [all] := by
  obtain ⟨hspans, hext⟩ := extentOf_complementAll_map hl
  have hspaced := spaced_complementAll_map hl hroom
  refine unionAll_eq_all (List.forall_mem_append.mpr
    ⟨fun i hi => ⟨hl i hi, hroom i hi⟩, fun j hj => ⟨hspans j hj, hspaced.room j hj⟩⟩) ?_
  rw [extentOf_append, hext]
  exact Set.union_sdiff_cancel (extentOf_subset_all l)

/-- Spans with room share nothing with their complement. -/
theorem intersectAll_complementAll : intersectAll l (complementAll (l.map some)) = [] := by
  obtain ⟨hspans, hext⟩ := extentOf_complementAll_map hl
  have hspaced := spaced_complementAll_map hl hroom
  refine eq_nil_of_extentOf_eq (spaced_intersectAll hl hspans hroom hspaced.room) ?_
  rw [extentOf_intersectAll hl hspans, hext]
  exact Set.inter_sdiff_self _ _

end

/-! ## One interval and its complement -/

section

variable {lower upper : Option End} (hi : (span lower upper).Concrete)
include hi

/-- What is left out by a span without room is everything. -/
theorem unionAll_complement_of_le (hle : upperCut upper ≤ lowerCut lower) :
    unionAll (complement (span lower upper)) = [all] := by
  refine unionAll_eq_all (pieces_complement ⟨rfl, hi⟩) ?_
  have hempty : (span lower upper).extent = ∅ := Set.Ico_eq_empty_of_le hle
  rw [extentOf_complement ⟨rfl, hi⟩, hempty, Set.sdiff_empty]

/-- A span without room is swallowed by what is left out below it. -/
theorem unionAll_cons_complement_of_le (hle : upperCut upper ≤ lowerCut lower) :
    unionAll (span lower upper :: complement (span lower upper)) = [all] := by
  have hrest := unionAll_complement_of_le hi hle
  by_cases hh : (span lower upper).isHollow = true
  · refine unionAll_of_mem (List.mem_cons_of_mem _ ?_)
    rw [complement, if_pos hh]
    exact List.mem_singleton_self all
  · -- A span that starts everywhere or stops nowhere has room, so both ends are there.
    cases lower with
    | none => exact absurd hle (bot_lt_upperCut upper).not_ge
    | some e =>
      cases upper with
      | none => exact absurd hle (lowerCut_lt_top (some e)).not_ge
      | some f =>
        have hflip : End.ConcreteOrNone (some e.flip) := End.concreteOrNone_some (hi.1 e rfl)
        -- The lower piece ends no earlier than the span.
        have hge : (compareUpper (some e.flip) (some f)).isGE = true := by
          rw [isGE_iff (compares_compareUpper hflip hi.2), upperCut_flip]
          exact hle
        have hstep : insert (span none (some e.flip)) [span (some e) (some f)] =
            [span none (some e.flip)] := by
          show (insertSpan none (some e.flip) [span (some e) (some f)]).getD [all] = _
          rw [insertSpan, if_pos hge]
          rfl
        -- So the union is that of the pieces alone.
        have hpieces : complement (span (some e) (some f)) =
            [span none (some e.flip), span (some f.flip) none] := if_neg hh
        rw [hpieces] at hrest ⊢
        show insert (span (some f.flip) none)
          (insert (span none (some e.flip)) [span (some e) (some f)]) = [all]
        rw [hstep]
        exact hrest

end

/-- Everything about a label is covered by an interval around it and what that leaves out, in either
order. -/
theorem unionAll_complement_around (name : String) (reach : Reach) :
    unionAll (around name reach :: complement (around name reach)) = [all] ∧
      unionAll (complement (around name reach) ++ [around name reach]) = [all] := by
  -- Once the flags are known, both unions evaluate, since only one label is involved.
  rcases reach with (_ | _) | (_ | _) | ⟨_ | _, _ | _⟩ <;>
    simp [unionAll, complement, isHollow, insert, insertAround, reachAround?, Reach.lower?,
      Reach.upper?, Reach.coverage, Coverage.or, Coverage.isFull, Coverage.reaches, all]

/-- An interval and its complement make up everything, in either order and also where the interval
has no room. -/
theorem unionAll_complement {i : Interval} (hi : i.Concrete) :
    unionAll (i :: complement i) = [all] ∧ unionAll (complement i ++ [i]) = [all] := by
  cases i with
  | around name reach => exact unionAll_complement_around name reach
  | span lower upper =>
    have hspan : ∀ j ∈ [span lower upper], j.isSemantic = true ∧ j.Concrete :=
      List.forall_mem_singleton.mpr ⟨rfl, hi⟩
    -- With room both unions extend over everything; without it the pieces alone do.
    rcases lt_or_ge (lowerCut lower) (upperCut upper) with hroom | hle
    · have hrooms : ∀ j ∈ [span lower upper], j.start < j.stop :=
        List.forall_mem_singleton.mpr hroom
      have hpieces := pieces_complement (i := span lower upper) ⟨rfl, hi⟩
      refine ⟨unionAll_append_complementAll hspan hrooms, unionAll_eq_all
        (List.forall_mem_append.mpr ⟨hpieces, List.forall_mem_singleton.mpr ⟨⟨rfl, hi⟩, hroom⟩⟩) ?_⟩
      rw [extentOf_append, extentOf_complement ⟨rfl, hi⟩, extentOf_singleton]
      exact Set.sdiff_union_of_subset (extent_subset_all _)
    · refine ⟨unionAll_cons_complement_of_le hi hle, ?_⟩
      rw [unionAll_append_singleton, unionAll_complement_of_le hi hle, insert_all]

/-- Excluded middle and non-contradiction: proper spans, in any order and overlapping or not, make up
everything together with their complement, and share nothing with it; and so does any interval make
up everything together with its complement, in either order, also one around a label and one that is
empty. What comes out is the interval of all versions alone, or the empty list. -/
theorem excluded_middle_and_noncontradiction :
    (∀ l : List Interval, (∀ i ∈ l, i.isSemantic = true ∧ i.Concrete) → (∀ i ∈ l, i.Proper) →
      unionAll (l ++ complementAll (l.map some)) = [all] ∧
        intersectAll l (complementAll (l.map some)) = []) ∧
      ∀ i : Interval, i.Concrete →
        unionAll ([i] ++ complement i) = [all] ∧ union (complement i) i = [all] := by
  refine ⟨fun l hl hproper => ?_, fun i hi => unionAll_complement hi⟩
  have hroom : ∀ i ∈ l, i.start < i.stop := fun i hi => (proper_iff (hl i hi)).mp (hproper i hi)
  exact ⟨unionAll_append_complementAll hl hroom, intersectAll_complementAll hl hroom⟩

/-- Two spans that overlap, out of order, a span that is empty between two ways to write its version,
and a label with one of its ends. -/
theorem excluded_middle_and_noncontradiction_seams :
    let v (n : ℕ) : Semantic := ⟨n, [], false, none, none⟩
    let v' : Semantic := ⟨1, [0], false, none, some "x"⟩
    let l := [span (some ⟨v 2, true⟩) none, span (some ⟨v 1, false⟩) (some ⟨v 3, true⟩)]
    let i := span (some ⟨v 1, false⟩) (some ⟨v', false⟩)
    let j := around "foo" (.within true false)
    (∀ k ∈ l, k.isSemantic = true ∧ k.Concrete) ∧ (∀ k ∈ l, k.Proper) ∧
      unionAll (l ++ complementAll (l.map some)) = [all] ∧
      intersectAll l (complementAll (l.map some)) = [] ∧
      i.Concrete ∧ complement i = [span none (some ⟨v 1, true⟩), span (some ⟨v', true⟩) none] ∧
      unionAll ([i] ++ complement i) = [all] ∧ union (complement i) i = [all] ∧
      j.Concrete ∧ unionAll ([j] ++ complement j) = [all] ∧ union (complement j) j = [all] := by
  intro v v' l i j
  have hl : ∀ k ∈ l, k.isSemantic = true ∧ k.Concrete := by
    simp [l, v, isSemantic, Concrete, End.ConcreteOrNone]
  have hproper : ∀ k ∈ l, k.Proper :=
    List.forall_mem_cons.mpr ⟨trivial, List.forall_mem_singleton.mpr (Or.inl (by decide))⟩
  have hi : i.Concrete := by simp [i, v, v', Concrete, End.ConcreteOrNone]
  obtain ⟨hlists, hone⟩ := excluded_middle_and_noncontradiction
  obtain ⟨hall, hnone⟩ := hlists l hl hproper
  exact ⟨hl, hproper, hall, hnone, hi, by decide, (hone i hi).1, (hone i hi).2, trivial,
    (hone j trivial).1, (hone j trivial).2⟩

/-! ## The ends of a spaced list -/

/-- The lower end of a span, if it has one. -/
def lowerEnd? : Interval → Option End
  | .span lower _ => lower
  | .around _ _ => none

/-- The upper end of a span, if it has one. -/
def upperEnd? : Interval → Option End
  | .span _ upper => upper
  | .around _ _ => none

/-- An end is missing or is the lower end of one of the intervals. -/
def LowerOf (l : List Interval) (e : Option End) : Prop :=
  e = none ∨ ∃ i ∈ l, i.lowerEnd? = e

/-- An end is missing or is the upper end of one of the intervals. -/
def UpperOf (l : List Interval) (e : Option End) : Prop :=
  e = none ∨ ∃ i ∈ l, i.upperEnd? = e

/-- A span has no ends but those of the given intervals. -/
def EndsOf (l : List Interval) : Interval → Prop
  | .span lower upper => LowerOf l lower ∧ UpperOf l upper
  | .around _ _ => True

/-- A span has no ends but those of the given intervals on the other side, flipped. -/
def FlippedEndsOf (l : List Interval) : Interval → Prop
  | .span lower upper => UpperOf l (lower.map End.flip) ∧ LowerOf l (upper.map End.flip)
  | .around _ _ => True

/-- No two members of a spaced list start at one cut. -/
theorem Spaced.eq_of_start_eq {l : List Interval} (h : Spaced l) {i j : Interval} (hi : i ∈ l)
    (hj : j ∈ l) (heq : i.start = j.start) : i = j := by
  have hstarts : l.Pairwise fun i j => i.start ≠ j.start :=
    h.gaps.imp_of_mem fun {i j} hi _ hij => ((h.room i hi).trans hij).ne
  exact List.inj_on_of_nodup_map (List.pairwise_map.mpr hstarts) hi hj heq

/-- No two members of a spaced list stop at one cut. -/
theorem Spaced.eq_of_stop_eq {l : List Interval} (h : Spaced l) {i j : Interval} (hi : i ∈ l)
    (hj : j ∈ l) (heq : i.stop = j.stop) : i = j := by
  have hstops : l.Pairwise fun i j => i.stop ≠ j.stop :=
    h.gaps.imp_of_mem fun {i j} _ hj hij => (hij.trans (h.room j hj)).ne
  exact List.inj_on_of_nodup_map (List.pairwise_map.mpr hstops) hi hj heq

/-- Spans have the ends of the list that they are in. -/
theorem endsOf_self (l : List Interval) : ∀ i ∈ l, i.EndsOf l := by
  intro i hi
  cases i with
  | span lower upper => exact ⟨Or.inr ⟨_, hi, rfl⟩, Or.inr ⟨_, hi, rfl⟩⟩
  | around name reach => exact trivial

/-- The complement of what has the ends of a list has these ends flipped. -/
theorem flippedEndsOf_of_mem_complement {l : List Interval} {i : Interval} (h : i.EndsOf l) :
    ∀ j ∈ complement i, j.FlippedEndsOf l := by
  have hflip : ∀ e : End, (some e.flip).map End.flip = some e :=
    fun e => congrArg some e.flip_flip
  intro j hj
  -- A piece is everything, lies below a lower end or above an upper end, or is around a label.
  rcases complement_cases hj with rfl | ⟨e, upper, rfl, rfl⟩ | ⟨lower, f, rfl, rfl⟩ |
    ⟨name, r, q, rfl, rfl⟩
  · exact ⟨Or.inl rfl, Or.inl rfl⟩
  · exact ⟨Or.inl rfl, (hflip e).symm ▸ h.1⟩
  · exact ⟨(hflip f).symm ▸ h.2, Or.inl rfl⟩
  · exact trivial

/-- The complement of what has the flipped ends of a list has the ends of that list. -/
theorem endsOf_of_mem_complement {l : List Interval} {i : Interval} (h : i.FlippedEndsOf l) :
    ∀ j ∈ complement i, j.EndsOf l := by
  intro j hj
  rcases complement_cases hj with rfl | ⟨e, upper, rfl, rfl⟩ | ⟨lower, f, rfl, rfl⟩ |
    ⟨name, r, q, rfl, rfl⟩
  · exact ⟨Or.inl rfl, Or.inl rfl⟩
  · exact ⟨Or.inl rfl, h.1⟩
  · exact ⟨h.2, Or.inl rfl⟩
  · exact trivial

section

variable {l : List Interval} (hl : ∀ i ∈ l, i.isSemantic = true ∧ i.Concrete)
include hl

/-- A lower end of a list of spans without wildcards is not at a wildcard. -/
theorem LowerOf.concrete {e : Option End} (h : LowerOf l e) : End.ConcreteOrNone e := by
  rcases h with rfl | ⟨i, hi, rfl⟩
  · exact End.concreteOrNone_none
  · cases i with
    | span lower upper => exact (hl _ hi).2.1
    | around name reach => exact End.concreteOrNone_none

/-- An upper end of a list of spans without wildcards is not at a wildcard. -/
theorem UpperOf.concrete {e : Option End} (h : UpperOf l e) : End.ConcreteOrNone e := by
  rcases h with rfl | ⟨i, hi, rfl⟩
  · exact End.concreteOrNone_none
  · cases i with
    | span lower upper => exact (hl _ hi).2.2
    | around name reach => exact End.concreteOrNone_none

/-- To have the ends of a list of spans is inherited. -/
theorem inherited_endsOf : Inherited (EndsOf l) where
  concrete := by
    rintro (⟨lower, upper⟩ | ⟨name, reach⟩) h
    · exact ⟨h.1.concrete hl, h.2.concrete hl⟩
    · exact trivial
  all := ⟨Or.inl rfl, Or.inl rfl⟩
  around _ _ := trivial
  span ha hb _ := ⟨ha.1, hb.2⟩

/-- To have the flipped ends of a list of spans is inherited. -/
theorem inherited_flippedEndsOf : Inherited (FlippedEndsOf l) where
  concrete := by
    rintro (⟨lower, upper⟩ | ⟨name, reach⟩) h
    · exact ⟨End.concreteOrNone_of_flip (h.1.concrete hl),
        End.concreteOrNone_of_flip (h.2.concrete hl)⟩
    · exact trivial
  all := ⟨Or.inl rfl, Or.inl rfl⟩
  around _ _ := trivial
  span ha hb _ := ⟨ha.1, hb.2⟩

variable (hs : Spaced l)
include hs

/-- An end of a spaced list of spans is the lower end of the member that starts at its cut. -/
theorem lowerEnd_eq_of_cut_eq {e lower upper : Option End} (he : LowerOf l e)
    (hi : span lower upper ∈ l) (hcut : lowerCut e = lowerCut lower) : e = lower := by
  rcases he with rfl | ⟨j, hj, rfl⟩
  · exact (lowerCut_eq_bot.mp hcut.symm).symm
  · cases j with
    | around name reach => exact absurd (hl _ hj).1 nofun
    | span bl bu => exact (span.inj (hs.eq_of_start_eq hj hi hcut)).1

/-- An end of a spaced list of spans is the upper end of the member that stops at its cut. -/
theorem upperEnd_eq_of_cut_eq {e lower upper : Option End} (he : UpperOf l e)
    (hi : span lower upper ∈ l) (hcut : upperCut e = upperCut upper) : e = upper := by
  rcases he with rfl | ⟨j, hj, rfl⟩
  · exact (upperCut_eq_top.mp hcut.symm).symm
  · cases j with
    | around name reach => exact absurd (hl _ hj).1 nofun
    | span bl bu => exact (span.inj (hs.eq_of_stop_eq hj hi hcut)).2

/-- A spaced list of spans with the extent of another one and with no ends but those of the other one
is that list. -/
theorem eq_of_endsOf {m : List Interval} (hm : ∀ j ∈ m, j.isSemantic = true) (hms : Spaced m)
    (hext : extentOf m = extentOf l)
    (hends : ∀ j ∈ m, j.EndsOf l) : m = l := by
  have hcuts := cuts_eq_of_extentOf_eq hms hs hext
  rw [← List.forall₂_eq_eq_eq]
  rw [List.forall₂_iff_zip] at hcuts ⊢
  refine ⟨hcuts.1, fun {j i} hji => ?_⟩
  -- Member by member the cuts are the same, so the ends are.
  obtain ⟨hj, hi⟩ := List.of_mem_zip hji
  obtain ⟨hstart, hstop⟩ := hcuts.2 hji
  have hbounds := hends j hj
  cases j with
  | around name reach => exact absurd (hm _ hj) nofun
  | span al au =>
    cases i with
    | around name reach => exact absurd (hl _ hi).1 nofun
    | span bl bu =>
      rw [lowerEnd_eq_of_cut_eq hl hs hbounds.1 hi hstart,
        upperEnd_eq_of_cut_eq hl hs hbounds.2 hi hstop]

/-! ## Double complements -/

/-- A spaced list of spans is the complement of its complement. -/
theorem complementAll_complementAll :
    complementAll ((complementAll (l.map some)).map some) = l := by
  obtain ⟨hspans, hext⟩ := extentOf_complementAll_map hl
  obtain ⟨hspans', hext'⟩ := extentOf_complementAll_map hspans
  have hspaced := spaced_complementAll_map hl hs.room
  have hspaced' := spaced_complementAll_map hspans hspaced.room
  -- The ends are flipped by each of the two complements.
  have hinner : ∀ i ∈ complementAll (l.map some), i.FlippedEndsOf l :=
    (inherited_flippedEndsOf hl).complementAll fun i hi =>
      flippedEndsOf_of_mem_complement
        (endsOf_self l i ((List.mem_map_of_injective (Option.some_injective _)).mp hi))
  have houter : ∀ i ∈ complementAll ((complementAll (l.map some)).map some), i.EndsOf l :=
    (inherited_endsOf hl).complementAll fun i hi =>
      endsOf_of_mem_complement
        (hinner i ((List.mem_map_of_injective (Option.some_injective _)).mp hi))
  refine eq_of_endsOf hl hs (fun j hj => (hspans' j hj).1) hspaced' ?_ houter
  rw [hext', hext]
  exact Set.sdiff_sdiff_cancel_left (extentOf_subset_all l)

end

/-- No proper interval is hollow. -/
theorem isHollow_eq_false {i : Interval} (h : i.Proper) : i.isHollow = false := by
  cases i with
  | span lower upper =>
    cases lower with
    | none => rfl
    | some e =>
      cases upper with
      | none => rfl
      | some f =>
        -- The versions of a hollow interval compare equal, and both of its ends leave them out.
        refine Bool.eq_false_iff.mpr fun hh => ?_
        have hflags :
            (decide (e.version.Same f.version) && !e.inclusive && !f.inclusive) = true := hh
        rw [Bool.and_eq_true, Bool.and_eq_true, decide_eq_true_iff] at hflags
        obtain ⟨⟨hsame, he⟩, -⟩ := hflags
        rcases h with hlt | ⟨-, hinclusive, -⟩
        · exact absurd (hlt.symm.trans (Semantic.compare_eq_of_same hsame)) nofun
        · rw [hinclusive] at he
          exact absurd he nofun
  | around name reach =>
    cases reach with
    | below p => rfl
    | above p => rfl
    | within p q =>
      obtain ⟨rfl, rfl⟩ : p = true ∧ q = true := h
      rfl

/-- Between the ends of a proper span there is room. -/
theorem leavesRoom_of_proper {e f : End} (h : (span (some e) (some f)).Proper) :
    leavesRoom (some e) (some f) = true := by
  unfold leavesRoom
  rcases h with hlt | ⟨heq, he, hf⟩
  · simp only [hlt]
  · simp only [heq, he, hf, Bool.and_self]

/-- The complement of what a proper interval around a label leaves out is that interval. -/
theorem complementAll_complement_around {name : String} {reach : Reach}
    (h : (around name reach).Proper) :
    complementAll ((complement (around name reach)).map some) = [around name reach] := by
  cases reach with
  | below inclusive =>
    show [around name (.below !!inclusive)] = _
    rw [Bool.not_not]
  | above inclusive =>
    show [around name (.above !!inclusive)] = _
    rw [Bool.not_not]
  | within p q =>
    obtain ⟨rfl, rfl⟩ : p = true ∧ q = true := h
    -- Outside of the point are the half-lines; what they leave out meets in the label.
    show unionAll ([(around name (.above true)).intersect (around name (.below true))].filterMap id
      ++ []) = _
    rw [intersect, if_pos rfl]
    rfl

/-- A proper interval is what the complement of its complement consists of, with wildcards or not. -/
theorem complementAll_complement {i : Interval} (h : i.Proper) :
    complementAll ((complement i).map some) = [i] := by
  have hpieces := isHollow_eq_false h
  cases i with
  | span lower upper =>
    cases lower with
    | none =>
      cases upper with
      | none => rfl
      | some f =>
        show [span none (some f.flip.flip)] = _
        rw [End.flip_flip]
    | some e =>
      cases upper with
      | none =>
        show [span (some e.flip.flip) none] = _
        rw [End.flip_flip]
      | some f =>
        -- Two pieces are left out, and between what they leave out in turn there is room.
        have hshared : (span (some e) none).intersect (span none (some f)) =
            some (span (some e) (some f)) :=
          if_pos (leavesRoom_of_proper h)
        have hcomplement : complement (span (some e) (some f)) =
            [span none (some e.flip), span (some f.flip) none] :=
          if_neg (Bool.eq_false_iff.mp hpieces)
        rw [hcomplement]
        show intersectAll [span (some e.flip.flip) none] [span none (some f.flip.flip)] = _
        rw [End.flip_flip, End.flip_flip]
        show unionAll ([(span (some e) none).intersect (span none (some f))].filterMap id ++ []) = _
        rw [hshared]
        rfl
  | around name reach => exact complementAll_complement_around h

/-- Double complements change nothing: a canonical list of spans is the complement of its complement,
and a proper interval, also one around a label, is all that the complement of its complement holds.
The versions at the ends come back as they are written. -/
theorem double_complement :
    (∀ l : List Interval, (∀ i ∈ l, i.isSemantic = true ∧ i.Concrete) → Canonical l →
      complementAll ((complementAll (l.map some)).map some) = l) ∧
      ∀ i : Interval, i.Proper → complementAll ((complement i).map some) = [i] :=
  ⟨fun _ hl h => complementAll_complementAll hl ((canonical_iff_spaced hl).mp h),
    fun _ h => complementAll_complement h⟩

/-- Two half-lines and a span between them that leave out one version and the versions around it, all
at versions with prereleases and builds, then the point at a label. -/
theorem double_complement_builds :
    let v (n : ℕ) : Semantic := ⟨n, [], false, some "rc.1", some "x"⟩
    let l := [span none (some ⟨v 1, false⟩), span (some ⟨v 1, false⟩) (some ⟨v 2, true⟩),
      span (some ⟨v 3, true⟩) none]
    let i := around "foo" (.within true true)
    (∀ k ∈ l, k.isSemantic = true ∧ k.Concrete) ∧ Canonical l ∧
      complementAll (l.map some) = [span (some ⟨v 1, true⟩) (some ⟨v 1, true⟩),
        span (some ⟨v 2, false⟩) (some ⟨v 3, false⟩)] ∧
      complementAll ((complementAll (l.map some)).map some) = l ∧
      i.Proper ∧ complementAll ((complement i).map some) = [i] := by
  intro v l i
  have hl : ∀ k ∈ l, k.isSemantic = true ∧ k.Concrete := by
    simp [l, v, isSemantic, Concrete, End.ConcreteOrNone]
  have hcanonical : Canonical l := by decide
  have hproper : i.Proper := by decide
  obtain ⟨hlists, hone⟩ := double_complement
  exact ⟨hl, hcanonical, by decide, hlists l hl hcanonical, hproper, hone i hproper⟩

end Semrange.Interval
