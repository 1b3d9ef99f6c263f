import Mathlib.Data.List.Forall2
import Semrange.Proofs.Interval.Union

/-!
# One list for each extent

A spaced list is determined by its extent: two spaced lists that extend over the same cuts start and
stop at the same cuts, member by member (`cuts_eq_of_extentOf_eq`). This is an argument about ends
and not about versions. There may be no version at all between two ends, as between `1-` and `1-0`,
but there always is the cut at the lower one of them.

Ends that cut at the same place are alike: their versions compare equal, and both or neither belong
to the interval (`lowerCut_eq_iff`, `upperCut_eq_iff`). So the union of proper spans does not depend
on their order, except for which of two alike ends it keeps.
-/

namespace Semrange

/-! ## Alike ends -/

/-- Two ends are alike when their versions compare equal and both or neither belong to the
interval. -/
def End.Alike (e f : End) : Prop :=
  e.version.compare f.version = .eq ∧ e.inclusive = f.inclusive

/-- Two ends, either of which may be missing, are alike when both are missing or both are there and
are alike. -/
def End.AlikeOrNone : Option End → Option End → Prop
  | none, none => True
  | some e, some f => e.Alike f
  | _, _ => False

/-- Two intervals are alike when their ends are, or when they are the same around one label. -/
def Interval.Alike : Interval → Interval → Prop
  | .span a b, .span c d => End.AlikeOrNone a c ∧ End.AlikeOrNone b d
  | .around s r, .around t q => s = t ∧ r = q
  | _, _ => False

section

variable {e f : Option End} (he : End.ConcreteOrNone e) (hf : End.ConcreteOrNone f)
include he hf

/-- Two lower ends cut at the same place when they are alike. -/
theorem lowerCut_eq_iff : lowerCut e = lowerCut f ↔ End.AlikeOrNone e f := by
  rw [← (compares_compareLower he hf).eq_eq]
  cases e with
  | none =>
    cases f with
    | none => exact iff_of_true rfl trivial
    | some f => exact iff_of_false nofun id
  | some e =>
    cases f with
    | none => exact iff_of_false nofun id
    | some f =>
      refine Ordering.then_eq_eq.trans (and_congr_right fun _ => ?_)
      rw [compare_eq_iff_eq]
      exact eq_comm

/-- Two upper ends cut at the same place when they are alike. -/
theorem upperCut_eq_iff : upperCut e = upperCut f ↔ End.AlikeOrNone e f := by
  rw [← (compares_compareUpper he hf).eq_eq]
  cases e with
  | none =>
    cases f with
    | none => exact iff_of_true rfl trivial
    | some f => exact iff_of_false nofun id
  | some e =>
    cases f with
    | none => exact iff_of_false nofun id
    | some f =>
      refine Ordering.then_eq_eq.trans (and_congr_right fun _ => ?_)
      exact compare_eq_iff_eq

end

namespace Interval

/-- Two spans are alike when they start and stop at the same cuts. -/
theorem alike_iff {i j : Interval} (hi : i.isSemantic = true ∧ i.Concrete)
    (hj : j.isSemantic = true ∧ j.Concrete) :
    i.Alike j ↔ i.start = j.start ∧ i.stop = j.stop := by
  obtain ⟨hsi, hci⟩ := hi
  obtain ⟨hsj, hcj⟩ := hj
  cases i with
  | around name reach => exact absurd hsi nofun
  | span al au =>
    cases j with
    | around name reach => exact absurd hsj nofun
    | span bl bu =>
      exact (and_congr (lowerCut_eq_iff hci.1 hcj.1) (upperCut_eq_iff hci.2 hcj.2)).symm

/-! ## Spaced lists -/

section

variable {i j : Interval} {l m : List Interval}

/-- Nothing of a spaced list lies below the start of its head. -/
theorem Spaced.start_le (h : Spaced (i :: l)) {x : Cut} (hx : x ∈ extentOf (i :: l)) :
    i.start ≤ x := by
  obtain ⟨k, hk, hstart, -⟩ := hx
  rcases List.mem_cons.mp hk with rfl | hk
  · exact hstart
  · calc i.start ≤ i.stop := (h.room i List.mem_cons_self).le
      _ ≤ k.start := (List.rel_of_pairwise_cons h.gaps hk).le
      _ ≤ x := hstart

/-- The cut at which the head of a spaced list stops is in no member. -/
theorem Spaced.stop_notMem (h : Spaced (i :: l)) : i.stop ∉ extentOf (i :: l) := by
  rintro ⟨k, hk, hstart, hstop⟩
  rcases List.mem_cons.mp hk with rfl | hk
  · exact lt_irrefl _ hstop
  · exact absurd hstart (List.rel_of_pairwise_cons h.gaps hk).not_ge

/-- What a spaced list extends over from the stop of its head on is what its tail extends over. -/
theorem Spaced.mem_extentOf_tail_iff (h : Spaced (i :: l)) {x : Cut} :
    x ∈ extentOf l ↔ x ∈ extentOf (i :: l) ∧ i.stop ≤ x := by
  rw [extentOf_cons]
  constructor
  · -- The tail starts behind the stop of the head, and the head ends there.
    rintro ⟨k, hk, hx⟩
    exact ⟨Or.inr ⟨k, hk, hx⟩, (List.rel_of_pairwise_cons h.gaps hk).le.trans hx.1⟩
  · rintro ⟨hx | hx, hle⟩
    · exact absurd hx.2 hle.not_gt
    · exact hx

/-- Of two spaced lists with one extent, the first one starts no later. -/
theorem start_le_start (hl : Spaced (i :: l)) (hm : Spaced (j :: m))
    (h : extentOf (i :: l) = extentOf (j :: m)) : i.start ≤ j.start := by
  refine hl.start_le ?_
  rw [h]
  exact ⟨j, List.mem_cons_self, le_rfl, hm.room j List.mem_cons_self⟩

/-- Of the heads of two spaced lists with one extent, the first one stops no later. -/
theorem stop_le_stop (hl : Spaced (i :: l)) (hm : Spaced (j :: m))
    (h : extentOf (i :: l) = extentOf (j :: m)) : i.stop ≤ j.stop := by
  -- Otherwise the cut at which the other one stops would be within this one.
  by_contra hlt
  have hstart : i.start ≤ j.stop :=
    (start_le_start hl hm h).trans (hm.room j List.mem_cons_self).le
  refine hm.stop_notMem ?_
  rw [← h]
  exact ⟨i, List.mem_cons_self, hstart, not_le.mp hlt⟩

/-- A spaced list without an extent is empty. -/
theorem eq_nil_of_extentOf_eq (hl : Spaced l) (h : extentOf l = ∅) : l = [] := by
  refine List.eq_nil_iff_forall_not_mem.mpr fun k hk => ?_
  exact Set.eq_empty_iff_forall_notMem.mp h k.start ⟨k, hk, le_rfl, hl.room k hk⟩

/-- Spaced lists with one extent start and stop at the same cuts, member by member. -/
theorem cuts_eq_of_extentOf_eq (hl : Spaced l) (hm : Spaced m) (h : extentOf l = extentOf m) :
    List.Forall₂ (fun i j => i.start = j.start ∧ i.stop = j.stop) l m := by
  induction l generalizing m with
  | nil =>
    rw [eq_nil_of_extentOf_eq hm (h.symm.trans extentOf_nil)]
    exact List.Forall₂.nil
  | cons i l ih =>
    cases m with
    | nil => exact absurd (eq_nil_of_extentOf_eq hl (h.trans extentOf_nil)) (List.cons_ne_nil i l)
    | cons j m =>
      -- The heads start at the first cut that is there and stop at the next one that is missing.
      have hstart : i.start = j.start :=
        le_antisymm (start_le_start hl hm h) (start_le_start hm hl h.symm)
      have hstop : i.stop = j.stop :=
        le_antisymm (stop_le_stop hl hm h) (stop_le_stop hm hl h.symm)
      -- Past that stop only the tails are left.
      have htail : extentOf l = extentOf m := by
        ext x
        rw [hl.mem_extentOf_tail_iff, hm.mem_extentOf_tail_iff, h, hstop]
      exact List.Forall₂.cons ⟨hstart, hstop⟩ (ih hl.tail hm.tail htail)

/-- Spaced lists of spans with one extent are alike, member by member. -/
theorem alike_of_extentOf_eq (hl : ∀ i ∈ l, i.isSemantic = true ∧ i.Concrete)
    (hm : ∀ j ∈ m, j.isSemantic = true ∧ j.Concrete) (hls : Spaced l) (hms : Spaced m)
    (h : extentOf l = extentOf m) : List.Forall₂ Alike l m := by
  have hcuts := cuts_eq_of_extentOf_eq hls hms h
  rw [List.forall₂_iff_zip] at hcuts ⊢
  refine ⟨hcuts.1, fun {i j} hij => ?_⟩
  obtain ⟨hi, hj⟩ := List.of_mem_zip hij
  exact (alike_iff (hl i hi) (hm j hj)).mpr (hcuts.2 hij)

end

/-! ## Orders of a union -/

/-- The order of intervals has no part in their extent. -/
theorem extentOf_perm {l m : List Interval} (h : l.Perm m) : extentOf l = extentOf m := by
  ext x
  exact exists_congr fun i => and_congr_left fun _ => h.mem_iff

/-- Unions of spans with room are alike, member by member, in whatever order the spans are added. -/
theorem alike_unionAll_of_perm {l m : List Interval}
    (hl : ∀ i ∈ l, i.isSemantic = true ∧ i.Concrete) (hroom : ∀ i ∈ l, i.start < i.stop)
    (h : l.Perm m) : List.Forall₂ Alike (unionAll l) (unionAll m) := by
  have hm : ∀ i ∈ m, i.isSemantic = true ∧ i.Concrete := fun i hi => hl i (h.mem_iff.mpr hi)
  have hext : extentOf (unionAll l) = extentOf (unionAll m) :=
    calc extentOf (unionAll l) = extentOf l := extentOf_unionAll hl
      _ = extentOf m := extentOf_perm h
      _ = extentOf (unionAll m) := (extentOf_unionAll hm).symm
  exact alike_of_extentOf_eq (spanList_unionAll hl).concrete (spanList_unionAll hm).concrete
    (spaced_unionAll hl hroom) (spaced_unionAll hm fun i hi => hroom i (h.mem_iff.mpr hi)) hext

/-- Unions of proper spans do not depend on the order in which the spans are added: they have one
length and are alike, member by member, so the same ends are there, both or neither holding their
versions, and these compare equal. -/
theorem union_independent_of_order {l m : List Interval}
    (hl : ∀ i ∈ l, i.isSemantic = true ∧ i.Concrete) (hproper : ∀ i ∈ l, i.Proper)
    (h : l.Perm m) :
    (unionAll l).length = (unionAll m).length ∧
      List.Forall₂ Alike (unionAll l) (unionAll m) := by
  have hroom : ∀ i ∈ l, i.start < i.stop := fun i hi => (proper_iff (hl i hi)).mp (hproper i hi)
  have halike := alike_unionAll_of_perm hl hroom h
  exact ⟨halike.length_eq, halike⟩

/-- Two spans with the same ends, written in two ways, and one that is kept apart from them by its
end alone, since no version lies between `1-` and `1-0`. The order decides which of the two stays. -/
theorem union_independent_of_order_gap :
    let u : Semantic := ⟨1, [], false, some "", none⟩
    let v : Semantic := ⟨1, [], false, some "0", none⟩
    let v' : Semantic := ⟨1, [0], false, some "0", some "x"⟩
    let w : Semantic := ⟨2, [], false, none, none⟩
    let w' : Semantic := ⟨2, [0, 0], false, none, none⟩
    let a := span (some ⟨v, true⟩) (some ⟨w, false⟩)
    let b := span (some ⟨v', true⟩) (some ⟨w', false⟩)
    let c := span none (some ⟨u, true⟩)
    (∀ i ∈ [a, b, c], i.isSemantic = true ∧ i.Concrete) ∧ (∀ i ∈ [a, b, c], i.Proper) ∧
      [a, b, c].Perm [c, b, a] ∧ unionAll [a, b, c] = [c, a] ∧ unionAll [c, b, a] = [c, b] ∧
      List.Forall₂ Alike (unionAll [a, b, c]) (unionAll [c, b, a]) := by
  intro u v v' w w' a b c
  have hl : ∀ i ∈ [a, b, c], i.isSemantic = true ∧ i.Concrete := by
    simp [a, b, c, u, v, v', w, w', isSemantic, Concrete, End.ConcreteOrNone]
  have hproper : ∀ i ∈ [a, b, c], i.Proper := List.forall_mem_cons.mpr
    ⟨Or.inl (by decide), List.forall_mem_cons.mpr
      ⟨Or.inl (by decide), List.forall_mem_singleton.mpr trivial⟩⟩
  have hperm : [a, b, c].Perm [c, b, a] := (List.reverse_perm [a, b, c]).symm
  have halike := (union_independent_of_order hl hproper hperm).2
  exact ⟨hl, hproper, hperm, by decide, by decide, halike⟩

end Interval

end Semrange
