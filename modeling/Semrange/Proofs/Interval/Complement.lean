import Mathlib.Data.List.ReduceOption
import Semrange.Interval.Complement
import Semrange.Proofs.Interval.Intersection

/-!
# Complements are exact and canonical

The complement of a span extends over the cuts below its lower cut and over those from its upper cut
on, so over all cuts that the span does not extend over (`extentOf_complement`), and its pieces have
room even where the span has none. A complement of several intervals narrows the complement of the
first one by those of the others, which takes the extent of each away (`extentOf_narrowed`).

Only where a single span is complemented are the pieces left as they are. Then they are apart if the
span has room between them.
-/

namespace Semrange.Interval

/-! ## One interval -/

/-- A hollow span has no extent. -/
theorem extent_of_isHollow {i : Interval} (hi : i.isSemantic = true ∧ i.Concrete)
    (h : i.isHollow = true) : i.extent = ∅ := by
  obtain ⟨hsem, hc⟩ := hi
  cases i with
  | around name reach => exact absurd hsem nofun
  | span lower upper =>
    cases lower with
    | none => exact absurd h nofun
    | some e =>
      cases upper with
      | none => exact absurd h nofun
      | some f =>
        have hflags :
            (decide (e.version.Same f.version) && !e.inclusive && !f.inclusive) = true := h
        rw [Bool.and_eq_true, Bool.and_eq_true, decide_eq_true_iff, Bool.not_eq_true',
          Bool.not_eq_true'] at hflags
        obtain ⟨⟨hsame, he⟩, hf⟩ := hflags
        -- Both ends leave out the same version, so both cuts are at its rank.
        have hrank := Semantic.rank_eq_of_same (hc.1 e rfl) (hc.2 f rfl) hsame
        refine Set.Ico_eq_empty_of_le ?_
        show Cut.beside f.version.rank f.inclusive ≤ Cut.beside e.version.rank !e.inclusive
        rw [he, hf, hrank]
        exact Cut.beside_le_beside.mpr (Or.inr ⟨rfl, Bool.false_le _⟩)

/-- What a span does not extend over lies below its lower cut or from its upper cut on. -/
theorem sdiff_extent (lower upper : Option End) : all.extent \ (span lower upper).extent =
    Set.Ico ⊥ (lowerCut lower) ∪ Set.Ico (upperCut upper) ⊤ := by
  ext x
  have hlow := lowerCut_lt_top lower
  have hup := bot_lt_upperCut upper
  show (⊥ ≤ x ∧ x < ⊤) ∧ ¬(lowerCut lower ≤ x ∧ x < upperCut upper) ↔
    (⊥ ≤ x ∧ x < lowerCut lower) ∨ upperCut upper ≤ x ∧ x < ⊤
  rw [not_and_or, not_le, not_lt]
  constructor
  · rintro ⟨⟨hbot, htop⟩, hx | hx⟩
    · exact Or.inl ⟨hbot, hx⟩
    · exact Or.inr ⟨hx, htop⟩
  · rintro (⟨hbot, hx⟩ | ⟨hx, htop⟩)
    · exact ⟨⟨hbot, hx.trans hlow⟩, Or.inl hx⟩
    · exact ⟨⟨bot_le, htop⟩, Or.inr hx⟩

section

variable {i : Interval} (hi : i.isSemantic = true ∧ i.Concrete)
include hi

/-- The pieces of the complement of a span are spans, and they have room. -/
theorem pieces_complement :
    ∀ j ∈ complement i, (j.isSemantic = true ∧ j.Concrete) ∧ j.start < j.stop := by
  obtain ⟨hsem, hc⟩ := hi
  unfold complement
  by_cases hh : i.isHollow = true
  · rw [if_pos hh]
    exact List.forall_mem_singleton.mpr ⟨concrete_all, bot_lt_top⟩
  · rw [if_neg hh]
    cases i with
    | around name reach => exact absurd hsem nofun
    | span lower upper =>
      -- What lies below the lower end, and what lies above the upper end, if there is one.
      refine List.forall_mem_append.mpr ⟨?_, ?_⟩
      · cases lower with
        | none => exact List.forall_mem_nil _
        | some e =>
          have hflip : End.ConcreteOrNone (some e.flip) := End.concreteOrNone_some (hc.1 e rfl)
          exact List.forall_mem_singleton.mpr
            ⟨⟨rfl, End.concreteOrNone_none, hflip⟩, bot_lt_upperCut (some e.flip)⟩
      · cases upper with
        | none => exact List.forall_mem_nil _
        | some e =>
          have hflip : End.ConcreteOrNone (some e.flip) := End.concreteOrNone_some (hc.2 e rfl)
          exact List.forall_mem_singleton.mpr
            ⟨⟨rfl, hflip, End.concreteOrNone_none⟩, lowerCut_lt_top (some e.flip)⟩

/-- The complement of a span extends over the cuts that the span does not extend over. -/
theorem extentOf_complement : extentOf (complement i) = all.extent \ i.extent := by
  unfold complement
  by_cases hh : i.isHollow = true
  · rw [if_pos hh, extent_of_isHollow hi hh, Set.sdiff_empty, extentOf_singleton]
  · rw [if_neg hh]
    cases i with
    | around name reach => exact absurd hi.1 nofun
    | span lower upper =>
      -- An end that is missing leaves nothing on its side: its cut is the outermost one.
      have hbelow : extentOf (lower.map fun e => span none (some e.flip)).toList =
          Set.Ico ⊥ (lowerCut lower) := by
        cases lower with
        | none => exact extentOf_nil.trans (Set.Ico_self _).symm
        | some e =>
          rw [← upperCut_flip]
          exact extentOf_singleton _
      have habove : extentOf (upper.map fun e => span (some e.flip) none).toList =
          Set.Ico (upperCut upper) ⊤ := by
        cases upper with
        | none => exact extentOf_nil.trans (Set.Ico_self _).symm
        | some e =>
          rw [← lowerCut_flip]
          exact extentOf_singleton _
      calc extentOf (_ ++ _) = Set.Ico ⊥ (lowerCut lower) ∪ Set.Ico (upperCut upper) ⊤ := by
            rw [extentOf_append, hbelow, habove]
        _ = all.extent \ (span lower upper).extent := (sdiff_extent lower upper).symm

/-- The pieces of the complement of a span with room are apart. -/
theorem spaced_complement (hroom : i.start < i.stop) : Spaced (complement i) := by
  refine ⟨fun j hj => (pieces_complement hi j hj).2, ?_⟩
  unfold complement
  by_cases hh : i.isHollow = true
  · rw [if_pos hh]
    exact List.pairwise_singleton _ _
  · rw [if_neg hh]
    cases i with
    | around name reach => exact absurd hi.1 nofun
    | span lower upper =>
      cases lower with
      | none =>
        cases upper with
        | none => exact List.Pairwise.nil
        | some f => exact List.pairwise_singleton _ _
      | some e =>
        cases upper with
        | none => exact List.pairwise_singleton _ _
        | some f =>
          -- Only a span with both ends leaves two pieces, and the room in it keeps them apart.
          refine List.pairwise_pair.mpr ?_
          show upperCut (some e.flip) < lowerCut (some f.flip)
          rw [upperCut_flip, lowerCut_flip]
          exact hroom

end

/-! ## Several intervals -/

/-- The pieces of the complement of a span that may be missing are spans, and they have room. -/
theorem pieces_complement? {o : Option Interval} (ho : ∀ i ∈ o, i.isSemantic = true ∧ i.Concrete) :
    ∀ j ∈ complement? o, (j.isSemantic = true ∧ j.Concrete) ∧ j.start < j.stop := by
  cases o with
  | none => exact List.forall_mem_singleton.mpr ⟨concrete_all, bot_lt_top⟩
  | some i => exact pieces_complement (ho i rfl)

/-- The complement of a span that may be missing extends over the cuts that the span does not extend
over. -/
theorem extentOf_complement? {o : Option Interval}
    (ho : ∀ i ∈ o, i.isSemantic = true ∧ i.Concrete) :
    extentOf (complement? o) = all.extent \ extentOf o.toList := by
  cases o with
  | none =>
    show extentOf [all] = all.extent \ extentOf []
    rw [extentOf_singleton, extentOf_nil, Set.sdiff_empty]
  | some i =>
    show extentOf (complement i) = all.extent \ extentOf [i]
    rw [extentOf_complement (ho i rfl), extentOf_singleton]

/-- The intervals of a list are its head, if that is one, and those of its tail. -/
theorem forall_mem_reduceOption_cons {P : Interval → Prop} {o : Option Interval}
    {l : List (Option Interval)} :
    (∀ i ∈ (o :: l).reduceOption, P i) ↔ (∀ i ∈ o, P i) ∧ ∀ i ∈ l.reduceOption, P i := by
  cases o with
  | none => simp
  | some i => simp

/-- The extents of the intervals of a list are that of its head, if that is one, and those of its
tail. -/
theorem extentOf_reduceOption_cons (o : Option Interval) (l : List (Option Interval)) :
    extentOf (o :: l).reduceOption = extentOf o.toList ∪ extentOf l.reduceOption := by
  cases o with
  | none => simp
  | some i => simp

/-- What is left of a list when the complements of some intervals narrow it one after the other. -/
def narrowed (known : List Interval) (l : List (Option Interval)) : List Interval :=
  l.foldl (fun known o => intersectAll known (complement? o)) known

section

variable {l : List (Option Interval)}
  (hl : ∀ i ∈ l.reduceOption, i.isSemantic = true ∧ i.Concrete)
include hl

/-- Narrowing leaves spans, and takes the extents of the intervals away. -/
theorem extentOf_narrowed {known : List Interval}
    (hknown : ∀ i ∈ known, i.isSemantic = true ∧ i.Concrete) :
    (∀ i ∈ narrowed known l, i.isSemantic = true ∧ i.Concrete) ∧
      extentOf (narrowed known l) = extentOf known \ extentOf l.reduceOption := by
  induction l generalizing known with
  | nil =>
    refine ⟨hknown, ?_⟩
    rw [List.reduceOption_nil, extentOf_nil, Set.sdiff_empty]
    rfl
  | cons o l ih =>
    obtain ⟨ho, htail⟩ := forall_mem_reduceOption_cons.mp hl
    have hpieces : ∀ j ∈ complement? o, j.isSemantic = true ∧ j.Concrete :=
      fun j hj => (pieces_complement? ho j hj).1
    obtain ⟨hspans, hext⟩ := ih htail (spanList_intersectAll hknown hpieces).concrete
    -- All that was known is within everything, so only what is taken away remains of a complement.
    have hfirst : extentOf (intersectAll known (complement? o)) =
        extentOf known \ extentOf o.toList := by
      rw [extentOf_intersectAll hknown hpieces, extentOf_complement? ho, ← Set.inter_sdiff_assoc,
        Set.inter_eq_left.mpr (extentOf_subset_all known)]
    refine ⟨hspans, ?_⟩
    calc extentOf (narrowed known (o :: l))
        = extentOf (intersectAll known (complement? o)) \ extentOf l.reduceOption := hext
      _ = (extentOf known \ extentOf o.toList) \ extentOf l.reduceOption := by rw [hfirst]
      _ = extentOf known \ extentOf (o :: l).reduceOption := by
          rw [Set.sdiff_sdiff, ← extentOf_reduceOption_cons]

/-- Narrowing keeps a list of spans spaced. -/
theorem spaced_narrowed {known : List Interval}
    (hknown : ∀ i ∈ known, i.isSemantic = true ∧ i.Concrete) (h : Spaced known) :
    Spaced (narrowed known l) := by
  induction l generalizing known with
  | nil => exact h
  | cons o l ih =>
    obtain ⟨ho, htail⟩ := forall_mem_reduceOption_cons.mp hl
    have hpieces := pieces_complement? ho
    have hspans : ∀ j ∈ complement? o, j.isSemantic = true ∧ j.Concrete :=
      fun j hj => (hpieces j hj).1
    refine ih htail (spanList_intersectAll hknown hspans).concrete ?_
    exact spaced_intersectAll hknown hspans h.room fun j hj => (hpieces j hj).2

/-- The complement of several spans is a list of spans, which extends over the cuts that none of
them extends over. -/
theorem extentOf_complementAll :
    (∀ i ∈ complementAll l, i.isSemantic = true ∧ i.Concrete) ∧
      extentOf (complementAll l) = all.extent \ extentOf l.reduceOption := by
  cases l with
  | nil =>
    refine ⟨List.forall_mem_singleton.mpr concrete_all, ?_⟩
    rw [List.reduceOption_nil, extentOf_nil, Set.sdiff_empty]
    exact extentOf_singleton _
  | cons o l =>
    obtain ⟨ho, htail⟩ := forall_mem_reduceOption_cons.mp hl
    have h := extentOf_narrowed htail fun j hj => (pieces_complement? ho j hj).1
    rw [extentOf_complement? ho, Set.sdiff_sdiff, ← extentOf_reduceOption_cons] at h
    exact h

/-- The complement of several spans with room is spaced. -/
theorem spaced_complementAll (hroom : ∀ i ∈ l.reduceOption, i.start < i.stop) :
    Spaced (complementAll l) := by
  cases l with
  | nil => exact spaced_all
  | cons o l =>
    obtain ⟨ho, htail⟩ := forall_mem_reduceOption_cons.mp hl
    refine spaced_narrowed htail (fun j hj => (pieces_complement? ho j hj).1) ?_
    cases o with
    | none => exact spaced_all
    | some i => exact spaced_complement (ho i rfl) ((forall_mem_reduceOption_cons.mp hroom).1 i rfl)

end

/-- Complements of spans are exact and canonical, whatever the order of the members, whether or not
these overlap, and also where one of them is missing because it is empty: they contain the versions
that no member contains, and from proper members they come out in canonical form. -/
theorem complement_exact_and_canonical {l : List (Option Interval)}
    (hl : ∀ i, some i ∈ l → i.isSemantic = true ∧ i.Concrete) :
    (∀ v : Semantic, v.wild = false →
      ((∃ j ∈ complementAll l, j.contains (.semantic v) = true) ↔
        ∀ i, some i ∈ l → i.contains (.semantic v) = false)) ∧
      ((∀ i, some i ∈ l → i.Proper) → Canonical (complementAll l)) := by
  have hl' : ∀ i ∈ l.reduceOption, i.isSemantic = true ∧ i.Concrete :=
    fun i hi => hl i (List.reduceOption_mem_iff.mp hi)
  obtain ⟨hspans, hext⟩ := extentOf_complementAll hl'
  refine ⟨fun v hv => ?_, fun hproper => ?_⟩
  · rw [exists_contains_iff hspans hv, hext]
    -- The cut of a version is within everything, so what counts is that no member has it.
    have hall : v.cut ∈ all.extent := ⟨bot_le, Cut.beside_lt_top _ _⟩
    constructor
    · rintro ⟨-, hnot⟩ i hi
      rw [Bool.eq_false_iff]
      intro hc
      exact hnot ((exists_contains_iff hl' hv).mp ⟨i, List.reduceOption_mem_iff.mpr hi, hc⟩)
    · intro h
      refine ⟨hall, fun hx => ?_⟩
      obtain ⟨i, hi, hc⟩ := (exists_contains_iff hl' hv).mpr hx
      rw [h i (List.reduceOption_mem_iff.mp hi)] at hc
      exact absurd hc nofun
  · rw [canonical_iff_spaced hspans]
    refine spaced_complementAll hl' fun i hi => (proper_iff (hl' i hi)).mp ?_
    exact hproper i (List.reduceOption_mem_iff.mp hi)

/-- Two spans out of order that leave the version `2` between them, and a point inside of one. -/
theorem complement_exact_and_canonical_gaps :
    let v (n : ℕ) : Semantic := ⟨n, [], false, none, none⟩
    let l := [some (span (some ⟨v 2, false⟩) none),
      some (span (some ⟨v 1, true⟩) (some ⟨v 2, false⟩)),
      some (span (some ⟨v 4, true⟩) (some ⟨v 4, true⟩))]
    (∀ i, some i ∈ l → i.isSemantic = true ∧ i.Concrete) ∧ (∀ i, some i ∈ l → i.Proper) ∧
      complementAll l =
        [span none (some ⟨v 1, false⟩), span (some ⟨v 2, true⟩) (some ⟨v 2, true⟩)] ∧
      Canonical (complementAll l) ∧
      ((∃ j ∈ complementAll l, j.contains (.semantic (v 3)) = true) ↔
        ∀ i, some i ∈ l → i.contains (.semantic (v 3)) = false) := by
  intro v l
  have hl : ∀ i, some i ∈ l → i.isSemantic = true ∧ i.Concrete := by
    simp [l, v, isSemantic, Concrete, End.ConcreteOrNone]
  have hproper : ∀ i, some i ∈ l → i.Proper := by
    intro i hi
    simp only [l, List.mem_cons, Option.some.injEq, List.not_mem_nil, or_false] at hi
    rcases hi with rfl | rfl | rfl
    · exact trivial
    · exact Or.inl (by decide)
    · exact Or.inr ⟨by decide, rfl, rfl⟩
  have h := complement_exact_and_canonical hl
  exact ⟨hl, hproper, by decide, h.2 hproper, h.1 (v 3) rfl⟩

end Semrange.Interval
