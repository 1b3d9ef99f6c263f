import Mathlib.Data.List.Chain
import Semrange.Proofs.Interval.Cut

/-!
# How far intervals extend

The extent of a span is the set of cuts from its lower cut up to its upper cut. It contains a
version just when the extent has the cut before the version (`contains_iff`), but the extent knows
more: where no version lies between two ends, there still are cuts. Intervals around labels have no
extent.

A list of intervals is canonical when its members are proper, ascending and apart from each other.
For spans that is a statement about cuts: each one starts before it stops, and stops before all
later ones start (`canonical_iff_spaced`).
-/

namespace Semrange.Interval

/-- The ends that are there are at versions without wildcards. -/
def Concrete : Interval → Prop
  | .span lower upper => End.ConcreteOrNone lower ∧ End.ConcreteOrNone upper
  | .around _ _ => True

/-! ## Extents -/

/-- The cut at which a span starts. -/
noncomputable def start : Interval → Cut
  | .span lower _ => lowerCut lower
  | .around _ _ => ⊥

/-- The cut at which a span stops. -/
noncomputable def stop : Interval → Cut
  | .span _ upper => upperCut upper
  | .around _ _ => ⊥

/-- The cuts from the start of an interval up to its stop. -/
def extent (i : Interval) : Set Cut :=
  Set.Ico i.start i.stop

/-- The cuts in the extent of one of the intervals. -/
def extentOf (l : List Interval) : Set Cut :=
  { x | ∃ i ∈ l, x ∈ i.extent }

@[simp]
theorem extentOf_nil : extentOf [] = ∅ := by
  ext x
  simp [extentOf]

@[simp]
theorem extentOf_cons (i : Interval) (l : List Interval) :
    extentOf (i :: l) = i.extent ∪ extentOf l := by
  ext x
  simp [extentOf]

@[simp]
theorem extentOf_singleton (i : Interval) : extentOf [i] = i.extent := by
  rw [extentOf_cons, extentOf_nil, Set.union_empty]

@[simp]
theorem extentOf_append (l m : List Interval) : extentOf (l ++ m) = extentOf l ∪ extentOf m := by
  ext x
  simp [extentOf, or_and_right, exists_or]

/-- The interval of all versions is a span without ends. -/
theorem concrete_all : all.isSemantic = true ∧ all.Concrete :=
  ⟨rfl, End.concreteOrNone_none, End.concreteOrNone_none⟩

/-- No interval extends further than that of all versions. -/
theorem extent_subset_all (i : Interval) : i.extent ⊆ all.extent :=
  Set.Ico_subset_Ico bot_le le_top

/-- No list of intervals extends further than the interval of all versions. -/
theorem extentOf_subset_all (l : List Interval) : extentOf l ⊆ all.extent := by
  rintro x ⟨i, -, hx⟩
  exact extent_subset_all i hx

/-- An interval around a label has no extent. -/
theorem extent_of_not_isSemantic {i : Interval} (h : i.isSemantic = false) : i.extent = ∅ := by
  cases i with
  | span lower upper => exact absurd h nofun
  | around name reach => exact Set.Ico_self _

/-- A span contains a version without wildcards just when its extent has the cut before it. -/
theorem contains_iff {i : Interval} (hi : i.isSemantic = true) (hc : i.Concrete) {v : Semantic}
    (hv : v.wild = false) : i.contains (.semantic v) = true ↔ v.cut ∈ i.extent := by
  cases i with
  | span lower upper =>
    show (admitsAbove lower v && admitsBelow upper v) = true ↔ _
    rw [Bool.and_eq_true, admitsAbove_iff hc.1 hv, admitsBelow_iff hc.2 hv]
    exact Set.mem_Ico.symm
  | around name reach => exact absurd hi nofun

/-- One of several spans contains a version just when their extent has the cut before it. -/
theorem exists_contains_iff {l : List Interval} (hl : ∀ i ∈ l, i.isSemantic = true ∧ i.Concrete)
    {v : Semantic} (hv : v.wild = false) :
    (∃ i ∈ l, i.contains (.semantic v) = true) ↔ v.cut ∈ extentOf l := by
  constructor
  · rintro ⟨i, hi, hc⟩
    exact ⟨i, hi, (contains_iff (hl i hi).1 (hl i hi).2 hv).mp hc⟩
  · rintro ⟨i, hi, hx⟩
    exact ⟨i, hi, (contains_iff (hl i hi).1 (hl i hi).2 hv).mpr hx⟩

/-! ## Canonical lists -/

/-- An interval with both ends is proper when the lower one is below the upper one, or both hold the
version where they meet. -/
def Proper : Interval → Prop
  | .span (some e) (some f) =>
    e.version.compare f.version = .lt ∨
      e.version.compare f.version = .eq ∧ e.inclusive = true ∧ f.inclusive = true
  | .around _ (.within lower upper) => lower = true ∧ upper = true
  | _ => True

instance (i : Interval) : Decidable i.Proper :=
  match i with
  | .span (some e) (some f) =>
    inferInstanceAs (Decidable (e.version.compare f.version = .lt ∨
      e.version.compare f.version = .eq ∧ e.inclusive = true ∧ f.inclusive = true))
  | .around _ (.within lower upper) => inferInstanceAs (Decidable (lower = true ∧ upper = true))
  | .span none _ | .span (some _) none | .around _ (.below _) | .around _ (.above _) =>
    inferInstanceAs (Decidable True)

/-- One span ends before another one begins, and neither holds a version where they meet. -/
def Apart : Interval → Interval → Prop
  | .span _ (some e), .span (some f) _ =>
    e.version.compare f.version = .lt ∨
      e.version.compare f.version = .eq ∧ e.inclusive = false ∧ f.inclusive = false
  | _, _ => False

instance (i j : Interval) : Decidable (i.Apart j) :=
  match i, j with
  | .span _ (some e), .span (some f) _ =>
    inferInstanceAs (Decidable (e.version.compare f.version = .lt ∨
      e.version.compare f.version = .eq ∧ e.inclusive = false ∧ f.inclusive = false))
  | .span _ none, _ | .span _ (some _), .span none _ | .span _ (some _), .around _ _ | .around _ _, _ =>
    inferInstanceAs (Decidable False)

/-- One span begins before another one. -/
def Precedes : Interval → Interval → Prop
  | .span lower _, .span lower' _ => compareLower lower lower' = .lt
  | _, _ => False

instance (i j : Interval) : Decidable (i.Precedes j) :=
  match i, j with
  | .span lower _, .span lower' _ => inferInstanceAs (Decidable (compareLower lower lower' = .lt))
  | .span _ _, .around _ _ | .around _ _, _ => inferInstanceAs (Decidable False)

/-- The form in which a set of versions is kept. -/
structure Canonical (l : List Interval) : Prop where
  /-- The members are proper. -/
  proper : ∀ i ∈ l, i.Proper
  /-- The members ascend. -/
  ascending : l.Pairwise Precedes
  /-- Each member is apart from the next one. -/
  apart : l.IsChain Apart

instance (l : List Interval) : Decidable (Canonical l) :=
  decidable_of_iff ((∀ i ∈ l, i.Proper) ∧ l.Pairwise Precedes ∧ l.IsChain Apart)
    ⟨fun ⟨proper, ascending, apart⟩ => ⟨proper, ascending, apart⟩,
      fun h => ⟨h.proper, h.ascending, h.apart⟩⟩

/-- Each interval starts before it stops, and stops before all later ones start. -/
structure Spaced (l : List Interval) : Prop where
  /-- Each interval starts before it stops. -/
  room : ∀ i ∈ l, i.start < i.stop
  /-- Each interval stops before all later ones start. -/
  gaps : l.Pairwise fun i j => i.stop < j.start

/-- A proper span is one that starts before it stops. -/
theorem proper_iff {i : Interval} (hi : i.isSemantic = true ∧ i.Concrete) :
    i.Proper ↔ i.start < i.stop := by
  obtain ⟨hsem, hc⟩ := hi
  cases i with
  | around name reach => exact absurd hsem nofun
  | span lower upper =>
    show _ ↔ lowerCut lower < upperCut upper
    rw [← leavesRoom_iff hc.1 hc.2]
    cases lower with
    | none => exact iff_of_true trivial rfl
    | some e =>
      cases upper with
      | none => exact iff_of_true trivial rfl
      | some f =>
        -- Both sides now ask how the two versions compare.
        unfold Proper leavesRoom
        cases hcmp : e.version.compare f.version <;> simp [hcmp]

/-- Two spans are apart when the first one stops before the second one starts. -/
theorem apart_iff {i j : Interval} (hi : i.isSemantic = true ∧ i.Concrete)
    (hj : j.isSemantic = true ∧ j.Concrete) : i.Apart j ↔ i.stop < j.start := by
  obtain ⟨hsi, hci⟩ := hi
  obtain ⟨hsj, hcj⟩ := hj
  cases i with
  | around name reach => exact absurd hsi nofun
  | span al au =>
    cases j with
    | around name reach => exact absurd hsj nofun
    | span bl bu =>
      show _ ↔ upperCut au < lowerCut bl
      -- Being apart is not reaching, which a missing end always does.
      rw [← not_le, ← reaches_iff hci.2 hcj.1]
      cases au with
      | none => exact iff_of_false not_false (not_not_intro rfl)
      | some e =>
        cases bl with
        | none => exact iff_of_false not_false (not_not_intro rfl)
        | some f =>
          unfold Apart reaches
          cases hcmp : e.version.compare f.version <;> simp [hcmp]

/-- One span precedes another one when it starts before it. -/
theorem precedes_iff {i j : Interval} (hi : i.isSemantic = true ∧ i.Concrete)
    (hj : j.isSemantic = true ∧ j.Concrete) : i.Precedes j ↔ i.start < j.start := by
  obtain ⟨hsi, hci⟩ := hi
  obtain ⟨hsj, hcj⟩ := hj
  cases i with
  | around name reach => exact absurd hsi nofun
  | span al au =>
    cases j with
    | around name reach => exact absurd hsj nofun
    | span bl bu => exact (compares_compareLower hci.1 hcj.1).eq_lt

/-- What is spaced stays so without its head. -/
theorem Spaced.tail {i : Interval} {l : List Interval} (h : Spaced (i :: l)) : Spaced l :=
  ⟨fun j hj => h.room j (List.mem_cons_of_mem i hj), h.gaps.tail⟩

/-- Spans that start before they stop, each one apart from the next, are apart from all later
ones. -/
theorem spaced_of_isChain {l : List Interval} (hl : ∀ i ∈ l, i.isSemantic = true ∧ i.Concrete)
    (hroom : ∀ i ∈ l, i.start < i.stop) (h : l.IsChain Apart) : Spaced l := by
  refine ⟨hroom, ?_⟩
  -- Neighbours are apart by assumption, so the head is compared with the neighbour first.
  induction l with
  | nil => exact List.Pairwise.nil
  | cons i l ih =>
    have htail := ih (fun j hj => hl j (List.mem_cons_of_mem i hj))
      (fun j hj => hroom j (List.mem_cons_of_mem i hj)) h.tail
    refine List.pairwise_cons.mpr ⟨?_, htail⟩
    cases l with
    | nil => exact List.forall_mem_nil _
    | cons k l =>
      have hik : i.stop < k.start :=
        (apart_iff (hl i (by simp)) (hl k (by simp))).mp (List.isChain_cons_cons.mp h).1
      intro j hj
      rcases List.mem_cons.mp hj with rfl | hj
      · exact hik
      · -- The neighbour lies between, and it is not empty.
        calc i.stop < k.start := hik
          _ < k.stop := hroom k (by simp)
          _ < j.start := List.rel_of_pairwise_cons htail hj

/-- A list of spans is canonical when each one starts before it stops, and stops before all later
ones start. -/
theorem canonical_iff_spaced {l : List Interval}
    (hl : ∀ i ∈ l, i.isSemantic = true ∧ i.Concrete) : Canonical l ↔ Spaced l := by
  constructor
  · intro h
    exact spaced_of_isChain hl (fun i hi => (proper_iff (hl i hi)).mp (h.proper i hi)) h.apart
  · intro h
    refine ⟨fun i hi => (proper_iff (hl i hi)).mpr (h.room i hi), ?_, ?_⟩
    · refine h.gaps.imp_of_mem fun hi hj hij => ?_
      exact (precedes_iff (hl _ hi) (hl _ hj)).mpr ((h.room _ hi).trans hij)
    · refine (h.gaps.imp_of_mem fun hi hj hij => ?_).isChain
      exact (apart_iff (hl _ hi) (hl _ hj)).mpr hij

end Semrange.Interval
