import Semrange.Operator
import Semrange.Proofs.Interval.Extent
import Semrange.Proofs.Version.RoundTrip

/-!
# The bounds of an operator cut where its test does

The versions that pass an operator are those between its bounds (`test_iff_mem_extent`). For `~` and
`^` that rests on two facts: of the versions at or above the reference, those that agree with it up
to some place are the ones whose cores are below the first core past that line (`lt_pastLine_iff`),
and the empty prerelease at that core comes before all else there is at it (`rank_lt_iff`).
-/

namespace Semrange

open Semantic (place numberAt compares_rank component_eq_numberAt)

/-! ## Lines -/

namespace Semantic

/-- The first core past all those that agree with a core up to the place `k`. -/
def pastLine (f : ℕ → ℕ) (k pos : ℕ) : ℕ :=
  if pos < k then f pos else if pos = k then f k + 1 else 0

/-- Before the place `k` the core past the line is that of the line. -/
theorem pastLine_of_lt (f : ℕ → ℕ) {k pos : ℕ} (h : pos < k) : pastLine f k pos = f pos :=
  if_pos h

/-- At the place `k` the core past the line has the next number. -/
theorem pastLine_self (f : ℕ → ℕ) (k : ℕ) : pastLine f k k = f k + 1 :=
  (if_neg (lt_irrefl k)).trans (if_pos rfl)

/-- Behind the place `k` the core past the line has zeros. -/
theorem pastLine_of_gt (f : ℕ → ℕ) {k pos : ℕ} (h : k < pos) : pastLine f k pos = 0 :=
  (if_neg h.not_gt).trans (if_neg h.ne')

/-- Of the cores at or above another one, those that agree with it up to some place are the ones
below the first core past that line. -/
theorem lt_pastLine_iff {f g : ℕ → ℕ} (h : toLex f ≤ toLex g) (k : ℕ) :
    toLex g < toLex (pastLine f k) ↔ ∀ pos ≤ k, g pos = f pos := by
  constructor
  · rintro ⟨pos, heq, hlt⟩
    replace heq : ∀ i < pos, g i = pastLine f k i := heq
    replace hlt : g pos < pastLine f k pos := hlt
    have hbelow : ∀ i < pos, i < k → g i = f i :=
      fun i hi hk => (heq i hi).trans (pastLine_of_lt f hk)
    -- The first difference cannot be one at which `g` is less than `f`.
    have hnot : (∀ i < pos, g i = f i) → f pos ≤ g pos :=
      fun hi => not_lt.mp fun hpos => absurd h (not_le.mpr ⟨pos, hi, hpos⟩)
    rcases lt_trichotomy pos k with hk | rfl | hk
    · -- Below the place the two cores would differ in the wrong direction.
      have hge := hnot fun i hi => hbelow i hi (hi.trans hk)
      rw [pastLine_of_lt f hk] at hlt
      exact absurd hlt hge.not_gt
    · -- At the place `g` has to stay below the next number.
      have hge := hnot fun i hi => hbelow i hi hi
      rw [pastLine_self] at hlt
      intro i hi
      rcases hi.lt_or_eq with hi | rfl
      · exact hbelow i hi hi
      · exact (Nat.le_of_lt_succ hlt).antisymm hge
    · -- Behind it nothing is less than zero.
      rw [pastLine_of_gt f hk] at hlt
      exact absurd hlt (Nat.not_lt_zero _)
  · intro heq
    refine ⟨k, fun pos hpos => ?_, ?_⟩
    · exact (heq pos hpos.le).trans (pastLine_of_lt f hpos).symm
    · show g k < pastLine f k k
      rw [pastLine_self, heq k le_rfl]
      exact Nat.lt_succ_self _

/-- Below a version with the empty prerelease are the versions whose cores are below its core. -/
theorem rank_lt_iff {u : Semantic} (hu : u.prerelease = some "") (v : Semantic) :
    v.rank < u.rank ↔ place v.numbers < place u.numbers := by
  unfold rank
  rw [hu]
  refine Prod.Lex.toLex_lt_toLex.trans (or_iff_left fun h => ?_)
  exact (stage_empty_le _).not_gt h.2

/-- A version at or above another one has a core at or above its core. -/
theorem place_le_of_rank_le {u v : Semantic} (h : u.rank ≤ v.rank) :
    place u.numbers ≤ place v.numbers := by
  rcases Prod.Lex.toLex_le_toLex.mp h with hlt | ⟨heq, -⟩
  · exact hlt.le
  · exact heq.le

/-- The end of the line of versions that agree with a reference up to the place `k`. -/
structure LineEnd (ref : Semantic) (k : ℕ) (u : Semantic) : Prop where
  /-- It has no wildcard. -/
  wild : u.wild = false
  /-- Its core is the first one past the line. -/
  numbers : ∀ pos, numberAt u.numbers pos = pastLine (numberAt ref.numbers) k pos
  /-- Its prerelease is the empty one. -/
  prerelease : u.prerelease = some ""
  /-- It is legible if the reference is. -/
  legible : ref.Legible → u.Legible

/-- Of the versions at or above a reference, those on its line are the ones below the end of the
line. -/
theorem LineEnd.rank_lt_iff {ref u v : Semantic} {k : ℕ} (h : LineEnd ref k u)
    (hr : ref.wild = false) (hv : v.wild = false) (hle : ref.rank ≤ v.rank) :
    v.rank < u.rank ↔ ∀ pos ≤ k, v.component pos = ref.component pos := by
  have hu : place u.numbers = toLex (pastLine (numberAt ref.numbers) k) :=
    congrArg toLex (funext h.numbers)
  -- Whatever follows the cores, only these are compared.
  rw [Semantic.rank_lt_iff h.prerelease, hu]
  refine (lt_pastLine_iff (place_le_of_rank_le hle) k).trans ?_
  refine forall_congr' fun pos => imp_congr_right fun _ => ?_
  rw [component_eq_numberAt hv, component_eq_numberAt hr, Component.number.injEq]

/-- A reference comes before the end of its line. -/
theorem LineEnd.rank_lt {ref u : Semantic} {k : ℕ} (h : LineEnd ref k u) (hr : ref.wild = false) :
    ref.rank < u.rank :=
  (h.rank_lt_iff hr hr le_rfl).mpr fun _ _ => rfl

end Semantic

/-! ## Upper bounds -/

namespace Operator

open Semantic (LineEnd pastLine_of_lt pastLine_self pastLine_of_gt)

/-- The place up to which an operator fixes the components, if it fixes any. -/
def line? : Operator → Option ℕ
  | sameMinor => some 1
  | sameMajor => some 0
  | _ => none

/-- Where an operator fixes no components, its upper bound is the reference or missing. -/
theorem upper_of_line_eq_none {op : Operator} (hk : op.line? = none) (ref : Semantic) :
    op.upper ref = .ok none ∨ op.upper ref = .ok (some ref) := by
  cases op with
  | atLeast | above => exact Or.inl rfl
  | atMost | below | equal => exact Or.inr rfl
  | sameMinor | sameMajor => exact absurd hk nofun

/-- The component after a number is the next number, if that is writable. -/
theorem nextComponent_number (n : ℕ) :
    nextComponent (.number n) =
      if Numeral.Writable (n + 1) then .ok (n + 1) else .error (.numeral .unwritable) :=
  rfl

section

variable {op : Operator} {ref : Semantic} (hr : ref.wild = false)
include hr

/-- Where an operator fixes components, its upper bound is the end of the line of the reference,
unless that has no numeral. -/
theorem upper_of_line {k : ℕ} (hk : op.line? = some k) :
    op.upper ref = .error (.numeral .unwritable) ∨
      ∃ u, op.upper ref = .ok (some u) ∧ LineEnd ref k u := by
  -- The number at the place of the line is followed by the next one, which may be too long to
  -- write; before it the bound has the numbers of the reference and behind it none.
  cases op with
  | atLeast | atMost | above | below | equal => exact absurd hk nofun
  | sameMinor =>
    cases hk
    rw [upper, component_eq_numberAt hr, nextComponent_number]
    by_cases hw : Numeral.Writable (numberAt ref.numbers 1 + 1)
    · rw [if_pos hw]
      refine Or.inr ⟨_, rfl, rfl, fun pos => ?_, rfl, fun h => ?_⟩
      · rcases pos with _ | _ | pos
        · exact (pastLine_of_lt _ Nat.zero_lt_one).symm
        · exact (pastLine_self _ 1).symm
        · exact (pastLine_of_gt _ (by omega)).symm
      · refine ⟨List.forall_mem_cons.mpr ⟨?_, ?_⟩, Semantic.isPrerelease_empty, nofun⟩
        · exact h.writable _ List.mem_cons_self
        · exact List.forall_mem_singleton.mpr hw
    · rw [if_neg hw]
      exact Or.inl rfl
  | sameMajor =>
    cases hk
    rw [upper, component_eq_numberAt hr, nextComponent_number]
    by_cases hw : Numeral.Writable (numberAt ref.numbers 0 + 1)
    · rw [if_pos hw]
      refine Or.inr ⟨_, rfl, rfl, fun pos => ?_, rfl, fun h => ?_⟩
      · rcases pos with _ | pos
        · exact (pastLine_self _ 0).symm
        · exact (pastLine_of_gt _ (by omega)).symm
      · exact ⟨List.forall_mem_singleton.mpr hw, Semantic.isPrerelease_empty, nofun⟩
    · rw [if_neg hw]
      exact Or.inl rfl

/-- Where an operator fixes components, a derived upper bound is the end of the line. -/
theorem exists_lineEnd {k : ℕ} (hk : op.line? = some k) {upper : Option Semantic}
    (h : op.upper ref = .ok upper) : ∃ u, upper = some u ∧ LineEnd ref k u := by
  rcases upper_of_line hr hk with herror | ⟨u, hok, hend⟩
  · exact absurd (h.symm.trans herror) nofun
  · exact ⟨u, Except.ok.inj (h.symm.trans hok), hend⟩

/-- There is an upper bound, which may be missing, unless it would have no numeral. -/
theorem upper_eq_ok_or (op : Operator) : op.upper ref = .error (.numeral .unwritable) ∨
    ∃ upper, op.upper ref = .ok upper := by
  cases hk : op.line? with
  | none =>
    rcases upper_of_line_eq_none hk ref with h | h
    · exact Or.inr ⟨none, h⟩
    · exact Or.inr ⟨some ref, h⟩
  | some k =>
    rcases upper_of_line hr hk with h | ⟨u, h, -⟩
    · exact Or.inl h
    · exact Or.inr ⟨some u, h⟩

/-- An upper bound has no wildcard, and it is legible if the reference is. -/
theorem legible_of_upper (href : ref.Legible) {upper : Option Semantic}
    (h : op.upper ref = .ok upper) : ∀ u ∈ upper, u.wild = false ∧ u.Legible := by
  cases hk : op.line? with
  -- Without a line the bound is the reference or missing.
  | none =>
    rcases upper_of_line_eq_none hk ref with hnone | hsome
    · cases hnone.symm.trans h
      exact nofun
    · cases hsome.symm.trans h
      rintro u ⟨⟩
      exact ⟨hr, href⟩
  | some k =>
    obtain ⟨w, rfl, hend⟩ := exists_lineEnd hr hk h
    rintro u ⟨⟩
    exact ⟨hend.wild, hend.legible href⟩

end

/-- A lower bound is the reference. -/
theorem eq_of_lower {op : Operator} {ref l : Semantic} (h : op.lower ref = some l) : l = ref := by
  cases op with
  | atMost | below => exact absurd h nofun
  | atLeast | above | equal | sameMinor | sameMajor => exact (Option.some.inj h).symm

/-- No operator leaves both bounds out. -/
theorem not_unbounded {op : Operator} {ref : Semantic} (hlower : op.lower ref = none) :
    op.upper ref ≠ .ok none := by
  cases op with
  | atMost | below => exact nofun
  | atLeast | above | equal | sameMinor | sameMajor => exact absurd hlower nofun

/-! ## The versions between the bounds -/

/-- The versions between the bounds of an operator. -/
def between (op : Operator) (ref : Semantic) (upper : Option Semantic) : Interval :=
  .span ((op.lower ref).map fun v => ⟨v, op.lowerInclusive⟩)
    (upper.map fun v => ⟨v, op.upperInclusive⟩)

/-- A version is between the bounds of an operator when its rank is on the right side of theirs. -/
theorem mem_extent_between {op : Operator} {ref : Semantic} {upper : Option Semantic}
    {v : Semantic} : v.cut ∈ (op.between ref upper).extent ↔
      (∀ l ∈ op.lower ref, if op.lowerInclusive then l.rank ≤ v.rank else l.rank < v.rank) ∧
        ∀ u ∈ upper, if op.upperInclusive then v.rank ≤ u.rank else v.rank < u.rank := by
  -- A bound that is missing asks for nothing.
  refine and_congr ?_ ?_
  · show lowerCut ((op.lower ref).map _) ≤ v.cut ↔ _
    cases op.lower ref with
    | none => exact iff_of_true bot_le nofun
    | some l => simp [lowerCut_le_cut_iff]
  · show v.cut < upperCut (upper.map _) ↔ _
    cases upper with
    | none => exact iff_of_true (Cut.beside_lt_top _ _) nofun
    | some u => simp [cut_lt_upperCut_iff]

/-- An operator that fixes components tests these and whether the version is at or above the
reference. -/
theorem test_of_line {op : Operator} {k : ℕ} (hk : op.line? = some k) (v ref : Semantic) :
    op.test v ref = true ↔
      (v.compare ref).isGE = true ∧ ∀ pos ≤ k, v.component pos = ref.component pos := by
  cases op with
  | atLeast | atMost | above | below | equal => exact absurd hk nofun
  | sameMinor =>
    cases hk
    simp [test, Nat.le_one_iff_eq_zero_or_eq_one, and_assoc]
  | sameMajor =>
    cases hk
    simp [test]

/-- The bounds of an operator that fixes components are the reference, which passes, and the end of
its line, which does not. -/
theorem bounds_of_line {op : Operator} {k : ℕ} (hk : op.line? = some k) (ref : Semantic) :
    op.lower ref = some ref ∧ op.lowerInclusive = true ∧ op.upperInclusive = false := by
  cases op with
  | atLeast | atMost | above | below | equal => exact absurd hk nofun
  | sameMinor | sameMajor => exact ⟨rfl, rfl, rfl⟩

section

variable {op : Operator} {ref : Semantic} {upper : Option Semantic} (hr : ref.wild = false)
  (h : op.upper ref = .ok upper)
include hr h

/-- The versions that pass an operator are those between its bounds. -/
theorem test_iff_mem_extent {v : Semantic} (hv : v.wild = false) :
    op.test v ref = true ↔ v.cut ∈ (op.between ref upper).extent := by
  have hcompares := compares_rank hv hr
  rw [mem_extent_between]
  -- The plain operators ask for the order alone, the others for a line as well.
  cases hk : op.line? with
  | none =>
    cases op with
    | atLeast =>
      cases h
      simpa [test, lower, lowerInclusive] using isGE_iff hcompares
    | above =>
      cases h
      simpa [test, lower, lowerInclusive, Ordering.isGT_iff_eq_gt] using hcompares.eq_gt
    | atMost =>
      cases h
      simpa [test, lower, upperInclusive] using isLE_iff hcompares
    | below =>
      cases h
      simpa [test, lower, upperInclusive, Ordering.isLT_iff_eq_lt] using hcompares.eq_lt
    | equal =>
      cases h
      have heq : (v.compare ref).isEq = true ↔ v.rank = ref.rank :=
        Ordering.isEq_iff_eq_eq.trans hcompares.eq_eq
      simpa [test, lower, lowerInclusive, upperInclusive, le_antisymm_iff, and_comm] using heq
    | sameMinor | sameMajor => exact absurd hk nofun
  | some k =>
    obtain ⟨hlower, hli, hui⟩ := bounds_of_line hk ref
    obtain ⟨u, rfl, hend⟩ := exists_lineEnd hr hk h
    rw [test_of_line hk, isGE_iff hcompares, hlower, hli, hui]
    simp only [Option.mem_some_iff, forall_eq', if_true, Bool.false_eq_true, if_false]
    -- Both sides ask first whether the version is at or above the reference.
    exact and_congr_right fun hle => (hend.rank_lt_iff hr hv hle).symm

/-- There is room between the bounds of an operator. -/
theorem room_between : (op.between ref upper).start < (op.between ref upper).stop := by
  cases hk : op.line? with
  -- A bound that is missing leaves room on its side, and equality leaves that of its version.
  | none =>
    cases op with
    | atLeast | above =>
      cases h
      show lowerCut (some _) < ⊤
      exact lowerCut_lt_top _
    | atMost | below =>
      cases h
      show ⊥ < upperCut (some _)
      exact bot_lt_upperCut _
    | equal =>
      cases h
      exact Cut.beside_lt_beside.mpr (Or.inr ⟨rfl, Bool.false_lt_true⟩)
    | sameMinor | sameMajor => exact absurd hk nofun
  | some k =>
    obtain ⟨hlower, hli, hui⟩ := bounds_of_line hk ref
    obtain ⟨u, rfl, hend⟩ := exists_lineEnd hr hk h
    unfold between
    rw [hlower, hli, hui]
    exact Cut.beside_lt_beside.mpr (Or.inl (hend.rank_lt hr))

end

end Operator

end Semrange
