import Mathlib.Order.Interval.Set.LinearOrder
import Semrange.Interval.Basic
import Semrange.Proofs.Version.Rank

/-!
# The ends of an interval as cuts

A cut parts the versions into those before it and those past it: it lies just before all versions
of a rank or just past them, or at one of the two extremes. A lower end that holds its version cuts
before it and one that does not cuts past it, an upper end the other way around, and a missing end
cuts nothing off (`lowerCut`, `upperCut`). With that all comparisons between ends are comparisons in
one linear order: an interval holds a version when the cut before the version is not below its lower
cut and is below its upper cut (`admitsAbove_iff`, `admitsBelow_iff`), and two ends leave a gap
between them, or no room, when their cuts say so (`reaches_iff`, `leavesRoom_iff`).
-/

namespace Semrange

open Ordering (Compares)
open Semantic (Rank compares_rank)

/-! ## Cuts -/

/-- A place between versions: at an extreme, or just before or just past all versions of a rank. -/
def Cut : Type :=
  WithBot (WithTop (Rank ×ₗ Bool))

noncomputable instance : LinearOrder Cut :=
  inferInstanceAs (LinearOrder (WithBot (WithTop (Rank ×ₗ Bool))))

noncomputable instance : BoundedOrder Cut :=
  inferInstanceAs (BoundedOrder (WithBot (WithTop (Rank ×ₗ Bool))))

instance : Nontrivial Cut :=
  ⟨⊥, ⊤, (WithBot.bot_lt_coe _).ne⟩

namespace Cut

/-- The cut just before a rank, or the one just past it. -/
def beside (r : Rank) (past : Bool) : Cut :=
  WithBot.some (WithTop.some (toLex (r, past)))

/-- Cuts compare by their ranks first; at one rank the cut before it comes first. -/
theorem beside_lt_beside {r s : Rank} {p q : Bool} :
    beside r p < beside s q ↔ r < s ∨ r = s ∧ p < q := by
  unfold beside
  exact WithBot.coe_lt_coe.trans (WithTop.coe_lt_coe.trans Prod.Lex.toLex_lt_toLex)

/-- Cuts compare by their ranks first; at one rank the cut before it comes first. -/
theorem beside_le_beside {r s : Rank} {p q : Bool} :
    beside r p ≤ beside s q ↔ r < s ∨ r = s ∧ p ≤ q := by
  unfold beside
  exact WithBot.coe_le_coe.trans (WithTop.coe_le_coe.trans Prod.Lex.toLex_le_toLex)

/-- No cut beside a rank is the lower extreme. -/
theorem bot_lt_beside (r : Rank) (p : Bool) : ⊥ < beside r p :=
  WithBot.bot_lt_coe _

/-- No cut beside a rank is the upper extreme. -/
theorem beside_lt_top (r : Rank) (p : Bool) : beside r p < ⊤ :=
  WithBot.coe_lt_coe.mpr (WithTop.coe_lt_top _)

/-- A comparison of ranks and then of sides is right for cuts. -/
theorem compares_beside {o u : Ordering} {r s : Rank} {p q : Bool} (ho : o.Compares r s)
    (hu : u.Compares p q) : (o.then u).Compares (beside r p) (beside s q) := by
  have h := compares_toLex ho hu
  cases hc : o.then u with
  | lt =>
    rw [hc] at h
    exact WithBot.coe_lt_coe.mpr (WithTop.coe_lt_coe.mpr h)
  | gt =>
    rw [hc] at h
    exact WithBot.coe_lt_coe.mpr (WithTop.coe_lt_coe.mpr h)
  | eq =>
    rw [hc] at h
    exact congrArg (fun x => WithBot.some (WithTop.some x)) h

end Cut

/-- The cut just before a version. -/
def Semantic.cut (v : Semantic) : Cut :=
  Cut.beside v.rank false

/-- Where a lower end, or none, cuts. -/
noncomputable def lowerCut : Option End → Cut
  | none => ⊥
  | some e => Cut.beside e.version.rank !e.inclusive

/-- Where an upper end, or none, cuts. -/
noncomputable def upperCut : Option End → Cut
  | none => ⊤
  | some e => Cut.beside e.version.rank e.inclusive

/-- A lower end cuts below the upper extreme. -/
theorem lowerCut_lt_top (e : Option End) : lowerCut e < ⊤ := by
  cases e with
  | none => exact bot_lt_top
  | some e => exact Cut.beside_lt_top _ _

/-- An upper end cuts above the lower extreme. -/
theorem bot_lt_upperCut (e : Option End) : ⊥ < upperCut e := by
  cases e with
  | none => exact bot_lt_top
  | some e => exact Cut.bot_lt_beside _ _

/-- Only a missing lower end cuts at the lower extreme. -/
theorem lowerCut_eq_bot {e : Option End} : lowerCut e = ⊥ ↔ e = none := by
  cases e with
  | none => exact iff_of_true rfl rfl
  | some e => exact iff_of_false (Cut.bot_lt_beside _ _).ne' nofun

/-- Only a missing upper end cuts at the upper extreme. -/
theorem upperCut_eq_top {e : Option End} : upperCut e = ⊤ ↔ e = none := by
  cases e with
  | none => exact iff_of_true rfl rfl
  | some e => exact iff_of_false (Cut.beside_lt_top _ _).ne nofun

/-- An upper end that cuts below something is there. -/
theorem exists_of_upperCut_lt {e : Option End} {x : Cut} (h : upperCut e < x) :
    ∃ f, e = some f := by
  cases e with
  | none => exact absurd h not_top_lt
  | some f => exact ⟨f, rfl⟩

/-- An upper end that does not cut above one that is there is there. -/
theorem isSome_of_upperCut_le {e : Option End} {f : End} (h : upperCut e ≤ upperCut (some f)) :
    e.isSome = true := by
  have hlt : upperCut e < ⊤ := h.trans_lt (Cut.beside_lt_top _ _)
  exact Option.isSome_iff_exists.mpr (exists_of_upperCut_lt hlt)

/-- An end that is flipped twice is the one it was. -/
theorem End.flip_flip (e : End) : e.flip.flip = e := by
  cases e with
  | mk version inclusive => exact congrArg (End.mk version) (Bool.not_not inclusive)

/-- An end on the other side of its version cuts at the same place from the other side. -/
theorem upperCut_flip (e : End) : upperCut (some e.flip) = lowerCut (some e) :=
  rfl

/-- An end on the other side of its version cuts at the same place from the other side. -/
theorem lowerCut_flip (e : End) : lowerCut (some e.flip) = upperCut (some e) := by
  rw [← upperCut_flip, End.flip_flip]

/-- A lower end that holds its version cuts below the versions at or above it, and one that does not
below the versions above it. -/
theorem lowerCut_le_cut_iff {e : End} {v : Semantic} :
    lowerCut (some e) ≤ v.cut ↔
      if e.inclusive then e.version.rank ≤ v.rank else e.version.rank < v.rank := by
  unfold lowerCut Semantic.cut
  rw [Cut.beside_le_beside]
  cases e.inclusive with
  | true => simp [le_iff_lt_or_eq]
  | false => simp

/-- An upper end that holds its version cuts past the versions at or below it, and one that does not
past the versions below it. -/
theorem cut_lt_upperCut_iff {e : End} {v : Semantic} :
    v.cut < upperCut (some e) ↔
      if e.inclusive then v.rank ≤ e.version.rank else v.rank < e.version.rank := by
  unfold upperCut Semantic.cut
  rw [Cut.beside_lt_beside]
  cases e.inclusive with
  | true => simp [le_iff_lt_or_eq]
  | false => simp

/-! ## Comparisons between ends -/

/-- Negation turns the comparison of flags around. -/
theorem compares_not (i j : Bool) : (Ord.compare j i).Compares (!i) (!j) := by
  cases i with
  | false =>
    cases j with
    | false => exact rfl
    | true => exact Bool.false_lt_true
  | true =>
    cases j with
    | false => exact Bool.false_lt_true
    | true => exact rfl

/-- The end, if there is one, is at a version without wildcards. -/
def End.ConcreteOrNone (e : Option End) : Prop :=
  ∀ f ∈ e, f.version.wild = false

/-- Where there is no end, nothing is asked of it. -/
theorem End.concreteOrNone_none : End.ConcreteOrNone none :=
  fun f hf => absurd hf (Option.not_mem_none f)

/-- An end that is there is at a version without wildcards when its version has none. -/
theorem End.concreteOrNone_some {e : End} (h : e.version.wild = false) :
    End.ConcreteOrNone (some e) := by
  rintro f ⟨⟩
  exact h

/-- An end is at a wildcard when it is flipped if it is before. -/
theorem End.concreteOrNone_of_flip {e : Option End} (h : End.ConcreteOrNone (e.map End.flip)) :
    End.ConcreteOrNone e := by
  rintro f rfl
  exact h f.flip rfl

section

variable {e f : Option End} (he : End.ConcreteOrNone e) (hf : End.ConcreteOrNone f)
include he

/-- A lower end admits the versions that it cuts before. -/
theorem admitsAbove_iff {v : Semantic} (hv : v.wild = false) :
    admitsAbove e v = true ↔ lowerCut e ≤ v.cut := by
  cases e with
  | none => exact iff_of_true rfl bot_le
  | some e =>
    have h := compares_rank hv (he e rfl)
    unfold lowerCut Semantic.cut
    rw [Cut.beside_le_beside]
    cases hc : v.compare e.version with
    | lt =>
      rw [hc] at h
      simp [admitsAbove, hc, h.asymm, h.ne']
    | eq =>
      -- At the rank of the end the side of the cut decides.
      rw [hc] at h
      cases hi : e.inclusive <;> simp [admitsAbove, hc, hi, h.symm]
    | gt =>
      rw [hc] at h
      simp [admitsAbove, hc, show e.version.rank < v.rank from h]

/-- An upper end admits the versions that it cuts past. -/
theorem admitsBelow_iff {v : Semantic} (hv : v.wild = false) :
    admitsBelow e v = true ↔ v.cut < upperCut e := by
  cases e with
  | none => exact iff_of_true rfl (Cut.beside_lt_top _ _)
  | some e =>
    have h := compares_rank hv (he e rfl)
    unfold upperCut Semantic.cut
    rw [Cut.beside_lt_beside]
    cases hc : v.compare e.version with
    | lt =>
      rw [hc] at h
      simp [admitsBelow, hc, show v.rank < e.version.rank from h]
    -- At the version of the end it depends on whether the end takes it in.
    | eq =>
      rw [hc] at h
      cases hi : e.inclusive <;>
        simp [admitsBelow, hc, hi, show v.rank = e.version.rank from h]
    | gt =>
      rw [hc] at h
      simp [admitsBelow, hc, h.asymm, h.ne']

include hf

/-- The comparison of lower ends is that of their cuts. -/
theorem compares_compareLower : (compareLower e f).Compares (lowerCut e) (lowerCut f) := by
  cases e with
  | none =>
    cases f with
    | none => exact rfl
    | some f => exact Cut.bot_lt_beside _ _
  | some e =>
    cases f with
    | none => exact Cut.bot_lt_beside _ _
    | some f =>
      exact Cut.compares_beside (compares_rank (he e rfl) (hf f rfl)) (compares_not _ _)

/-- The comparison of upper ends is that of their cuts. -/
theorem compares_compareUpper : (compareUpper e f).Compares (upperCut e) (upperCut f) := by
  cases e with
  | none =>
    cases f with
    | none => exact rfl
    | some f => exact Cut.beside_lt_top _ _
  | some e =>
    cases f with
    | none => exact Cut.beside_lt_top _ _
    | some f =>
      exact Cut.compares_beside (compares_rank (he e rfl) (hf f rfl)) (compares_compare _ _)

/-- An upper end reaches a lower end when nothing lies between their cuts. -/
theorem reaches_iff : reaches e f = true ↔ lowerCut f ≤ upperCut e := by
  cases e with
  | none => exact iff_of_true rfl le_top
  | some e =>
    cases f with
    | none => exact iff_of_true rfl bot_le
    | some f =>
      have h := compares_rank (he e rfl) (hf f rfl)
      unfold lowerCut upperCut
      rw [Cut.beside_le_beside]
      cases hc : e.version.compare f.version with
      | lt =>
        rw [hc] at h
        simp [reaches, hc, h.asymm, h.ne']
      | eq =>
        -- Where the versions meet, one of the ends has to hold them.
        rw [hc] at h
        cases hi : e.inclusive <;> cases hj : f.inclusive <;>
          simp [reaches, hc, show e.version.rank = f.version.rank from h, hi, hj]
      | gt =>
        rw [hc] at h
        simp [reaches, hc, show f.version.rank < e.version.rank from h]

/-- There is room between two ends when the lower one cuts before the upper one. -/
theorem leavesRoom_iff : leavesRoom e f = true ↔ lowerCut e < upperCut f := by
  cases e with
  | none => exact iff_of_true rfl (bot_lt_upperCut f)
  | some e =>
    cases f with
    | none => exact iff_of_true rfl (Cut.beside_lt_top _ _)
    | some f =>
      have h := compares_rank (he e rfl) (hf f rfl)
      unfold lowerCut upperCut
      rw [Cut.beside_lt_beside]
      cases hc : e.version.compare f.version with
      | lt =>
        rw [hc] at h
        simp [leavesRoom, hc, show e.version.rank < f.version.rank from h]
      | eq =>
        -- Where the versions meet, both ends have to hold them.
        rw [hc] at h
        cases hi : e.inclusive <;> cases hj : f.inclusive <;>
          simp [leavesRoom, hc, show e.version.rank = f.version.rank from h, hi, hj]
      | gt =>
        rw [hc] at h
        simp [leavesRoom, hc, h.asymm, h.ne']

end

end Semrange
