import Semrange.Proofs.Version.Rank

/-!
# The order of versions

Two versions turned around compare the other way around (`Version.compare_eq_swap`). That holds of
all versions, also of those with wildcards, whose comparison is no order, and of labels. Between
semantic versions without wildcards the comparison is a total preorder, since it is that of their
ranks, and two of them have one rank just when they agree in every component and have the same
identifiers behind it (`rank_eq_iff`).
-/

namespace Semrange

/-! ## Turning around -/

/-- Two places of a core turn around. -/
theorem Component.compare_eq_swap (k l : Component) : k.compare l = (l.compare k).swap := by
  cases k with
  | wildcard => cases l <;> rfl
  | number m =>
    cases l with
    | wildcard => rfl
    | number n =>
      show Ord.compare m n = (Ord.compare n m).swap
      exact Std.OrientedCmp.eq_swap

namespace Semantic

/-- Behind a core that has ended, the other one meets the pad. -/
theorem compareCores_nil (padA padB : Component) (l : List ℕ) :
    compareCores padA padB l [] = (comparePad padB l).swap := by
  induction l with
  | nil => rfl
  | cons a l ih =>
    rw [compareCores, comparePad, ih, Ordering.swap_then, Component.compare_eq_swap]

/-- Two cores turn around, whatever their pads. -/
theorem compareCores_eq_swap (padA padB : Component) (l m : List ℕ) :
    compareCores padA padB l m = (compareCores padB padA m l).swap := by
  induction l generalizing m with
  | nil => rw [compareCores_nil, Ordering.swap_swap, compareCores]
  | cons a l ih =>
    cases m with
    | nil => exact compareCores_nil padA padB (a :: l)
    | cons b m =>
      have hhead : Ord.compare a b = (Ord.compare b a).swap := Std.OrientedCmp.eq_swap
      rw [compareCores, compareCores, hhead, ih, Ordering.swap_then]

/-- Two prereleases turn around. -/
theorem comparePrereleases_eq_swap (p q : String) :
    comparePrereleases p q = (comparePrereleases q p).swap := by
  -- Both comparisons are right for the same keys.
  have hpq := compares_map compares_compareIdentifiers (identifiers p) (identifiers q)
  have hqp := compares_map compares_compareIdentifiers (identifiers q) (identifiers p)
  exact hpq.inj (Ordering.compares_swap.mpr hqp)

/-- What follows two cores turns around, whether or not a wildcard is near. -/
theorem compareStages_eq_swap (lenient : Bool) (p q : Option String) :
    compareStages lenient p q = (compareStages lenient q p).swap := by
  cases p with
  | none => cases q <;> cases lenient <;> rfl
  | some p =>
    cases q with
    | none => cases lenient <;> rfl
    | some q => exact comparePrereleases_eq_swap p q

/-- Two semantic versions turn around, with or without wildcards. -/
theorem compare_eq_swap (a b : Semantic) : a.compare b = (b.compare a).swap := by
  unfold Semantic.compare
  rw [Ordering.swap_then, compareCores_eq_swap, compareStages_eq_swap, Bool.or_comm]

end Semantic

/-- Two versions turned around compare the other way around. -/
theorem Version.compare_eq_swap (u v : Version) : u.compare v = (v.compare u).swap := by
  have htext : Ord.compare u.text v.text = (Ord.compare v.text u.text).swap :=
    Std.OrientedCmp.eq_swap
  cases u with
  | semantic a =>
    cases v with
    | semantic b => exact a.compare_eq_swap b
    | label t => exact htext
  | label s => cases v <;> exact htext

namespace Semantic

/-! ## Versions of one rank -/

/-- No two identifiers stand at one place. -/
theorem standing_injective : Function.Injective standing :=
  fun _ _ h => congrArg (fun k => (ofLex (ofLex k).2).2) h

/-- Two stages are one when neither has a prerelease, or both have one with the same
identifiers. -/
theorem stage_eq_iff (p q : Option String) :
    stage p = stage q ↔ p.map identifiers = q.map identifiers := by
  cases p with
  | none =>
    cases q with
    | none => exact iff_of_true rfl rfl
    | some q => exact iff_of_false nofun nofun
  | some p =>
    cases q with
    | none => exact iff_of_false nofun nofun
    | some q =>
      -- Two prereleases stand at one place when their identifiers do, one after the other.
      have hmap := standing_injective.list_map.eq_iff (a := identifiers p) (b := identifiers q)
      rw [Option.map_some, Option.map_some, Option.some_inj, ← hmap]
      exact WithTop.coe_inj

/-- Two versions without wildcards have one rank when they agree in every component and have the
same identifiers in their prereleases, or none of them a prerelease. -/
theorem rank_eq_iff {a b : Semantic} (ha : a.wild = false) (hb : b.wild = false) :
    a.rank = b.rank ↔ (∀ pos, a.component pos = b.component pos) ∧
      a.prerelease.map identifiers = b.prerelease.map identifiers := by
  rw [← place_eq_iff ha hb, ← stage_eq_iff]
  exact toLex_inj.trans Prod.mk_inj

/-- Without wildcards the comparison of semantic versions is transitive and total, and equal are
those that agree in every component and have the same identifiers in their prereleases, or none of
them a prerelease; the builds play no part. All versions, of any kind, turn around. -/
theorem compare_total_preorder {a b c : Semantic} (ha : a.wild = false) (hb : b.wild = false)
    (hc : c.wild = false) :
    ((a.compare b).isLE = true → (b.compare c).isLE = true → (a.compare c).isLE = true) ∧
      ((a.compare b).isLE = true ∨ (b.compare a).isLE = true) ∧
      (a.compare b = .eq ↔ (∀ pos, a.component pos = b.component pos) ∧
        a.prerelease.map identifiers = b.prerelease.map identifiers) ∧
      (∀ p q, { a with build := p }.compare { b with build := q } = a.compare b) ∧
      ∀ u v : Version, u.compare v = (v.compare u).swap := by
  have hab := compares_rank ha hb
  refine ⟨fun hle hle' => ?_, ?_, ?_, fun _ _ => rfl, Version.compare_eq_swap⟩
  · -- The ranks are in a linear order.
    rw [isLE_iff hab] at hle
    rw [isLE_iff (compares_rank hb hc)] at hle'
    exact (isLE_iff (compares_rank ha hc)).mpr (hle.trans hle')
  · rw [isLE_iff hab, isLE_iff (compares_rank hb ha)]
    exact le_total a.rank b.rank
  · exact hab.eq_eq.trans (rank_eq_iff ha hb)

/-- Two ways to write one prerelease, and its release. -/
theorem compare_total_preorder_release :
    let a : Semantic := ⟨1, [0], false, some "rc.1", some "linux"⟩
    let b : Semantic := ⟨1, [], false, some "rc..1", none⟩
    let c : Semantic := ⟨1, [0, 0], false, none, none⟩
    a.compare b = .eq ∧ b.compare c = .lt ∧ (a.compare c).isLE = true ∧
      (∀ pos, a.component pos = b.component pos) ∧
      (Version.semantic a).compare (.label "1.0") =
        ((Version.label "1.0").compare (.semantic a)).swap := by
  intro a b c
  obtain ⟨htrans, -, heq, -, hswap⟩ :=
    compare_total_preorder (a := a) (b := b) (c := c) rfl rfl rfl
  have hab : a.compare b = .eq := by decide
  have hbc : b.compare c = .lt := by decide
  exact ⟨hab, hbc, htrans (by rw [hab]; rfl) (by rw [hbc]; rfl), (heq.mp hab).1, hswap _ _⟩

end Semantic

end Semrange
