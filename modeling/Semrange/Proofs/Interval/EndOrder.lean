import Semrange.Proofs.Interval.Guards

/-!
# The order of ends

Intersections and insertions decide by comparisons of ends, so these have to be orders that fit what
the ends admit. They turn around, for all ends (`compareLower_eq_swap`, `compareUpper_eq_swap`), and
at versions without wildcards they are transitive, since they are the comparisons of cuts. Of two
lower ends the one that does not come later admits all that the other one admits, and of two upper
ends the one that does not come earlier (`contains_above_of_compareLower`,
`contains_below_of_compareUpper`).

What an end admits is what the half-line that it bounds contains, and a span contains what both of its
ends admit (`contains_span`). Labels have no order: an end does not admit a label, unless the label is
written like the version at the end, which no label is that has been read (`End.Discerns`). Only where
there is no end are all labels admitted.
-/

namespace Semrange

/-! ## Turning around -/

/-- Two versions and then two flags turn around, also where versions have wildcards. -/
theorem compare_then_eq_swap (u v : Semantic) (i j : Bool) :
    (u.compare v).then (compare i j) = ((v.compare u).then (compare j i)).swap := by
  have hflags : compare i j = (compare j i).swap := Std.OrientedCmp.eq_swap
  rw [Ordering.swap_then, ← hflags, ← Semantic.compare_eq_swap]

/-- Two lower ends turn around. -/
theorem compareLower_eq_swap (e f : Option End) : compareLower e f = (compareLower f e).swap := by
  cases e with
  | none => cases f <;> rfl
  | some e =>
    cases f with
    | none => rfl
    | some f => exact compare_then_eq_swap e.version f.version f.inclusive e.inclusive

/-- Two upper ends turn around. -/
theorem compareUpper_eq_swap (e f : Option End) : compareUpper e f = (compareUpper f e).swap := by
  cases e with
  | none => cases f <;> rfl
  | some e =>
    cases f with
    | none => rfl
    | some f => exact compare_then_eq_swap e.version f.version e.inclusive f.inclusive

/-! ## Transitivity -/

section

variable {e f g : Option End} (he : End.ConcreteOrNone e) (hf : End.ConcreteOrNone f)
  (hg : End.ConcreteOrNone g)
include he hf hg

/-- The order of lower ends is transitive. -/
theorem compareLower_isLE_trans (h : (compareLower e f).isLE = true)
    (h' : (compareLower f g).isLE = true) : (compareLower e g).isLE = true :=
  isLE_trans_of_compares (compares_compareLower he hf) (compares_compareLower hf hg)
    (compares_compareLower he hg) h h'

/-- The order of upper ends is transitive. -/
theorem compareUpper_isLE_trans (h : (compareUpper e f).isLE = true)
    (h' : (compareUpper f g).isLE = true) : (compareUpper e g).isLE = true :=
  isLE_trans_of_compares (compares_compareUpper he hf) (compares_compareUpper hf hg)
    (compares_compareUpper he hg) h h'

end

-- An end at a wildcard is level with the ends of its whole line, which are in an order of their own.
example :
    let wildcard : Option End := some ⟨⟨1, [], true, none, none⟩, true⟩
    let patch (n : ℕ) : Option End := some ⟨⟨1, [n], false, none, none⟩, true⟩
    compareLower (patch 3) wildcard = .eq ∧ compareLower wildcard (patch 2) = .eq ∧
      compareLower (patch 3) (patch 2) = .gt := by decide

/-! ## What ends admit -/

/-- An end, or none, discerns the versions without wildcards, and the labels that are not written
like the version at the end. -/
def End.Discerns (e : Option End) : Version → Prop
  | .semantic v => v.wild = false
  | .label name => ∀ f ∈ e, f.version.text ≠ name

/-- An end that can be told from other versions by its text discerns the versions that can be. -/
theorem End.discerns_of_legible {e : Option End} (he : End.LegibleOrNone e) {v : Version}
    (hv : v.Legible) : End.Discerns e v := by
  cases v with
  | semantic u => exact hv.1
  | label name => exact fun f hf => Version.text_ne_of_malformed (he f hf).1 (he f hf).2 hv

/-- A missing lower end comes first, so what does not come after it is missing too. -/
theorem eq_none_of_compareLower_none {e : Option End} (h : (compareLower e none).isLE = true) :
    e = none := by
  cases e with
  | none => rfl
  | some e => exact absurd h Bool.false_ne_true

/-- A missing upper end comes last, so what does not come before it is missing too. -/
theorem eq_none_of_compareUpper_none {f : Option End} (h : (compareUpper none f).isLE = true) :
    f = none := by
  cases f with
  | none => rfl
  | some f => exact absurd h Bool.false_ne_true

namespace Interval

/-- A span contains the versions that both of its ends admit. -/
theorem contains_span (lower upper : Option End) (v : Version) :
    (span lower upper).contains v =
      ((span lower none).contains v && (span none upper).contains v) := by
  cases v with
  | semantic u =>
    show (admitsAbove lower u && admitsBelow upper u) =
      (admitsAbove lower u && true && (true && admitsBelow upper u))
    rw [Bool.and_true, Bool.true_and]
  | label name =>
    -- Of the bounds that a label is held against, each half-line has the one on its side.
    show ((span lower none).lower?.toList ++ (span none upper).upper?.toList).all _ =
      (((span lower none).lower?.toList ++ []).all _ &&
        ([] ++ (span none upper).upper?.toList).all _)
    rw [List.append_nil, List.nil_append, List.all_append]

/-- The half-line above a lower end contains the versions that the end admits. -/
theorem contains_above (e : Option End) (v : Semantic) :
    (span e none).contains (.semantic v) = admitsAbove e v :=
  Bool.and_true _

/-- The half-line below an upper end contains the versions that the end admits. -/
theorem contains_below (e : Option End) (v : Semantic) :
    (span none e).contains (.semantic v) = admitsBelow e v :=
  Bool.true_and _

/-- Where a half-line contains a label that its end discerns, the end is missing. -/
theorem eq_none_of_contains_label {e : Option End} {name : String}
    (hname : End.Discerns e (.label name))
    (h : (span e none).contains (.label name) = true ∨ (span none e).contains (.label name) = true) :
    e = none := by
  cases e with
  | none => rfl
  | some f =>
    have hne : (f.version.text == name) = false := beq_eq_false_iff_ne.mpr (hname f rfl)
    simp [contains, lower?, upper?, Version.text, hne] at h

section

variable {e f : Option End} (he : End.ConcreteOrNone e) (hf : End.ConcreteOrNone f)
include he hf

/-- A lower end that does not come after another one admits all that the other one admits. -/
theorem contains_above_of_compareLower (h : (compareLower e f).isLE = true) {v : Version}
    (hv : End.Discerns f v) (hmem : (span f none).contains v = true) :
    (span e none).contains v = true := by
  cases v with
  | semantic u =>
    have hcut : lowerCut e ≤ lowerCut f := (isLE_iff (compares_compareLower he hf)).mp h
    rw [contains_above, admitsAbove_iff hf hv] at hmem
    rw [contains_above, admitsAbove_iff he hv]
    exact hcut.trans hmem
  | label name =>
    -- Only a missing end admits the label, and only a missing end does not come after that.
    obtain rfl := eq_none_of_contains_label hv (Or.inl hmem)
    obtain rfl := eq_none_of_compareLower_none h
    exact hmem

/-- An upper end that does not come before another one admits all that the other one admits. -/
theorem contains_below_of_compareUpper (h : (compareUpper e f).isLE = true) {v : Version}
    (hv : End.Discerns e v) (hmem : (span none e).contains v = true) :
    (span none f).contains v = true := by
  cases v with
  | semantic u =>
    have hcut : upperCut e ≤ upperCut f := (isLE_iff (compares_compareUpper he hf)).mp h
    rw [contains_below, admitsBelow_iff he hv] at hmem
    rw [contains_below, admitsBelow_iff hf hv]
    exact hmem.trans_le hcut
  | label name =>
    -- Only a missing end admits the label, and only a missing end does not come before that.
    obtain rfl := eq_none_of_contains_label hv (Or.inr hmem)
    obtain rfl := eq_none_of_compareUpper_none h
    exact hmem

end

/-- The comparisons of the ends of spans without wildcards are total preorders that fit what the ends
admit. Both always have a result, turn around and are transitive. Where one lower end does not come
after another one, it admits all that the other one admits; where one upper end does not come after
another one, the other one admits all that it admits. A span contains just what both of its ends
admit. -/
theorem end_comparisons_sound {al au bl bu cl cu : Option End} (ha : (span al au).Concrete)
    (hb : (span bl bu).Concrete) (hc : (span cl cu).Concrete) :
    (Checked.compareMin (span al au) (span bl bu) = .ok (compareLower al bl) ∧
      compareLower al bl = (compareLower bl al).swap ∧
      ((compareLower al bl).isLE = true → (compareLower bl cl).isLE = true →
        (compareLower al cl).isLE = true) ∧
      ((compareLower al bl).isLE = true → ∀ v, End.Discerns bl v →
        (span bl none).contains v = true → (span al none).contains v = true)) ∧
      (Checked.compareMax (span al au) (span bl bu) = .ok (compareUpper au bu) ∧
        compareUpper au bu = (compareUpper bu au).swap ∧
        ((compareUpper au bu).isLE = true → (compareUpper bu cu).isLE = true →
          (compareUpper au cu).isLE = true) ∧
        ((compareUpper au bu).isLE = true → ∀ v, End.Discerns au v →
          (span none au).contains v = true → (span none bu).contains v = true)) ∧
      ∀ v, (span al au).contains v =
        ((span al none).contains v && (span none au).contains v) := by
  obtain ⟨hal, hau⟩ := ha
  obtain ⟨hbl, hbu⟩ := hb
  obtain ⟨hcl, hcu⟩ := hc
  refine ⟨⟨Checked.compareMin_span al au bl bu, compareLower_eq_swap al bl, ?_, ?_⟩,
    ⟨Checked.compareMax_span al au bl bu, compareUpper_eq_swap au bu, ?_, ?_⟩, contains_span al au⟩
  · exact compareLower_isLE_trans hal hbl hcl
  · exact fun h _ hv => contains_above_of_compareLower hal hbl h hv
  · exact compareUpper_isLE_trans hau hbu hcu
  · exact fun h _ hv => contains_below_of_compareUpper hau hbu h hv

/-- Two spans that start at one version and stop at another one, each written in two ways, of which
the first holds where it starts and the second where it stops, and a half-line from between. -/
theorem end_comparisons_sound_seams :
    let one : Semantic := ⟨1, [], false, none, none⟩
    let one' : Semantic := ⟨1, [0], false, none, some "x"⟩
    let two : Semantic := ⟨2, [], false, none, none⟩
    let two' : Semantic := ⟨2, [0, 0], false, none, none⟩
    let rc : Semantic := ⟨2, [], false, some "rc.1", none⟩
    let i := span (some ⟨one', true⟩) (some ⟨two', false⟩)
    let j := span (some ⟨one, false⟩) (some ⟨two, true⟩)
    let k := span (some ⟨rc, true⟩) none
    i.Concrete ∧ j.Concrete ∧ k.Concrete ∧ Checked.compareMin i j = .ok .lt ∧
      Checked.compareMax i j = .ok .lt ∧
      (compareLower (some ⟨one', true⟩) (some ⟨rc, true⟩)).isLE = true ∧
      (compareUpper (some ⟨two', false⟩) none).isLE = true ∧
      (span (some ⟨one', true⟩) none).contains (.semantic rc) = true ∧
      (span none (some ⟨two, true⟩)).contains (.semantic rc) = true := by
  intro one one' two two' rc i j k
  have hi : i.Concrete := ⟨End.concreteOrNone_some rfl, End.concreteOrNone_some rfl⟩
  have hj : j.Concrete := ⟨End.concreteOrNone_some rfl, End.concreteOrNone_some rfl⟩
  have hk : k.Concrete := ⟨End.concreteOrNone_some rfl, End.concreteOrNone_none⟩
  have hlower : compareLower (some ⟨one', true⟩) (some ⟨one, false⟩) = .lt := by decide
  have hupper : compareUpper (some ⟨two', false⟩) (some ⟨two, true⟩) = .lt := by decide
  obtain ⟨⟨hmin, -, hmintrans, hadmits⟩, ⟨hmax, -, hmaxtrans, hadmits'⟩, -⟩ :=
    end_comparisons_sound hi hj hk
  rw [hlower] at hmin hmintrans hadmits
  rw [hupper] at hmax hmaxtrans hadmits'
  exact ⟨hi, hj, hk, hmin, hmax, hmintrans rfl (by decide), hmaxtrans rfl rfl,
    hadmits rfl (.semantic rc) rfl (by decide), hadmits' rfl (.semantic rc) rfl (by decide)⟩

end Interval

end Semrange
