import Semrange.Proofs.Interval.Provenance
import Semrange.Proofs.Version.RoundTrip

/-!
# What an intersection contains

Two intervals share just the versions that both contain, labels included (`contains_intersect`).
Where a label is involved, membership goes by the texts of the bounds, so the bounds and the version
have to be ones that their texts tell apart (`Legible`). Then a span with an end contains no label,
an interval around a label contains no semantic version, and of the labels at most its own.
-/

namespace Semrange

/-! ## Reaches -/

namespace Reach

/-- An end that two reaches share admits the label when both of its parts do. -/
theorem getD_meetFlags (i j : Option Bool) :
    (meetFlags i j).getD true = (i.getD true && j.getD true) := by
  cases i with
  | none => exact (Bool.true_and _).symm
  | some i =>
    cases j with
    | none => exact (Bool.and_true i).symm
    | some j => rfl

/-- A reach has its label when its ends admit it. -/
theorem point_coverage (r : Reach) :
    r.coverage.point = (r.lower?.getD true && r.upper?.getD true) := by
  cases r with
  | below inclusive => rfl
  | above inclusive => exact (Bool.and_true inclusive).symm
  | within lower upper => rfl

/-- A reach is made of flags when there is one of them, and has its label when they admit it. -/
theorem exists_ofFlags_iff (i j : Option Bool) :
    (∃ r, ofFlags i j = some r ∧ r.coverage.point = true) ↔
      (i.isSome = true ∨ j.isSome = true) ∧ (i.getD true && j.getD true) = true := by
  cases i with
  | none =>
    cases j with
    | none => simp [ofFlags]
    | some j => simp [ofFlags, coverage]
  | some i =>
    cases j with
    | none => simp [ofFlags, coverage]
    | some j => cases i <;> cases j <;> simp [ofFlags, coverage]

/-- A reach has an end. -/
theorem isSome_lower?_or_upper? (r : Reach) : r.lower?.isSome = true ∨ r.upper?.isSome = true := by
  cases r with
  | below inclusive => exact Or.inr rfl
  | above inclusive => exact Or.inl rfl
  | within lower upper => exact Or.inl rfl

/-- The flags of a reach make a reach with its label if it has it. -/
theorem exists_ofFlags_self_iff (r : Reach) :
    (∃ q, ofFlags r.lower? r.upper? = some q ∧ q.coverage.point = true) ↔
      r.coverage.point = true := by
  rw [exists_ofFlags_iff, point_coverage]
  exact and_iff_right r.isSome_lower?_or_upper?

/-- An end of what two reaches share is there. -/
theorem isSome_meetFlags (r s : Reach) :
    (meetFlags r.lower? s.lower?).isSome = true ∨ (meetFlags r.upper? s.upper?).isSome = true := by
  cases r <;> cases s <;> simp [meetFlags, lower?, upper?]

/-- Two reaches share one with the label when both have it. -/
theorem exists_intersect_iff (r s : Reach) :
    (∃ q, r.intersect s = some q ∧ q.coverage.point = true) ↔
      r.coverage.point = true ∧ s.coverage.point = true := by
  unfold intersect
  rw [exists_ofFlags_iff, getD_meetFlags, getD_meetFlags, and_iff_right (r.isSome_meetFlags s),
    point_coverage, point_coverage]
  simp only [Bool.and_eq_true]
  exact and_and_and_comm

end Reach

/-- The end, if there is one, can be told from other versions by its text. -/
def End.LegibleOrNone (e : Option End) : Prop :=
  ∀ f ∈ e, Version.Legible (.semantic f.version)

namespace Interval

/-! ## Bounds -/

/-- The bounds can be told from other versions by their texts. -/
def Legible (i : Interval) : Prop :=
  ∀ b ∈ i.bounds, b.version.Legible

/-- A span is legible when its ends are. -/
theorem legible_span_iff {lower upper : Option End} :
    (span lower upper).Legible ↔ End.LegibleOrNone lower ∧ End.LegibleOrNone upper :=
  forall_bounds_span

/-- An interval around a label is legible when the label is. -/
theorem legible_around_iff {name : String} {reach : Reach} :
    (around name reach).Legible ↔ (Version.label name).Legible :=
  forall_bounds_around

/-- What is made of legible intervals is legible. -/
theorem inherited_legible : Inherited Legible :=
  inherited_bounds fun _ h => h.1

/-- A legible span has no wildcards. -/
theorem Legible.concrete {i : Interval} (h : i.Legible) : i.Concrete :=
  inherited_legible.concrete h

/-! ## Membership of labels, and around labels -/

section

variable {v : Version} (hv : v.Legible)
include hv

/-- Of labels, a span contains all if it has no ends, and none otherwise. -/
theorem contains_span_label {lower upper : Option End} (hi : (span lower upper).Legible)
    (hlabel : v.isSemantic = false) :
    (span lower upper).contains v = true ↔ lower = none ∧ upper = none := by
  cases v with
  | semantic u => exact absurd hlabel.symm Bool.false_ne_true
  | label name =>
    -- What is compared are texts, and no version at an end is written like a label.
    have hne : ∀ e : End, Version.Legible (.semantic e.version) →
        (e.version.text == name) = false :=
      fun e he => beq_eq_false_iff_ne.mpr (Version.text_ne_of_malformed he.1 he.2 hv)
    obtain ⟨hlower, hupper⟩ := legible_span_iff.mp hi
    cases lower with
    | none =>
      cases upper with
      | none => exact iff_of_true rfl ⟨rfl, rfl⟩
      | some f =>
        refine iff_of_false ?_ fun h => Option.some_ne_none f h.2
        simp [contains, lower?, upper?, Version.text, hne f (hupper f rfl)]
    | some e =>
      refine iff_of_false ?_ fun h => Option.some_ne_none e h.1
      simp [contains, lower?, upper?, Version.text, hne e (hlower e rfl)]

/-- An interval around a label contains at most that label, and contains it if its reach has it. -/
theorem contains_around {name : String} {reach : Reach} (hi : (around name reach).Legible) :
    (around name reach).contains v = true ↔
      v = .label name ∧ reach.coverage.point = true := by
  have htext : (name == v.text) = true ↔ v = .label name := by
    rw [beq_iff_eq]
    constructor
    · intro h
      exact (Version.eq_of_text_eq (legible_around_iff.mp hi) hv h).symm
    · rintro rfl
      rfl
  have hcontains : (around name reach).contains v =
      ((name == v.text) && reach.coverage.point) := by
    have hall : (around name reach).contains v =
        (around name reach).bounds.all fun b => b.inclusive && b.version.text == v.text := by
      cases v <;> rfl
    -- All bounds are at the one label, so only their flags differ.
    rw [hall]
    cases reach with
    | below inclusive =>
      show (inclusive && name == v.text && true) = (name == v.text && inclusive)
      rw [Bool.and_true, Bool.and_comm]
    | above inclusive =>
      show (inclusive && name == v.text && true) = (name == v.text && inclusive)
      rw [Bool.and_true, Bool.and_comm]
    | within lower upper =>
      show (lower && name == v.text && (upper && name == v.text && true)) =
        (name == v.text && (lower && upper))
      cases name == v.text <;> simp
  rw [hcontains, Bool.and_eq_true, htext]

end

/-! ## Intersections -/

section

variable {v : Version} (hv : v.Legible)
include hv

/-- Two spans share the versions that both contain. -/
theorem contains_intersect_spans {al au bl bu : Option End} (hi : (span al au).Legible)
    (hj : (span bl bu).Legible) :
    (∃ k, (span al au).intersect (span bl bu) = some k ∧ k.contains v = true) ↔
      (span al au).contains v = true ∧ (span bl bu).contains v = true := by
  cases hlabel : v.isSemantic with
  | true =>
    cases v with
    | label name => exact absurd hlabel nofun
    | semantic u =>
      -- Semantic versions are contained by their cuts.
      have hci : (span al au).isSemantic = true ∧ (span al au).Concrete := ⟨rfl, hi.concrete⟩
      have hcj : (span bl bu).isSemantic = true ∧ (span bl bu).Concrete := ⟨rfl, hj.concrete⟩
      have hshared : ∀ k ∈ ((span al au).intersect (span bl bu)).toList,
          k.isSemantic = true ∧ k.Concrete :=
        fun k hk => concrete_intersect hci hcj (Option.mem_toList.mp hk)
      have hexists := exists_contains_iff hshared hv.1
      simp only [Option.mem_toList] at hexists
      rw [hexists, extentOf_intersect hci hcj, contains_iff hci.1 hci.2 hv.1,
        contains_iff hcj.1 hcj.2 hv.1]
      exact Iff.rfl
  | false =>
    -- A label is in none but the span of all versions, and only two of these share one.
    rw [contains_span_label hv hi hlabel, contains_span_label hv hj hlabel]
    constructor
    · rintro ⟨k, hk, hc⟩
      have hlegible := inherited_legible.intersect hi hj hk
      cases shared_of_intersect hi.concrete hj.concrete hk with
      | span lower upper _ _ hl hu =>
        obtain ⟨rfl, rfl⟩ := (contains_span_label hv hlegible hlabel).mp hc
        obtain ⟨hal, hbl⟩ := sup_le_iff.mp hl.ge
        obtain ⟨hau, hbu⟩ := le_inf_iff.mp hu.le
        exact ⟨⟨lowerCut_eq_bot.mp (le_bot_iff.mp hal), upperCut_eq_top.mp (top_le_iff.mp hau)⟩,
          lowerCut_eq_bot.mp (le_bot_iff.mp hbl), upperCut_eq_top.mp (top_le_iff.mp hbu)⟩
    · rintro ⟨⟨rfl, rfl⟩, rfl, rfl⟩
      exact ⟨all, rfl, (contains_span_label hv hi hlabel).mpr ⟨rfl, rfl⟩⟩

/-- Of an interval around a label that may be missing, the version must be the label and the reach
must have it. -/
theorem contains_map_around {name : String} (hname : (Version.label name).Legible)
    (o : Option Reach) :
    (∃ k, o.map (around name) = some k ∧ k.contains v = true) ↔
      v = .label name ∧ ∃ q, o = some q ∧ q.coverage.point = true := by
  constructor
  · rintro ⟨k, hk, hc⟩
    obtain ⟨q, hq, rfl⟩ := Option.map_eq_some_iff.mp hk
    obtain ⟨hv', hpoint⟩ := (contains_around hv (legible_around_iff.mpr hname)).mp hc
    exact ⟨hv', q, hq, hpoint⟩
  · rintro ⟨hv', q, rfl, hpoint⟩
    have hc := (contains_around hv (legible_around_iff.mpr hname)).mpr ⟨hv', hpoint⟩
    exact ⟨around name q, rfl, hc⟩

/-- A span and an interval around a label share the versions that both contain. -/
theorem contains_intersect_span_around {lower upper : Option End} {name : String} {reach : Reach}
    (hi : (span lower upper).Legible) (hj : (around name reach).Legible) :
    (∃ k, (span lower upper).intersect (around name reach) = some k ∧ k.contains v = true) ↔
      (span lower upper).contains v = true ∧ (around name reach).contains v = true := by
  rw [intersect_span_around, contains_around hv hj]
  by_cases hall : lower = none ∧ upper = none
  · -- The span contains everything, so the other interval decides.
    rw [if_pos hall, contains_map_around hv (legible_around_iff.mp hj),
      Reach.exists_ofFlags_self_iff]
    constructor
    · rintro ⟨rfl, hpoint⟩
      exact ⟨(contains_span_label hv hi rfl).mpr hall, rfl, hpoint⟩
    · exact And.right
  · -- The span has an end, so it contains no label.
    rw [if_neg hall]
    refine iff_of_false (fun ⟨k, hk, _⟩ => absurd hk nofun) ?_
    rintro ⟨hc, rfl, -⟩
    exact hall ((contains_span_label hv hi rfl).mp hc)

/-- Two intervals around labels share the versions that both contain. -/
theorem contains_intersect_arounds {s t : String} {r q : Reach} (hi : (around s r).Legible)
    (hj : (around t q).Legible) :
    (∃ k, (around s r).intersect (around t q) = some k ∧ k.contains v = true) ↔
      (around s r).contains v = true ∧ (around t q).contains v = true := by
  rw [contains_around hv hi, contains_around hv hj]
  show (∃ k, (if s = t then (r.intersect q).map (around s) else none) = some k ∧ _) ↔ _
  -- Each contains at most its own label.
  by_cases hname : s = t
  · rw [if_pos hname, contains_map_around hv (legible_around_iff.mp hi), Reach.exists_intersect_iff,
      ← hname]
    exact and_and_left
  · rw [if_neg hname]
    refine iff_of_false (fun ⟨k, hk, _⟩ => absurd hk nofun) ?_
    rintro ⟨⟨hs, -⟩, ht, -⟩
    exact hname (Version.label.inj (hs.symm.trans ht))

/-- Two intervals share the versions that both contain. -/
theorem contains_intersect {i j : Interval} (hi : i.Legible) (hj : j.Legible) :
    (∃ k, i.intersect j = some k ∧ k.contains v = true) ↔
      i.contains v = true ∧ j.contains v = true := by
  cases i with
  | span al au =>
    cases j with
    | span bl bu => exact contains_intersect_spans hv hi hj
    | around t q => exact contains_intersect_span_around hv hi hj
  | around s r =>
    cases j with
    | span bl bu =>
      rw [intersect_around_span, and_comm]
      exact contains_intersect_span_around hv hj hi
    | around t q => exact contains_intersect_arounds hv hi hj

end

/-! ## Intervals between given bounds -/

/-- The bound, if there is one, is at a version that has been read where wildcards are not
allowed. -/
def ReadOrNone (b : Option Bound) : Prop :=
  ∀ c ∈ b, ∃ s, Version.parse false s = .ok c.version

/-- Where there is no bound, nothing has to be read. -/
theorem readOrNone_none : ReadOrNone none :=
  fun c hc => absurd hc (Option.not_mem_none c)

/-- A bound is at a version that has been read when its version has been. -/
theorem readOrNone_of_parse {s : String} {v : Version} (h : Version.parse false s = .ok v)
    (inclusive : Bool) : ReadOrNone (some ⟨v, inclusive⟩) := by
  rintro c ⟨⟩
  exact ⟨s, h⟩

/-- An interval has the bounds that it was made from. -/
theorem bounds_of_ofBounds {lower upper : Option Bound} {i : Interval}
    (h : ofBounds lower upper = .ok i) : i.lower? = lower ∧ i.upper? = upper := by
  rcases lower with _ | ⟨a | s, p⟩
  · rcases upper with _ | ⟨b | t, q⟩ <;> cases h <;> exact ⟨rfl, rfl⟩
  · rcases upper with _ | ⟨b | t, q⟩
    · cases h
      exact ⟨rfl, rfl⟩
    · cases (ite_error_eq_ok.mp h).2
      exact ⟨rfl, rfl⟩
    · exact absurd h nofun
  · rcases upper with _ | ⟨b | t, q⟩
    · cases h
      exact ⟨rfl, rfl⟩
    · exact absurd h nofun
    · -- Two labels bound an interval only if they are one.
      obtain ⟨rfl, hok⟩ := ite_else_error_eq_ok.mp h
      cases hok
      exact ⟨rfl, rfl⟩

/-- An interval between bounds that have been read is legible. -/
theorem legible_of_ofBounds {lower upper : Option Bound} {i : Interval}
    (h : ofBounds lower upper = .ok i) (hl : ReadOrNone lower) (hu : ReadOrNone upper) :
    i.Legible := by
  obtain ⟨rfl, rfl⟩ := bounds_of_ofBounds h
  refine List.forall_mem_append.mpr ⟨fun b hb => ?_, fun b hb => ?_⟩
  · obtain ⟨s, hs⟩ := hl b (Option.mem_toList.mp hb)
    exact Version.legible_of_parse_false hs
  · obtain ⟨s, hs⟩ := hu b (Option.mem_toList.mp hb)
    exact Version.legible_of_parse_false hs

/-- Intersections are exact: two intervals between bounds that have been read, semantic or labels,
share an interval that contains a version that has been read just when both contain it. -/
theorem intersection_exact {al au bl bu : Option Bound} {i j : Interval}
    (hi : ofBounds al au = .ok i) (hj : ofBounds bl bu = .ok j) (hal : ReadOrNone al)
    (hau : ReadOrNone au) (hbl : ReadOrNone bl) (hbu : ReadOrNone bu) {s : String} {v : Version}
    (hv : Version.parse false s = .ok v) :
    (∃ k, i.intersect j = some k ∧ k.contains v = true) ↔
      i.contains v = true ∧ j.contains v = true :=
  contains_intersect (Version.legible_of_parse_false hv) (legible_of_ofBounds hi hal hau)
    (legible_of_ofBounds hj hbl hbu)

/-- Two spans that meet in a version that is written in two ways, and both halves around a label. -/
theorem intersection_exact_meeting :
    let one : Semantic := ⟨1, [], false, none, none⟩
    let two : Semantic := ⟨2, [], false, none, none⟩
    let two' : Semantic := ⟨2, [0], false, none, some "x"⟩
    let foo : Bound := ⟨.label "foo", true⟩
    let i := span (some ⟨one, false⟩) (some ⟨two, true⟩)
    let j := span (some ⟨two', true⟩) none
    let below := around "foo" (.below true)
    let above := around "foo" (.above true)
    ofBounds (some ⟨.semantic one, false⟩) (some ⟨.semantic two, true⟩) = .ok i ∧
      ofBounds (some ⟨.semantic two', true⟩) none = .ok j ∧
      ((∃ k, i.intersect j = some k ∧ k.contains (.semantic two) = true) ↔
        i.contains (.semantic two) = true ∧ j.contains (.semantic two) = true) ∧
      ofBounds none (some foo) = .ok below ∧ ofBounds (some foo) none = .ok above ∧
      ((∃ k, below.intersect above = some k ∧ k.contains (.label "foo") = true) ↔
        below.contains (.label "foo") = true ∧ above.contains (.label "foo") = true) := by
  intro one two two' foo i j below above
  have hone : Version.parse false "1" = .ok (.semantic one) := by decide +kernel
  have htwo : Version.parse false "2" = .ok (.semantic two) := by decide +kernel
  have htwo' : Version.parse false "2.0+x" = .ok (.semantic two') := by decide +kernel
  have hfoo : Version.parse false "foo" = .ok (.label "foo") := by decide +kernel
  have hi : ofBounds (some ⟨.semantic one, false⟩) (some ⟨.semantic two, true⟩) = .ok i := rfl
  have hj : ofBounds (some ⟨.semantic two', true⟩) none = .ok j := rfl
  have hbelow : ofBounds none (some foo) = .ok below := rfl
  have habove : ofBounds (some foo) none = .ok above := rfl
  refine ⟨hi, hj, ?_, hbelow, habove, ?_⟩
  · exact intersection_exact hi hj (readOrNone_of_parse hone false) (readOrNone_of_parse htwo true)
      (readOrNone_of_parse htwo' true) readOrNone_none htwo
  · exact intersection_exact hbelow habove readOrNone_none (readOrNone_of_parse hfoo true)
      (readOrNone_of_parse hfoo true) readOrNone_none hfoo

end Interval

end Semrange
