import Semrange.Predicate.Parser
import Semrange.Proofs.Interval.Membership
import Semrange.Proofs.Predicate.Bounds
import Semrange.Proofs.Predicate.Reading

/-!
# Tests and intervals agree

A version passes a predicate just when the interval of the predicate contains it
(`test_iff_interval_contains`). Term by term that is what the bounds of operators do, and where a
label is involved, both sides ask for its text; the intersection of the terms' intervals then asks
for all terms at once (`narrow_describes`).

All of this is about references that have been read (`Term.Legible`): without wildcards, and of
texts that are not those of other versions. The intervals that come out are spans with room, or hold
one label (`Interval.Plain`).
-/

namespace Semrange

namespace Interval

/-- A span with room, or an interval that holds one label. -/
def Plain : Interval → Prop
  | .span lower upper => lowerCut lower < upperCut upper
  | .around _ reach => reach = .within true true

/-- What two plain intervals share is plain. -/
theorem plain_intersect {i j k : Interval} (hi : i.Legible) (hj : j.Legible) (hpi : i.Plain)
    (hpj : j.Plain) (h : i.intersect j = some k) : k.Plain := by
  -- Where one of the two is a span, the label is left as it was.
  have hlabel : ∀ (name : String) (reach : Reach) (lower upper : Option End),
      reach = .within true true → (span lower upper).intersect (around name reach) = some k →
        k.Plain := by
    rintro name reach lower upper rfl hk
    rw [intersect_span_around] at hk
    by_cases hall : lower = none ∧ upper = none
    · rw [if_pos hall] at hk
      cases hk
      exact rfl
    · rw [if_neg hall] at hk
      exact absurd hk nofun
  cases i with
  | span al au =>
    cases j with
    | span bl bu =>
      cases shared_of_intersect hi.concrete hj.concrete h with
      | span lower upper _ _ _ _ hroom => exact hroom hpi hpj
    | around t q => exact hlabel t q al au hpj h
  | around s r =>
    cases j with
    | span bl bu =>
      rw [intersect_around_span] at h
      exact hlabel s r bl bu hpi h
    | around t q =>
      -- Two points share a label when it is one label.
      obtain rfl : r = .within true true := hpi
      obtain rfl : q = .within true true := hpj
      by_cases hname : s = t
      · cases (if_pos hname).symm.trans h
        exact rfl
      · exact absurd ((if_neg hname).symm.trans h) nofun

/-- The interval, if there is one, contains the legible versions that pass. -/
structure Describes (o : Option Interval) (passes : Version → Prop) : Prop where
  /-- It is legible. -/
  legible : ∀ i ∈ o, i.Legible
  /-- It is plain. -/
  plain : ∀ i ∈ o, i.Plain
  /-- It contains the legible versions that pass. -/
  contains_iff : ∀ v : Version, v.Legible → ((∃ i ∈ o, i.contains v = true) ↔ passes v)

/-- An interval describes what passes when it is legible, is plain and contains just that. -/
theorem describes_some {i : Interval} {passes : Version → Prop} (hlegible : i.Legible)
    (hplain : i.Plain) (hcontains : ∀ v : Version, v.Legible → (i.contains v = true ↔ passes v)) :
    Describes (some i) passes := by
  refine ⟨?_, ?_, fun v hv => ?_⟩
  · rintro j ⟨⟩
    exact hlegible
  · rintro j ⟨⟩
    exact hplain
  · rw [← hcontains v hv]
    simp

/-- What describes the versions that pass describes them also where that is said otherwise. -/
theorem Describes.congr {o : Option Interval} {p q : Version → Prop} (h : Describes o p)
    (hpq : ∀ v, p v ↔ q v) : Describes o q :=
  ⟨h.legible, h.plain, fun v hv => (h.contains_iff v hv).trans (hpq v)⟩

/-- Where no version passes, none passes that has to pass more. -/
theorem Describes.none_of_imp {p q : Version → Prop} (h : Describes none p)
    (hqp : ∀ v, q v → p v) : Describes none q := by
  have hnone : ∀ v : Version, ¬∃ i ∈ (none : Option Interval), i.contains v = true :=
    fun v ⟨i, hi, _⟩ => Option.not_mem_none i hi
  refine ⟨h.legible, h.plain, fun v hv => iff_of_false (hnone v) fun hq => ?_⟩
  exact hnone v ((h.contains_iff v hv).mpr (hqp v hq))

end Interval

open Semrange.Interval (Describes)

namespace Term

/-- A term whose reference is legible, and is a label under equality only. -/
structure Legible (t : Term) : Prop where
  /-- The reference is legible. -/
  reference : t.reference.Legible
  /-- A label stands under equality. -/
  equal : t.reference.isSemantic = false → t.operator = .equal

/-- The interval of a term around a label describes what passes. -/
theorem describes_label {t : Term} {name : String} (ht : t.Legible)
    (h : t.reference = .label name) :
    Describes (some (.around name (.within true true))) fun v => t.test v = true := by
  obtain ⟨op, ref⟩ := t
  obtain rfl : ref = .label name := h
  obtain rfl : op = .equal := ht.equal rfl
  have hlegible : (Interval.around name (.within true true)).Legible :=
    Interval.legible_around_iff.mpr ht.reference
  refine Interval.describes_some hlegible rfl fun v hv => ?_
  -- A label is passed by the versions with its text, and there is only the label itself.
  have htest : (Term.mk .equal (.label name)).test v = (v.text == name) := by
    cases v <;> rfl
  rw [htest, beq_iff_eq, Interval.contains_around hv hlegible]
  constructor
  · rintro ⟨rfl, -⟩
    rfl
  · intro heq
    exact ⟨Version.eq_of_text_eq hv ht.reference heq, rfl⟩

/-- The interval between the bounds of an operator describes what passes. -/
theorem describes_between {op : Operator} {ref : Semantic}
    (href : Version.Legible (.semantic ref)) {upper : Option Semantic}
    (h : op.upper ref = .ok upper) :
    Describes (some (op.between ref upper))
      fun v => (Term.mk op (.semantic ref)).test v = true := by
  -- The bounds are the reference and what is derived from it.
  have hlegible : (op.between ref upper).Legible := by
    refine Interval.legible_span_iff.mpr ⟨?_, ?_⟩
    · intro e he
      obtain ⟨l, hl, rfl⟩ := Option.map_eq_some_iff.mp he
      obtain rfl : l = ref := Operator.eq_of_lower hl
      exact href
    · intro e he
      obtain ⟨u, hu, rfl⟩ := Option.map_eq_some_iff.mp he
      exact Operator.legible_of_upper href.1 href.2 h u hu
  refine Interval.describes_some hlegible (Operator.room_between href.1 h) fun v hv => ?_
  cases v with
  | semantic u =>
    rw [Interval.contains_iff rfl hlegible.concrete hv.1]
    exact (Operator.test_iff_mem_extent href.1 h hv.1).symm
  | label name =>
    -- Neither side admits a label: it has not the text of the reference, and there is a bound.
    have hne : name ≠ ref.text := (Version.text_ne_of_malformed href.1 href.2 hv).symm
    have htest : (Term.mk op (.semantic ref)).test (.label name) =
        ((op.lowerInclusive || op.upperInclusive) && name == ref.text) := rfl
    refine (Interval.contains_span_label hv hlegible rfl).trans ?_
    rw [htest, beq_eq_false_iff_ne.mpr hne, Bool.and_false]
    refine iff_of_false (fun ⟨hlower, hupper⟩ => ?_) nofun
    rw [Option.map_eq_none_iff] at hlower hupper
    rw [hupper] at h
    exact Operator.not_unbounded hlower h

/-- A term has an interval that describes what passes, unless a bound of it has no numeral. -/
theorem interval_describes {t : Term} (ht : t.Legible) :
    t.interval = .error (.numeral .unwritable) ∨
      ∃ i, t.interval = .ok i ∧ Describes (some i) fun v => t.test v = true := by
  obtain ⟨op, ref⟩ := t
  cases ref with
  | label name => exact Or.inr ⟨_, rfl, describes_label ht rfl⟩
  | semantic ref =>
    have hinterval : (Term.mk op (.semantic ref)).interval =
        (op.upper ref).map (op.between ref) := rfl
    rw [hinterval]
    -- The interval goes up to the bound of the operator, if that has a numeral.
    rcases op.upper_eq_ok_or ht.reference.1 with h | ⟨upper, h⟩
    · rw [h]
      exact Or.inl rfl
    · rw [h]
      exact Or.inr ⟨_, rfl, describes_between ht.reference h⟩

end Term

namespace Predicate

/-! ## What is read -/

/-- What a wildcard stands for is a legible term. -/
theorem legible_of_expandWildcard {op : Operator} {v : Semantic} (hv : v.Legible) {t : Term}
    (h : expandWildcard op v = .ok t) : t.Legible := by
  obtain ⟨-, line, -, rfl⟩ := expandWildcard_eq_ok_iff.mp h
  exact ⟨⟨rfl, hv.writable, Semantic.isPrerelease_empty, nofun⟩, nofun⟩

/-- An operator and a version that has been read make a legible term. -/
theorem legible_of_makeTerm {op : Operator} {s : String} {v : Version}
    (hv : Version.parse true s = .ok v) {t : Term} (h : makeTerm op v = .ok t) : t.Legible := by
  rcases makeTerm_eq_ok_iff.mp h with ⟨u, rfl, hw, rfl⟩ | ⟨u, rfl, -, hline⟩ | ⟨name, rfl, -, rfl⟩
  · have hu := (Semantic.legible_of_parse (Version.semantic_parse_of_parse hv)).1
    exact ⟨⟨hw, hu⟩, nofun⟩
  · have hu := (Semantic.legible_of_parse (Version.semantic_parse_of_parse hv)).1
    exact legible_of_expandWildcard hu hline
  · exact ⟨Version.legible_of_parse hv nofun, fun _ => rfl⟩

/-- A range expression is read as a predicate of legible terms. -/
theorem legible_of_parse {s : String} {p : Predicate} (h : parse s = .ok p) :
    ∀ t ∈ p.terms, t.Legible := by
  intro t ht
  obtain ⟨word, hword, -⟩ := exists_word_of_parse h t ht
  obtain ⟨-, v, hv, hmake⟩ := readTerm_eq_ok_iff.mp hword
  exact legible_of_makeTerm hv hmake

/-! ## Conjunctions -/

/-- What is left of an interval under some terms describes what passes these as well, unless a bound
has no numeral. -/
theorem narrow_describes {ts : List Term} (hts : ∀ t ∈ ts, t.Legible) {i : Interval}
    {passes : Version → Prop} (hi : Describes (some i) passes) :
    narrow i ts = .error (.numeral .unwritable) ∨
      ∃ o, narrow i ts = .ok o ∧ Describes o fun v => passes v ∧ ∀ t ∈ ts, t.test v = true := by
  -- What passed so far grows by a term in each step, so it is generalized.
  induction ts generalizing i passes with
  | nil =>
    refine Or.inr ⟨some i, rfl, hi.legible, hi.plain, fun v hv => ?_⟩
    rw [hi.contains_iff v hv]
    exact (and_iff_left nofun).symm
  | cons t ts ih =>
    obtain ⟨ht, htail⟩ := List.forall_mem_cons.mp hts
    rcases Term.interval_describes ht with herror | ⟨j, hj, hdescribes⟩
    · left
      simp only [narrow, herror]
    · have hli := hi.legible i rfl
      have hlj := hdescribes.legible j rfl
      have hboth : Describes (i.intersect j) fun v => passes v ∧ t.test v = true := by
        refine ⟨fun k hk => Interval.inherited_legible.intersect hli hlj hk,
          fun k hk => Interval.plain_intersect hli hlj (hi.plain i rfl) (hdescribes.plain j rfl) hk,
          fun v hv => ?_⟩
        rw [← hi.contains_iff v hv, ← hdescribes.contains_iff v hv]
        refine (Interval.contains_intersect hv hli hlj).trans ?_
        simp
      cases hk : i.intersect j with
      | none =>
        -- Nothing passes these two terms, so the others are not asked.
        rw [hk] at hboth
        refine Or.inr ⟨none, ?_, hboth.none_of_imp fun v h => ⟨h.1, h.2 t List.mem_cons_self⟩⟩
        simp only [narrow, hj, hk]
      | some k =>
        rw [hk] at hboth
        have hnext : narrow i (t :: ts) = narrow k ts := by simp only [narrow, hj, hk]
        rw [hnext]
        rcases ih htail hboth with herror | ⟨o, ho, hnarrow⟩
        · exact Or.inl herror
        · refine Or.inr ⟨o, ho, hnarrow.congr fun v => ?_⟩
          rw [List.forall_mem_cons, and_assoc]

/-- Every version passes where there are no terms. -/
theorem describes_all : Describes (some .all) fun _ => True := by
  have hlegible : Interval.all.Legible := List.forall_mem_nil _
  refine Interval.describes_some hlegible bot_lt_top fun v hv => iff_of_true ?_ trivial
  cases v with
  | semantic u => exact rfl
  | label name => exact (Interval.contains_span_label hv hlegible rfl).mpr ⟨rfl, rfl⟩

/-- A predicate of legible terms has an interval that describes what passes, or none if nothing
does, unless a bound has no numeral. -/
theorem interval_describes {p : Predicate} (hp : ∀ t ∈ p.terms, t.Legible) :
    p.interval = .error (.numeral .unwritable) ∨
      ∃ o, p.interval = .ok o ∧ Describes o fun v => p.test v = true := by
  obtain ⟨ts⟩ := p
  have htest : ∀ v, Predicate.test ⟨ts⟩ v = true ↔ ∀ t ∈ ts, t.test v = true :=
    fun v => List.all_eq_true
  cases ts with
  | nil =>
    refine Or.inr ⟨some .all, rfl, describes_all.congr fun v => ?_⟩
    exact iff_of_true trivial rfl
  | cons t ts =>
    obtain ⟨ht, htail⟩ := List.forall_mem_cons.mp hp
    rcases Term.interval_describes ht with herror | ⟨i, hi, hdescribes⟩
    · left
      simp only [interval, herror]
    · -- The interval of the first term is narrowed by the others.
      have hinterval : Predicate.interval ⟨t :: ts⟩ = narrow i ts := by
        simp only [interval, hi]
      rw [hinterval]
      rcases narrow_describes htail hdescribes with herror | ⟨o, ho, hnarrow⟩
      · exact Or.inl herror
      · refine Or.inr ⟨o, ho, hnarrow.congr fun v => ?_⟩
        rw [htest, List.forall_mem_cons]

/-- The interval of a predicate that has been read is legible and plain. -/
theorem plain_of_parse {e : String} {p : Predicate} {i : Interval} (he : parse e = .ok p)
    (hi : p.interval = .ok (some i)) : i.Legible ∧ i.Plain := by
  rcases interval_describes (legible_of_parse he) with h | ⟨o, h, hdescribes⟩
  · exact absurd (hi.symm.trans h) nofun
  · cases hi.symm.trans h
    exact ⟨hdescribes.legible i rfl, hdescribes.plain i rfl⟩

section

variable {P : Interval → Prop} (hP : Interval.Inherited P)
include hP

/-- What is left of an interval under some terms inherits from it and from their intervals. -/
theorem inherited_narrow {ts : List Term} (hts : ∀ t ∈ ts, ∀ j, t.interval = .ok j → P j)
    {i k : Interval} (hi : P i) (h : narrow i ts = .ok (some k)) : P k := by
  induction ts generalizing i with
  | nil =>
    cases h
    exact hi
  | cons t ts ih =>
    obtain ⟨ht, htail⟩ := List.forall_mem_cons.mp hts
    -- Each term has an interval, and something is shared with it, or else nothing would be left.
    rw [narrow] at h
    cases hj : t.interval with
    | error e =>
      rw [hj] at h
      exact absurd h nofun
    | ok j =>
      simp only [hj] at h
      cases hshared : i.intersect j with
      | none =>
        rw [hshared] at h
        exact absurd h nofun
      | some l =>
        rw [hshared] at h
        exact ih htail (hP.intersect hi (ht j hj) hshared) h

/-- The interval of a predicate inherits from those of its terms. -/
theorem inherited_interval {p : Predicate} (hp : ∀ t ∈ p.terms, ∀ j, t.interval = .ok j → P j)
    {i : Interval} (h : p.interval = .ok (some i)) : P i := by
  obtain ⟨_ | ⟨t, ts⟩⟩ := p
  · cases h
    exact hP.all
  · obtain ⟨ht, htail⟩ := List.forall_mem_cons.mp hp
    rw [interval] at h
    cases hj : t.interval with
    | error e =>
      simp only [hj] at h
      exact absurd h nofun
    | ok j =>
      simp only [hj] at h
      exact inherited_narrow hP htail (ht j hj) h

end

/-- Where no reference is a label, the interval of a predicate that has been read is a span. -/
theorem span_of_parse {e : String} {p : Predicate} (he : parse e = .ok p)
    (href : ∀ t ∈ p.terms, t.reference.isSemantic = true) {i : Interval}
    (hi : p.interval = .ok (some i)) : i.isSemantic = true ∧ i.Concrete := by
  refine inherited_interval Interval.inherited_spans (fun t ht j hj => ?_) hi
  obtain ⟨op, ref | name⟩ := t
  · obtain ⟨upper, hupper, rfl⟩ := map_eq_ok.mp hj
    have hlegible := (Term.describes_between (legible_of_parse he _ ht).reference hupper).legible
    exact ⟨rfl, (hlegible _ rfl).concrete⟩
  · exact absurd (href _ ht) nofun

/-- A version that has been read passes a predicate that has been read just when the interval of the
predicate is there and contains it. The interval can be had unless a bound derived for `~` or `^`
has no numeral. -/
theorem test_iff_interval_contains {e s : String} {p : Predicate} {v : Version}
    (he : parse e = .ok p) (hs : Version.parse false s = .ok v)
    (hnumeral : p.interval ≠ .error (.numeral .unwritable)) :
    ∃ o, p.interval = .ok o ∧ (p.test v = true ↔ ∃ i, o = some i ∧ i.contains v = true) := by
  have hv : v.Legible := Version.legible_of_parse_false hs
  rcases interval_describes (legible_of_parse he) with h | ⟨o, h, hdescribes⟩
  · exact absurd h hnumeral
  · exact ⟨o, h, (hdescribes.contains_iff v hv).symm⟩

/-- A prerelease at the upper bound of two terms, the first of which stands for a line. -/
theorem test_iff_interval_contains_prerelease :
    let p : Predicate := ⟨[⟨.sameMinor, .semantic ⟨1, [2], false, some "", none⟩⟩,
      ⟨.below, .semantic ⟨1, [2, 9], false, none, none⟩⟩]⟩
    let v : Version := .semantic ⟨1, [2, 9], false, some "rc", none⟩
    parse "1.2.x <1.2.9" = .ok p ∧ Version.parse false "1.2.9-rc" = .ok v ∧
      p.interval ≠ .error (.numeral .unwritable) ∧ p.test v = true ∧
        ∃ o, p.interval = .ok o ∧ (p.test v = true ↔ ∃ i, o = some i ∧ i.contains v = true) := by
  intro p v
  have he : parse "1.2.x <1.2.9" = .ok p := by decide +kernel
  have hs : Version.parse false "1.2.9-rc" = .ok v := by decide +kernel
  have hnumeral : p.interval ≠ .error (.numeral .unwritable) := by decide +kernel
  exact ⟨he, hs, hnumeral, by decide +kernel, test_iff_interval_contains he hs hnumeral⟩

end Predicate

end Semrange
