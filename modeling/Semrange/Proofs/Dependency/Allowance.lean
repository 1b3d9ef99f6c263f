import Semrange.Dependency
import Semrange.Proofs.Interval.Exclusion
import Semrange.Proofs.Interval.Uniqueness
import Semrange.Proofs.Predicate.Agreement

/-!
# What the allowed intervals of a dependency contain

The versions that pass one of the predicates of a dependency are those that one of the predicates'
intervals contains (`exists_test_iff`), and the intervals that are computed one by one are the union
of these (`addIntervals_unionAll`). So the allowed intervals contain what the union contains, or for
a negative kind what its complement contains, and where no label is involved these are the versions
that satisfy the dependency (`allowedIntervals_contain_iff`).

With labels the two part. A label passes none of two rays that cover everything together, but the
interval of all versions contains it. And what lies outside of a label holds no version, while every
other version satisfies a dependency that excludes the label.
-/

namespace Semrange

open Semrange.Interval (Lost complementAll point unionAll)

namespace Predicate

/-! ## Predicates that have been read -/

/-- What is left of predicates without repetitions is among them. -/
theorem mem_of_mem_distinct {p : Predicate} {ps : List Predicate} (h : p ∈ distinct ps) :
    p ∈ ps := by
  induction ps with
  | nil => exact h
  | cons q ps ih =>
    rcases List.mem_cons.mp h with rfl | h
    · exact List.mem_cons_self
    · exact List.mem_cons_of_mem q (ih (List.mem_filter.mp h).1)

/-- Each predicate that several range expressions denote is denoted by one of them. -/
theorem exists_parse_of_parseAll {es : List String} {ps : List Predicate}
    (h : parseAll es = .ok ps) : ∀ p ∈ ps, ∃ e ∈ es, parse e = .ok p := by
  obtain ⟨qs, hqs, rfl⟩ := map_eq_ok.mp h
  exact fun p hp => exists_left_of_forall₂ (mapM_eq_ok_iff.mp hqs) p (mem_of_mem_distinct hp)

/-! ## Their intervals -/

/-- The intervals of the predicates that have one. -/
def intervals (ps : List Predicate) : List Interval :=
  ps.filterMap fun p => p.interval.toOption.join

/-- An interval is among those of some predicates when one of these has it. -/
theorem mem_intervals {i : Interval} {ps : List Predicate} :
    i ∈ intervals ps ↔ ∃ p ∈ ps, p.interval = .ok (some i) := by
  refine List.mem_filterMap.trans (exists_congr fun p => and_congr_right fun _ => ?_)
  cases p.interval with
  | error e => exact iff_of_false nofun nofun
  | ok o => cases o <;> simp [Except.toOption]

/-- The interval of a predicate, if there is one, stands before those of the others. -/
theorem intervals_cons {p : Predicate} {o : Option Interval} (h : p.interval = .ok o)
    (ps : List Predicate) : intervals (p :: ps) = o.toList ++ intervals ps := by
  rw [intervals, List.filterMap_cons, h]
  cases o <;> rfl

section

variable {ps : List Predicate} (hps : ∀ p ∈ ps, ∃ e, parse e = .ok p)
include hps

/-- The intervals of predicates that have been read are legible and plain. -/
theorem plain_intervals : ∀ i ∈ intervals ps, i.Legible ∧ i.Plain := by
  intro i hi
  obtain ⟨p, hp, h⟩ := mem_intervals.mp hi
  obtain ⟨e, he⟩ := hps p hp
  exact plain_of_parse he h

/-- Where no reference is a label, the intervals of predicates that have been read are spans. -/
theorem spans_intervals (href : ∀ p ∈ ps, ∀ t ∈ p.terms, t.reference.isSemantic = true) :
    ∀ i ∈ intervals ps, i.isSemantic = true ∧ i.Concrete := by
  intro i hi
  obtain ⟨p, hp, h⟩ := mem_intervals.mp hi
  obtain ⟨e, he⟩ := hps p hp
  exact span_of_parse he (href p hp) h

/-- Where the intervals of all predicates can be had, a version passes one of the predicates just
when one of the intervals contains it. -/
theorem exists_test_iff (hok : ∀ p ∈ ps, p.interval ≠ .error (.numeral .unwritable)) {v : Version}
    (hv : v.Legible) :
    (∃ p ∈ ps, p.test v = true) ↔ ∃ i ∈ intervals ps, i.contains v = true := by
  -- A predicate without an interval passes nothing, so it takes no part on either side.
  have hdescribes : ∀ p ∈ ps, ∃ o, p.interval = .ok o ∧
      Interval.Describes o fun v => p.test v = true := by
    intro p hp
    obtain ⟨e, he⟩ := hps p hp
    exact (interval_describes (legible_of_parse he)).resolve_left (hok p hp)
  constructor
  · rintro ⟨p, hp, htest⟩
    obtain ⟨o, ho, hcontains⟩ := hdescribes p hp
    obtain ⟨i, rfl, hc⟩ := (hcontains.contains_iff v hv).mpr htest
    exact ⟨i, mem_intervals.mpr ⟨p, hp, ho⟩, hc⟩
  · rintro ⟨i, hi, hc⟩
    obtain ⟨p, hp, h⟩ := mem_intervals.mp hi
    obtain ⟨o, ho, hcontains⟩ := hdescribes p hp
    obtain rfl : o = some i := Except.ok.inj (ho.symm.trans h)
    exact ⟨p, hp, (hcontains.contains_iff v hv).mp ⟨i, rfl, hc⟩⟩

end

end Predicate

namespace Dependency

/-- The predicates are those of the range expressions, in some order. -/
def Declared (d : Dependency) : Prop :=
  ∃ ps, Predicate.parseAll d.matchers = .ok ps ∧ d.predicates.Perm ps

/-- A dependency that is made from range expressions has their predicates. -/
theorem declared_of_ofMatchers {kind : Kind} {target : String} {matchers : List String}
    {d : Dependency} (h : ofMatchers kind target matchers = .ok d) : d.Declared := by
  obtain ⟨ps, hps, rfl⟩ := map_eq_ok.mp h
  exact ⟨ps, hps, List.Perm.refl ps⟩

/-- Each predicate of a dependency is denoted by a range expression. -/
theorem Declared.exists_parse {d : Dependency} (h : d.Declared) :
    ∀ p ∈ d.predicates, ∃ e, Predicate.parse e = .ok p := by
  obtain ⟨ps, hps, hperm⟩ := h
  intro p hp
  obtain ⟨e, -, he⟩ := Predicate.exists_parse_of_parseAll hps p (hperm.mem_iff.mp hp)
  exact ⟨e, he⟩

/-! ## Unions taken one by one -/

/-- Predicates that have been read add their intervals to a union, unless that of one of them cannot
be had. -/
theorem addIntervals_unionAll {l : List Interval} (hl : ∀ i ∈ l, i.Legible ∧ i.Plain)
    {ps : List Predicate} (hps : ∀ p ∈ ps, ∃ e, Predicate.parse e = .ok p) :
    (∃ p ∈ ps, p.interval = .error (.numeral .unwritable)) ∧
        addIntervals (unionAll l) ps = .error (.numeral .unwritable) ∨
      (∀ p ∈ ps, p.interval ≠ .error (.numeral .unwritable)) ∧
        addIntervals (unionAll l) ps = .ok (unionAll (l ++ Predicate.intervals ps)) := by
  induction ps generalizing l with
  | nil =>
    refine Or.inr ⟨List.forall_mem_nil _, ?_⟩
    rw [show Predicate.intervals [] = [] from rfl, List.append_nil]
    rfl
  | cons p ps ih =>
    obtain ⟨⟨e, he⟩, htail⟩ := List.forall_mem_cons.mp hps
    rcases Predicate.interval_describes (Predicate.legible_of_parse he) with herror | ⟨o, ho, -⟩
    · -- The first predicate has a bound without a numeral, so the others are not asked.
      refine Or.inl ⟨⟨p, List.mem_cons_self, herror⟩, ?_⟩
      rw [addIntervals, herror]
    · -- Its interval is added to the union of those before it, which is the union of them all.
      have hadd : addIntervals (unionAll l) (p :: ps) =
          addIntervals (unionAll (l ++ o.toList)) ps := by
        rw [addIntervals, ho]
        exact congrArg (addIntervals · ps) (Interval.unionAll_append_unionAll hl o.toList)
      have hmore : ∀ i ∈ l ++ o.toList, i.Legible ∧ i.Plain := by
        refine List.forall_mem_append.mpr ⟨hl, fun i hi => ?_⟩
        obtain rfl := Option.mem_toList.mp hi
        exact Predicate.plain_of_parse he ho
      rw [hadd, Predicate.intervals_cons ho, ← List.append_assoc]
      rcases ih hmore htail with ⟨⟨q, hq, herror⟩, h⟩ | ⟨hok, h⟩
      · exact Or.inl ⟨⟨q, List.mem_cons_of_mem p hq, herror⟩, h⟩
      · refine Or.inr ⟨List.forall_mem_cons.mpr ⟨?_, hok⟩, h⟩
        rw [ho]
        exact nofun

/-- The intervals that a dependency matches are the union of its predicates' intervals, unless one
of these cannot be had. -/
theorem Declared.matchedIntervals_eq {d : Dependency} (h : d.Declared) :
    (∃ p ∈ d.predicates, p.interval = .error (.numeral .unwritable)) ∧
        d.matchedIntervals = .error (.numeral .unwritable) ∨
      (∀ p ∈ d.predicates, p.interval ≠ .error (.numeral .unwritable)) ∧
        d.matchedIntervals = .ok (unionAll (Predicate.intervals d.predicates)) :=
  addIntervals_unionAll (List.forall_mem_nil _) h.exists_parse

/-- The order of the predicates does not matter: unless a label is among their intervals, what a
dependency matches comes out alike, member by member. -/
theorem matchedIntervals_alike {d e : Dependency} (hd : d.Declared) (he : e.Declared)
    (h : d.predicates.Perm e.predicates)
    (hsem : ∀ i ∈ Predicate.intervals d.predicates, i.isSemantic = true) :
    d.matchedIntervals = .error (.numeral .unwritable) ∧
        e.matchedIntervals = .error (.numeral .unwritable) ∨
      ∃ l m, d.matchedIntervals = .ok l ∧ e.matchedIntervals = .ok m ∧
        List.Forall₂ Interval.Alike l m := by
  have hplain := Predicate.plain_intervals hd.exists_parse
  have hspans : ∀ i ∈ Predicate.intervals d.predicates,
      (i.isSemantic = true ∧ i.Concrete) ∧ i.start < i.stop :=
    fun i hi => Interval.room_of_plain hplain i (List.mem_filter.mpr ⟨hi, hsem i hi⟩)
  -- An interval that cannot be had is missing on both sides or on neither.
  rcases hd.matchedIntervals_eq with ⟨⟨p, hp, herror⟩, hmatched⟩ | ⟨hok, hmatched⟩
  · rcases he.matchedIntervals_eq with ⟨-, hmatched'⟩ | ⟨hok', -⟩
    · exact Or.inl ⟨hmatched, hmatched'⟩
    · exact absurd herror (hok' p (h.mem_iff.mp hp))
  · rcases he.matchedIntervals_eq with ⟨⟨q, hq, herror'⟩, -⟩ | ⟨-, hmatched'⟩
    · exact absurd herror' (hok q (h.mem_iff.mpr hq))
    · exact Or.inr ⟨_, _, hmatched, hmatched', Interval.alike_unionAll_of_perm
        (fun i hi => (hspans i hi).1) (fun i hi => (hspans i hi).2) (h.filterMap _)⟩

/-! ## Satisfaction -/

/-- A version satisfies a dependency that wants a match just when it passes a predicate. -/
theorem isSatisfiedBy_of_positive {d : Dependency} (hkind : d.kind.positive = true) (v : Version) :
    d.isSatisfiedBy v = true ↔ ∃ p ∈ d.predicates, p.test v = true := by
  rw [isSatisfiedBy, hkind, beq_true, isMatchedBy, List.any_eq_true]

/-- A version satisfies a dependency that wants no match just when it passes no predicate. -/
theorem isSatisfiedBy_of_negative {d : Dependency} (hkind : d.kind.positive = false) (v : Version) :
    d.isSatisfiedBy v = true ↔ ¬∃ p ∈ d.predicates, p.test v = true := by
  rw [isSatisfiedBy, hkind, beq_false, Bool.not_eq_true', ← Bool.not_eq_true, isMatchedBy,
    List.any_eq_true]

/-- The allowed intervals of a dependency can be had unless one of its predicates has a bound
without a numeral. For a positive kind, where no label is lost, they contain the versions that
satisfy the dependency, and all labels where everything is covered. For a negative kind, they
contain the versions that satisfy the dependency as far as no label is involved. -/
theorem allowedIntervals_contain_iff {d : Dependency} (hd : d.Declared) {s : String} {v : Version}
    (hs : Version.parse false s = .ok v) :
    (∃ p ∈ d.predicates, p.interval = .error (.numeral .unwritable)) ∧
        d.allowedIntervals = .error (.numeral .unwritable) ∨
      ∃ known allowed, d.matchedIntervals = .ok known ∧ d.allowedIntervals = .ok allowed ∧
        (d.kind.positive = true →
          (∀ name, v = .label name → point name ∈ Predicate.intervals d.predicates →
            Lost name (Predicate.intervals d.predicates) → known = [.all]) →
          ((∃ i ∈ allowed, i.contains v = true) ↔
            d.isSatisfiedBy v = true ∨ v.isSemantic = false ∧ known = [.all])) ∧
        (d.kind.positive = false →
          ((∃ i ∈ allowed, i.contains v = true) ↔
            d.isSatisfiedBy v = true ∧
              (known = [] ∨ v.isSemantic = true ∧ ∀ i ∈ known, i.isSemantic = true))) := by
  have hv : v.Legible := Version.legible_of_parse_false hs
  have hplain := Predicate.plain_intervals hd.exists_parse
  rcases hd.matchedIntervals_eq with ⟨hmem, h⟩ | ⟨hok, h⟩
  · refine Or.inl ⟨hmem, ?_⟩
    rw [allowedIntervals, h]
    rfl
  · have htest := Predicate.exists_test_iff hd.exists_parse hok hv
    have hallowed : d.allowedIntervals = .ok (if d.kind.positive then
        unionAll (Predicate.intervals d.predicates)
      else complementAll ((unionAll (Predicate.intervals d.predicates)).map some)) :=
      congrArg (Except.map _) h
    refine Or.inr ⟨_, _, h, hallowed, fun hkind hkept => ?_, fun hkind => ?_⟩
    · rw [if_pos hkind, isSatisfiedBy_of_positive hkind, htest]
      exact Interval.exists_contains_unionAll_iff hplain hv hkept
    · rw [if_neg (Bool.eq_false_iff.mp hkind), isSatisfiedBy_of_negative hkind, htest]
      exact Interval.exists_contains_complementAll_unionAll_iff hplain hv

/-- A label that a dependency asks for besides a line, and a version between two rays that another
one excludes. -/
theorem allowedIntervals_contain_iff_kinds :
    let foo : Version := .label "foo"
    let v : Version := .semantic ⟨2, [5], false, none, none⟩
    let d : Dependency := ⟨.depends, "pack", ["1.x", "foo"],
      [⟨[⟨.sameMajor, .semantic ⟨1, [], false, some "", none⟩⟩]⟩, ⟨[⟨.equal, foo⟩]⟩]⟩
    let e : Dependency := ⟨.breaks, "pack", ["<2", ">=3"],
      [⟨[⟨.below, .semantic ⟨2, [], false, none, none⟩⟩]⟩,
        ⟨[⟨.atLeast, .semantic ⟨3, [], false, none, none⟩⟩]⟩]⟩
    d.Declared ∧ Version.parse false "foo" = .ok foo ∧
      (∃ allowed, d.allowedIntervals = .ok allowed ∧ ∃ i ∈ allowed, i.contains foo = true) ∧
      e.Declared ∧ Version.parse false "2.5" = .ok v ∧
        ∃ allowed, e.allowedIntervals = .ok allowed ∧ ∃ i ∈ allowed, i.contains v = true := by
  intro foo v d e
  have hmade : ofMatchers .depends "pack" ["1.x", "foo"] = .ok d := by decide +kernel
  have hmade' : ofMatchers .breaks "pack" ["<2", ">=3"] = .ok e := by decide +kernel
  have hd := declared_of_ofMatchers hmade
  have he := declared_of_ofMatchers hmade'
  have hfoo : Version.parse false "foo" = .ok foo := by decide +kernel
  have hv : Version.parse false "2.5" = .ok v := by decide +kernel
  have hokd : ∀ p ∈ d.predicates, p.interval ≠ .error (.numeral .unwritable) := by decide +kernel
  have hoke : ∀ p ∈ e.predicates, p.interval ≠ .error (.numeral .unwritable) := by decide +kernel
  refine ⟨hd, hfoo, ?_, he, hv, ?_⟩
  · rcases allowedIntervals_contain_iff hd hfoo with
      ⟨⟨p, hp, h⟩, -⟩ | ⟨known, allowed, -, hallowed, hpositive, -⟩
    · exact absurd h (hokd p hp)
    · refine ⟨allowed, hallowed, (hpositive rfl ?_).mpr (Or.inl (by decide +kernel))⟩
      -- The label comes last, and a point undercuts nothing.
      rintro name hname - hlost
      obtain rfl : "foo" = name := Version.label.inj hname
      have hintervals : Predicate.intervals d.predicates =
          [.span (some ⟨⟨1, [], false, some "", none⟩, true⟩)
            (some ⟨⟨2, [], false, some "", none⟩, false⟩)] ++ [point "foo"] := by
        decide +kernel
      rw [hintervals] at hlost
      rcases Interval.lost_append_singleton_iff.mp hlost with ⟨-, hne⟩ | ⟨hcut, -⟩
      · exact absurd rfl hne
      · exact absurd hcut (Interval.not_undercuts_point "foo" _)
  · rcases allowedIntervals_contain_iff he hv with
      ⟨⟨p, hp, h⟩, -⟩ | ⟨known, allowed, hknown, hallowed, -, hnegative⟩
    · exact absurd h (hoke p hp)
    · refine ⟨allowed, hallowed, (hnegative rfl).mpr ⟨by decide +kernel, Or.inr ⟨rfl, ?_⟩⟩⟩
      -- The two rays leave the line between them open, and no label is among them.
      have hspans : e.matchedIntervals = .ok
          [.span none (some ⟨⟨2, [], false, none, none⟩, false⟩),
            .span (some ⟨⟨3, [], false, none, none⟩, true⟩) none] := by
        decide +kernel
      cases hknown.symm.trans hspans
      decide

/-- Where labels are involved, what satisfies a dependency and what its allowed intervals contain
can be two things: nothing is outside of a label, nothing but semantic versions is outside of a
ray, and a label is in the interval of all versions. -/
theorem allowedIntervals_part_at_labels :
    let parts (kind : Kind) (matchers : List String) (s : String) (satisfies : Bool) : Prop :=
      ∃ d v allowed, ofMatchers kind "pack" matchers = .ok d ∧ Version.parse false s = .ok v ∧
        d.allowedIntervals = .ok allowed ∧ d.isSatisfiedBy v = satisfies ∧
          allowed.any (fun i => i.contains v) = !satisfies
    parts .breaks ["foo"] "1.0" true ∧ parts .breaks [">=1"] "foo" true ∧
      parts .depends ["<2", ">=1"] "foo" false := by
  intro parts
  refine ⟨⟨⟨.breaks, "pack", ["foo"], [⟨[⟨.equal, .label "foo"⟩]⟩]⟩,
      .semantic ⟨1, [0], false, none, none⟩,
      [.around "foo" (.below false), .around "foo" (.above false)], ?_⟩,
    ⟨⟨.breaks, "pack", [">=1"], [⟨[⟨.atLeast, .semantic ⟨1, [], false, none, none⟩⟩]⟩]⟩,
      .label "foo", [.span none (some ⟨⟨1, [], false, none, none⟩, false⟩)], ?_⟩,
    ⟨⟨.depends, "pack", ["<2", ">=1"], [⟨[⟨.below, .semantic ⟨2, [], false, none, none⟩⟩]⟩,
        ⟨[⟨.atLeast, .semantic ⟨1, [], false, none, none⟩⟩]⟩]⟩,
      .label "foo", [.all], ?_⟩⟩
  · decide +kernel
  · decide +kernel
  · decide +kernel

end Dependency

end Semrange
