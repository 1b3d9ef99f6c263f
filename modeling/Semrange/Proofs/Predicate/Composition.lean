import Semrange.Proofs.Interval.Semilattice
import Semrange.Proofs.Predicate.Agreement

/-!
# Range expressions compose

Two range expressions with a blank between them are one that asks for what both ask for
(`expressions_compose`). It has the words of both, so it can be read when both can, and its terms are
those of the one and then those of the other.

Its interval is what the two intervals share, up to which of two alike ends is kept. The terms of the
second expression narrow the interval of the first one where on their own they narrow that of all
versions. So we compare two such runs: the region that is left of an interval stays the shared part
of a fixed region and the region that is left of another interval (`regionOf_narrowOrNone`). A run
stops where nothing is left, which the smaller one does first.

Stars and blanks are idle: it makes no difference where they stand between words
(`termWords_between`).
-/

namespace Semrange

/-! ## Intervals of terms -/

namespace Interval

/-- A legible interval is solid when it is plain. -/
theorem Legible.solid {i : Interval} (hi : i.Legible) (hplain : i.Plain) : i.Solid := by
  refine ⟨hi.concrete, ?_⟩
  cases i with
  | span lower upper => exact (proper_iff ⟨rfl, hi.concrete⟩).mpr hplain
  | around name reach =>
    obtain rfl : reach = .within true true := hplain
    exact ⟨rfl, rfl⟩

/-- What describes some versions is solid. -/
theorem Describes.solid {o : Option Interval} {passes : Version → Prop} (h : Describes o passes) :
    SolidOrNone o :=
  fun i hi => (h.legible i hi).solid (h.plain i hi)

/-- A solid interval, or none, that takes in nothing is none. -/
theorem eq_none_of_regionOf {o : Option Interval} (ho : SolidOrNone o)
    (h : regionOf o = regionOf none) : o = none := by
  cases o with
  | none => rfl
  | some i => exact absurd h (regionOf_some_ne_none (ho i rfl))

/-- Of two alike intervals both are missing, or neither is. -/
theorem AlikeOrNone.eq_none_iff {o p : Option Interval} (h : AlikeOrNone o p) :
    o = none ↔ p = none := by
  cases o with
  | none =>
    cases p with
    | none => exact iff_of_true rfl rfl
    | some j => exact absurd h id
  | some i =>
    cases p with
    | none => exact absurd h id
    | some j => exact iff_of_false nofun nofun

end Interval

/-- The interval of a legible term is solid. -/
theorem Term.Legible.solid_interval {t : Term} (ht : t.Legible) {i : Interval}
    (h : t.interval = .ok i) : i.Solid := by
  rcases interval_describes ht with herror | ⟨j, hj, hdescribes⟩
  · cases h.symm.trans herror
  · cases h.symm.trans hj
    exact hdescribes.solid i rfl

namespace Predicate

open Semrange.Interval

/-! ## Runs of terms -/

/-- What is left of an interval, if there is one, under the terms, one after the other. -/
def narrowOrNone (o : Option Interval) (ts : List Term) :
    Except Operator.BoundError (Option Interval) :=
  match o with
  | none => .ok none
  | some i => narrow i ts

/-- A term leaves what its interval shares with the one that there is. -/
theorem narrowOrNone_cons {t : Term} {j : Interval} (h : t.interval = .ok j) (o : Option Interval)
    (ts : List Term) : narrowOrNone o (t :: ts) = narrowOrNone (intersect? o (some j)) ts := by
  cases o with
  | none => rfl
  | some i =>
    show narrow i (t :: ts) = narrowOrNone (i.intersect j) ts
    simp only [narrow, h]
    cases i.intersect j <;> rfl

/-- An interval is narrowed by some terms and then by others. -/
theorem narrow_append (i : Interval) (ts us : List Term) :
    narrow i (ts ++ us) = (narrow i ts).bind (narrowOrNone · us) := by
  induction ts generalizing i with
  | nil => rfl
  | cons t ts ih =>
    rw [List.cons_append]
    -- Where a bound has no numeral or nothing is left, the terms behind are not asked.
    simp only [narrow]
    cases t.interval with
    | error e => rfl
    | ok j =>
      cases hk : i.intersect j with
      | none =>
        simp only [hk]
        rfl
      | some k =>
        simp only [hk]
        exact ih k

/-- The interval of legible terms is what they leave of all versions. -/
theorem interval_eq_narrow {p : Predicate} (hp : ∀ t ∈ p.terms, t.Legible) :
    p.interval = narrow .all p.terms := by
  obtain ⟨_ | ⟨t, ts⟩⟩ := p
  · rfl
  · simp only [interval, narrow]
    cases ht : t.interval with
    | error e => rfl
    | ok i =>
      -- All versions share with the first interval all of it.
      have hsolid := (hp t List.mem_cons_self).solid_interval ht
      simp only [all_intersect hsolid.proper]

/-- What terms leave of an interval that takes in less takes in less by the same: if it is the shared
part of a region and another interval before them, it is so after them. -/
theorem regionOf_narrowOrNone {ts : List Term} (hts : ∀ t ∈ ts, t.Legible)
    {o p q : Option Interval} {shared : Region} (ho : SolidOrNone o) (hp : SolidOrNone p)
    (hregion : regionOf p = (regionOf o).inter shared) (h : narrowOrNone o ts = .ok q) :
    ∃ r, narrowOrNone p ts = .ok r ∧ SolidOrNone r ∧
      regionOf r = (regionOf q).inter shared := by
  induction ts generalizing o p with
  | nil =>
    have hnil : ∀ o, narrowOrNone o [] = .ok o := by
      intro o
      cases o <;> rfl
    cases (hnil o).symm.trans h
    exact ⟨p, hnil p, hp, hregion⟩
  | cons t ts ih =>
    obtain ⟨ht, htail⟩ := List.forall_mem_cons.mp hts
    cases hj : t.interval with
    | error e =>
      -- This run got past the term, so nothing was left of it before, and nothing of the other one.
      cases o with
      | none =>
        cases h
        rw [regionOf_none_inter] at hregion
        obtain rfl := eq_none_of_regionOf hp hregion
        exact ⟨none, rfl, hp, (regionOf_none_inter shared).symm⟩
      | some i =>
        simp only [narrowOrNone, narrow, hj] at h
        cases h
    | ok j =>
      have hsolid : SolidOrNone (some j) := by
        rintro k ⟨⟩
        exact ht.solid_interval hj
      -- Both runs are narrowed by the one interval, so the shared part stays what it was.
      have hstep : regionOf (intersect? p (some j)) =
          (regionOf (intersect? o (some j))).inter shared := by
        rw [regionOf_intersect? hp hsolid, regionOf_intersect? ho hsolid, hregion,
          Region.inter_assoc, Region.inter_assoc, Region.inter_comm shared]
      rw [narrowOrNone_cons hj] at h ⊢
      exact ih htail (solidOrNone_intersect? ho hsolid) (solidOrNone_intersect? hp hsolid) hstep h

/-- A predicate of legible terms has a solid interval, or none, unless a bound has no numeral. -/
theorem exists_interval {p : Predicate} (hp : ∀ t ∈ p.terms, t.Legible)
    (hnumeral : p.interval ≠ .error (.numeral .unwritable)) :
    ∃ o, p.interval = .ok o ∧ SolidOrNone o := by
  rcases interval_describes hp with herror | ⟨o, ho, hdescribes⟩
  · exact absurd herror hnumeral
  · exact ⟨o, ho, hdescribes.solid⟩

/-- The interval of the terms of two predicates is what their intervals share. -/
theorem interval_append {p q : Predicate} (hp : ∀ t ∈ p.terms, t.Legible)
    (hq : ∀ t ∈ q.terms, t.Legible) {i j : Option Interval} (hi : p.interval = .ok i)
    (hj : q.interval = .ok j) (hsi : SolidOrNone i) (hsj : SolidOrNone j) :
    ∃ k, interval ⟨p.terms ++ q.terms⟩ = .ok k ∧ AlikeOrNone k (intersect? i j) := by
  -- The interval of the first predicate is the shared part of itself and all versions.
  have hshared : regionOf i = (regionOf (some .all)).inter (regionOf i) := by
    rw [← regionOf_intersect? describes_all.solid hsi]
    cases i with
    | none => rfl
    | some k => exact congrArg regionOf (all_intersect (hsi k rfl).proper).symm
  -- The terms of the second predicate leave `j` of all versions and `k` of `i`.
  have hall : narrowOrNone (some .all) q.terms = .ok j := (interval_eq_narrow hq).symm.trans hj
  obtain ⟨k, hk, hsk, hregion⟩ :=
    regionOf_narrowOrNone hq describes_all.solid hsi hshared hall
  refine ⟨k, ?_, ?_⟩
  · have happend : ∀ t ∈ p.terms ++ q.terms, t.Legible := List.forall_mem_append.mpr ⟨hp, hq⟩
    rw [interval_eq_narrow happend, narrow_append, ← interval_eq_narrow hp, hi]
    exact hk
  · rw [alikeOrNone_iff hsk (solidOrNone_intersect? hsi hsj), hregion,
      regionOf_intersect? hsi hsj, Region.inter_comm]

/-! ## Words of expressions -/

/-- Expressions are read as the same predicates when they have the same words for terms. -/
theorem parse_eq_ok_congr {s t : String} (h : termWords s = termWords t) (p : Predicate) :
    parse s = .ok p ↔ parse t = .ok p := by
  rw [parse_eq_ok_iff, parse_eq_ok_iff, h]

/-- An expression with the words of two is read as the terms of both. -/
theorem parse_append_iff {s t u : String} (h : termWords u = termWords s ++ termWords t)
    {r : Predicate} : parse u = .ok r ↔
      ∃ p q, parse s = .ok p ∧ parse t = .ok q ∧ r = ⟨p.terms ++ q.terms⟩ := by
  simp only [parse_eq_ok_iff]
  rw [h]
  constructor
  · -- The terms are cut where the words of the first expression end.
    intro hr
    have htake := List.forall₂_take_append _ _ _ hr.flip
    have hdrop := List.forall₂_drop_append _ _ _ hr.flip
    exact ⟨⟨r.terms.take (termWords s).length⟩, ⟨r.terms.drop (termWords s).length⟩, htake.flip,
      hdrop.flip, congrArg Predicate.mk (List.take_append_drop _ r.terms).symm⟩
  · rintro ⟨p, q, hp, hq, rfl⟩
    exact List.rel_append hp hq

/-- Two texts that a blank parts have the words of the first one and then those of the second. -/
theorem termWords_append {s t : String}
    (h : s.toList.getLast?.any Text.isBlank = true ∨ t.toList.head?.any Text.isBlank = true) :
    termWords (s ++ t) = termWords s ++ termWords t := by
  rw [termWords, String.toList_append, Text.words_append h, List.filter_append]
  rfl

/-- A text of stars and blanks. -/
def Idle (s : String) : Prop :=
  ∀ w ∈ Text.words s.toList, w = ['*']

/-- No word of stars and blanks stands for a term. -/
theorem termWords_of_idle {s : String} (h : Idle s) : termWords s = [] := by
  refine List.filter_eq_nil_iff.mpr fun w hw => ?_
  rw [h w hw]
  decide

/-- A text of stars and blanks is read as the predicate that every version passes. -/
theorem parse_idle {s : String} (h : Idle s) : parse s = .ok any := by
  rw [parse, termWords_of_idle h]
  rfl

/-- Stars and blanks behind a text add no words. -/
theorem termWords_append_idle {s gap : String} (h : Idle gap)
    (hhead : gap.toList.head?.any Text.isBlank = true) : termWords (s ++ gap) = termWords s := by
  rw [termWords_append (Or.inr hhead), termWords_of_idle h, List.append_nil]

/-- Stars and blanks in front of a text add no words. -/
theorem termWords_idle_append {gap t : String} (h : Idle gap)
    (hlast : gap.toList.getLast?.any Text.isBlank = true) : termWords (gap ++ t) = termWords t := by
  rw [termWords_append (Or.inl hlast), termWords_of_idle h, List.nil_append]

/-- Two texts with stars and blanks between them have the words of both. -/
theorem termWords_between {s gap t : String} (h : Idle gap)
    (hhead : gap.toList.head?.any Text.isBlank = true)
    (hlast : gap.toList.getLast?.any Text.isBlank = true) :
    termWords (s ++ gap ++ t) = termWords s ++ termWords t := by
  obtain ⟨c, hc, hblank⟩ := (Option.any_eq_true _ _).mp hlast
  have hend : (s ++ gap).toList.getLast?.any Text.isBlank = true := by
    rw [String.toList_append, List.getLast?_append, hc]
    exact hblank
  rw [termWords_append (Or.inl hend), termWords_append_idle h hhead]

/-! ## Composition -/

/-- Two range expressions with a blank between them can be read when both can. What is read has the
terms of the first one and then those of the second one, holds where both hold, and has the
interval that both intervals share, or none if there is no such, up to which of two alike ends is
kept. The interval can be had unless a bound derived for `~` or `^` has no numeral. Texts of stars
and blanks make no difference, alone, in front, behind or between. -/
theorem expressions_compose (e f : String) :
    ((∃ r, parse (e ++ " " ++ f) = .ok r) ↔ (∃ p, parse e = .ok p) ∧ ∃ q, parse f = .ok q) ∧
      (∀ p q, parse e = .ok p → parse f = .ok q → ∃ r, parse (e ++ " " ++ f) = .ok r ∧
        r.terms = p.terms ++ q.terms ∧ (∀ v, r.test v = (p.test v && q.test v)) ∧
        (p.interval ≠ .error (.numeral .unwritable) →
          q.interval ≠ .error (.numeral .unwritable) →
            ∃ i j k, p.interval = .ok i ∧ q.interval = .ok j ∧ r.interval = .ok k ∧
              (k = none ↔ intersect? i j = none) ∧ AlikeOrNone k (intersect? i j))) ∧
      ∀ gap, Idle gap → parse gap = .ok any ∧
        (gap.toList.head?.any Text.isBlank = true →
          ∀ r, parse (e ++ gap) = .ok r ↔ parse e = .ok r) ∧
        (gap.toList.getLast?.any Text.isBlank = true →
          ∀ r, parse (gap ++ f) = .ok r ↔ parse f = .ok r) ∧
        (gap.toList.head?.any Text.isBlank = true → gap.toList.getLast?.any Text.isBlank = true →
          ∀ r, parse (e ++ gap ++ f) = .ok r ↔ parse (e ++ " " ++ f) = .ok r) := by
  have hwords : termWords (e ++ " " ++ f) = termWords e ++ termWords f :=
    termWords_between (List.forall_mem_nil _) (by decide) (by decide)
  refine ⟨⟨?_, ?_⟩, ?_, ?_⟩
  · -- Both can be read where the whole can, and the other way around.
    rintro ⟨r, hr⟩
    obtain ⟨p, q, hp, hq, -⟩ := (parse_append_iff hwords).mp hr
    exact ⟨⟨p, hp⟩, q, hq⟩
  · rintro ⟨⟨p, hp⟩, q, hq⟩
    exact ⟨_, (parse_append_iff hwords).mpr ⟨p, q, hp, hq, rfl⟩⟩
  · -- The terms stand side by side, and the second ones narrow the first interval.
    intro p q hp hq
    refine ⟨_, (parse_append_iff hwords).mpr ⟨p, q, hp, hq, rfl⟩, rfl,
      fun v => List.all_append, fun hnp hnq => ?_⟩
    have hlp := legible_of_parse hp
    have hlq := legible_of_parse hq
    obtain ⟨i, hi, hsi⟩ := exists_interval hlp hnp
    obtain ⟨j, hj, hsj⟩ := exists_interval hlq hnq
    obtain ⟨k, hk, halike⟩ := interval_append hlp hlq hi hj hsi hsj
    exact ⟨i, j, k, hi, hj, hk, halike.eq_none_iff, halike⟩
  · -- Stars and blanks have no words for terms.
    intro gap hidle
    refine ⟨parse_idle hidle, fun hhead => parse_eq_ok_congr (termWords_append_idle hidle hhead),
      fun hlast => parse_eq_ok_congr (termWords_idle_append hidle hlast), fun hhead hlast => ?_⟩
    exact parse_eq_ok_congr ((termWords_between hidle hhead hlast).trans hwords.symm)

/-- Two expressions that meet in a version that is written in two ways, with a star between them. -/
theorem expressions_compose_meeting :
    let one : Semantic := ⟨1, [], false, none, none⟩
    let two : Semantic := ⟨2, [], false, none, some "x"⟩
    let two' : Semantic := ⟨2, [0], false, none, none⟩
    let p : Predicate := ⟨[⟨.atLeast, .semantic one⟩, ⟨.atMost, .semantic two'⟩]⟩
    let q : Predicate := ⟨[⟨.atLeast, .semantic two⟩]⟩
    parse ">=1 <=2.0" = .ok p ∧ parse ">=2+x" = .ok q ∧ Idle "\t* " ∧
      p.interval = .ok (some (.span (some ⟨one, true⟩) (some ⟨two', true⟩))) ∧
      q.interval = .ok (some (.span (some ⟨two, true⟩) none)) ∧
      ∃ r, parse (">=1 <=2.0" ++ "\t* " ++ ">=2+x") = .ok r ∧ r.terms = p.terms ++ q.terms ∧
        ∃ k, r.interval = .ok k ∧
          AlikeOrNone k (some (.span (some ⟨two, true⟩) (some ⟨two', true⟩))) := by
  intro one two two' p q
  have hp : parse ">=1 <=2.0" = .ok p := by decide +kernel
  have hq : parse ">=2+x" = .ok q := by decide +kernel
  have hidle : Idle "\t* " := by
    unfold Idle
    decide +kernel
  have hpi : p.interval = .ok (some (.span (some ⟨one, true⟩) (some ⟨two', true⟩))) := by
    decide +kernel
  have hqi : q.interval = .ok (some (.span (some ⟨two, true⟩) none)) := by decide +kernel
  obtain ⟨-, hcompose, hneutral⟩ := expressions_compose ">=1 <=2.0" ">=2+x"
  obtain ⟨r, hr, hterms, -, hinterval⟩ := hcompose p q hp hq
  obtain ⟨i, j, k, hi, hj, hk, -, halike⟩ :=
    hinterval (by rw [hpi]; nofun) (by rw [hqi]; nofun)
  obtain ⟨-, -, -, hbetween⟩ := hneutral "\t* " hidle
  cases hpi.symm.trans hi
  cases hqi.symm.trans hj
  exact ⟨hp, hq, hidle, hpi, hqi, r, (hbetween (by decide) (by decide) r).mpr hr, hterms, k, hk,
    halike⟩

end Predicate

end Semrange
