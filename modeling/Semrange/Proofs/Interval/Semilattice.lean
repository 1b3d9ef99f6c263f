import Semrange.Proofs.Interval.Membership
import Semrange.Proofs.Interval.Uniqueness

/-!
# Intersection is a semilattice

What an interval takes in is its region: the cuts that it extends over, and of each label what lies
below it, the label itself and what lies above it (`regionOf`). Two intervals share just what both of
them take in (`regionOf_intersect`), and the regions of proper intervals differ unless the intervals
are alike (`alikeOrNone_iff`). So neither the order nor the grouping of intersections matters, up to
which of two alike ends is kept, since they do not matter for regions.

The intervals have to be proper. One that starts where it stops takes in nothing, but it is there,
and by its region it cannot be told from none. Of such intervals the grouping does matter.
-/

namespace Semrange

/-! ## Coverages -/

namespace Coverage

/-- Nothing is covered. -/
def nothing : Coverage :=
  ⟨false, false, false⟩

/-- Everything is covered. -/
def everything : Coverage :=
  ⟨true, true, true⟩

/-- What is covered by both of two. -/
def and (c d : Coverage) : Coverage :=
  ⟨c.below && d.below, c.point && d.point, c.above && d.above⟩

/-- The order of two coverages does not matter. -/
theorem and_comm (c d : Coverage) : c.and d = d.and c := by
  simp only [and, Bool.and_comm]

/-- The grouping of three coverages does not matter. -/
theorem and_assoc (c d e : Coverage) : (c.and d).and e = c.and (d.and e) := by
  simp only [and, Bool.and_assoc]

@[simp]
theorem nothing_and (c : Coverage) : nothing.and c = nothing :=
  rfl

@[simp]
theorem and_nothing (c : Coverage) : c.and nothing = nothing := by
  rw [and_comm, nothing_and]

@[simp]
theorem everything_and (c : Coverage) : everything.and c = c :=
  rfl

end Coverage

namespace Reach

/-- What a reach covers, which is nothing where there is none. -/
def coverage? : Option Reach → Coverage
  | none => .nothing
  | some r => r.coverage

/-- A reach covers what its ends leave open, and its label when they admit it. -/
theorem coverage_eq (r : Reach) :
    r.coverage = ⟨r.lower?.isNone, r.lower?.getD true && r.upper?.getD true, r.upper?.isNone⟩ := by
  rw [← point_coverage]
  cases r <;> rfl

/-- What is made of flags, one of which is there, covers what they leave open, and the label when
they admit it. -/
theorem coverage?_ofFlags {i j : Option Bool} (h : i.isSome = true ∨ j.isSome = true) :
    coverage? (ofFlags i j) = ⟨i.isNone, i.getD true && j.getD true, j.isNone⟩ := by
  cases i with
  | none =>
    cases j with
    | none => exact absurd h (by simp)
    | some j => rfl
  | some i =>
    cases j with
    | none => exact congrArg (Coverage.mk false · true) (Bool.and_true i).symm
    | some j => cases i <;> cases j <;> rfl

/-- The flags of a reach make something that covers what it covers. -/
theorem coverage?_ofFlags_self (r : Reach) :
    coverage? (ofFlags r.lower? r.upper?) = r.coverage := by
  rw [coverage?_ofFlags r.isSome_lower?_or_upper?, coverage_eq]

/-- A side that two reaches share is open when it is open in both. -/
theorem isNone_meetFlags (i j : Option Bool) :
    (meetFlags i j).isNone = (i.isNone && j.isNone) := by
  cases i <;> cases j <;> rfl

/-- Two reaches share what both of them cover. -/
theorem coverage?_intersect (r s : Reach) :
    coverage? (r.intersect s) = r.coverage.and s.coverage := by
  unfold intersect
  -- Side by side: open in both, and the label when all four flags admit it.
  rw [coverage?_ofFlags (r.isSome_meetFlags s), isNone_meetFlags, isNone_meetFlags,
    getD_meetFlags, getD_meetFlags, Bool.and_assoc, Bool.and_left_comm (s.lower?.getD true),
    ← Bool.and_assoc, coverage_eq r, coverage_eq s]
  rfl

end Reach

/-! ## Regions -/

/-- What intervals take in. -/
@[ext]
structure Region where
  /-- The cuts between semantic versions. -/
  cuts : Set Cut
  /-- What is covered around each label. -/
  labels : String → Coverage

namespace Region

/-- What is in both of two regions. -/
def inter (p q : Region) : Region where
  cuts := p.cuts ∩ q.cuts
  labels name := (p.labels name).and (q.labels name)

/-- The order of two regions does not matter. -/
theorem inter_comm (p q : Region) : p.inter q = q.inter p :=
  Region.ext (Set.inter_comm _ _) (funext fun _ => Coverage.and_comm _ _)

/-- The grouping of three regions does not matter. -/
theorem inter_assoc (p q r : Region) : (p.inter q).inter r = p.inter (q.inter r) :=
  Region.ext (Set.inter_assoc _ _ _) (funext fun _ => Coverage.and_assoc _ _ _)

end Region

namespace Interval

/-- What an interval covers around a label. -/
def coverageAround (i : Interval) (name : String) : Coverage :=
  match i with
  | .span none none => .everything
  | .span _ _ => .nothing
  | .around s r => if s = name then r.coverage else .nothing

/-- What an interval covers around a label, which is nothing where there is none. -/
def coverageOf (o : Option Interval) (name : String) : Coverage :=
  match o with
  | none => .nothing
  | some i => i.coverageAround name

/-- The region of an interval, which is empty where there is none. -/
def regionOf (o : Option Interval) : Region where
  cuts := extentOf o.toList
  labels := coverageOf o

/-- A span covers everything around a label if it has no ends, and nothing otherwise. -/
theorem coverageAround_span (lower upper : Option End) (name : String) :
    (span lower upper).coverageAround name =
      if lower = none ∧ upper = none then .everything else .nothing := by
  cases lower <;> cases upper <;> rfl

/-- An interval covers around its label what its reach covers. -/
theorem coverageOf_map_around (o : Option Reach) (s name : String) :
    coverageOf (o.map (around s)) name = if s = name then Reach.coverage? o else .nothing := by
  cases o with
  | none => exact (ite_self _).symm
  | some r => rfl

/-! ## Intersections of regions -/

/-- Two spans share all of a label when neither of them has an end, and nothing of it otherwise. -/
theorem coverageOf_intersect_spans {al au bl bu : Option End} (ha : (span al au).Concrete)
    (hb : (span bl bu).Concrete) (name : String) :
    coverageOf ((span al au).intersect (span bl bu)) name =
      ((span al au).coverageAround name).and ((span bl bu).coverageAround name) := by
  have hs := shared_intersectSpans ha hb
  show coverageOf (intersectSpans al au bl bu) name = _
  rw [coverageAround_span, coverageAround_span]
  generalize intersectSpans al au bl bu = o at hs
  cases hs with
  | span lower upper _ _ hl hu =>
    -- What is shared has no end on a side where neither span has one.
    have hlower : lower = none ↔ al = none ∧ bl = none := by
      rw [← lowerCut_eq_bot, hl, max_eq_bot, lowerCut_eq_bot, lowerCut_eq_bot]
    have hupper : upper = none ↔ au = none ∧ bu = none := by
      rw [← upperCut_eq_top, hu, min_eq_top, upperCut_eq_top, upperCut_eq_top]
    show (span lower upper).coverageAround name = _
    rw [coverageAround_span]
    by_cases hall : al = none ∧ au = none
    · rw [if_pos hall, Coverage.everything_and]
      refine if_congr ?_ rfl rfl
      rw [hlower, hupper, and_iff_right hall.1, and_iff_right hall.2]
    · rw [if_neg hall, Coverage.nothing_and]
      exact if_neg fun h => hall ⟨(hlower.mp h.1).1, (hupper.mp h.2).1⟩
  | nothing hle =>
    -- There would be room if neither span had an end.
    by_cases hall : al = none ∧ au = none
    · rw [if_pos hall, Coverage.everything_and]
      refine (if_neg ?_).symm
      rintro ⟨rfl, rfl⟩
      obtain ⟨rfl, rfl⟩ := hall
      rw [min_self, max_self] at hle
      exact absurd hle (bot_lt_upperCut none).not_ge
    · rw [if_neg hall, Coverage.nothing_and]
      rfl

/-- A span and an interval around a label share of any label what both cover. -/
theorem coverageOf_intersect_span_around (lower upper : Option End) (s : String) (r : Reach)
    (name : String) :
    coverageOf ((span lower upper).intersect (around s r)) name =
      ((span lower upper).coverageAround name).and ((around s r).coverageAround name) := by
  rw [intersect_span_around, coverageAround_span]
  by_cases hall : lower = none ∧ upper = none
  · rw [if_pos hall, if_pos hall, coverageOf_map_around, Reach.coverage?_ofFlags_self,
      Coverage.everything_and]
    rfl
  · rw [if_neg hall, if_neg hall, Coverage.nothing_and]
    rfl

/-- Two intervals around labels share of any label what both cover. -/
theorem coverageOf_intersect_arounds (s t : String) (r q : Reach) (name : String) :
    coverageOf ((around s r).intersect (around t q)) name =
      ((around s r).coverageAround name).and ((around t q).coverageAround name) := by
  show coverageOf (if s = t then (r.intersect q).map (around s) else none) name =
    (if s = name then r.coverage else .nothing).and (if t = name then q.coverage else .nothing)
  -- Around one label both cover something; of two labels one is covered by one interval only.
  by_cases hst : s = t
  · rw [if_pos hst, coverageOf_map_around, Reach.coverage?_intersect, ← hst]
    by_cases hs : s = name
    · rw [if_pos hs, if_pos hs, if_pos hs]
    · rw [if_neg hs, if_neg hs, Coverage.nothing_and]
  · rw [if_neg hst]
    by_cases hs : s = name
    · rw [if_neg fun ht : t = name => hst (hs.trans ht.symm), Coverage.and_nothing]
      rfl
    · rw [if_neg hs, Coverage.nothing_and]
      rfl

/-- An interval around a label has no cuts. -/
theorem extentOf_around (s : String) (r : Reach) : extentOf [around s r] = ∅ :=
  (extentOf_singleton _).trans (extent_of_not_isSemantic rfl)

/-- An interval around a label shares no cuts with another interval. -/
theorem extentOf_intersect_around (s : String) (r : Reach) (j : Interval) :
    extentOf ((around s r).intersect j).toList = ∅ := by
  cases h : (around s r).intersect j with
  | none => exact extentOf_nil
  | some k =>
    obtain ⟨q, rfl⟩ := exists_around_of_intersect h
    exact extentOf_around s q

/-- Two intervals share just what both of them take in. -/
theorem regionOf_intersect {i j : Interval} (hi : i.Concrete) (hj : j.Concrete) :
    regionOf (i.intersect j) = (regionOf (some i)).inter (regionOf (some j)) := by
  cases i with
  | span al au =>
    cases j with
    | span bl bu =>
      refine Region.ext ?_ (funext (coverageOf_intersect_spans hi hj))
      show extentOf _ = extentOf [span al au] ∩ extentOf [span bl bu]
      rw [extentOf_intersect ⟨rfl, hi⟩ ⟨rfl, hj⟩, extentOf_singleton, extentOf_singleton]
    | around t q =>
      -- Beside an interval around a label no cuts are shared.
      refine Region.ext ?_ (funext (coverageOf_intersect_span_around al au t q))
      show extentOf _ = extentOf [span al au] ∩ extentOf [around t q]
      rw [← intersect_around_span, extentOf_intersect_around, extentOf_around, Set.inter_empty]
  | around s r =>
    refine Region.ext ?_ (funext fun name => ?_)
    · show extentOf _ = extentOf [around s r] ∩ extentOf [j]
      rw [extentOf_intersect_around, extentOf_around, Set.empty_inter]
    · show coverageOf ((around s r).intersect j) name =
        ((around s r).coverageAround name).and (j.coverageAround name)
      cases j with
      | span bl bu =>
        rw [intersect_around_span, coverageOf_intersect_span_around, Coverage.and_comm]
      | around t q => exact coverageOf_intersect_arounds s t r q name

/-! ## Solid intervals -/

/-- An interval is solid when it is proper and its ends are at versions without wildcards. -/
structure Solid (i : Interval) : Prop where
  /-- The ends have no wildcards. -/
  concrete : i.Concrete
  /-- The interval is proper. -/
  proper : i.Proper

/-- If there is an interval, it is solid. -/
def SolidOrNone (o : Option Interval) : Prop :=
  ∀ i ∈ o, i.Solid

/-- What a reach is made of makes it again when it is proper. -/
theorem ofFlags_self {name : String} {r : Reach} (h : (around name r).Proper) :
    Reach.ofFlags r.lower? r.upper? = some r := by
  cases r with
  | below inclusive => rfl
  | above inclusive => rfl
  | within lower upper =>
    obtain ⟨rfl, rfl⟩ : lower = true ∧ upper = true := h
    rfl

/-- What flags make is proper. -/
theorem proper_of_ofFlags {i j : Option Bool} {r : Reach} (h : Reach.ofFlags i j = some r)
    (name : String) : (around name r).Proper := by
  cases i with
  | none =>
    cases j with
    | none => exact absurd h nofun
    | some j =>
      cases h
      trivial
  | some i =>
    cases j with
    | none =>
      cases h
      trivial
    | some j =>
      -- Flags on both sides only make a reach when both are set.
      obtain ⟨hflags, heq⟩ := Option.ite_none_right_eq_some.mp h
      cases heq
      exact Bool.and_eq_true_iff.mp hflags

/-- What intervals around one label share is proper. -/
theorem proper_of_intersect_around {s : String} {r : Reach} {j k : Interval}
    (h : (around s r).intersect j = some k) : k.Proper := by
  -- What is shared is made of flags, whatever the other interval is.
  have hmap : ∀ {i i' : Option Bool}, (Reach.ofFlags i i').map (around s) = some k → k.Proper := by
    intro i i' hk
    obtain ⟨q, hq, rfl⟩ := Option.map_eq_some_iff.mp hk
    exact proper_of_ofFlags hq s
  cases j with
  | span lower upper =>
    rw [intersect_around_span, intersect_span_around] at h
    split_ifs at h
    exact hmap h
  | around t q =>
    by_cases hst : s = t
    · exact hmap ((if_pos hst).symm.trans h)
    · exact absurd ((if_neg hst).symm.trans h) nofun

/-- What two solid intervals share is solid. -/
theorem solidOrNone_intersect {i j : Interval} (hi : i.Solid) (hj : j.Solid) :
    SolidOrNone (i.intersect j) := by
  intro k hk
  cases i with
  | span al au =>
    cases j with
    | span bl bu =>
      -- Proper spans have room, and so has what they share.
      have hci : (span al au).isSemantic = true ∧ (span al au).Concrete := ⟨rfl, hi.concrete⟩
      have hcj : (span bl bu).isSemantic = true ∧ (span bl bu).Concrete := ⟨rfl, hj.concrete⟩
      have hck := concrete_intersect hci hcj hk
      have hroom := room_intersect hci hcj ((proper_iff hci).mp hi.proper)
        ((proper_iff hcj).mp hj.proper) hk
      exact ⟨hck.2, (proper_iff hck).mpr hroom⟩
    | around t q =>
      -- What is around a label is so on either side.
      have hk' : (around t q).intersect (span al au) = some k :=
        (intersect_around_span al au t q).trans hk
      obtain ⟨p, rfl⟩ := exists_around_of_intersect hk'
      exact ⟨trivial, proper_of_intersect_around hk'⟩
  | around s r =>
    obtain ⟨p, rfl⟩ := exists_around_of_intersect hk
    exact ⟨trivial, proper_of_intersect_around hk⟩

/-- What two solid intervals, or none, share is solid. -/
theorem solidOrNone_intersect? {o p : Option Interval} (ho : SolidOrNone o) (hp : SolidOrNone p) :
    SolidOrNone (intersect? o p) := by
  intro k hk
  obtain ⟨i, hi, hk⟩ := Option.bind_eq_some_iff.mp hk
  obtain ⟨j, hj, hk⟩ := Option.bind_eq_some_iff.mp hk
  exact solidOrNone_intersect (ho i hi) (hp j hj) k hk

/-- An empty region has nothing in common with another one. -/
theorem regionOf_none_inter (p : Region) : (regionOf none).inter p = regionOf none := by
  refine Region.ext ?_ rfl
  show extentOf [] ∩ p.cuts = extentOf []
  rw [extentOf_nil, Set.empty_inter]

/-- Two solid intervals, or none, share just what both of them take in. -/
theorem regionOf_intersect? {o p : Option Interval} (ho : SolidOrNone o) (hp : SolidOrNone p) :
    regionOf (intersect? o p) = (regionOf o).inter (regionOf p) := by
  cases o with
  | none => exact (regionOf_none_inter _).symm
  | some i =>
    cases p with
    | none =>
      rw [Region.inter_comm, regionOf_none_inter]
      rfl
    | some j => exact regionOf_intersect (ho i rfl).concrete (hp j rfl).concrete

/-! ## Alike intervals -/

/-- Two intervals, either of which may be missing, are alike when both are missing or both are there
and are alike. -/
def AlikeOrNone : Option Interval → Option Interval → Prop
  | none, none => True
  | some i, some j => i.Alike j
  | _, _ => False

/-- A proper interval around a label is known by what it covers. -/
theorem reaches_coverage {name : String} {r : Reach} (h : (around name r).Proper) :
    r.coverage.reaches = [r] := by
  cases r with
  | below inclusive => rfl
  | above inclusive => rfl
  | within lower upper =>
    obtain ⟨rfl, rfl⟩ : lower = true ∧ upper = true := h
    rfl

/-- A proper interval around a label covers something. -/
theorem coverage_ne_nothing {name : String} {r : Reach} (h : (around name r).Proper) :
    r.coverage ≠ .nothing := by
  intro hr
  have hnil : r.coverage.reaches = [] := congrArg Coverage.reaches hr
  exact absurd ((reaches_coverage h).symm.trans hnil) (List.cons_ne_nil r [])

/-- A solid span extends over cuts. -/
theorem extentOf_span_ne_empty {lower upper : Option End} (h : (span lower upper).Solid) :
    extentOf [span lower upper] ≠ ∅ := by
  rw [extentOf_singleton]
  exact Set.nonempty_iff_ne_empty.mp
    (Set.nonempty_Ico.mpr ((proper_iff ⟨rfl, h.concrete⟩).mp h.proper))

/-- A solid interval takes in something. -/
theorem regionOf_some_ne_none {i : Interval} (h : i.Solid) :
    regionOf (some i) ≠ regionOf none := by
  intro heq
  cases i with
  | span lower upper =>
    -- A span takes in cuts, any other interval a part of its label.
    have hcuts : extentOf [span lower upper] = extentOf [] := congrArg Region.cuts heq
    exact extentOf_span_ne_empty h (hcuts.trans extentOf_nil)
  | around s r =>
    have hlabel : (if s = s then r.coverage else .nothing) = Coverage.nothing :=
      congrFun (congrArg Region.labels heq) s
    exact coverage_ne_nothing h.proper ((if_pos rfl).symm.trans hlabel)

/-- Solid spans are alike when they take in the same. -/
theorem alike_spans_iff {al au bl bu : Option End} (hi : (span al au).Solid)
    (hj : (span bl bu).Solid) :
    (span al au).Alike (span bl bu) ↔
      regionOf (some (span al au)) = regionOf (some (span bl bu)) := by
  have hsi : ∀ k ∈ [span al au], k.isSemantic = true ∧ k.Concrete :=
    List.forall_mem_singleton.mpr ⟨rfl, hi.concrete⟩
  have hsj : ∀ k ∈ [span bl bu], k.isSemantic = true ∧ k.Concrete :=
    List.forall_mem_singleton.mpr ⟨rfl, hj.concrete⟩
  have hspaced : ∀ {k : Interval}, k.isSemantic = true → k.Solid → Spaced [k] :=
    fun hsem hk => ⟨List.forall_mem_singleton.mpr ((proper_iff ⟨hsem, hk.concrete⟩).mp hk.proper),
      List.pairwise_singleton _ _⟩
  constructor
  · intro h
    obtain ⟨hstart, hstop⟩ :=
      (alike_iff ⟨rfl, hi.concrete⟩ ⟨rfl, hj.concrete⟩).mp h
    -- Cuts at the same place are at ends both of which are there or neither.
    have hlower : al = none ↔ bl = none := by
      rw [← lowerCut_eq_bot, ← lowerCut_eq_bot]
      exact Eq.congr_left hstart
    have hupper : au = none ↔ bu = none := by
      rw [← upperCut_eq_top, ← upperCut_eq_top]
      exact Eq.congr_left hstop
    refine Region.ext ?_ (funext fun name => ?_)
    · show extentOf [span al au] = extentOf [span bl bu]
      rw [extentOf_singleton, extentOf_singleton]
      exact congrArg₂ Set.Ico hstart hstop
    · show (span al au).coverageAround name = (span bl bu).coverageAround name
      rw [coverageAround_span, coverageAround_span]
      exact if_congr (and_congr hlower hupper) rfl rfl
  · intro h
    -- The cuts that a span extends over say where it starts and stops.
    have hcuts : extentOf [span al au] = extentOf [span bl bu] := congrArg Region.cuts h
    have halike := alike_of_extentOf_eq hsi hsj (hspaced rfl hi) (hspaced rfl hj) hcuts
    exact (List.forall₂_cons.mp halike).1

/-- Proper intervals around labels are alike when they take in the same. -/
theorem alike_arounds_iff {s t : String} {r q : Reach} (hi : (around s r).Proper)
    (hj : (around t q).Proper) :
    (around s r).Alike (around t q) ↔
      regionOf (some (around s r)) = regionOf (some (around t q)) := by
  constructor
  · rintro ⟨rfl, rfl⟩
    rfl
  · intro h
    -- Around the label of the first one both cover the same, so the second one is around it too.
    have hlabel : (if s = s then r.coverage else .nothing) =
        if t = s then q.coverage else Coverage.nothing :=
      congrFun (congrArg Region.labels h) s
    rw [if_pos rfl] at hlabel
    by_cases hts : t = s
    · rw [if_pos hts] at hlabel
      have hreaches : [r] = [q] := by
        rw [← reaches_coverage hi, ← reaches_coverage hj, hlabel]
      exact ⟨hts.symm, List.singleton_injective hreaches⟩
    · rw [if_neg hts] at hlabel
      exact absurd hlabel (coverage_ne_nothing hi)

/-- Solid intervals are alike when they take in the same. -/
theorem alike_iff_regionOf_eq {i j : Interval} (hi : i.Solid) (hj : j.Solid) :
    i.Alike j ↔ regionOf (some i) = regionOf (some j) := by
  -- A span takes in cuts, and an interval around a label does not.
  have hmixed : ∀ {lower upper : Option End} {s : String} {r : Reach}, (span lower upper).Solid →
      regionOf (some (span lower upper)) ≠ regionOf (some (around s r)) := by
    intro lower upper s r hk h
    have hcuts : extentOf [span lower upper] = extentOf [around s r] := congrArg Region.cuts h
    exact extentOf_span_ne_empty hk (hcuts.trans (extentOf_around s r))
  cases i with
  | span al au =>
    cases j with
    | span bl bu => exact alike_spans_iff hi hj
    | around t q => exact iff_of_false id (hmixed hi)
  | around s r =>
    cases j with
    | span bl bu => exact iff_of_false id (hmixed hj).symm
    | around t q => exact alike_arounds_iff hi.proper hj.proper

/-- Solid intervals, or none, are alike when they take in the same. -/
theorem alikeOrNone_iff {o p : Option Interval} (ho : SolidOrNone o) (hp : SolidOrNone p) :
    AlikeOrNone o p ↔ regionOf o = regionOf p := by
  cases o with
  | none =>
    cases p with
    | none => exact iff_of_true trivial rfl
    | some j => exact iff_of_false id (regionOf_some_ne_none (hp j rfl)).symm
  | some i =>
    cases p with
    | none => exact iff_of_false id (regionOf_some_ne_none (ho i rfl))
    | some j => exact alike_iff_regionOf_eq (ho i rfl) (hp j rfl)

/-! ## The laws -/

section

variable {o p q : Option Interval} (ho : SolidOrNone o) (hp : SolidOrNone p)
include ho hp

/-- The order of two intervals does not matter for what they share. -/
theorem intersect?_comm : AlikeOrNone (intersect? o p) (intersect? p o) := by
  rw [alikeOrNone_iff (solidOrNone_intersect? ho hp) (solidOrNone_intersect? hp ho),
    regionOf_intersect? ho hp, regionOf_intersect? hp ho, Region.inter_comm]

/-- The grouping of three intervals does not matter for what they share. -/
theorem intersect?_assoc (hq : SolidOrNone q) :
    AlikeOrNone (intersect? (intersect? o p) q) (intersect? o (intersect? p q)) := by
  have hop := solidOrNone_intersect? ho hp
  have hpq := solidOrNone_intersect? hp hq
  rw [alikeOrNone_iff (solidOrNone_intersect? hop hq) (solidOrNone_intersect? ho hpq)]
  calc regionOf (intersect? (intersect? o p) q)
      = ((regionOf o).inter (regionOf p)).inter (regionOf q) := by
        rw [regionOf_intersect? hop hq, regionOf_intersect? ho hp]
    _ = (regionOf o).inter ((regionOf p).inter (regionOf q)) := Region.inter_assoc _ _ _
    _ = regionOf (intersect? o (intersect? p q)) := by
        rw [regionOf_intersect? ho hpq, regionOf_intersect? hp hq]

end

/-- A flag that is shared with itself is kept. -/
theorem meetFlags_self (i : Option Bool) : Reach.meetFlags i i = i := by
  cases i with
  | none => rfl
  | some i => exact congrArg some (Bool.and_self i)

/-- A solid interval shares itself with itself. -/
theorem intersect_self {i : Interval} (h : i.Solid) : i.intersect i = some i := by
  cases i with
  | span lower upper =>
    -- Neither end is above the other, so the first one is taken both times.
    have hl : compareLower lower lower = .eq :=
      (compares_compareLower h.concrete.1 h.concrete.1).eq_eq.mpr rfl
    have hu : compareUpper upper upper = .eq :=
      (compares_compareUpper h.concrete.2 h.concrete.2).eq_eq.mpr rfl
    show intersectSpans lower upper lower upper = _
    unfold intersectSpans
    rw [hl, hu]
  | around s r =>
    have hr : r.intersect r = some r := by
      unfold Reach.intersect
      rw [meetFlags_self, meetFlags_self, ofFlags_self h.proper]
    show (if s = s then (r.intersect r).map (around s) else none) = _
    rw [if_pos rfl, hr]
    rfl

/-- The interval of all versions shares with a proper one all of it. -/
theorem all_intersect {i : Interval} (h : i.Proper) : all.intersect i = some i := by
  cases i with
  | span lower upper => cases lower <;> cases upper <;> rfl
  | around s r =>
    show (Reach.ofFlags r.lower? r.upper?).map (around s) = _
    rw [ofFlags_self h]
    rfl

/-- Intersection is a semilattice, up to alike ends: for proper intervals between bounds that have
been read, semantic or labels, it is idempotent, commutative and associative, it has the interval of
all versions as its unit, and all that it gives is proper. -/
theorem intersect_semilattice {al au bl bu cl cu : Option Bound} {a b c : Interval}
    (ha : ofBounds al au = .ok a) (hb : ofBounds bl bu = .ok b) (hc : ofBounds cl cu = .ok c)
    (hal : ReadOrNone al) (hau : ReadOrNone au) (hbl : ReadOrNone bl) (hbu : ReadOrNone bu)
    (hcl : ReadOrNone cl) (hcu : ReadOrNone cu) (hpa : a.Proper) (hpb : b.Proper)
    (hpc : c.Proper) :
    a.intersect a = some a ∧ all.intersect a = some a ∧
      AlikeOrNone (a.intersect b) (b.intersect a) ∧
      AlikeOrNone (intersect? (a.intersect b) (some c)) (intersect? (some a) (b.intersect c)) ∧
      (∀ k ∈ a.intersect b, k.Proper) ∧
      (∀ k ∈ intersect? (a.intersect b) (some c), k.Proper) ∧
      ∀ k ∈ intersect? (some a) (b.intersect c), k.Proper := by
  have hsa : a.Solid := ⟨(legible_of_ofBounds ha hal hau).concrete, hpa⟩
  have hsb : b.Solid := ⟨(legible_of_ofBounds hb hbl hbu).concrete, hpb⟩
  have hsc : c.Solid := ⟨(legible_of_ofBounds hc hcl hcu).concrete, hpc⟩
  have hsome : ∀ {i : Interval}, i.Solid → SolidOrNone (some i) := by
    rintro i hi k ⟨⟩
    exact hi
  have hab := solidOrNone_intersect hsa hsb
  have hbc := solidOrNone_intersect hsb hsc
  exact ⟨intersect_self hsa, all_intersect hpa, intersect?_comm (hsome hsa) (hsome hsb),
    intersect?_assoc (hsome hsa) (hsome hsb) (hsome hsc), fun k hk => (hab k hk).proper,
    fun k hk => (solidOrNone_intersect? hab (hsome hsc) k hk).proper,
    fun k hk => (solidOrNone_intersect? (hsome hsa) hbc k hk).proper⟩

/-- Two spans that meet in a version that is written in two ways, within a third one, and the two
halves around a label within all versions. -/
theorem intersect_semilattice_meeting :
    let one : Semantic := ⟨1, [], false, none, none⟩
    let two : Semantic := ⟨2, [], false, none, none⟩
    let two' : Semantic := ⟨2, [0], false, none, some "x"⟩
    let a := span (some ⟨one, false⟩) (some ⟨two, true⟩)
    let b := span (some ⟨two', true⟩) none
    let c := span none (some ⟨two', true⟩)
    let below := around "foo" (.below true)
    let above := around "foo" (.above true)
    (a.Proper ∧ b.Proper ∧ c.Proper ∧
      intersect? (a.intersect b) (some c) = some (span (some ⟨two', true⟩) (some ⟨two, true⟩)) ∧
      intersect? (some a) (b.intersect c) = some (span (some ⟨two', true⟩) (some ⟨two', true⟩)) ∧
      AlikeOrNone (intersect? (a.intersect b) (some c)) (intersect? (some a) (b.intersect c))) ∧
      below.Proper ∧ above.Proper ∧ below.intersect above = some (around "foo" (.within true true)) ∧
      AlikeOrNone (below.intersect above) (above.intersect below) := by
  intro one two two' a b c below above
  have hone : Version.parse false "1" = .ok (.semantic one) := by decide +kernel
  have htwo : Version.parse false "2" = .ok (.semantic two) := by decide +kernel
  have htwo' : Version.parse false "2.0+x" = .ok (.semantic two') := by decide +kernel
  have hfoo : Version.parse false "foo" = .ok (.label "foo") := by decide +kernel
  have ha : ofBounds (some ⟨.semantic one, false⟩) (some ⟨.semantic two, true⟩) = .ok a := rfl
  have hb : ofBounds (some ⟨.semantic two', true⟩) none = .ok b := rfl
  have hc : ofBounds none (some ⟨.semantic two', true⟩) = .ok c := rfl
  have hbelow : ofBounds none (some ⟨.label "foo", true⟩) = .ok below := rfl
  have habove : ofBounds (some ⟨.label "foo", true⟩) none = .ok above := rfl
  have hall : ofBounds none none = .ok all := rfl
  have hpa : a.Proper := Or.inl (by decide)
  have hspans := intersect_semilattice ha hb hc (readOrNone_of_parse hone false)
    (readOrNone_of_parse htwo true) (readOrNone_of_parse htwo' true) readOrNone_none
    readOrNone_none (readOrNone_of_parse htwo' true) hpa trivial trivial
  have hlabels := intersect_semilattice hbelow habove hall readOrNone_none
    (readOrNone_of_parse hfoo true) (readOrNone_of_parse hfoo true) readOrNone_none
    readOrNone_none readOrNone_none trivial trivial trivial
  exact ⟨⟨hpa, trivial, trivial, by decide, by decide, hspans.2.2.2.1⟩, trivial, trivial,
    by decide, hlabels.2.2.1⟩

-- Three intervals between a version and itself, none of which holds it on both sides.
example :
    let one : Semantic := ⟨1, [], false, none, none⟩
    let a := span (some ⟨one, false⟩) (some ⟨one, true⟩)
    let b := span (some ⟨one, true⟩) (some ⟨one, false⟩)
    let c := span (some ⟨one, false⟩) (some ⟨one, false⟩)
    intersect? (a.intersect b) (some c) = none ∧
      intersect? (some a) (b.intersect c) = some c := by
  decide

end Interval

end Semrange
