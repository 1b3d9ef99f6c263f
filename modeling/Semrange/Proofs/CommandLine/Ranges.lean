import Semrange.CommandLine.Run
import Semrange.Proofs.Cache.Faithful
import Semrange.Proofs.Dependency.Allowance
import Semrange.Proofs.Log.Reports

/-!
# The commands on ranges agree

`test` tries the predicates of its ranges one by one; `interval` adds up their intervals and takes
the complement if it is told to. Both read their ranges through a cache of which nothing is asked but
that it is faithful, as a new one is: then a range is read as what it denotes, however long the cache
keeps what it stores and however much of it (`exists_result_readRange`). So the one reads just the
predicates (`result_readRanges`) and the other adds up just their intervals (`result_addRanges`), and
a version passes where it is in an interval that is printed, and does not where it is in one that is
printed for what lies outside (`test_agrees_with_intervals`).
-/

namespace Semrange

open Semrange.Interval (complementAll unionAll)

namespace CommandLine

/-! ## Reading ranges through a cache -/

/-- The result of reading a range is what the cache gives. -/
theorem result_readRange (c : Cache) (now : Int) (e : String) :
    (readRange c now e).result = ((c.getOrParse now (now + 1) e).1.mapError .range).map fun p =>
      (p, (c.getOrParse now (now + 1) e).2) := by
  -- The remarks on the range are told beforehand and have no part in the result.
  refine (Report.result_when _ (Report.result_tell _) _).trans ?_
  rcases c.getOrParse now (now + 1) e with ⟨e | p, d⟩ <;> rfl

/-- The result of asking for the interval of a predicate is that interval. -/
theorem result_intervalOf (p : Predicate) :
    (intervalOf p).result = p.interval.mapError .bound := by
  unfold intervalOf
  rw [Report.result_bind, Report.result_ofExcept]
  cases p.interval with
  | error e => rfl
  | ok o => exact Report.result_when _ (Report.result_note _ _ _) _

section

variable {c : Cache} (hc : c.Faithful)
include hc

/-- Through a faithful cache a range is read as what it denotes, and the cache stays faithful. -/
theorem exists_result_readRange (now : Int) {e : String} {p : Predicate}
    (he : Predicate.parse e = .ok p) :
    ∃ d, (readRange c now e).result = .ok (p, d) ∧ d.Faithful := by
  obtain ⟨hparse, hfaithful⟩ := hc.getOrParse now (now + 1) e
  refine ⟨_, ?_, hfaithful⟩
  rw [result_readRange, hparse, he]
  rfl

/-- Through a faithful cache ranges are read as what they denote, from whatever moment on. -/
theorem result_readRanges (now : Int) {es : List String} {ps : List Predicate}
    (h : List.Forall₂ (fun e p => Predicate.parse e = .ok p) es ps) :
    (readRanges c now es).result = .ok ps := by
  induction h generalizing c now with
  | nil => rfl
  | cons he _ ih =>
    obtain ⟨d, hread, hd⟩ := exists_result_readRange hc now he
    simp [readRanges, hread, Except.bind, ih hd]

/-- Through a faithful cache the intervals of what ranges denote are added up, from whatever moment
on. -/
theorem result_addRanges (now : Int) (known : List Interval) {es : List String}
    {ps : List Predicate} (h : List.Forall₂ (fun e p => Predicate.parse e = .ok p) es ps) :
    (addRanges c now known es).result = (Dependency.addIntervals known ps).mapError .bound := by
  induction h generalizing c now known with
  | nil => rfl
  | @cons e p _ _ he _ ih =>
    obtain ⟨d, hread, hd⟩ := exists_result_readRange hc now he
    simp only [addRanges, Report.result_bind, hread, Except.bind, result_intervalOf,
      Dependency.addIntervals]
    -- The two sums take the same step, and part where an interval cannot be had.
    cases p.interval with
    | error e => rfl
    | ok o => exact ih hd _ _

/-- Through a faithful cache ranges add up to the union of their intervals, unless one of these cannot
be had. -/
theorem result_addRanges_eq_unionAll (now : Int) {es : List String} {ps : List Predicate}
    (h : List.Forall₂ (fun e p => Predicate.parse e = .ok p) es ps)
    (hnumeral : ∀ p ∈ ps, p.interval ≠ .error (.numeral .unwritable)) :
    (addRanges c now [] es).result = .ok (unionAll (Predicate.intervals ps)) := by
  rw [result_addRanges hc now [] h]
  rcases Dependency.addIntervals_unionAll (List.forall_mem_nil _)
    (Predicate.exists_parse_of_forall₂ h) with ⟨⟨p, hp, herror⟩, -⟩ | ⟨-, hadd⟩
  · exact absurd herror (hnumeral p hp)
  · exact congrArg (Except.mapError Failure.bound) hadd

end

/-! ## The two commands -/

/-- The result of inverting intervals is their complement. -/
theorem result_invert (l : List Interval) :
    (invert l).result = .ok (complementAll (l.map some)) :=
  Report.result_when _ (Report.result_note _ _ _) _

/-- The result of reading a version is the version. -/
theorem result_readVersion (s : String) :
    (readVersion s).result = (Version.parse false s).mapError .version :=
  rfl

/-- The lines that intervals are printed on. -/
def intervalLines (l : List Interval) : List String :=
  if l.isEmpty then ["(empty)"] else l.map Interval.text

/-- The intervals that are printed are those that the ranges add up to, or their complement. -/
theorem result_runInterval (s : Settings) (ranges : List String) (outside : Bool) :
    (runInterval s ranges outside).result =
      (addRanges (newCache s) 1 [] ranges).result.map fun covered =>
        (.success,
          intervalLines (if outside then complementAll (covered.map some) else covered)) := by
  unfold runInterval
  rw [Report.result_bind]
  cases (addRanges (newCache s) 1 [] ranges).result with
  | error e => rfl
  | ok covered =>
    cases outside with
    | false => rfl
    | true => simp [Except.bind, Except.map, result_invert, intervalLines]

/-- The cache of a run is faithful when it starts, whatever the settings want of it. -/
theorem faithful_newCache (s : Settings) : (newCache s).Faithful :=
  Cache.faithful_new _ _ _ _

/-- A version is tested against what its ranges denote, and passes or does not. -/
theorem result_runTest (s : Settings) {version : String} {v : Version}
    (hv : Version.parse false version = .ok v) {ranges : List String} {ps : List Predicate}
    (h : List.Forall₂ (fun e p => Predicate.parse e = .ok p) ranges ps) :
    ∃ code lines, (runTest s version ranges).result = .ok (code, lines) ∧
      (code = .success ↔ ∃ p ∈ ps, p.test v = true) ∧
      (code = .unsatisfied ↔ ¬∃ p ∈ ps, p.test v = true) := by
  unfold runTest
  simp only [Report.result_bind, result_readVersion, hv,
    result_readRanges (faithful_newCache s) 1 h, Except.mapError, Except.bind]
  cases hfind : ps.find? fun p => p.test v with
  | some p =>
    have hpasses : ∃ p ∈ ps, p.test v = true :=
      ⟨p, List.mem_of_find?_eq_some hfind, by simpa using List.find?_some hfind⟩
    exact ⟨.success, _, rfl, iff_of_true rfl hpasses, iff_of_false nofun (not_not_intro hpasses)⟩
  | none =>
    have hfails : ¬∃ p ∈ ps, p.test v = true :=
      fun ⟨p, hp, htest⟩ => List.find?_eq_none.mp hfind p hp htest
    exact ⟨.unsatisfied, _, rfl, iff_of_false nofun hfails, iff_of_true rfl hfails⟩

/-- Both commands agree where no reference is a label: a version passes one of the ranges just when
it is in one of the intervals that are printed for them, and passes none just when it is in one of
those that are printed for what lies outside. That is so however long the cache keeps what it stores
and however much it stores. -/
theorem test_agrees_with_intervals (s : Settings) {version : String} {v : Semantic}
    (hv : Version.parse false version = .ok (.semantic v)) {ranges : List String}
    {ps : List Predicate}
    (hps : List.Forall₂ (fun e p => Predicate.parse e = .ok p) ranges ps)
    (href : ∀ p ∈ ps, ∀ t ∈ p.terms, t.reference.isSemantic = true)
    (hnumeral : ∀ p ∈ ps, p.interval ≠ .error (.numeral .unwritable)) :
    ∃ code lines covered outside,
      (runTest s version ranges).result = .ok (code, lines) ∧
      (addRanges (newCache s) 1 [] ranges).result = .ok covered ∧
      (runInterval s ranges false).result = .ok (.success, intervalLines covered) ∧
      (invert covered).result = .ok outside ∧
      (runInterval s ranges true).result = .ok (.success, intervalLines outside) ∧
      (code = .success ↔ ∃ i ∈ covered, i.contains (.semantic v) = true) ∧
      (code = .unsatisfied ↔ ∃ i ∈ outside, i.contains (.semantic v) = true) := by
  have hread := Predicate.exists_parse_of_forall₂ hps
  have hplain := Predicate.plain_intervals hread
  have hlegible := Version.legible_of_parse_false hv
  have hcovered := result_addRanges_eq_unionAll (faithful_newCache s) 1 hps hnumeral
  have hinterval := result_runInterval s ranges
  rw [hcovered] at hinterval
  obtain ⟨code, lines, hcode, hsuccess, hunsatisfied⟩ := result_runTest s hv hps
  have htest := Predicate.exists_test_iff hread hnumeral hlegible
  refine ⟨code, lines, _, _, hcode, hcovered, hinterval false, result_invert _, hinterval true,
    ?_, ?_⟩
  · -- A semantic version that passes is in a span of the union.
    rw [hsuccess, htest, Interval.exists_contains_unionAll_iff hplain hlegible nofun]
    exact (or_iff_left fun h => absurd h.1 nofun).symm
  · -- Nothing that is covered is a label, so the complement is made of spans as well.
    have hspans : ∀ i ∈ unionAll (Predicate.intervals ps), i.isSemantic = true := fun i hi =>
      (Interval.inherited_spans.unionAll (Predicate.spans_intervals hread href) i hi).1
    rw [hunsatisfied, htest, Interval.exists_contains_complementAll_unionAll_iff hplain hlegible]
    exact (and_iff_left (Or.inr ⟨rfl, hspans⟩)).symm

/-- Slots that are stale as soon as they are stored, and only one of them at a time; and as many slots
as there are ranges, with a lifetime of more than three hundred digits. -/
theorem test_agrees_with_intervals_lifetimes :
    let stale : Settings := ⟨"INFO", -1, 1, ⟨[]⟩, none⟩
    let lasting : Settings := ⟨"INFO", Nat.pow 10 309, 3, ⟨[]⟩, none⟩
    let v : Semantic := ⟨1, [2, 9], false, some "rc", none⟩
    let ranges := ["1.2.x", "<1 >2", ">=3"]
    let ps : List Predicate :=
      [⟨[⟨.sameMinor, .semantic ⟨1, [2], false, some "", none⟩⟩]⟩,
        ⟨[⟨.below, .semantic ⟨1, [], false, none, none⟩⟩,
          ⟨.above, .semantic ⟨2, [], false, none, none⟩⟩]⟩,
        ⟨[⟨.atLeast, .semantic ⟨3, [], false, none, none⟩⟩]⟩]
    let Agree (s : Settings) := ∃ code lines covered outside,
      (runTest s "1.2.9-rc" ranges).result = .ok (code, lines) ∧
      (addRanges (newCache s) 1 [] ranges).result = .ok covered ∧
      (runInterval s ranges false).result = .ok (.success, intervalLines covered) ∧
      (invert covered).result = .ok outside ∧
      (runInterval s ranges true).result = .ok (.success, intervalLines outside) ∧
      (code = .success ↔ ∃ i ∈ covered, i.contains (.semantic v) = true) ∧
      (code = .unsatisfied ↔ ∃ i ∈ outside, i.contains (.semantic v) = true)
    Version.parse false "1.2.9-rc" = .ok (.semantic v) ∧
      List.Forall₂ (fun e p => Predicate.parse e = .ok p) ranges ps ∧
      (∀ p ∈ ps, ∀ t ∈ p.terms, t.reference.isSemantic = true) ∧
      (∀ p ∈ ps, p.interval ≠ .error (.numeral .unwritable)) ∧ Agree stale ∧ Agree lasting := by
  intro stale lasting v ranges ps Agree
  have hv : Version.parse false "1.2.9-rc" = .ok (.semantic v) := by decide +kernel
  have hps : List.Forall₂ (fun e p => Predicate.parse e = .ok p) ranges ps :=
    .cons (by decide +kernel) (.cons (by decide +kernel) (.cons (by decide +kernel) .nil))
  have href : ∀ p ∈ ps, ∀ t ∈ p.terms, t.reference.isSemantic = true := by decide
  have hnumeral : ∀ p ∈ ps, p.interval ≠ .error (.numeral .unwritable) := by decide +kernel
  exact ⟨hv, hps, href, hnumeral, test_agrees_with_intervals stale hv hps href hnumeral,
    test_agrees_with_intervals lasting hv hps href hnumeral⟩

end CommandLine

end Semrange
