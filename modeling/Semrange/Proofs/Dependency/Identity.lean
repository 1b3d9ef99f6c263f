import Mathlib.Data.List.Perm.Subperm
import Semrange.Proofs.Dependency.Allowance
import Semrange.Proofs.Predicate.Identity

/-!
# Dependencies that are the same

A dependency collects what its range expressions denote, each predicate once, but does not say in
which order, nor which one of several predicates that are the same (`Collected`). Two dependencies
are the same when they have one kind and one target and as many predicates, each of the one the same
as one of the other. No two predicates of a collection are the same, so the canonical forms of the
one are those of the other in some order (`same_iff_perm`). So the same versions match both, and
what the collection leaves open makes no difference (`same_interchangeable`).
-/

namespace Semrange

namespace Predicate

/-! ## Predicates without repetitions -/

/-- Each predicate is the same as one that is left when repetitions are taken away. -/
theorem exists_same_mem_distinct {p : Predicate} {ps : List Predicate} (h : p ∈ ps) :
    ∃ q ∈ distinct ps, p.Same q := by
  induction ps with
  | nil => cases h
  | cons r ps ih =>
    rcases List.mem_cons.mp h with rfl | h
    · exact ⟨p, List.mem_cons_self, same_iff_canonical_eq.mpr rfl⟩
    · obtain ⟨q, hq, hsame⟩ := ih h
      -- The one that was left before is the same as the first one, or is still left.
      by_cases hr : r.Same q
      · refine ⟨r, List.mem_cons_self, ?_⟩
        rw [same_iff_canonical_eq] at hsame hr ⊢
        exact hsame.trans hr.symm
      · have hkeep : (!decide (r.Same q)) = true := by simpa using hr
        exact ⟨q, List.mem_cons_of_mem r (List.mem_filter.mpr ⟨hq, hkeep⟩), hsame⟩

/-- No two predicates are the same when repetitions are taken away. -/
theorem pairwise_distinct (ps : List Predicate) :
    (distinct ps).Pairwise fun p q => ¬p.Same q := by
  induction ps with
  | nil => exact List.Pairwise.nil
  | cons p ps ih =>
    refine List.pairwise_cons.mpr ⟨fun q hq => ?_, ih.filter _⟩
    simpa using (List.mem_filter.mp hq).2

end Predicate

namespace Dependency

/-! ## Collected predicates -/

/-- The predicates are what the range expressions denote, in any order, and one out of each class of
same predicates. -/
structure Collected (d : Dependency) : Prop where
  /-- Each predicate is denoted by a range expression. -/
  denoted : ∀ p ∈ d.predicates, ∃ e ∈ d.matchers, Predicate.parse e = .ok p
  /-- Each range expression denotes a predicate that is the same as one that was collected. -/
  collected : ∀ e ∈ d.matchers, ∃ p, Predicate.parse e = .ok p ∧ ∃ q ∈ d.predicates, p.Same q
  /-- No two predicates are the same. -/
  pairwise : d.predicates.Pairwise fun p q => ¬p.Same q

/-- A dependency that is made from range expressions has collected what they denote. -/
theorem collected_of_ofMatchers {kind : Kind} {target : String} {matchers : List String}
    {d : Dependency} (h : ofMatchers kind target matchers = .ok d) : d.Collected := by
  obtain ⟨ps, hps, rfl⟩ := map_eq_ok.mp h
  obtain ⟨qs, hqs, rfl⟩ := map_eq_ok.mp hps
  refine ⟨Predicate.exists_parse_of_parseAll hps, fun e he => ?_, Predicate.pairwise_distinct qs⟩
  obtain ⟨p, hp, hparse⟩ :=
    Predicate.exists_left_of_forall₂ (List.Forall₂.flip (mapM_eq_ok_iff.mp hqs)) e he
  exact ⟨p, hparse, Predicate.exists_same_mem_distinct hp⟩

/-- The canonical forms of the predicates. -/
def forms (d : Dependency) : List Predicate :=
  d.predicates.map Predicate.canonical

/-- A predicate is the same as one of a dependency when its canonical form is among theirs. -/
theorem canonical_mem_forms_iff {d : Dependency} {p : Predicate} :
    p.canonical ∈ d.forms ↔ ∃ q ∈ d.predicates, p.Same q := by
  simp only [forms, List.mem_map, Predicate.same_iff_canonical_eq, eq_comm]

namespace Collected

variable {d e : Dependency} (hd : d.Collected) (he : e.Collected)
include hd

/-- Collected predicates have different canonical forms. -/
theorem nodup_forms : d.forms.Nodup := by
  refine List.pairwise_map.mpr (hd.pairwise.imp fun hne heq => hne ?_)
  exact Predicate.same_iff_canonical_eq.mpr heq

/-- Two dependencies are the same when they have one kind, one target, and the same canonical forms
in some order. -/
theorem same_iff_perm :
    d.Same e ↔ d.kind = e.kind ∧ d.target = e.target ∧ d.forms.Perm e.forms := by
  refine and_congr_right fun _ => and_congr_right fun _ => ?_
  constructor
  · rintro ⟨hlength, hsame⟩
    have hsubset : d.forms ⊆ e.forms := by
      intro p hp
      obtain ⟨q, hq, rfl⟩ := List.mem_map.mp hp
      exact canonical_mem_forms_iff.mpr (hsame q hq)
    -- As many forms, all of them different, and none beside those of the other.
    refine (List.subperm_of_subset hd.nodup_forms hsubset).perm_of_length_le ?_
    rw [forms, forms, List.length_map, List.length_map, hlength]
  · intro hperm
    refine ⟨?_, fun p hp => ?_⟩
    · have hlength := hperm.length_eq
      rwa [forms, forms, List.length_map, List.length_map] at hlength
    · have hform : p.canonical ∈ d.forms := List.mem_map_of_mem hp
      exact canonical_mem_forms_iff.mp (hperm.mem_iff.mp hform)

include he

/-- A version that has been read matches one dependency when it matches another one whose canonical
forms it has. -/
theorem isMatchedBy_imp (hforms : d.forms ⊆ e.forms) {wildcards : Bool} {s : String} {v : Version}
    (hv : Version.parse wildcards s = .ok v) (h : d.isMatchedBy v = true) :
    e.isMatchedBy v = true := by
  obtain ⟨p, hp, htest⟩ := List.any_eq_true.mp h
  obtain ⟨q, hq, hsame⟩ := canonical_mem_forms_iff.mp (hforms (List.mem_map_of_mem hp))
  obtain ⟨_, -, hparse⟩ := hd.denoted p hp
  obtain ⟨_, -, hparse'⟩ := he.denoted q hq
  rw [Predicate.test_congr hparse hparse' hsame hv] at htest
  exact List.any_eq_true.mpr ⟨q, hq, htest⟩

/-- The same versions match dependencies that are the same. -/
theorem isMatchedBy_congr (h : d.Same e) {wildcards : Bool} {s : String} {v : Version}
    (hv : Version.parse wildcards s = .ok v) : d.isMatchedBy v = e.isMatchedBy v := by
  obtain ⟨-, -, hperm⟩ := hd.same_iff_perm.mp h
  exact Bool.eq_iff_iff.mpr
    ⟨hd.isMatchedBy_imp he hperm.subset hv, he.isMatchedBy_imp hd hperm.symm.subset hv⟩

/-- A dependency has the canonical forms of another one whose range expressions it has. -/
theorem forms_subset (h : ∀ s ∈ d.matchers, s ∈ e.matchers) : d.forms ⊆ e.forms := by
  intro f hf
  obtain ⟨p, hp, rfl⟩ := List.mem_map.mp hf
  obtain ⟨s, hs, hparse⟩ := hd.denoted p hp
  -- The other dependency read the same expression, and kept that predicate or one that is the same.
  obtain ⟨q, hparse', hsame⟩ := he.collected s (h s hs)
  obtain rfl : p = q := Except.ok.inj (hparse.symm.trans hparse')
  exact canonical_mem_forms_iff.mpr hsame

/-- Dependencies of one kind and one target with the same range expressions are the same, in
whatever order these were declared and whichever predicates were collected. -/
theorem same_of_matchers (hkind : d.kind = e.kind) (htarget : d.target = e.target)
    (h : ∀ s, s ∈ d.matchers ↔ s ∈ e.matchers) : d.Same e := by
  refine hd.same_iff_perm.mpr ⟨hkind, htarget, ?_⟩
  rw [List.perm_ext_iff_of_nodup hd.nodup_forms he.nodup_forms]
  exact fun f => ⟨fun hf => hd.forms_subset he (fun s hs => (h s).mp hs) hf,
    fun hf => he.forms_subset hd (fun s hs => (h s).mpr hs) hf⟩

end Collected

/-! ## Interchangeable values -/

/-- Being the same is an equivalence of semantic versions, the one of their keys, and versions that
are the same compare alike with every third one, with or without wildcards. A version that has been
read passes predicates alike that are the same and have been read. So it matches and satisfies
dependencies alike that are the same; and these are so when they have one kind, one target and the
same range expressions, in whatever order these were declared and whichever of several predicates
that are the same was collected. -/
theorem same_interchangeable :
    Equivalence Semantic.Same ∧
      (∀ a b : Semantic, a.Same b ↔ a.key = b.key) ∧
      (∀ a b : Semantic, a.Same b → ∀ c : Semantic,
        a.compare c = b.compare c ∧ c.compare a = c.compare b) ∧
      (∀ e f p q, Predicate.parse e = .ok p → Predicate.parse f = .ok q → p.Same q →
        ∀ wildcards s v, Version.parse wildcards s = .ok v → p.test v = q.test v) ∧
      (∀ d e : Dependency, d.Collected → e.Collected → d.Same e →
        ∀ wildcards s v, Version.parse wildcards s = .ok v →
          d.isMatchedBy v = e.isMatchedBy v ∧ d.isSatisfiedBy v = e.isSatisfiedBy v) ∧
      (∀ kind target matchers d, ofMatchers kind target matchers = .ok d → d.Collected) ∧
      ∀ d e : Dependency, d.Collected → e.Collected → d.kind = e.kind → d.target = e.target →
        (∀ s, s ∈ d.matchers ↔ s ∈ e.matchers) → d.Same e := by
  refine ⟨Semantic.same_equivalence, fun _ _ => Semantic.same_iff_key_eq, ?_, ?_, ?_, ?_, ?_⟩
  · intro a b h c
    exact ⟨Semantic.compare_congr h c, Semantic.compare_congr_right h c⟩
  · intro e f p q hp hq h wildcards s v hv
    exact Predicate.test_congr hp hq h hv
  · intro d e hd he h wildcards s v hv
    have hmatched := hd.isMatchedBy_congr he h hv
    refine ⟨hmatched, ?_⟩
    rw [isSatisfiedBy, isSatisfiedBy, hmatched, h.1]
  · intro kind target matchers d h
    exact collected_of_ofMatchers h
  · intro d e hd he
    exact hd.same_of_matchers he

/-- Versions and predicates that differ in a zero at the end, declared in another order and once
more. -/
theorem same_interchangeable_zeros :
    let a : Semantic := ⟨1, [2], false, none, some "b"⟩
    let b : Semantic := ⟨1, [2, 0], false, none, some "b"⟩
    let line : Semantic := ⟨1, [2], true, none, none⟩
    let foo : Predicate := ⟨[⟨.equal, .label "foo"⟩]⟩
    let d : Dependency := ⟨.breaks, "pack", [">=1.2+b", "foo"],
      [⟨[⟨.atLeast, .semantic a⟩]⟩, foo]⟩
    let e : Dependency := ⟨.breaks, "pack", ["foo", ">=1.2.0+b", "* >=1.2+b"],
      [foo, ⟨[⟨.atLeast, .semantic b⟩]⟩]⟩
    a.text ≠ b.text ∧ a.Same b ∧ a.key = b.key ∧ a.compare line = b.compare line ∧
      ofMatchers .breaks "pack" d.matchers = .ok d ∧
      ofMatchers .breaks "pack" e.matchers = .ok e ∧ d.Same e ∧
      Version.parse false "1.2+b.0" = .ok (.semantic { a with build := some "b.0" }) ∧
      d.isSatisfiedBy (.semantic { a with build := some "b.0" }) =
        e.isSatisfiedBy (.semantic { a with build := some "b.0" }) := by
  intro a b line foo d e
  obtain ⟨-, hkey, hcompare, -, hmatches, hcollected, -⟩ := same_interchangeable
  have hab : a.Same b := by decide +kernel
  have hd : ofMatchers .breaks "pack" d.matchers = .ok d := by rfl
  have he : ofMatchers .breaks "pack" e.matchers = .ok e := by rfl
  have hde : d.Same e := by decide +kernel
  have hv : Version.parse false "1.2+b.0" = .ok (.semantic { a with build := some "b.0" }) := by
    rfl
  have hsatisfied := hmatches d e (hcollected _ _ _ d hd) (hcollected _ _ _ e he) hde _ _ _ hv
  exact ⟨by decide +kernel, hab, (hkey a b).mp hab, (hcompare a b hab line).1, hd, he, hde, hv,
    hsatisfied.2⟩

end Dependency

end Semrange
