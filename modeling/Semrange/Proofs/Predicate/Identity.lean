import Semrange.Proofs.Predicate.Agreement
import Semrange.Proofs.Version.Identity

/-!
# Predicates that are the same

Predicates are the same when they are term by term, with references that are the same; that is so
just when they have one canonical form (`same_iff_canonical_eq`). If both have been read, the same
versions pass them (`test_congr`). For semantic versions that is so because references that are the
same compare alike with every version. A label is tested by its text, and references that are the
same may differ in theirs; but a label that has been read has the text of no reference that is a
semantic version.
-/

namespace Semrange

/-! ## Versions of both kinds -/

/-- Two versions are the same when they have one canonical version. -/
theorem Version.same_iff_canonical_eq {u v : Version} :
    u.Same v ↔ u.canonical = v.canonical := by
  cases u with
  | semantic a =>
    cases v with
    | semantic b =>
      show a.Same b ↔ Version.semantic a.canonical = .semantic b.canonical
      rw [Semantic.same_iff_canonical_eq, Version.semantic.injEq]
    | label t => exact iff_of_false id nofun
  | label s =>
    cases v with
    | semantic b => exact iff_of_false id nofun
    | label t => exact (Version.label.injEq s t).symm.to_iff

/-- A label that has been read is refused by a reader of semantic versions. -/
theorem Version.legible_label_of_parse {wildcards : Bool} {s name : String}
    (h : parse wildcards s = .ok (.label name)) : Version.Legible (.label name) := by
  obtain ⟨rfl, cause, hcause⟩ := malformed_of_parse h
  exact ⟨wildcards, cause, hcause⟩

/-! ## Terms -/

/-- A version passes alike with references that are the same. -/
theorem Operator.test_congr {ref ref' : Semantic} (h : ref.Same ref') (op : Operator)
    (v : Semantic) : op.test v ref = op.test v ref' := by
  have hcompare := Semantic.compare_congr_right h v
  have hcomponent := h.1.component_eq
  cases op <;> simp only [Operator.test, hcompare, hcomponent]

namespace Term

/-- Two terms are the same when they have one canonical form. -/
theorem same_iff_canonical_eq {s t : Term} : s.Same t ↔ s.canonical = t.canonical := by
  rw [Same, Version.same_iff_canonical_eq, canonical, canonical, Term.mk.injEq]

/-- A label passes no term whose reference is a semantic version without wildcards. -/
theorem test_label {op : Operator} {ref : Semantic} (href : Version.Legible (.semantic ref))
    {name : String} (hname : Version.Legible (.label name)) :
    (Term.mk op (.semantic ref)).test (.label name) = false := by
  have hne : (name == ref.text) = false :=
    beq_eq_false_iff_ne.mpr (Version.text_ne_of_malformed href.1 href.2 hname).symm
  show (_ && (name == ref.text)) = false
  rw [hne, Bool.and_false]

/-- A version that has been read passes terms alike that are the same and have been read. -/
theorem test_congr {s t : Term} (hs : s.Legible) (ht : t.Legible) (h : s.Same t)
    {wildcards : Bool} {text : String} {v : Version}
    (hv : Version.parse wildcards text = .ok v) : s.test v = t.test v := by
  obtain ⟨op, ref⟩ := s
  obtain ⟨op', ref'⟩ := t
  obtain ⟨hop, href⟩ := h
  obtain rfl : op = op' := hop
  -- References that are the same are of one kind, and labels that are the same are equal.
  cases ref with
  | label name =>
    cases ref' with
    | semantic b => cases href
    | label name' =>
      obtain rfl : name = name' := href
      rfl
  | semantic a =>
    cases ref' with
    | label name' => cases href
    | semantic b =>
      cases v with
      | semantic u => exact Operator.test_congr href op u
      | label name =>
        -- A label passes neither of the two.
        have hname := Version.legible_label_of_parse hv
        rw [test_label hs.reference hname, test_label ht.reference hname]

end Term

/-! ## Predicates -/

namespace Predicate

/-- Lists of terms are the same when their canonical forms are one list. -/
theorem sameTerms_iff {ss ts : List Term} :
    SameTerms ss ts ↔ ss.map Term.canonical = ts.map Term.canonical := by
  induction ss generalizing ts with
  | nil =>
    cases ts with
    | nil => exact iff_of_true trivial rfl
    | cons t ts => exact iff_of_false id nofun
  | cons s ss ih =>
    cases ts with
    | nil => exact iff_of_false id nofun
    | cons t ts =>
      rw [List.map_cons, List.map_cons, List.cons_eq_cons, ← ih, ← Term.same_iff_canonical_eq]
      exact Iff.rfl

/-- Two predicates are the same when they have one canonical form. -/
theorem same_iff_canonical_eq {p q : Predicate} : p.Same q ↔ p.canonical = q.canonical := by
  rw [canonical, canonical, Predicate.mk.injEq]
  exact sameTerms_iff

/-- A version that has been read passes predicates alike that are the same and have been read. -/
theorem test_congr {e f : String} {p q : Predicate} (hp : parse e = .ok p) (hq : parse f = .ok q)
    (h : p.Same q) {wildcards : Bool} {s : String} {v : Version}
    (hv : Version.parse wildcards s = .ok v) : p.test v = q.test v := by
  have hlegiblep := legible_of_parse hp
  have hlegibleq := legible_of_parse hq
  obtain ⟨ss⟩ := p
  obtain ⟨ts⟩ := q
  have hterms : SameTerms ss ts := h
  show ss.all _ = ts.all _
  clear hp hq h
  -- Term by term, and both lists end together.
  induction ss generalizing ts with
  | nil =>
    cases ts with
    | nil => rfl
    | cons t ts => cases hterms
  | cons s ss ih =>
    cases ts with
    | nil => cases hterms
    | cons t ts =>
      obtain ⟨hsame, hrest⟩ := hterms
      obtain ⟨hs, hss⟩ := List.forall_mem_cons.mp hlegiblep
      obtain ⟨ht, hts⟩ := List.forall_mem_cons.mp hlegibleq
      rw [List.all_cons, List.all_cons, Term.test_congr hs ht hsame hv, ih hss ts hts hrest]

end Predicate

end Semrange
