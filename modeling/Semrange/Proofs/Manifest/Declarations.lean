import Semrange.Proofs.Manifest.Failures

/-!
# Declarations that are skipped

A mod is read with all its declarations, kind by kind and then in the order of the document
(`declarations`). Those whose ranges can all be read are its dependencies (`Accepted`), in the same
order, and for each of the others there is one warning; the proof carries both lists through the
readers (`Splits`), which the declarations of one section and then the sections of one mod only make
longer (`Splits.append`).

That is so as long as the declarations have the form of such (`IsRequirement`) and the sections are
mappings. What has another form is not skipped: it makes the manifest invalid.
-/

namespace Semrange.Manifest

/-! ## Ranges -/

/-- The range expressions of a requirement: any version where there is none, a text, or the texts of a
list. -/
inductive Ranges : Document → List String → Prop
  /-- There is no requirement. -/
  | missing : Ranges (.scalar .null) ["*"]
  /-- The list is empty. -/
  | empty : Ranges (.list []) ["*"]
  /-- There is one text. -/
  | text (s : String) : Ranges (.scalar (.text s)) [s]
  /-- There are texts in a list. -/
  | texts {l : List String} (h : l ≠ []) : Ranges (.list (l.map .text)) l

/-- A requirement has the form of one: it is missing, a text, or a list of texts. -/
def IsRequirement (d : Document) : Prop :=
  d = .null ∨ (∃ s, d = .text s) ∨ ∃ items, d = .list items ∧ ∀ item ∈ items, ∃ s, item = .text s

/-- Documents that are all texts are a list of texts. -/
theorem exists_map_text {items : List Document} (h : ∀ item ∈ items, ∃ s, item = .text s) :
    ∃ l : List String, items = l.map .text := by
  induction items with
  | nil => exact ⟨[], rfl⟩
  | cons item items ih =>
    obtain ⟨⟨s, rfl⟩, hrest⟩ := List.forall_mem_cons.mp h
    obtain ⟨l, rfl⟩ := ih hrest
    exact ⟨s :: l, rfl⟩

/-- What has the form of a requirement has range expressions. -/
theorem isRequirement_iff {d : Document} : IsRequirement d ↔ ∃ matchers, Ranges d matchers := by
  constructor
  · rintro (rfl | ⟨s, rfl⟩ | ⟨items, rfl, hitems⟩)
    · exact ⟨_, .missing⟩
    · exact ⟨_, .text s⟩
    · obtain ⟨l, rfl⟩ := exists_map_text hitems
      cases l with
      | nil => exact ⟨_, .empty⟩
      | cons s l => exact ⟨_, .texts (List.cons_ne_nil s l)⟩
  · rintro ⟨matchers, hranges⟩
    cases hranges with
    | missing => exact Or.inl rfl
    | empty => exact Or.inr (Or.inr ⟨[], rfl, List.forall_mem_nil _⟩)
    | text s => exact Or.inr (Or.inl ⟨s, rfl⟩)
    | texts h =>
      exact Or.inr (Or.inr ⟨_, rfl, List.forall_mem_map.mpr fun s _ => ⟨s, rfl⟩⟩)

/-- A requirement is read as its range expressions. -/
theorem readRequirement_eq_ok_iff {what : String} {d : Document} {matchers : List String} :
    readRequirement what d = .ok matchers ↔ Ranges d matchers := by
  -- The items of a list are read when they are texts, and as these.
  have hitems : ∀ {items : List Document} {l : List String},
      items.mapM (requireText what) = .ok l ↔ items = l.map .text := by
    intro items l
    rw [mapM_eq_ok_iff, ← List.forall₂_eq_eq_eq, List.forall₂_map_right_iff]
    simp only [requireText_eq_ok_iff]
  constructor
  · intro h
    unfold readRequirement at h
    split at h
    · cases h
      exact .missing
    · cases h
      exact .empty
    · next items hne =>
      -- A list that is not empty.
      obtain rfl := hitems.mp h
      exact .texts fun hnil => hne (hnil ▸ rfl)
    · -- What is neither missing nor a list has to be one text.
      obtain ⟨s, hread, rfl⟩ := map_eq_ok.mp h
      rw [requireText_eq_ok_iff] at hread
      subst hread
      exact .text s
  · intro h
    cases h with
    | missing => rfl
    | empty => rfl
    | text s => rfl
    | texts hne =>
      obtain ⟨s, l, rfl⟩ := List.exists_cons_of_ne_nil hne
      exact hitems.mpr rfl

/-! ## Declarations -/

/-- A declaration as a mod holds it. -/
structure Declaration where
  /-- The kind under which it stands. -/
  kind : Dependency.Kind
  /-- The target, as a key. -/
  target : Scalar
  /-- What is required of the target. -/
  requirement : Document

/-- The declarations of a mod under a kind, in the order of the document. -/
def sectionDeclarations (entry : Document) (kind : Dependency.Kind) : List Declaration :=
  (entry.get kind.key).entries.map fun e => ⟨kind, e.1, e.2⟩

/-- The declarations of a mod, kind by kind and then in the order of the document. -/
def declarations (entry : Document) : List Declaration :=
  Dependency.Kind.all.flatMap (sectionDeclarations entry)

namespace Declaration

/-- All ranges of a declaration can be read. -/
def Accepted (d : Declaration) : Prop :=
  ∃ matchers, Ranges d.requirement matchers ∧ ∀ s ∈ matchers, ∃ p, Predicate.parse s = .ok p

/-- A declaration is read as a dependency of its kind, on its target and with its range expressions as
they stand. -/
structure IsReadAs (d : Declaration) (dependency : Dependency) : Prop where
  /-- The kind is that of the section. -/
  kind_eq : dependency.kind = d.kind
  /-- The target is the key as a text. -/
  target_eq : dependency.target = d.target.plain
  /-- The range expressions are those that are required. -/
  ranges : Ranges d.requirement dependency.matchers
  /-- The predicates are what these denote. -/
  predicates_eq : Predicate.parseAll dependency.matchers = .ok dependency.predicates

/-- The warning that a declaration of `owner` is skipped because of an error in its ranges. -/
def skipRecord (owner : Document) (d : Declaration) (e : Predicate.ParseError) : Log.Record :=
  ⟨.warning, .manifest,
    s!"Skipping invalid {d.kind.key} declaration of '{owner.plain}' on '{d.target.plain}': " ++
      e.message⟩

/-- A warning tells that a declaration of `owner` is skipped, and why. -/
def IsSkippedBy (owner : Document) (d : Declaration) (record : Log.Record) : Prop :=
  ∃ matchers e, Ranges d.requirement matchers ∧ Predicate.parseAll matchers = .error e ∧
    record = d.skipRecord owner e

end Declaration

/-- Range expressions can all be read when each of them can. -/
theorem parseAll_isOk_iff {matchers : List String} :
    (∃ ps, Predicate.parseAll matchers = .ok ps) ↔
      ∀ s ∈ matchers, ∃ p, Predicate.parse s = .ok p := by
  rw [← exists_forall₂_iff]
  constructor
  · rintro ⟨ps, hps⟩
    obtain ⟨l, hl, -⟩ := map_eq_ok.mp hps
    exact ⟨l, mapM_eq_ok_iff.mp hl⟩
  · -- Predicates that come twice are kept once, which refuses none.
    rintro ⟨l, hl⟩
    exact ⟨Predicate.distinct l, map_eq_ok.mpr ⟨l, mapM_eq_ok_iff.mpr hl, rfl⟩⟩

/-- A requirement has only one list of range expressions. -/
theorem Ranges.unique {d : Document} {l m : List String} (hl : Ranges d l) (hm : Ranges d m) :
    l = m := by
  have hread : readRequirement "" d = .ok l := readRequirement_eq_ok_iff.mpr hl
  exact Except.ok.inj (hread.symm.trans (readRequirement_eq_ok_iff.mpr hm))

/-- A declaration is accepted when its range expressions denote predicates. -/
theorem accepted_iff {d : Declaration} {matchers : List String} (h : Ranges d.requirement matchers) :
    d.Accepted ↔ ∃ ps, Predicate.parseAll matchers = .ok ps := by
  rw [parseAll_isOk_iff]
  constructor
  · rintro ⟨l, hl, haccepted⟩
    exact hl.unique h ▸ haccepted
  · intro haccepted
    exact ⟨matchers, h, haccepted⟩

instance (d : Declaration) : Decidable d.Accepted :=
  decidable_of_iff (((readRequirement "" d.requirement).toOption.any fun matchers =>
      (Predicate.parseAll matchers).toOption.isSome) = true) <| by
    cases hread : readRequirement "" d.requirement with
    | error fault =>
      refine iff_of_false Bool.false_ne_true ?_
      rintro ⟨matchers, hranges, -⟩
      cases hread.symm.trans (readRequirement_eq_ok_iff.mpr hranges)
    | ok matchers =>
      rw [accepted_iff (readRequirement_eq_ok_iff.mp hread)]
      show (Predicate.parseAll matchers).toOption.isSome = true ↔ _
      cases Predicate.parseAll matchers with
      | error e =>
        refine iff_of_false Bool.false_ne_true ?_
        rintro ⟨ps, hps⟩
        cases hps
      | ok ps => exact iff_of_true rfl ⟨ps, rfl⟩

/-- What becomes of declarations: those that are accepted are read as dependencies, and each of the
others is skipped with a warning, both in order. -/
structure Splits (owner : Document) (ds : List Declaration) (dependencies : List Dependency)
    (warnings : List Log.Record) : Prop where
  /-- The accepted ones are read as dependencies. -/
  kept : List.Forall₂ Declaration.IsReadAs (ds.filter fun d => d.Accepted) dependencies
  /-- The others are skipped. -/
  skipped : List.Forall₂ (Declaration.IsSkippedBy owner) (ds.filter fun d => ¬d.Accepted) warnings

/-- No declarations are read as no dependencies, without a warning. -/
theorem Splits.nil (owner : Document) : Splits owner [] [] [] :=
  ⟨.nil, .nil⟩

/-- Declarations that are read after others are read as their dependencies after those of the
others. -/
theorem Splits.append {owner : Document} {ds es : List Declaration} {l m : List Dependency}
    {v w : List Log.Record} (hds : Splits owner ds l v) (hes : Splits owner es m w) :
    Splits owner (ds ++ es) (l ++ m) (v ++ w) := by
  constructor
  · rw [List.filter_append]
    exact List.rel_append hds.kept hes.kept
  · rw [List.filter_append]
    exact List.rel_append hds.skipped hes.skipped

/-- A declaration whose range expressions denote predicates is kept. -/
theorem splits_of_parseAll_eq_ok {owner : Document} {d : Declaration} {matchers : List String}
    {ps : List Predicate} (h : Ranges d.requirement matchers)
    (hps : Predicate.parseAll matchers = .ok ps) :
    Splits owner [d] [⟨d.kind, d.target.plain, matchers, ps⟩] [] := by
  have haccepted : d.Accepted := (accepted_iff h).mpr ⟨ps, hps⟩
  constructor
  · rw [List.filter_singleton, decide_eq_true haccepted]
    exact .cons ⟨rfl, rfl, h, hps⟩ .nil
  · rw [List.filter_singleton, decide_eq_false (not_not_intro haccepted)]
    exact .nil

/-- A declaration with an error in its range expressions is skipped. -/
theorem splits_of_parseAll_eq_error {owner : Document} {d : Declaration} {matchers : List String}
    {e : Predicate.ParseError} (h : Ranges d.requirement matchers)
    (he : Predicate.parseAll matchers = .error e) :
    Splits owner [d] [] [d.skipRecord owner e] := by
  have haccepted : ¬d.Accepted := by
    rw [accepted_iff h]
    rintro ⟨ps, hps⟩
    cases he.symm.trans hps
  constructor
  · rw [List.filter_singleton, decide_eq_false haccepted]
    exact .nil
  · rw [List.filter_singleton, decide_eq_true haccepted]
    exact .cons ⟨matchers, e, h, he, rfl⟩ .nil

/-! ## Reading declarations -/

/-- The records of reading range expressions are for those who look for a fault. -/
theorem level_of_mem_recordsOfAll (matchers : List String) :
    ∀ r ∈ Predicate.recordsOfAll matchers, r.level = .debug := by
  refine List.forall_mem_map.mpr fun n _ => ?_
  cases n <;> rfl

variable (kind : Dependency.Kind) (owner : Document)

/-- A declaration that has the form of one, and no numeral that is too long, is read as a dependency
or skipped with a warning. -/
theorem splits_readDeclaration (target : Scalar) {requirement : Document}
    (hform : IsRequirement requirement)
    (hlong : ∀ digits s, Demands requirement s → ¬Predicate.MeetsOverlong s digits) :
    ∃ d, (readDeclaration kind owner target requirement).result = .ok d ∧
      Splits owner [⟨kind, target, requirement⟩] d.toList
        (readDeclaration kind owner target requirement).warnings := by
  obtain ⟨matchers, hranges⟩ := isRequirement_iff.mp hform
  have hfails := failsOnly_readDeclaration kind owner target requirement
  unfold readDeclaration at hfails ⊢
  simp only [readRequirement_eq_ok_iff.mpr hranges, Except.mapError, Report.ofExcept_bind]
    at hfails ⊢
  -- The records of the reader are no warnings, so only the skipping can give one.
  rw [Report.warnings_tell_bind (level_of_mem_recordsOfAll matchers)]
  cases hparse : Predicate.parseAll matchers with
  | ok ps =>
    have hdependency : Dependency.ofMatchers kind target.plain matchers =
        .ok ⟨kind, target.plain, matchers, ps⟩ := congrArg (Except.map _) hparse
    rw [hdependency]
    exact ⟨_, rfl, splits_of_parseAll_eq_ok hranges hparse⟩
  | error e =>
    have hdependency : Dependency.ofMatchers kind target.plain matchers = .error e :=
      congrArg (Except.map _) hparse
    rw [hdependency] at hfails ⊢
    have hskipped : Splits owner [⟨kind, target, requirement⟩] []
        [Declaration.skipRecord owner ⟨kind, target, requirement⟩ e] :=
      splits_of_parseAll_eq_error hranges hparse
    -- Of the errors of ranges only a numeral that is too long is not skipped.
    match e with
    | .malformed expression cause => exact ⟨none, rfl, hskipped⟩
    | .version (.malformed cause) => exact ⟨none, rfl, hskipped⟩
    | .version (.numeral fault) =>
      cases hfails _ rfl with
      | numeral h =>
        obtain ⟨s, hdemands, hmeets⟩ := h
        exact absurd hmeets (hlong _ s hdemands)

/-- Declarations are read or skipped one by one. -/
theorem splits_readDeclarations {l : List (Scalar × Document)} (hform : ∀ d ∈ l, IsRequirement d.2)
    (hlong : ∀ digits, ∀ d ∈ l, ∀ s, Demands d.2 s → ¬Predicate.MeetsOverlong s digits) :
    ∃ ds, (readDeclarations kind owner l).result = .ok ds ∧
      Splits owner (l.map fun d => ⟨kind, d.1, d.2⟩) ds (readDeclarations kind owner l).warnings := by
  induction l with
  | nil => exact ⟨[], rfl, .nil owner⟩
  | cons d l ih =>
    obtain ⟨hfirst, hrest⟩ := List.forall_mem_cons.mp hform
    obtain ⟨e, he, hsplits⟩ := splits_readDeclaration kind owner d.1 hfirst fun digits =>
      hlong digits d List.mem_cons_self
    obtain ⟨es, hes, hothers⟩ := ih hrest fun digits d' hd' =>
      hlong digits d' (List.mem_cons_of_mem d hd')
    refine ⟨e.toList ++ es, ?_, ?_⟩
    · simp only [readDeclarations, Report.result_bind, he, hes, Except.bind, Report.result_pure]
    · rw [readDeclarations, Report.warnings_bind he, Report.warnings_bind hes,
        Report.warnings_pure, List.append_nil]
      exact hsplits.append hothers

/-! ## Reading mods -/

/-- A section has the form of one: it is a mapping unless it is missing or empty. -/
def IsSection (d : Document) : Prop :=
  d.isGiven = true → ∃ l, d = .mapping l

/-- The sections of a mod, and what is required in its declarations, have the form of such. -/
structure WellFormed (entry : Document) : Prop where
  /-- Each section is one. -/
  sections : ∀ kind : Dependency.Kind, IsSection (entry.get kind.key)
  /-- Each requirement is one. -/
  requirements : ∀ d ∈ declarations entry, IsRequirement d.requirement

variable {entry : Document}

/-- A document that is no mapping has no entries. -/
theorem entries_of_ne_mapping {d : Document} (h : ∀ l, d ≠ .mapping l) : d.entries = [] := by
  cases d with
  | mapping l => exact absurd rfl (h l)
  | scalar k => rfl
  | list items => rfl

/-- The declarations of a section are read or skipped. -/
theorem splits_readSection (hsection : IsSection (entry.get kind.key))
    (hform : ∀ d ∈ sectionDeclarations entry kind, IsRequirement d.requirement)
    (hlong : ∀ digits, ¬HoldsOverlong entry digits) :
    ∃ ds, (readSection owner kind (entry.get kind.key)).result = .ok ds ∧
      Splits owner (sectionDeclarations entry kind) ds
        (readSection owner kind (entry.get kind.key)).warnings := by
  unfold readSection
  split
  · next l hget =>
    -- A mapping holds the declarations themselves.
    have hdeclarations : sectionDeclarations entry kind = l.map fun d => ⟨kind, d.1, d.2⟩ := by
      rw [sectionDeclarations, hget]
      rfl
    rw [hdeclarations] at hform ⊢
    refine splits_readDeclarations kind owner (fun d hd => ?_) fun digits d hd s hdemands hmeets => ?_
    · exact hform ⟨kind, d.1, d.2⟩ (List.mem_map_of_mem hd)
    · exact hlong digits (Or.inr ⟨kind, s, ⟨l, hget, d, hd, hdemands⟩, hmeets⟩)
  · next d hne =>
    -- Anything else of the form of a section is missing or empty, and declares nothing.
    have hmapping : ∀ l, entry.get kind.key ≠ .mapping l := fun l hl => hne l hl
    have hgiven : (entry.get kind.key).isGiven ≠ true := by
      intro hgiven
      obtain ⟨l, hl⟩ := hsection hgiven
      exact hmapping l hl
    rw [if_neg hgiven, sectionDeclarations, entries_of_ne_mapping hmapping]
    exact ⟨[], rfl, .nil owner⟩

/-- The sections of a mod are read one by one. -/
theorem splits_readSections {kinds : List Dependency.Kind}
    (hsection : ∀ kind : Dependency.Kind, IsSection (entry.get kind.key))
    (hform : ∀ d ∈ kinds.flatMap (sectionDeclarations entry), IsRequirement d.requirement)
    (hlong : ∀ digits, ¬HoldsOverlong entry digits) :
    ∃ ds, (readSections owner entry kinds).result = .ok ds ∧
      Splits owner (kinds.flatMap (sectionDeclarations entry)) ds
        (readSections owner entry kinds).warnings := by
  induction kinds with
  | nil => exact ⟨[], rfl, .nil owner⟩
  | cons kind kinds ih =>
    rw [List.flatMap_cons, List.forall_mem_append] at hform
    obtain ⟨ds, hds, hsplits⟩ := splits_readSection kind owner (hsection kind) hform.1 hlong
    obtain ⟨es, hes, hothers⟩ := ih hform.2
    refine ⟨ds ++ es, ?_, ?_⟩
    · simp only [readSections, Report.result_bind, hds, hes, Except.bind, Report.result_pure]
    · rw [readSections, Report.warnings_bind hds, Report.warnings_bind hes, Report.warnings_pure,
        List.append_nil]
      exact hsplits.append hothers

/-- The version of a mod is read without a warning. -/
theorem exists_readVersion {s : String} (hversion : entry.get "version" = .text s) (hs : s ≠ "")
    (hlong : ∀ digits, ¬HoldsOverlong entry digits) :
    ∃ v, Version.parse false s = .ok v ∧
      (readVersion owner (entry.get "version")).result = .ok v ∧
      (readVersion owner (entry.get "version")).warnings = [] := by
  cases hparse : Version.parse false s with
  | error e =>
    obtain ⟨digits, hmeets, -⟩ := Version.meetsOverlong_of_parse hparse hs
    exact absurd (Or.inl ⟨s, hversion, hmeets⟩) (hlong digits)
  | ok v =>
    -- That a version is kept as a label is only a record for those who look for a fault.
    have hdebug : ∀ r ∈ (Version.labelRecord? s).toList, r.level = .debug := by
      intro r hr
      obtain ⟨cause, -, rfl⟩ := Option.map_eq_some_iff.mp (Option.mem_toList.mp hr)
      rfl
    have hread : readVersion owner (entry.get "version") =
        (Version.read s).mapError ReadError.version := by
      rw [hversion]
      rfl
    rw [hread]
    refine ⟨v, rfl, mapError_eq_ok.mpr hparse, ?_⟩
    exact Report.warnings_tell_bind hdebug fun _ => Report.ofExcept (Version.parse false s)

/-- A mod with an id and a version is read section by section. -/
theorem readMod_eq {s : String} (hid : (entry.get "id").isGiven = true)
    (hversion : entry.get "version" = .text s) (hs : s ≠ "") :
    readMod entry = do
      let v ← readVersion (entry.get "id") (entry.get "version")
      let ds ← readSections (entry.get "id") entry Dependency.Kind.all
      return ⟨(entry.get "id").plain, v, ds⟩ := by
  cases entry with
  | mapping l =>
    have hthere : isThere ((Document.mapping l).get "version") = true := by
      rw [hversion]
      exact bne_iff_ne.mpr hs
    rw [readMod, if_pos (Bool.and_eq_true_iff.mpr ⟨hid, hthere⟩)]
  | scalar k => cases hversion
  | list items => cases hversion

/-! ## What is refused -/

/-- What is required in a declaration that is read, or skipped, has the form of a requirement. -/
theorem isRequirement_of_readDeclaration {target : Scalar} {requirement : Document}
    {d : Option Dependency} (h : (readDeclaration kind owner target requirement).result = .ok d) :
    IsRequirement requirement := by
  obtain ⟨matchers, hmatchers, -⟩ := bind_eq_ok.mp ((Report.result_bind _ _).symm.trans h)
  exact isRequirement_iff.mpr
    ⟨matchers, readRequirement_eq_ok_iff.mp (mapError_eq_ok.mp hmatchers)⟩

/-- Declarations are only read if what is required in each has the form of a requirement. -/
theorem isRequirement_of_readDeclarations {l : List (Scalar × Document)} {ds : List Dependency}
    (h : (readDeclarations kind owner l).result = .ok ds) : ∀ d ∈ l, IsRequirement d.2 := by
  induction l generalizing ds with
  | nil => exact List.forall_mem_nil _
  | cons d l ih =>
    obtain ⟨e, he, hrest⟩ := bind_eq_ok.mp ((Report.result_bind _ _).symm.trans h)
    obtain ⟨es, hes, -⟩ := bind_eq_ok.mp ((Report.result_bind _ _).symm.trans hrest)
    exact List.forall_mem_cons.mpr ⟨isRequirement_of_readDeclaration kind owner he, ih hes⟩

/-- A section is only read if it and its declarations have the form of such. -/
theorem isSection_of_readSection {ds : List Dependency}
    (h : (readSection owner kind (entry.get kind.key)).result = .ok ds) :
    IsSection (entry.get kind.key) ∧
      ∀ d ∈ sectionDeclarations entry kind, IsRequirement d.requirement := by
  unfold readSection at h
  split at h
  · next l hget =>
    refine ⟨fun _ => ⟨l, hget⟩, ?_⟩
    rw [sectionDeclarations, hget]
    rintro d hd
    obtain ⟨e, he, rfl⟩ := List.mem_map.mp hd
    exact isRequirement_of_readDeclarations kind owner h e he
  · next d hne =>
    -- What is no mapping would be refused if it were given.
    have hmapping : ∀ l, entry.get kind.key ≠ .mapping l := fun l hl => hne l hl
    rw [sectionDeclarations, entries_of_ne_mapping hmapping]
    refine ⟨fun hgiven => ?_, List.forall_mem_nil _⟩
    rw [if_pos hgiven] at h
    cases h

/-- The sections of a mod are only read if all have the form of such. -/
theorem isSection_of_readSections {kinds : List Dependency.Kind} {ds : List Dependency}
    (h : (readSections owner entry kinds).result = .ok ds) :
    (∀ kind ∈ kinds, IsSection (entry.get kind.key)) ∧
      ∀ d ∈ kinds.flatMap (sectionDeclarations entry), IsRequirement d.requirement := by
  induction kinds generalizing ds with
  | nil => exact ⟨List.forall_mem_nil _, List.forall_mem_nil _⟩
  | cons kind kinds ih =>
    obtain ⟨d, hd, hrest⟩ := bind_eq_ok.mp ((Report.result_bind _ _).symm.trans h)
    obtain ⟨es, hes, -⟩ := bind_eq_ok.mp ((Report.result_bind _ _).symm.trans hrest)
    obtain ⟨hsection, hform⟩ := isSection_of_readSection kind owner hd
    obtain ⟨hsections, hforms⟩ := ih hes
    rw [List.flatMap_cons]
    exact ⟨List.forall_mem_cons.mpr ⟨hsection, hsections⟩, List.forall_mem_append.mpr ⟨hform, hforms⟩⟩

/-- Declarations with ranges that cannot be read are skipped, each with a warning, and all others are
the dependencies of the mod, in order; but sections and requirements of another form make the manifest
invalid. -/
theorem readMod_skips_or_refuses {s : String} (hid : (entry.get "id").isGiven = true)
    (hversion : entry.get "version" = .text s) (hs : s ≠ "")
    (hlong : ∀ digits, ¬HoldsOverlong entry digits) :
    (WellFormed entry → ∃ v ds, Version.parse false s = .ok v ∧
      (readMod entry).result = .ok ⟨(entry.get "id").plain, v, ds⟩ ∧
      List.Forall₂ Declaration.IsReadAs ((declarations entry).filter fun d => d.Accepted) ds ∧
      List.Forall₂ (Declaration.IsSkippedBy (entry.get "id"))
        ((declarations entry).filter fun d => ¬d.Accepted) (readMod entry).warnings) ∧
      (¬WellFormed entry → ∃ fault, (readMod entry).result = .error (.invalid fault)) := by
  obtain ⟨v, hparse, hv, hwarnings⟩ := exists_readVersion (entry.get "id") hversion hs hlong
  have hread := readMod_eq hid hversion hs
  constructor
  · rintro ⟨hsections, hform⟩
    obtain ⟨ds, hds, hsplits⟩ := splits_readSections (entry.get "id") hsections hform hlong
    refine ⟨v, ds, hparse, ?_, hsplits.kept, ?_⟩
    · simp only [hread, Report.result_bind, hv, hds, Except.bind, Report.result_pure]
    · rw [hread, Report.warnings_bind hv, Report.warnings_bind hds, hwarnings,
        Report.warnings_pure, List.nil_append, List.append_nil]
      exact hsplits.skipped
  · -- Whatever is read has the form of a mod, so that there is an error, and only one is left.
    intro hform
    cases hresult : (readMod entry).result with
    | ok m =>
      rw [hread, Report.result_bind, hv] at hresult
      obtain ⟨ds, hds, -⟩ := bind_eq_ok.mp ((Report.result_bind _ _).symm.trans hresult)
      obtain ⟨hsections, hforms⟩ := isSection_of_readSections (entry.get "id") hds
      refine absurd ⟨fun kind => hsections kind ?_, hforms⟩ hform
      cases kind <;> decide
    | error e =>
      cases failsOnly_readMod entry e hresult with
      | invalid fault => exact ⟨fault, rfl⟩
      | numeral h => exact absurd h (hlong _)

/-- A range expression of a mod is one of its declarations. -/
theorem HasRange.exists_declaration {s : String} (h : HasRange entry kind s) :
    ∃ d ∈ declarations entry, Demands d.requirement s := by
  obtain ⟨l, hget, d, hd, hdemands⟩ := h
  refine ⟨⟨kind, d.1, d.2⟩, List.mem_flatMap.mpr ⟨kind, ?_, ?_⟩, hdemands⟩
  · cases kind <;> decide
  · rw [sectionDeclarations, hget]
    exact List.mem_map_of_mem hd

/-- A mod with a declaration that is skipped for one of its two ranges, and the same mod with a range
that is no text. -/
theorem readMod_skips_or_refuses_one :
    let entry (range : Scalar) : Document := .mapping [(.text "id", .scalar (.int 7)),
      (.text "version", .text "1"), (.text "breaks", .mapping [(.text "d", .scalar range)]),
      (.text "depends", .mapping [(.text "b", .list [.text ">=2", .text "~foo"]),
        (.text "c", .null), (.int 5, .list [])])]
    let good := entry (.text ">=2")
    let bad := entry (.bool true)
    (∀ digits, ¬HoldsOverlong good digits) ∧ WellFormed good ∧
      ((declarations good).filter fun d => d.Accepted) =
        [⟨.depends, .text "c", .null⟩, ⟨.depends, .int 5, .list []⟩,
          ⟨.breaks, .text "d", .text ">=2"⟩] ∧
      (∃ v ds, (readMod good).result = .ok ⟨"7", v, ds⟩ ∧
        ds.map (·.target) = ["c", "5", "d"] ∧ (readMod good).warnings.length = 1) ∧
      (∀ digits, ¬HoldsOverlong bad digits) ∧ ¬WellFormed bad ∧
      ∃ fault, (readMod bad).result = .error (.invalid fault) := by
  intro entry good bad
  have hdeclarations : ∀ range, declarations (entry range) =
      [⟨.depends, .text "b", .list [.text ">=2", .text "~foo"]⟩, ⟨.depends, .text "c", .null⟩,
        ⟨.depends, .int 5, .list []⟩, ⟨.breaks, .text "d", .scalar range⟩] := fun _ => rfl
  -- No word of the two ranges is long enough to have a numeral beyond the limit.
  have hshort : ∀ s ∈ [">=2", "~foo"], ∀ digits, ¬Predicate.MeetsOverlong s digits := by
    have hwords : ([">=2", "~foo"].all fun s => (Predicate.termWords s).all fun w =>
        decide ((Operator.split w).2.length ≤ Numeral.limit)) = true := by decide +kernel
    rintro s hs digits ⟨w, hw, hmeets⟩
    have hlength := of_decide_eq_true (List.all_eq_true.mp (List.all_eq_true.mp hwords s hs) w hw)
    exact absurd hmeets.limit_lt (Nat.not_lt.mpr hlength)
  have hlong : ∀ range, (∀ s, range = .text s → s = ">=2") →
      ∀ digits, ¬HoldsOverlong (entry range) digits := by
    rintro range hrange digits (⟨s, hs, hmeets⟩ | ⟨kind, s, hs, hmeets⟩)
    · obtain rfl : "1" = s := Scalar.text.inj (Document.scalar.inj hs)
      exact absurd hmeets.limit_lt (by decide)
    · refine hshort s ?_ digits hmeets
      obtain ⟨d, hd, hdemands⟩ := hs.exists_declaration
      rw [hdeclarations] at hd
      simp only [List.mem_cons, List.not_mem_nil, or_false] at hd
      rcases hd with rfl | rfl | rfl | rfl <;> rcases hdemands with h | ⟨items, h, hs⟩ <;> cases h
      · simpa [Document.text] using hs
      · exact absurd hs List.not_mem_nil
      · exact List.mem_cons.mpr (Or.inl (hrange s rfl))
  -- Neither mod has a numeral that is too long, whatever the range of the last declaration.
  have hgood := hlong (.text ">=2") fun s hs => (Scalar.text.inj hs).symm
  have hbad := hlong (.bool true) fun s hs => by cases hs
  have haccepted : ((declarations good).filter fun d => d.Accepted) =
      [⟨.depends, .text "c", .null⟩, ⟨.depends, .int 5, .list []⟩,
        ⟨.breaks, .text "d", .text ">=2"⟩] := rfl
  have hskipped : ((declarations good).filter fun d => ¬d.Accepted) =
      [⟨.depends, .text "b", .list [.text ">=2", .text "~foo"]⟩] := rfl
  have hform : WellFormed good := by
    constructor
    · intro kind hgiven
      cases kind
      case depends | breaks => exact ⟨_, rfl⟩
      all_goals cases hgiven
    · rw [hdeclarations]
      refine List.forall_mem_cons.mpr
        ⟨isRequirement_iff.mpr ⟨_, .texts (l := [">=2", "~foo"]) (List.cons_ne_nil _ _)⟩, ?_⟩
      refine List.forall_mem_cons.mpr ⟨isRequirement_iff.mpr ⟨_, .missing⟩, ?_⟩
      refine List.forall_mem_cons.mpr ⟨isRequirement_iff.mpr ⟨_, .empty⟩, ?_⟩
      exact List.forall_mem_singleton.mpr (isRequirement_iff.mpr ⟨_, .text ">=2"⟩)
  have hno : ¬WellFormed bad := by
    intro h
    have hlast := h.requirements ⟨.breaks, .text "d", .scalar (.bool true)⟩ (by
      rw [hdeclarations]
      exact List.mem_of_getLast? rfl)
    rcases hlast with h | ⟨s, h⟩ | ⟨items, h, -⟩ <;> cases h
  -- One declaration is skipped, and the mod has the other three in order.
  obtain ⟨v, ds, -, hread, hkept, hwarnings⟩ :=
    (readMod_skips_or_refuses (s := "1") rfl rfl (by decide) hgood).1 hform
  rw [haccepted] at hkept
  rw [hskipped] at hwarnings
  refine ⟨hgood, hform, haccepted, ⟨v, ds, hread, ?_, hwarnings.length_eq.symm⟩, hbad, hno,
    (readMod_skips_or_refuses (s := "1") rfl rfl (by decide) hbad).2 hno⟩
  obtain _ | ⟨hc, _ | ⟨hfive, _ | ⟨hd, _ | _⟩⟩⟩ := hkept
  simp only [List.map_cons, hc.target_eq, hfive.target_eq, hd.target_eq]
  rfl

end Semrange.Manifest
