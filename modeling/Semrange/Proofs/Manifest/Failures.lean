import Semrange.Manifest
import Semrange.Proofs.Log.Reports
import Semrange.Proofs.Predicate.Wildcards

/-!
# How reading a manifest fails

The mods of a manifest are read one by one, and of each mod the version and the sections. What is
wrong in them makes the manifest invalid, or the declaration in question is skipped. The one thing
that is neither is a numeral that is too long, in the text of a version or of a range
(`HoldsOverlong`). So that is all that `readMods` fails by (`failsOnly_readMods`), and the proof
follows the readers from the inside: each fails only with errors that are foreseen for what it
reads.

Before that the file has to be read. What the system refuses and what has not the form of a document
makes the manifest invalid as well, and so does a document that lists no mods. A defect of the file
is an error of its own (`result_load`).
-/

namespace Semrange

namespace Predicate

/-- In a range expression a numeral of so many digits, which are too many, is met before anything
else that is wrong in its word. -/
def MeetsOverlong (s : String) (digits : ℕ) : Prop :=
  ∃ w ∈ termWords s, Semantic.MeetsOverlong (Operator.split w).2 digits

end Predicate

namespace Manifest

/-- The errors that are foreseen where numerals may have so many digits too many: that the manifest
is invalid, and such a numeral. -/
inductive Foreseen (long : ℕ → Prop) : ReadError → Prop
  /-- The manifest is invalid. -/
  | invalid (fault : Fault) : Foreseen long (.invalid fault)
  /-- A numeral is too long. -/
  | numeral {digits : ℕ} (h : long digits) : Foreseen long (.version (.numeral (.tooLong digits)))

/-- What is foreseen for fewer numerals is foreseen for more of them. -/
theorem Foreseen.mono {P Q : ℕ → Prop} (h : ∀ digits, P digits → Q digits) {e : ReadError}
    (he : Foreseen P e) : Foreseen Q e := by
  cases he with
  | invalid fault => exact .invalid fault
  | numeral hlong => exact .numeral (h _ hlong)

/-! ## Texts -/

/-- A text is required and found where the document is that text. -/
theorem requireText_eq_ok_iff {what : String} {d : Document} {s : String} :
    requireText what d = .ok s ↔ d = .text s := by
  constructor
  · intro h
    unfold requireText at h
    split at h
    · cases h
      rfl
    · cases h
  · rintro rfl
    rfl

/-- The range expressions of a requirement: the text that it is, or the texts in it if it is a
list. -/
def Demands (requirement : Document) (s : String) : Prop :=
  requirement = .text s ∨ ∃ items, requirement = .list items ∧ Document.text s ∈ items

/-- A requirement is read as range expressions of it, or else as the expression that every version
meets. -/
theorem demands_of_readRequirement {what : String} {d : Document} {matchers : List String}
    (h : readRequirement what d = .ok matchers) : ∀ s ∈ matchers, s = "*" ∨ Demands d s := by
  unfold readRequirement at h
  split at h
  · -- Nothing is required, or an empty list.
    cases h
    exact List.forall_mem_singleton.mpr (Or.inl rfl)
  · cases h
    exact List.forall_mem_singleton.mpr (Or.inl rfl)
  · -- Each expression is read off an item of the list.
    intro s hs
    obtain ⟨item, hitem, hread⟩ :=
      Predicate.exists_left_of_forall₂ (mapM_eq_ok_iff.mp h) s hs
    rw [requireText_eq_ok_iff.mp hread] at hitem
    exact Or.inr (Or.inr ⟨_, rfl, hitem⟩)
  · obtain ⟨s, hread, rfl⟩ := map_eq_ok.mp h
    exact List.forall_mem_singleton.mpr (Or.inr (Or.inl (requireText_eq_ok_iff.mp hread)))

/-- What is read with its fault seen as that of the manifest fails only as foreseen. -/
theorem failsOnly_invalid {α : Type} (r : Except Fault α) {long : ℕ → Prop} :
    (Report.ofExcept (r.mapError ReadError.invalid)).FailsOnly (Foreseen long) := by
  intro e he
  cases r with
  | ok a => cases he
  | error fault =>
    cases he
    exact .invalid fault

/-! ## Declarations -/

/-- Range expressions that make no dependency fail by one of them. -/
theorem exists_of_ofMatchers_eq_error {kind : Dependency.Kind} {target : String}
    {matchers : List String} {e : Predicate.ParseError}
    (h : Dependency.ofMatchers kind target matchers = .error e) :
    ∃ s ∈ matchers, Predicate.parse s = .error e := by
  unfold Dependency.ofMatchers Predicate.parseAll at h
  cases hparse : matchers.mapM Predicate.parse with
  | ok ps =>
    rw [hparse] at h
    cases h
  | error e' =>
    rw [hparse] at h
    cases h
    exact exists_of_mapM_eq_error hparse

/-- A declaration whose ranges cannot be read is skipped, unless a numeral in one of them is too
long. -/
theorem failsOnly_readDeclaration (kind : Dependency.Kind) (owner : Document) (target : Scalar)
    (requirement : Document) :
    (readDeclaration kind owner target requirement).FailsOnly
      (Foreseen fun digits => ∃ s, Demands requirement s ∧ Predicate.MeetsOverlong s digits) := by
  unfold readDeclaration
  refine .bind (failsOnly_invalid _) fun matchers hmatchers => ?_
  refine .bind (.of_result (Report.result_tell _)) fun _ _ => ?_
  cases hdependency : Dependency.ofMatchers kind target.plain matchers with
  | ok d => exact .pure (some d)
  | error e =>
    -- Ranges that are malformed are skipped; an error about a numeral goes on.
    match e with
    | .malformed expression cause => exact .after_note (.pure none)
    | .version (.malformed cause) => exact .after_note (.pure none)
    | .version (.numeral fault) =>
      obtain ⟨s, hs, hparse⟩ := exists_of_ofMatchers_eq_error hdependency
      obtain ⟨w, hw, digits, hlong, hfault⟩ := Predicate.meetsOverlong_of_parse hparse
      have hread := mapError_eq_ok.mp hmatchers
      cases hfault
      rcases demands_of_readRequirement hread s hs with rfl | hdemands
      · -- A star has no words.
        cases hw
      · exact .fail (.numeral ⟨s, hdemands, w, hw, hlong⟩)

/-- Declarations are read as the first one that fails. -/
theorem failsOnly_readDeclarations (kind : Dependency.Kind) (owner : Document)
    (l : List (Scalar × Document)) :
    (readDeclarations kind owner l).FailsOnly (Foreseen fun digits =>
      ∃ d ∈ l, ∃ s, Demands d.2 s ∧ Predicate.MeetsOverlong s digits) := by
  induction l with
  | nil => exact .pure []
  | cons d l ih =>
    have hfirst := failsOnly_readDeclaration kind owner d.1 d.2
    refine .bind (hfirst.mono fun _ => Foreseen.mono ?_) fun _ _ => ?_
    · exact fun _ h => ⟨d, List.mem_cons_self, h⟩
    · refine .bind (ih.mono fun _ => Foreseen.mono ?_) fun _ _ => .pure _
      exact fun _ ⟨e, he, h⟩ => ⟨e, List.mem_cons_of_mem d he, h⟩

/-! ## Mods -/

/-- The range expressions that a mod declares under a kind. -/
def HasRange (entry : Document) (kind : Dependency.Kind) (s : String) : Prop :=
  ∃ l, entry.get kind.key = .mapping l ∧ ∃ d ∈ l, Demands d.2 s

/-- In the text of the version of a mod, or in that of one of its ranges, a numeral of so many
digits, which are too many, is met before anything else that is wrong. -/
def HoldsOverlong (entry : Document) (digits : ℕ) : Prop :=
  (∃ s, entry.get "version" = .text s ∧ Semantic.MeetsOverlong s.toList digits) ∨
    ∃ kind s, HasRange entry kind s ∧ Predicate.MeetsOverlong s digits

/-- A section is missing, is read declaration by declaration, or makes the manifest invalid. -/
theorem failsOnly_readSection (owner entry : Document) (kind : Dependency.Kind) :
    (readSection owner kind (entry.get kind.key)).FailsOnly (Foreseen (HoldsOverlong entry)) := by
  unfold readSection
  split
  · next l hentry =>
    refine (failsOnly_readDeclarations kind owner l).mono fun _ => Foreseen.mono ?_
    rintro digits ⟨d, hd, s, hdemands, hlong⟩
    exact Or.inr ⟨kind, s, ⟨l, hentry, d, hd, hdemands⟩, hlong⟩
  · split_ifs
    · exact .fail (.invalid _)
    · exact .pure []

/-- Sections are read as the first one that fails. -/
theorem failsOnly_readSections (owner entry : Document) (kinds : List Dependency.Kind) :
    (readSections owner entry kinds).FailsOnly (Foreseen (HoldsOverlong entry)) := by
  induction kinds with
  | nil => exact .pure []
  | cons kind kinds ih =>
    refine .bind (failsOnly_readSection owner entry kind) fun _ _ => ?_
    exact .bind ih fun _ _ => .pure _

/-- The version of a mod is a text that is not empty, so that it is read unless it has a numeral that
is too long. -/
theorem failsOnly_readVersion (owner : Document) {entry : Document}
    (hthere : isThere (entry.get "version") = true) :
    (readVersion owner (entry.get "version")).FailsOnly (Foreseen (HoldsOverlong entry)) := by
  refine .bind (failsOnly_invalid _) fun s hs => ?_
  have hversion : entry.get "version" = .text s :=
    requireText_eq_ok_iff.mp (mapError_eq_ok.mp hs)
  -- An empty text is not there, so the version is never read from one.
  have hne : s ≠ "" := by
    rintro rfl
    rw [hversion] at hthere
    cases hthere
  intro e he
  have hparse : (Version.parse false s).mapError ReadError.version = .error e := he
  cases hv : Version.parse false s with
  | ok v =>
    rw [hv] at hparse
    cases hparse
  | error e' =>
    obtain ⟨digits, hlong, rfl⟩ := Version.meetsOverlong_of_parse hv hne
    rw [hv] at hparse
    cases hparse
    exact .numeral (Or.inl ⟨s, hversion, hlong⟩)

/-- A mod fails only as foreseen. -/
theorem failsOnly_readMod (entry : Document) :
    (readMod entry).FailsOnly (Foreseen (HoldsOverlong entry)) := by
  unfold readMod
  split
  · dsimp only
    split_ifs with hgiven
    · have hthere := (Bool.and_eq_true_iff.mp hgiven).2
      refine .bind (failsOnly_readVersion _ hthere) fun _ _ => ?_
      exact .bind (failsOnly_readSections _ _ _) fun _ _ => .pure _
    · exact .fail (.invalid _)
  · exact .fail (.invalid _)

/-- Mods are read as the first one that fails: the manifest is invalid, or a numeral in one of them
is too long. -/
theorem failsOnly_readMods (items : List Document) :
    (readMods items).FailsOnly (Foreseen fun digits => ∃ entry ∈ items,
      HoldsOverlong entry digits) := by
  induction items with
  | nil => exact .pure []
  | cons entry items ih =>
    refine .bind ((failsOnly_readMod entry).mono fun _ => Foreseen.mono ?_) fun _ _ => ?_
    · exact fun _ h => ⟨entry, List.mem_cons_self, h⟩
    · refine .bind (ih.mono fun _ => Foreseen.mono ?_) fun _ _ => .pure _
      exact fun _ ⟨e, he, h⟩ => ⟨e, List.mem_cons_of_mem entry he, h⟩

/-! ## Files -/

/-- A file lists mods when it holds a document with a list of them. -/
def Lists (files : Files) (path : String) (items : List Document) : Prop :=
  ∃ d, files.read path = .ok d ∧ d.find? "mods" = some (.list items)

/-- A defect of the file is the error of loading it. -/
theorem result_load_of_defect {files : Files} {path : String} {defect : Files.Defect}
    (h : files.read path = .error (.defect defect)) :
    (load files path).result = .error (.file defect) := by
  rw [load, h]
  rfl

/-- The mods that a file lists are the result of loading it, or why they cannot be read. -/
theorem result_load_of_lists {files : Files} {path : String} {items : List Document}
    (h : Lists files path items) : (load files path).result = (readMods items).result := by
  obtain ⟨d, hread, hmods⟩ := h
  simp only [load, hread, hmods, Report.result_bind, Report.result_note, Report.result_pure]
  cases (readMods items).result <;> rfl

/-- A file without a defect that lists no mods makes the manifest invalid. -/
theorem result_load_of_not_lists {files : Files} {path : String}
    (hdefect : ∀ defect, files.read path ≠ .error (.defect defect))
    (hmods : ∀ items, ¬Lists files path items) :
    ∃ fault, (load files path).result = .error (.invalid fault) := by
  unfold load
  split
  · exact ⟨_, rfl⟩
  · exact ⟨_, rfl⟩
  · exact ⟨_, rfl⟩
  · next defect hread => exact absurd hread (hdefect defect)
  · next d hread =>
    split
    · next items hfind => exact absurd ⟨d, hread, hfind⟩ (hmods items)
    · exact ⟨_, rfl⟩

end Manifest

end Semrange
