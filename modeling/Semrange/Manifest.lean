import Semrange.Dependency
import Semrange.Document.Printer
import Semrange.Files
import Semrange.Log.Reading

/-!
# Manifests

A manifest is a document that lists mods: each with an id, a version and, under the keys of the
kinds of dependency, declarations about other mods. A declaration whose ranges cannot be read is
skipped with a warning; a version or range that is no text, or a section that is no mapping, makes
the whole manifest invalid.
-/

namespace Semrange

/-- A mod of a manifest. -/
structure Mod where
  /-- Its id. -/
  id : String
  /-- Its version. -/
  version : Version
  /-- What it declares about other mods. -/
  dependencies : List Dependency
deriving DecidableEq, Repr

namespace Manifest

/-- What is wrong with a manifest. -/
inductive Fault where
  /-- A mod is no mapping. -/
  | entry (d : Document)
  /-- A mod lacks its id or its version. -/
  | fields (d : Document)
  /-- What should be a text is none. -/
  | text (what : String) (d : Document)
  /-- A section of a mod is no mapping. -/
  | notMapping (kind : Dependency.Kind) (owner : Document)
  /-- There is no file. -/
  | missing (path : String)
  /-- The file cannot be opened. -/
  | unreadable (path : String) (refusal : Files.Refusal)
  /-- The file is no document. -/
  | malformed (path : String) (reason : String)
  /-- The document does not list mods. -/
  | noMods (path : String)

/-- The text of a fault. -/
def Fault.message : Fault → String
  | .entry d => s!"Mod entry must be a mapping, got {d.kindName}"
  | .fields d => s!"Mod entry requires 'id' and 'version': {d.literal}"
  | .text what d => s!"{what} must be a string, got {d.kindName} {d.literal}; quote the version"
  | .notMapping kind owner =>
    s!"'{kind.key}' of mod '{owner.plain}' must be a mapping of id to version ranges"
  | .missing path => s!"Manifest not found: {path}"
  | .unreadable path refusal => s!"Failed to read manifest {path}: {refusal.message path}"
  | .malformed path reason => s!"Failed to parse manifest {path}: {reason}"
  | .noMods path => s!"Manifest {path} must contain a 'mods' list"

/-- Why a manifest could not be read. -/
inductive ReadError where
  /-- The manifest is invalid. -/
  | invalid (fault : Fault)
  /-- A version in it could not be read. -/
  | version (error : Version.ReadError)
  /-- The file has a defect. -/
  | file (defect : Files.Defect)

/-- The text of an error. -/
def ReadError.message : ReadError → String
  | .invalid fault => fault.message
  | .version error => error.message
  | .file defect => defect.message

/-- A text, or the fault that it is none. -/
def requireText (what : String) : Document → Except Fault String
  | .scalar (.text s) => .ok s
  | d => .error (.text what d)

/-- The range expressions of a requirement; no requirement is met by every version. -/
def readRequirement (what : String) : Document → Except Fault (List String)
  | .scalar .null => .ok ["*"]
  | .list [] => .ok ["*"]
  | .list items => items.mapM (requireText what)
  | d => (requireText what d).map ([·])

/-- Reads a declaration of `owner` about `target`; none if one of its ranges cannot be read. -/
def readDeclaration (kind : Dependency.Kind) (owner : Document) (target : Scalar)
    (requirement : Document) : Report ReadError (Option Dependency) := do
  let what := s!"Range in {kind.key} '{target.plain}' of mod '{owner.plain}'"
  let matchers ← Report.ofExcept ((readRequirement what requirement).mapError .invalid)
  Report.tell (Predicate.recordsOfAll matchers)
  match Dependency.ofMatchers kind target.plain matchers with
  | .ok d => return some d
  | .error (.version (.numeral fault)) => Report.fail (.version (.numeral fault))
  | .error e =>
    Report.note .warning .manifest
      (s!"Skipping invalid {kind.key} declaration of '{owner.plain}' on '{target.plain}': " ++
        e.message)
    return none

/-- Reads the declarations of `owner` in a section. -/
def readDeclarations (kind : Dependency.Kind) (owner : Document) :
    List (Scalar × Document) → Report ReadError (List Dependency)
  | [] => return []
  | (target, requirement) :: l => do
    let d ← readDeclaration kind owner target requirement
    let ds ← readDeclarations kind owner l
    return d.toList ++ ds

/-- Reads a section of `owner`, which is a mapping unless it is missing or empty. -/
def readSection (owner : Document) (kind : Dependency.Kind) (d : Document) :
    Report ReadError (List Dependency) :=
  match d with
  | .mapping l => readDeclarations kind owner l
  | d => if d.isGiven then Report.fail (.invalid (.notMapping kind owner)) else return []

/-- Reads the sections of `owner`, one for each kind. -/
def readSections (owner entry : Document) :
    List Dependency.Kind → Report ReadError (List Dependency)
  | [] => return []
  | kind :: kinds => do
    let ds ← readSection owner kind (entry.get kind.key)
    let es ← readSections owner entry kinds
    return ds ++ es

/-- Reads the version of `owner`. -/
def readVersion (owner : Document) (d : Document) : Report ReadError Version := do
  let s ← Report.ofExcept
    ((requireText s!"Version of mod '{owner.plain}'" d).mapError .invalid)
  (Version.read s).mapError .version

/-- Whether a document is there: neither empty nor the empty text. -/
def isThere : Document → Bool
  | .scalar .null => false
  | .scalar (.text s) => s != ""
  | _ => true

/-- Reads a mod. -/
def readMod (entry : Document) : Report ReadError Mod :=
  match entry with
  | .mapping _ =>
    let id := entry.get "id"
    let version := entry.get "version"
    if id.isGiven && isThere version then do
      let v ← readVersion id version
      let ds ← readSections id entry Dependency.Kind.all
      return ⟨id.plain, v, ds⟩
    else Report.fail (.invalid (.fields entry))
  | d => Report.fail (.invalid (.entry d))

/-- Reads mods one after the other. -/
def readMods : List Document → Report ReadError (List Mod)
  | [] => return []
  | d :: l => do
    let m ← readMod d
    let ms ← readMods l
    return m :: ms

/-- The mods that the manifest at a path lists. -/
def load (files : Files) (path : String) : Report ReadError (List Mod) := do
  match files.read path with
  | .error (.refused .missing) => Report.fail (.invalid (.missing path))
  | .error (.refused r) => Report.fail (.invalid (.unreadable path r))
  | .error (.malformed reason) => Report.fail (.invalid (.malformed path reason))
  | .error (.defect d) => Report.fail (.file d)
  | .ok d =>
    match d.find? "mods" with
    | some (.list items) =>
      let mods ← readMods items
      Report.note .debug .manifest s!"Loaded {mods.length} mods from {path}"
      return mods
    | _ => Report.fail (.invalid (.noMods path))

end Manifest

end Semrange
