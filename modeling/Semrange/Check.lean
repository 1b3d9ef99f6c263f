import Semrange.Manifest
import Semrange.Overrides

/-!
# Checking mods against each other

Every declaration of every mod is held against the version of its target that is present, which is
the version of the last mod of that id unless it is overridden. A declaration that is not met gives a
finding: an error, or a warning if its kind is soft.
-/

namespace Semrange

/-- How bad a finding is. -/
inductive Severity where
  /-- Something is broken. -/
  | error
  /-- Something could be better. -/
  | warning
deriving DecidableEq, Repr

/-- The word for a severity. -/
def Severity.name : Severity → String
  | .error => "error"
  | .warning => "warning"

/-- The word for a severity where it leads a line. -/
def Severity.label : Severity → String
  | .error => "ERROR"
  | .warning => "WARNING"

/-- How bad it is that a declaration of the kind is not met. -/
def Dependency.Kind.severity (k : Dependency.Kind) : Severity :=
  if k.soft then .warning else .error

/-- A declaration that is not met. -/
structure Finding where
  /-- The id of the mod that declares it. -/
  mod : String
  /-- The declaration. -/
  dependency : Dependency
  /-- The version of the target that is present. -/
  found : Option Version
deriving DecidableEq, Repr

namespace Finding

/-- How bad a finding is. -/
def severity (f : Finding) : Severity :=
  f.dependency.kind.severity

/-- The text of a finding. -/
def message (f : Finding) : String :=
  let d := f.dependency
  let state := match f.found with
    | none => "which is missing"
    | some v => (if d.kind.positive then "but " else "and ") ++ v.text ++ " is present"
  s!"{f.mod} {d.kind.key} {d.target} {d.requirement}, {state}"

/-- A finding as a document. -/
def document (f : Finding) : Document :=
  .mapping [(.text "mod", .text f.mod), (.text "kind", .text f.dependency.kind.key),
    (.text "target", .text f.dependency.target),
    (.text "requirements", .list (f.dependency.matchers.map .text)),
    (.text "found", (f.found.map fun v => Document.text v.text).getD .null),
    (.text "severity", .text f.severity.name), (.text "message", .text f.message)]

end Finding

namespace Check

/-- The version of `id` that is present. -/
def present? (mods : List Mod) (overrides : Overrides) (id : String) : Option Version :=
  (mods.reverse.find? fun m => m.id == id).map fun m => overrides.apply id m.version

/-- Whether a declaration is met where the given version of its target is present. -/
def isMet (d : Dependency) (found : Option Version) : Bool :=
  match found with
  | none => !d.kind.positive
  | some v => d.isSatisfiedBy v

/-- The finding for a declaration of a mod, if it is not met. -/
def finding? (mods : List Mod) (overrides : Overrides) (m : Mod) (d : Dependency) :
    Option Finding :=
  let found := present? mods overrides d.target
  if isMet d found then none else some ⟨m.id, d, found⟩

/-- The findings for the declarations of all mods, in order. -/
def findings (mods : List Mod) (overrides : Overrides) : List Finding :=
  mods.flatMap fun m => m.dependencies.filterMap (finding? mods overrides m)

end Check

end Semrange
