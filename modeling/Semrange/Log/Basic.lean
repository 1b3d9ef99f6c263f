import Semrange.Document.Basic

/-!
# Log records

What the program has to tell beside its results: records, each with a level, the part of the program
that it comes from, and a text. A `Report` is a result together with the records made on the way to
it; they are kept when the result is an error.
-/

namespace Semrange

namespace Log

/-- How important a record is. -/
inductive Level where
  /-- For those who look for a fault. -/
  | debug
  /-- For information. -/
  | info
  /-- Something may be wrong. -/
  | warning
  /-- Something is wrong. -/
  | error
deriving DecidableEq, Repr

/-- The name of a level. -/
def Level.name : Level → String
  | .debug => "DEBUG"
  | .info => "INFO"
  | .warning => "WARNING"
  | .error => "ERROR"

/-- The rank of a level; the more important, the higher. -/
def Level.rank : Level → Nat
  | .debug => 10
  | .info => 20
  | .warning => 30
  | .error => 40

/-- The part of the program that a record comes from. -/
inductive Source where
  /-- Reading versions. -/
  | versions
  /-- Reading and testing predicates. -/
  | predicates
  /-- Combining intervals. -/
  | intervals
  /-- Reading manifests. -/
  | manifest
  /-- Resolving settings. -/
  | settings
  /-- The command line. -/
  | command
deriving DecidableEq, Repr

/-- The name of a source. -/
def Source.name : Source → String
  | .versions => "modversion.parser"
  | .predicates => "modversion.predicate"
  | .intervals => "modversion.interval"
  | .manifest => "manifest"
  | .settings => "cli_config"
  | .command => "modcheck"

/-- A record. -/
structure Record where
  /-- How important it is. -/
  level : Level
  /-- Where it comes from. -/
  source : Source
  /-- What it says. -/
  text : String
deriving DecidableEq, Repr

/-- The fields that are attached to a record: those that have a value. -/
def context (fields : List (Scalar × Document)) : List (Scalar × Document) :=
  fields.filter fun e =>
    match e.2 with
    | .scalar .null => false
    | _ => true

end Log

/-- A result with the records made on the way to it. -/
structure Report (ε α : Type) where
  /-- The records, the earliest first. -/
  records : List Log.Record
  /-- The result, or why there is none. -/
  result : Except ε α

namespace Report

/-- A result without records. -/
def ofExcept {ε α : Type} (result : Except ε α) : Report ε α :=
  ⟨[], result⟩

/-- One report after the other; the second one is only made if the first one has a result. -/
def andThen {ε α β : Type} (r : Report ε α) (f : α → Report ε β) : Report ε β :=
  match r.result with
  | .error e => ⟨r.records, .error e⟩
  | .ok a => ⟨r.records ++ (f a).records, (f a).result⟩

instance {ε : Type} : Monad (Report ε) where
  pure a := ofExcept (.ok a)
  bind := andThen

/-- An error without records. -/
def fail {ε α : Type} (e : ε) : Report ε α :=
  ofExcept (.error e)

/-- Makes records. -/
def tell {ε : Type} (records : List Log.Record) : Report ε Unit :=
  ⟨records, .ok ()⟩

/-- Makes one record. -/
def note {ε : Type} (level : Log.Level) (source : Log.Source) (text : String) : Report ε Unit :=
  tell [⟨level, source, text⟩]

/-- The report with its error seen as one of another kind. -/
def mapError {ε δ α : Type} (f : ε → δ) (r : Report ε α) : Report δ α :=
  ⟨r.records, r.result.mapError f⟩

end Report

end Semrange
