import Semrange.Log.Basic
import Semrange.Text.Uppercase

/-!
# The console

Which records are shown, and how. A console shows the records whose rank reaches its threshold; the
threshold is given by the name of a level, in any case. Until it is configured a console shows what
is at least a warning, as bare text, and has no handler.
-/

namespace Semrange

/-- The settings of the environment, by name. -/
abbrev Environment := List (String × String)

namespace Log

/-- The name of the level that counts where none is given. -/
def defaultLevelName : String := "INFO"

/-- Where the environment holds the name of a level. -/
def levelVariable : String := "MODVERSION_LOG_LEVEL"

/-- The thresholds that have a name. -/
def thresholds : List (String × Nat) :=
  [("CRITICAL", 50), ("FATAL", 50), ("ERROR", 40), ("WARNING", 30), ("WARN", 30), ("INFO", 20),
   ("DEBUG", 10), ("NOTSET", 0)]

/-- The threshold that goes by a name, in any case; for other names that of information. -/
def threshold (name : String) : Nat :=
  (thresholds.lookup (Text.upper name)).getD Level.info.rank

/-- The state of a console. -/
structure Console where
  /-- The least rank that is shown. -/
  threshold : Nat
  /-- How many handlers are installed. -/
  handlers : Nat
deriving DecidableEq, Repr

/-- A console that has not been configured. -/
def Console.bare : Console := ⟨Level.warning.rank, 0⟩

/-- The console with the threshold of the given name, or else of the one in the environment, and
with a handler. -/
def Console.configure (c : Console) (env : Environment) (name : Option String) : Console :=
  ⟨Log.threshold (name.getD ((env.lookup levelVariable).getD defaultLevelName)), max 1 c.handlers⟩

/-- Whether a console shows records of a level. -/
def Console.shows (c : Console) (level : Level) : Bool :=
  decide (c.threshold ≤ level.rank)

/-- The line that a console shows for a record. -/
def Console.line (c : Console) (r : Record) : String :=
  if c.handlers = 0 then r.text else s!"[{r.level.name}] {r.text}"

/-- The lines that a console shows for records. -/
def Console.lines (c : Console) (records : List Record) : List String :=
  (records.filter fun r => c.shows r.level).map c.line

/-- The line of a record in a log file, without the time. -/
def fileLine (r : Record) : String :=
  s!"{r.level.name} {r.source.name} {r.text}"

end Log

end Semrange
