import Semrange.CommandLine.Grammar
import Semrange.Settings

/-!
# Commands

The four commands with their slots and switches, and what a command line asks for. The first operand
names the command, and the command's own grammar reads all words behind it.
-/

namespace Semrange.CommandLine

/-- A command. -/
inductive Command where
  /-- Tests a version against ranges. -/
  | test
  /-- Prints the intervals of ranges. -/
  | interval
  /-- Compares two versions. -/
  | compare
  /-- Checks a manifest. -/
  | check
deriving DecidableEq, Repr

namespace Command

/-- All commands. -/
def all : List Command := [test, interval, compare, check]

/-- The name of a command. -/
def name : Command → String
  | test => "test"
  | interval => "interval"
  | compare => "compare"
  | check => "check"

/-- The command with the given name. -/
def ofName? (s : String) : Option Command :=
  all.find? fun c => c.name == s

/-- The switches that every command has. -/
def commonSwitches : List Switch :=
  [.config, .logLevel, .logFile, .replacements, .errorOnWarnings, .quiet]

/-- The switches of a command. -/
def switches : Command → List Switch
  | test | compare => .help :: commonSwitches
  | interval => .help :: .invert :: commonSwitches
  | check => .help :: .json :: commonSwitches

/-- The slots of a command. -/
def slots : Command → List Slot
  | test => [⟨"VERSION", .one⟩, ⟨"RANGES", .many⟩]
  | interval => [⟨"RANGES", .many⟩]
  | compare => [⟨"VERSION_A", .one⟩, ⟨"VERSION_B", .one⟩]
  | check => [⟨"MANIFEST", .one⟩]

/-- The grammar of a command. -/
def grammar (c : Command) : Grammar :=
  ⟨c.switches, c.slots⟩

end Command

/-- The name of the program. -/
def programName : String := "modcheck"

/-- The name of the program under a command. -/
def Command.program (c : Command) : String :=
  programName ++ " " ++ c.name

/-- The slot of the command and all that follows it. -/
def commandSlot : Slot := ⟨"COMMAND", .rest⟩

/-- The grammar of whole command lines. -/
def grammar : Grammar := ⟨[.help], [commandSlot]⟩

/-- What a command line asks for. -/
structure Request where
  /-- The command. -/
  command : Command
  /-- What fills its slots, slot by slot. -/
  operands : List (List String)
  /-- What is said about settings. -/
  settings : Settings.Arguments
  /-- The file for the records. -/
  logFile : Option String
  /-- Whether warnings count. -/
  errorOnWarnings : Bool
  /-- Whether the output is suppressed. -/
  quiet : Bool
  /-- Whether the complement is asked for. -/
  invert : Bool
  /-- Whether a report in JSON is asked for. -/
  json : Bool
deriving DecidableEq, Repr

/-- A request of which only the command is known. -/
def Request.ofCommand (c : Command) : Request :=
  ⟨c, [], ⟨none, none, none⟩, none, false, false, false, false⟩

/-- The only value of a slot that takes one operand; empty where a separator was all it got. -/
def Request.operand (r : Request) (slot : Nat) : String :=
  ((r.operands.getD slot []).head?).getD ""

/-- Why a command line leads to no request. -/
inductive Stop where
  /-- Help is asked for. -/
  | help
  /-- The command line is wrong; the program is named in the message. -/
  | usage (program : String) (error : UsageError)
deriving DecidableEq, Repr

/-- The request with what an event adds to it. -/
def Request.add (r : Request) : Event → Except Stop Request
  | .fill _ values => .ok { r with operands := r.operands ++ [values] }
  | .set .help => .error .help
  | .set .errorOnWarnings => .ok { r with errorOnWarnings := true }
  | .set .quiet => .ok { r with quiet := true }
  | .set .invert => .ok { r with invert := true }
  | .set .json => .ok { r with json := true }
  | .setTo .config s => .ok { r with settings := { r.settings with config := some s } }
  | .setTo .replacements s => .ok { r with settings := { r.settings with replacements := some s } }
  | .setTo .logFile s => .ok { r with logFile := some s }
  | .setTo .logLevel s =>
    let level := Text.upper s
    if level ∈ Settings.levelNames then
      .ok { r with settings := { r.settings with logLevel := some level } }
    else
      .error (.usage r.command.program (.choice Switch.logLevel.title level Settings.levelNames))
  | .unset .config => .ok { r with settings := { r.settings with config := none } }
  | .unset .replacements => .ok { r with settings := { r.settings with replacements := none } }
  | .unset .logFile => .ok { r with logFile := none }
  | .unset .logLevel => .ok { r with settings := { r.settings with logLevel := none } }
  -- a switch with a value is not set without one, nor another one to a value
  | .set _ | .setTo _ _ | .unset _ => .ok r

/-- The request with what events add to it. -/
def Request.addAll (r : Request) : List Event → Except Stop Request
  | [] => .ok r
  | e :: es =>
    match r.add e with
    | .error stop => .error stop
    | .ok r => r.addAll es

/-- The request that the words behind a command make, and the words that nothing takes. -/
def Command.read (c : Command) (words : List String) : Except Stop (Request × List String) :=
  match c.grammar.read words with
  | .error e => .error (.usage c.program e)
  | .ok t =>
    match (Request.ofCommand c).addAll t.events, t.leftOver with
    | .error stop, _ => .error stop
    | .ok _, .error e => .error (.usage c.program e)
    | .ok r, .ok leftOver => .ok (r, leftOver)

/-- What the events of a whole command line ask for. -/
def readCommand : List Event → Except Stop (Option (Request × List String))
  | [] => .ok none
  | .fill _ (name :: words) :: _ =>
    match Command.ofName? name with
    | some c => (c.read words).map some
    | none =>
      .error (.usage programName
        (.choice commandSlot.name name (Command.all.map Command.name)))
  | .set .help :: _ => .error .help
  | _ :: es => readCommand es

/-- The request that a command line makes. -/
def readRequest (words : List String) : Except Stop Request :=
  match grammar.read words with
  | .error e => .error (.usage programName e)
  | .ok t =>
    match readCommand t.events, t.leftOver with
    | .error stop, _ => .error stop
    | .ok _, .error e => .error (.usage programName e)
    | .ok none, .ok _ => .error (.usage programName (.unfilled [commandSlot.name]))
    | .ok (some (r, inner)), .ok outer =>
      let leftOver := outer ++ inner
      if leftOver.isEmpty then .ok r else .error (.usage programName (.leftOver leftOver))

end Semrange.CommandLine
