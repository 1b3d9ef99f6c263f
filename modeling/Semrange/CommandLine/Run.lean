import Semrange.Cache
import Semrange.Check
import Semrange.CommandLine.Command
import Semrange.Document.Json

/-!
# Running commands

What a run of the program does: what it prints, what its records are and where they go, and with
which code it ends, or by which error it is broken off. `execute` gives the effect of a request under
settings that are already resolved, and `run` that of a whole command line.

Time hardly passes during a run. Its clock counts its own readings, a million to the second.
-/

namespace Semrange.CommandLine

/-- How a run ends. -/
inductive ExitCode where
  /-- All is well. -/
  | success
  /-- A manifest cannot be read. -/
  | fileError
  /-- A version, a range or a replacement cannot be read. -/
  | parseError
  /-- There are warnings, and they count. -/
  | warnings
  /-- A version does not pass, or declarations are not met. -/
  | unsatisfied
deriving DecidableEq, Repr

/-- The number of an exit code. -/
def ExitCode.number : ExitCode → Nat
  | success => 0
  | fileError => 1
  | parseError => 2
  | warnings => 3
  | unsatisfied => 4

/-- Why a command fails. -/
inductive Failure where
  /-- A version cannot be read. -/
  | version (error : Version.ReadError)
  /-- A range cannot be read. -/
  | range (error : Predicate.ParseError)
  /-- The bound of a range cannot be derived. -/
  | bound (error : Operator.BoundError)
  /-- A manifest cannot be read. -/
  | manifest (error : Manifest.ReadError)

/-- The text of a failure. -/
def Failure.message : Failure → String
  | version error => error.message
  | range error => error.message
  | bound error => error.message
  | manifest error => error.message

/-- The exit code and the record of a failure that a run ends with in an orderly way. -/
def Failure.handled? : Failure → Option (ExitCode × String)
  | version (.malformed cause) => some (.parseError, s!"Invalid version or range: {cause.message}")
  | range (.malformed expression cause) =>
    let error := Predicate.ParseError.malformed expression cause
    some (.parseError, s!"Invalid version or range: {error.message}")
  | range (.version (.malformed cause)) =>
    some (.parseError, s!"Invalid version or range: {cause.message}")
  | manifest (.invalid fault) => some (.fileError, s!"{fault.message}, aborting")
  | _ => none

/-- The effect of a command: its exit code and the lines that it prints. -/
abbrev Effect := Report Failure (ExitCode × List String)

/-- How many readings of its clock a run counts to the second. -/
def ticksPerSecond : Int := 1000000

/-- An empty cache as the settings want it. -/
def newCache (s : Settings) : Cache :=
  .new (s.cacheLifetime * ticksPerSecond) s.cacheEntries (60 * ticksPerSecond) 0

/-- The version that a text denotes. -/
def readVersion (s : String) : Report Failure Version :=
  (Version.read s).mapError .version

/-- The predicate of a range at a moment, and the cache after it. -/
def readRange (c : Cache) (now : Int) (s : String) : Report Failure (Predicate × Cache) := do
  if (c.get now s).1.isNone then
    Report.tell (Predicate.records s)
  match c.getOrParse now (now + 1) s with
  | (.error e, _) => Report.fail (.range e)
  | (.ok p, c) => return (p, c)

/-- The predicates of ranges, from a moment on. -/
def readRanges (c : Cache) (now : Int) : List String → Report Failure (List Predicate)
  | [] => return []
  | s :: l => do
    let (p, c) ← readRange c now s
    let ps ← readRanges c (now + 2) l
    return p :: ps

/-- The interval of a predicate. -/
def intervalOf (p : Predicate) : Report Failure (Option Interval) := do
  let i ← Report.ofExcept (p.interval.mapError .bound)
  if i.isNone then
    Report.note .debug .predicates s!"Predicate '{p.text}' covers no versions"
  return i

/-- The union of intervals and those of ranges, from a moment on. -/
def addRanges (c : Cache) (now : Int) (known : List Interval) :
    List String → Report Failure (List Interval)
  | [] => return known
  | s :: l => do
    let (p, c) ← readRange c now s
    let i ← intervalOf p
    addRanges c (now + 2) (Interval.unionAll (known ++ i.toList)) l

/-- The complement of intervals. -/
def invert (l : List Interval) : Report Failure (List Interval) := do
  let outside := Interval.complementAll (l.map some)
  if outside.isEmpty && decide (1 < l.length) then
    Report.note .debug .intervals s!"Complement of {l.length} intervals is empty"
  return outside

/-- Tests a version against ranges; it is enough to pass one of them. -/
def runTest (s : Settings) (version : String) (ranges : List String) : Effect := do
  let v ← readVersion version
  let ps ← readRanges (newCache s) 1 ranges
  match ps.find? fun p => p.test v with
  | some p => return (.success, [s!"{v.text} satisfies {p.text}"])
  | none =>
    let all := " || ".intercalate (ps.map Predicate.text)
    return (.unsatisfied, [s!"{v.text} does not satisfy {all}"])

/-- Prints the intervals of ranges, or of what lies outside them. -/
def runInterval (s : Settings) (ranges : List String) (outside : Bool) : Effect := do
  let covered ← addRanges (newCache s) 1 [] ranges
  let l ← if outside then invert covered else pure covered
  return (.success, if l.isEmpty then ["(empty)"] else l.map Interval.text)

/-- Prints how two versions compare. -/
def runCompare (left right : String) : Effect := do
  let a ← readVersion left
  let b ← readVersion right
  let sign := match a.compare b with
    | .lt => "<"
    | .eq => "="
    | .gt => ">"
  return (.success, [s!"{a.text} {sign} {b.text}"])

/-- The report on findings in JSON. -/
def reportDocument (mods : List Mod) (findings : List Finding) : Document :=
  let count (s : Severity) := (findings.filter fun f => f.severity = s).length
  .mapping [(.text "mods", .scalar (.int mods.length)),
    (.text "errors", .scalar (.int (count .error))),
    (.text "warnings", .scalar (.int (count .warning))),
    (.text "findings", .list (findings.map Finding.document))]

/-- The report on findings in lines. -/
def reportLines (mods : List Mod) (findings : List Finding) : List String :=
  let count (s : Severity) := (findings.filter fun f => f.severity = s).length
  (findings.map fun f => s!"[{f.severity.label}] {f.message}") ++
    [s!"{mods.length} mods checked, {count .error} errors, {count .warning} warnings"]

/-- The exit code that findings call for. -/
def verdict (findings : List Finding) (errorOnWarnings : Bool) : ExitCode :=
  if findings.any fun f => f.severity = .error then .unsatisfied
  else if errorOnWarnings && !findings.isEmpty then .warnings
  else .success

/-- Checks a manifest and prints what it finds. -/
def runCheck (s : Settings) (files : Files) (path : String) (json errorOnWarnings : Bool) :
    Effect := do
  let mods ← (Manifest.load files path).mapError .manifest
  let findings := Check.findings mods s.overrides
  let lines := if json then [(reportDocument mods findings).json (.indented 4)]
    else reportLines mods findings
  let code := verdict findings errorOnWarnings
  if code = .warnings then
    Report.note .warning .command "Warnings present, exiting with non-zero status code."
  return (code, lines)

/-- The effect of a request. -/
def execute (s : Settings) (files : Files) (r : Request) : Effect :=
  match r.command with
  | .test => runTest s (r.operand 0) (r.operands.getD 1 [])
  | .interval => runInterval s (r.operands.getD 0 []) r.invert
  | .compare => runCompare (r.operand 0) (r.operand 1)
  | .check => runCheck s files (r.operand 0) r.json r.errorOnWarnings

/-- How a run is broken off. -/
inductive Escape where
  /-- A command failed. -/
  | command (failure : Failure)
  /-- The settings could not be resolved. -/
  | settings (error : Settings.ResolveError)
  /-- The file for the records cannot be opened. -/
  | logFile (refusal : Files.Refusal) (path : String)

/-- The text of what breaks a run off. -/
def Escape.message : Escape → String
  | command failure => failure.message
  | settings error => error.message
  | logFile refusal path => refusal.message path

/-- The end of a run. -/
inductive Ending where
  /-- It ends with a code. -/
  | exit (code : ExitCode)
  /-- It ends with help. -/
  | help
  /-- The command line is wrong. -/
  | usage (program : String) (error : UsageError)
  /-- It is broken off. -/
  | escape (cause : Escape)

/-- What a run leaves behind. -/
structure Outcome where
  /-- How it ends. -/
  ending : Ending
  /-- The lines on the output. -/
  output : List String
  /-- The lines on the console. -/
  console : List String
  /-- The file for the records and the records in it, if one was opened. -/
  logFile : Option (String × List Log.Record)

/-- The line for a wrong command line. -/
def usageLine (program : String) (error : UsageError) : String :=
  s!"{program}: error: {error.message}"

/-- The full path of a file from a working directory. -/
def fullPath (directory path : String) : String :=
  if Files.isRooted path then path
  else "/".intercalate (directory :: (Files.steps path).map String.ofList)

/-- Why no file can be opened for writing at a path, if so. -/
def refusal? (files : Files) (path : String) : Option Files.Refusal :=
  let way := Files.steps path
  match files.at? way, files.at? way.dropLast with
  | some .directory, _ => some .directory
  | some _, _ => none
  | none, some .directory => none
  | none, some _ => some .notDirectory
  | none, none => some .missing

/-- The records of a run with its settings: those before and after the command, and those of the
command and of its failure between them. -/
def requestRecords (effect : Effect) : List Log.Record :=
  let finish : List Log.Record :=
    match effect.result with
    | .ok _ => [⟨.debug, .command, "CLI finished"⟩]
    | .error e => (e.handled?.map fun h => Log.Record.mk .error .command h.2).toList
  ⟨.debug, .command, "CLI start"⟩ :: effect.records ++ finish

/-- What a run leaves behind once the settings are resolved and the file for the records, if there
is one, is open. `before` is what is already on the console. -/
def finishRun (before : List String) (env : Environment) (files : Files) (s : Settings)
    (r : Request) : Outcome :=
  let effect := execute s files r
  let console := Log.Console.bare.configure env (some s.logLevel)
  let logFile := r.logFile.bind Settings.nonempty
  let opening := logFile.map fun path =>
    Log.Record.mk .info .command s!"Logging to file: {path}"
  let records := (opening.toList ++ requestRecords effect).filter fun r => console.shows r.level
  let (ending, output) := match effect.result with
    | .ok (code, lines) => (Ending.exit code, if r.quiet then [] else lines)
    | .error e =>
      match e.handled? with
      | some h => (.exit h.1, [])
      | none => (.escape (.command e), [])
  ⟨ending, output, before ++ records.map console.line, logFile.map fun path => (path, records)⟩

/-- What the run of a request leaves behind. -/
def runRequest (directory : String) (env : Environment) (files : Files) (r : Request) : Outcome :=
  let settings := Settings.resolve r.settings env files
  let before := Log.Console.bare.lines settings.records
  match settings.result with
  | .error .infinite => ⟨.escape (.settings .infinite), [], before, none⟩
  | .error e =>
    let console := Log.Console.bare.configure env none
    let records : List Log.Record :=
      [⟨.error, .command, s!"Invalid version replacement: {e.message}"⟩]
    ⟨.exit .parseError, [], before ++ console.lines records, none⟩
  | .ok s =>
    match (r.logFile.bind Settings.nonempty).bind fun path =>
        (refusal? files path).map fun refusal => (refusal, fullPath directory path) with
    | some (refusal, path) => ⟨.escape (.logFile refusal path), [], before, none⟩
    | none => finishRun before env files s r

/-- What the run of a command line leaves behind. The directory is where the files are. -/
def run (directory : String) (words : List String) (env : Environment) (files : Files) : Outcome :=
  match readRequest words with
  | .ok r => runRequest directory env files r
  | .error .help => ⟨.help, [], [], none⟩
  | .error (.usage program error) =>
    ⟨.usage program error, [], [usageLine program error], none⟩

end Semrange.CommandLine
