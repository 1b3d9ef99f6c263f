import Semrange.CommandLine.Run
import Semrange.Document.Reader

/-!
# The program

The outer layer of the program: it looks up the files and variables that a command line may need,
leaves the run to `CommandLine.run`, and writes what the run leaves behind. Files are read as JSON.
-/

namespace Semrange.Main

/-- What stands at a path. -/
def contentAt (path : String) : IO (Option Content) := do
  try
    let bytes ← IO.FS.readBinFile path
    match String.fromUTF8? bytes with
    | none => return some (.undecodable "the file is not valid UTF-8")
    | some s =>
      if s.toList.all Text.isBlank then return some (.document Document.null)
      match Document.read? s with
      | some d => return some (.document d)
      | none => return some (.malformed "the file is not valid JSON")
  catch
    | .inappropriateType .. => return some .directory
    | _ => return none

/-- What stands at the paths at which something stands. -/
def filesAt (paths : List String) : IO Files := do
  let entries ← paths.mapM fun path => do
    return (← contentAt path).map fun c => (path, c)
  return ⟨entries.filterMap id⟩

/-- The variables of the environment that matter. -/
def environment : IO Environment := do
  let names := [Log.levelVariable, Settings.configVariable, Settings.replacementsVariable]
  let entries ← names.mapM fun name => do
    return (← IO.getEnv name).map fun value => (name, value)
  return entries.filterMap id

/-- The directory in which a path lies. -/
def parentOf (path : String) : String :=
  "/".intercalate ((Files.steps path).dropLast.map String.ofList)

/-- The paths that a run of a command line may look at. -/
def pathsOf (words : List String) (env : Environment) : List String :=
  let asked := match CommandLine.readRequest words with
    | .ok r =>
      r.settings.config.toList ++ (r.logFile.map parentOf).toList ++ r.logFile.toList ++
        if r.command = .check then [r.operand 0] else []
    | .error _ => []
  Settings.defaultConfigPath :: (env.lookup Settings.configVariable).toList ++ asked

/-- Writes what a run leaves behind, and gives the code that it ends with. -/
def finish (o : CommandLine.Outcome) : IO UInt32 := do
  for line in o.output do IO.println line
  for line in o.console do IO.eprintln line
  if let some (path, records) := o.logFile then
    IO.FS.withFile path .append fun file => do
      for r in records do file.putStrLn (Log.fileLine r)
  match o.ending with
  | .exit code => return code.number.toUInt32
  | .help =>
    let commands := ", ".intercalate (CommandLine.Command.all.map CommandLine.Command.name)
    IO.println s!"usage: {CommandLine.programName} COMMAND, where COMMAND is one of {commands}"
    return 0
  | .usage _ _ => return 2
  | .escape cause =>
    IO.eprintln cause.message
    return 1

end Semrange.Main

/-- Runs the program. -/
def main (words : List String) : IO UInt32 := do
  let env ← Semrange.Main.environment
  let files ← Semrange.Main.filesAt (Semrange.Main.pathsOf words env)
  let directory := (← IO.currentDir).toString
  Semrange.Main.finish (Semrange.CommandLine.run directory words env files)
