import Semrange.Files
import Semrange.Log.Console
import Semrange.Overrides

/-!
# Settings

Settings come from the arguments, the environment and a configuration file, and what comes first in
this list counts more. Overrides are merged id by id, a level is taken as a whole. A configuration
file that cannot be used counts as empty unless it has a defect; values in it that make no sense are
passed over with a warning.
-/

namespace Semrange

/-- The settings that are in force. -/
structure Settings where
  /-- The name of the level from which on records are shown. -/
  logLevel : String
  /-- How long a predicate is cached, in seconds. -/
  cacheLifetime : Int
  /-- How many predicates are cached. -/
  cacheEntries : Int
  /-- The replacement versions. -/
  overrides : Overrides
  /-- Where the configuration file is. -/
  configPath : Option String
deriving DecidableEq, Repr

namespace Settings

/-- What the arguments say about settings. -/
structure Arguments where
  /-- Where the configuration file is. -/
  config : Option String
  /-- The name of a level. -/
  logLevel : Option String
  /-- Replacement versions. -/
  replacements : Option String
deriving DecidableEq, Repr

/-- The name under which a configuration file is looked for. -/
def defaultConfigPath : String := "modversion.yml"

/-- Where the environment says where the configuration file is. -/
def configVariable : String := "MODVERSION_CONFIG"

/-- Where the environment holds replacement versions. -/
def replacementsVariable : String := "MODVERSION_REPLACE_VERSION"

/-- The names of levels that may be set. -/
def levelNames : List String :=
  ["DEBUG", "INFO", "WARNING", "ERROR", "CRITICAL"]

/-- How long a predicate is cached unless it is set. -/
def defaultCacheLifetime : Int := 3600

/-- How many predicates are cached unless it is set. -/
def defaultCacheEntries : Int := 10000

/-- Why settings could not be resolved. -/
inductive ResolveError where
  /-- Overrides could not be read. -/
  | overrides (error : Overrides.ReadError)
  /-- The configuration file has a defect. -/
  | file (defect : Files.Defect)
  /-- A number in the configuration file is infinite. -/
  | infinite

/-- The text of an error. -/
def ResolveError.message : ResolveError → String
  | .overrides error => error.message
  | .file defect => defect.message
  | .infinite => "cannot convert float infinity to integer"

/-- A text that is not empty. -/
def nonempty (s : String) : Option String :=
  if s = "" then none else some s

/-- Makes a warning. -/
def warn (text : String) : Report ResolveError Unit :=
  Report.note .warning .settings text

/-- The configuration file to be used, if there is one. -/
def findConfig (args : Arguments) (env : Environment) (files : Files) : Option String :=
  (args.config.bind nonempty).or (((env.lookup configVariable).bind nonempty).or
    (if files.isFile defaultConfigPath then some defaultConfigPath else none))

/-- The entries of a configuration document. -/
def configEntries (path : String) (d : Document) : Report ResolveError Document :=
  match d with
  | .mapping _ => return d
  | d => do
    if d.isGiven then
      warn s!"Ignoring config file {path}: top level must be a mapping"
    return .mapping []

/-- The configuration at a path, as a mapping. -/
def loadConfig (files : Files) (path : Option String) : Report ResolveError Document :=
  match path.bind nonempty with
  | none => return .mapping []
  | some path =>
    match files.read path with
    | .ok d => configEntries path d
    | .error (.defect d) => Report.fail (.file d)
    | .error (.refused .missing) => do
      warn s!"Config file not found: {path}"
      return .mapping []
    | .error (.refused r) => do
      warn s!"Failed to load config file {path}: {r.message path}"
      return .mapping []
    | .error (.malformed reason) => do
      warn s!"Failed to load config file {path}: {reason}"
      return .mapping []

/-- The integer that a document stands for: a number without its fraction, a truth value as zero or
one, or the integer that a text denotes. -/
def integer? : Document → Except ResolveError (Option Int)
  | .scalar (.float x) =>
    match x with
    | .infinite _ => .error .infinite
    | x => .ok x.truncate?
  | .scalar (.text s) => .ok (Numeral.readInteger? s)
  | .scalar k => .ok k.integer?
  | _ => .ok none

/-- The integer under a key of the configuration. -/
def readInteger (config : Document) (key : String) (default : Int) : Report ResolveError Int := do
  match config.find? key with
  | none => return default
  | some d =>
    match ← Report.ofExcept (integer? d) with
    | some n => return n
    | none =>
      warn s!"Invalid value for {key}: {d.literal}, using {default}"
      return default

/-- The entries of the overrides of the configuration at a path. -/
def overridePairs (path : Option String) (d : Document) :
    Report ResolveError (List (Scalar × Document)) := do
  match d with
  | .mapping l => return l
  | d =>
    if d.isGiven then
      let place := path.getD "None"
      warn s!"Ignoring 'overrides' in {place}: expected a mapping"
    return []

/-- The overrides with those that a text denotes, if there is one. -/
def mergeText (o : Overrides) (s : Option String) : Except ResolveError Overrides :=
  match s.bind nonempty with
  | none => .ok o
  | some s =>
    match Overrides.ofText s with
    | .ok p => .ok (o.mergedWith p)
    | .error e => .error (.overrides e)

/-- The first level that is given, in upper case; the default one if none is. -/
def chooseLevel (args : Arguments) (env : Environment) (config : Document) : String :=
  let configured := if (config.get "log_level").isGiven then some (config.get "log_level").plain
    else none
  let chosen := (args.logLevel.bind nonempty).or
    (((env.lookup Log.levelVariable).bind nonempty).or configured)
  (chosen.map Text.upper).getD Log.defaultLevelName

/-- A name of a level that may be set. -/
def checkLevel (name : String) : Report ResolveError String :=
  if name ∈ levelNames then return name
  else do
    warn s!"Unknown log level {name}, using {Log.defaultLevelName}"
    return Log.defaultLevelName

/-- The settings in force under the arguments, in the environment and beside the files. -/
def resolve (args : Arguments) (env : Environment) (files : Files) :
    Report ResolveError Settings := do
  let path := findConfig args env files
  let config ← loadConfig files path
  let lifetime ← readInteger config "cache_ttl" defaultCacheLifetime
  let entries ← readInteger config "cache_max_entries" defaultCacheEntries
  let pairs ← overridePairs path (config.get "overrides")
  let configured ← Report.ofExcept ((Overrides.ofPairs pairs).mapError .overrides)
  let inherited ← Report.ofExcept (mergeText configured (env.lookup replacementsVariable))
  let overrides ← Report.ofExcept (mergeText inherited args.replacements)
  let level ← checkLevel (chooseLevel args env config)
  if !overrides.entries.isEmpty then
    Report.note .debug .settings
      ("Version replacements active for: " ++ ", ".intercalate overrides.ids)
  return ⟨level, lifetime, entries, overrides, path⟩

end Settings

end Semrange
