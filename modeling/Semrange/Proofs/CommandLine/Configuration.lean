import Mathlib.Tactic.SplitIfs
import Semrange.CommandLine.Run
import Semrange.Proofs.Log.Reports

/-!
# Configuration files that cannot be used

A configuration file that holds no mapping, and has no defect, is loaded as an empty mapping. From
then on nothing depends on the file but the path that is kept in the settings: what is resolved is
what arguments and environment say beside the defaults (`result_resolve_of_empty`), as it is when no
configuration file is named and none is there.

A defect of the file is not passed over. It is the error of loading and of resolving, and a run is
told that a replacement is invalid.
-/

namespace Semrange

namespace Settings

/-! ## The environment without a variable -/

/-- A variable is found among those whose names pass a test just when its name passes. -/
theorem lookup_filter (test : String → Bool) (name : String) (env : Environment) :
    (env.filter fun e => test e.1).lookup name = if test name then env.lookup name else none := by
  induction env with
  | nil => simp
  | cons e env ih =>
    rcases e with ⟨key, value⟩
    -- A variable of the name is found first or is taken away; any other one is passed over.
    by_cases hname : name = key
    · subst hname
      cases htest : test name <;> simp [htest, ih]
    · have hkey : (name == key) = false := beq_eq_false_iff_ne.mpr hname
      cases htest : test key <;> simp [htest, hkey, ih, List.lookup_cons]

/-- The environment without the variable that names a configuration file. -/
def withoutConfig (env : Environment) : Environment :=
  env.filter fun e => e.1 != configVariable

/-- No configuration file is named in an environment without the variable for it. -/
theorem lookup_configVariable_withoutConfig (env : Environment) :
    (withoutConfig env).lookup configVariable = none :=
  (lookup_filter (· != configVariable) configVariable env).trans (if_neg (by decide))

/-- Other variables are not changed when the one for the configuration file is taken away. -/
theorem lookup_withoutConfig {name : String} (h : name ≠ configVariable) (env : Environment) :
    (withoutConfig env).lookup name = env.lookup name :=
  (lookup_filter (· != configVariable) name env).trans (if_pos (bne_iff_ne.mpr h))

/-- No configuration file is found where none is named and none is there. -/
theorem findConfig_withoutConfig (args : Arguments) (env : Environment) {files : Files}
    (h : files.isFile defaultConfigPath = false) :
    findConfig { args with config := none } (withoutConfig env) files = none := by
  simp [findConfig, lookup_configVariable_withoutConfig, h]

/-! ## Loading -/

/-- A defect of the configuration file is the error of loading it. -/
theorem result_loadConfig_of_defect {files : Files} {path : String} {defect : Files.Defect}
    (h : files.read path = .error (.defect defect)) :
    (loadConfig files (some path)).result = .error (.file defect) := by
  have hpath : path ≠ "" := by
    rintro rfl
    -- There is nothing at the empty path, which is no defect.
    have hmissing : files.read "" = .error (.refused .missing) := rfl
    cases hmissing.symm.trans h
  have hsome : (some path).bind nonempty = some path := if_neg hpath
  simp only [loadConfig, hsome, h, Report.result_fail]

/-- A configuration file without a defect that holds no mapping is loaded as an empty one. -/
theorem result_loadConfig_of_not_mapping {files : Files} {path : String}
    (hdefect : ∀ defect, files.read path ≠ .error (.defect defect))
    (hmapping : ∀ l, files.read path ≠ .ok (.mapping l)) :
    (loadConfig files (some path)).result = .ok (.mapping []) := by
  unfold loadConfig
  split
  · rfl
  · next path' hpath =>
    -- Only an empty path would be passed over.
    obtain rfl : path' = path := by
      rw [Option.bind_some, nonempty] at hpath
      split_ifs at hpath
      exact (Option.some.inj hpath).symm
    split
    · next d hread =>
      unfold configEntries
      split
      · next l => exact absurd hread (hmapping l)
      · exact Report.result_when _ (Report.result_note _ _ _) _
    · next defect hread => exact absurd hread (hdefect defect)
    -- What the system refuses and what has not the form of a document count as empty.
    all_goals rfl

/-! ## Resolving -/

/-- A level that may be set, and else the default one. -/
def checkedLevel (name : String) : String :=
  if name ∈ levelNames then name else Log.defaultLevelName

/-- A level is checked and found to be one that may be set, or else the default one is taken. -/
theorem result_checkLevel (name : String) :
    (checkLevel name).result = .ok (checkedLevel name) := by
  unfold checkLevel checkedLevel
  split_ifs <;> rfl

/-- The overrides that the environment and the arguments give. -/
def overridesOf (args : Arguments) (env : Environment) : Except ResolveError Overrides :=
  (mergeText .empty (env.lookup replacementsVariable)).bind fun o => mergeText o args.replacements

/-- The entries of the overrides of a configuration are those of a mapping; anything else has
none. -/
theorem result_overridePairs (path : Option String) (d : Document) :
    (overridePairs path d).result = .ok d.entries := by
  cases d with
  | mapping l => rfl
  | scalar k => exact Report.result_when _ (Report.result_note _ _ _) _
  | list items => exact Report.result_when _ (Report.result_note _ _ _) _

/-- The overrides that a configuration, the environment and the arguments give. -/
def mergedOverrides (args : Arguments) (env : Environment) (config : Document) :
    Except ResolveError Overrides :=
  ((Overrides.ofPairs (config.get "overrides").entries).mapError .overrides).bind fun o =>
    (mergeText o (env.lookup replacementsVariable)).bind fun o => mergeText o args.replacements

/-- What is resolved with a configuration are the numbers in it, beside overrides and a level to
which environment and arguments have something to say too. -/
theorem result_resolve {args : Arguments} {env : Environment} {files : Files} {config : Document}
    (h : (loadConfig files (findConfig args env files)).result = .ok config) :
    (resolve args env files).result =
      (readInteger config "cache_ttl" defaultCacheLifetime).result.bind fun lifetime =>
      (readInteger config "cache_max_entries" defaultCacheEntries).result.bind fun entries =>
      (mergedOverrides args env config).map fun o =>
        ⟨checkedLevel (chooseLevel args env config), lifetime, entries, o,
          findConfig args env files⟩ := by
  have hnote : ∀ (p : Prop) [Decidable p] (text : String) (s : Settings),
      (if p then (do Report.note .debug .settings text; return s) else return s :
        Report ResolveError Settings).result = .ok s :=
    fun p _ text s => Report.result_when p (Report.result_note _ _ text) fun _ => pure s
  simp only [resolve, mergedOverrides, Report.result_bind, h, Except.bind, result_overridePairs,
    Report.result_ofExcept, result_checkLevel, hnote]
  -- The three sources of overrides are read in turn, and the first error is the one that counts.
  cases (Overrides.ofPairs (config.get "overrides").entries).mapError ResolveError.overrides with
  | error e => rfl
  | ok configured =>
    dsimp only
    cases mergeText configured (env.lookup replacementsVariable) with
    | error e => rfl
    | ok inherited => cases mergeText inherited args.replacements <;> rfl

/-- Where the configuration is empty, what is resolved is what arguments and environment say beside
the defaults. -/
theorem result_resolve_of_empty {args : Arguments} {env : Environment} {files : Files}
    (h : (loadConfig files (findConfig args env files)).result = .ok (.mapping [])) :
    (resolve args env files).result = (overridesOf args env).map fun o =>
      ⟨checkedLevel (chooseLevel args env (.mapping [])), defaultCacheLifetime,
        defaultCacheEntries, o, findConfig args env files⟩ := by
  -- No number is read from an empty configuration, and no overrides are.
  have hempty : mergedOverrides args env (.mapping []) = overridesOf args env := rfl
  rw [result_resolve h, hempty]
  rfl

/-- An empty configuration has nothing to say to what is resolved: it is what is resolved where no
configuration file is named and none is there, but for the path. -/
theorem result_resolve_eq_withoutConfig {args : Arguments} {env : Environment} {files : Files}
    (h : (loadConfig files (findConfig args env files)).result = .ok (.mapping []))
    {bare : Files} (hbare : bare.isFile defaultConfigPath = false) :
    (resolve args env files).result =
      (resolve { args with config := none } (withoutConfig env) bare).result.map
        fun s => { s with configPath := findConfig args env files } := by
  have hnone := findConfig_withoutConfig args env hbare
  have hempty : (loadConfig bare
      (findConfig { args with config := none } (withoutConfig env) bare)).result =
        .ok (.mapping []) := by
    rw [hnone]
    rfl
  -- The variables that still count are the same ones.
  have hoverrides : overridesOf { args with config := none } (withoutConfig env) =
      overridesOf args env := by
    unfold overridesOf
    rw [lookup_withoutConfig (by decide)]
  have hlevel : chooseLevel { args with config := none } (withoutConfig env) (.mapping []) =
      chooseLevel args env (.mapping []) := by
    unfold chooseLevel
    rw [lookup_withoutConfig (by decide)]
  rw [result_resolve_of_empty h, result_resolve_of_empty hempty, hoverrides, hlevel]
  cases overridesOf args env <;> rfl

end Settings

namespace CommandLine

open Settings (Arguments defaultConfigPath findConfig loadConfig resolve withoutConfig)

/-- A run whose configuration file has a defect is told that a replacement is invalid. -/
theorem ending_run_of_file {words : List String} {r : Request} (hread : readRequest words = .ok r)
    {env : Environment} {files : Files} {defect : Files.Defect}
    (h : (resolve r.settings env files).result = .error (.file defect)) (directory : String) :
    (run directory words env files).ending = .exit .parseError := by
  simp only [run, hread, runRequest, h]

/-- A configuration file that holds no mapping and has no defect is loaded as an empty mapping, and
what is resolved with it is what is resolved where no configuration file is named and none is there,
but for the path; an error with overrides is the same error. A defect of the file is the error of
loading it and of resolving, and every run with it ends with the code for what cannot be read. -/
theorem unusable_config_ignored_or_fatal {files : Files} {path : String}
    (hmapping : ∀ l, files.read path ≠ .ok (.mapping l)) :
    ((∀ defect, files.read path ≠ .error (.defect defect)) →
      (loadConfig files (some path)).result = .ok (.mapping []) ∧
        ∀ args env, findConfig args env files = some path →
          ∀ bare : Files, bare.isFile defaultConfigPath = false →
            (resolve args env files).result =
              (resolve { args with config := none } (withoutConfig env) bare).result.map
                fun s => { s with configPath := some path }) ∧
      ∀ defect, files.read path = .error (.defect defect) →
        (loadConfig files (some path)).result = .error (.file defect) ∧
          ∀ args env, findConfig args env files = some path →
            (resolve args env files).result = .error (.file defect) ∧
              ∀ directory words r, readRequest words = .ok r → r.settings = args →
                (run directory words env files).ending = .exit .parseError := by
  constructor
  · intro hdefect
    have hload := Settings.result_loadConfig_of_not_mapping hdefect hmapping
    refine ⟨hload, fun args env hfound bare hbare => ?_⟩
    rw [← hfound] at hload ⊢
    exact Settings.result_resolve_eq_withoutConfig hload hbare
  · intro defect hdefect
    have hload := Settings.result_loadConfig_of_defect hdefect
    refine ⟨hload, fun args env hfound => ?_⟩
    have hresolve : (resolve args env files).result = .error (.file defect) := by
      rw [resolve, Report.result_bind, hfound, hload]
      rfl
    refine ⟨hresolve, fun directory words r hread hargs => ?_⟩
    subst hargs
    exact ending_run_of_file hread hresolve directory

/-- A configuration file that holds a list, and one that is no text. -/
theorem unusable_config_ignored_or_fatal_files :
    let list : Files := ⟨[("c.yml", .document (.list [.text "log_level"]))]⟩
    let bytes : Files := ⟨[("modversion.yml", .undecodable "invalid start byte")]⟩
    let args : Arguments := ⟨some "c.yml", some "debug", some "a:1.0"⟩
    (∀ l, list.read "c.yml" ≠ .ok (.mapping l)) ∧
      (∀ defect, list.read "c.yml" ≠ .error (.defect defect)) ∧
      (loadConfig list (some "c.yml")).result = .ok (.mapping []) ∧
      findConfig args [] list = some "c.yml" ∧
      (resolve args [] list).result =
        (resolve { args with config := none } [] ⟨[]⟩).result.map
          (fun s => { s with configPath := some "c.yml" }) ∧
      (∀ l, bytes.read "modversion.yml" ≠ .ok (.mapping l)) ∧
      findConfig ⟨none, none, none⟩ [] bytes = some "modversion.yml" ∧
      (resolve ⟨none, none, none⟩ [] bytes).result =
        .error (.file (.undecodable "invalid start byte")) := by
  intro list bytes args
  have hlist : list.read "c.yml" = .ok (.list [.text "log_level"]) := rfl
  have hbytes : bytes.read "modversion.yml" =
      .error (.defect (.undecodable "invalid start byte")) := rfl
  -- What is read is a list, and neither a mapping nor a defect.
  have hmapping : ∀ l, list.read "c.yml" ≠ .ok (.mapping l) := by
    intro l h
    cases hlist.symm.trans h
  have hdefect : ∀ defect, list.read "c.yml" ≠ .error (.defect defect) := by
    intro defect h
    cases hlist.symm.trans h
  have hmapping' : ∀ l, bytes.read "modversion.yml" ≠ .ok (.mapping l) := by
    intro l h
    cases hbytes.symm.trans h
  have hnamed : findConfig args [] list = some "c.yml" := by decide +kernel
  have hfound : findConfig ⟨none, none, none⟩ [] bytes = some "modversion.yml" := by
    decide +kernel
  obtain ⟨hload, hresolve⟩ := (unusable_config_ignored_or_fatal hmapping).1 hdefect
  obtain ⟨-, hfails⟩ := (unusable_config_ignored_or_fatal hmapping').2 _ hbytes
  exact ⟨hmapping, hdefect, hload, hnamed, hresolve args [] hnamed ⟨[]⟩ (by decide +kernel),
    hmapping', hfound, (hfails _ [] hfound).1⟩

/-- A configuration file that has not the form of a document is passed over, and a comparison ends
well; beside one that is no text the same comparison ends as if a replacement were invalid. -/
theorem command_fails_beside_undecodable_config :
    let malformed : Files := ⟨[("modversion.yml", .malformed "no document")]⟩
    let bytes : Files := ⟨[("modversion.yml", .undecodable "invalid start byte")]⟩
    (run "/" ["compare", "1.0", "2.0"] [] malformed).ending = .exit .success ∧
      (loadConfig bytes (some "modversion.yml")).result =
        .error (.file (.undecodable "invalid start byte")) ∧
      (run "/" ["compare", "1.0", "2.0"] [] bytes).ending = .exit .parseError :=
  ⟨rfl, rfl, rfl⟩

end CommandLine

end Semrange
