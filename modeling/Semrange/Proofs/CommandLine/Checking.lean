import Semrange.CommandLine.Run
import Semrange.Proofs.Manifest.Failures

/-!
# How checking a manifest ends

Under settings that are resolved, and without a file for records, a run ends with the code of its
command or with that of the failure, or it is broken off by the failure (`ending_run`). A command
line that asks for a manifest to be checked runs one command, which loads the manifest and reports
on it. So the run ends with a code where the manifest is read or invalid. What is left is a defect
of the file and a numeral in it that is too long; these break the run off (`check_ends`).
-/

namespace Semrange.CommandLine

/-! ## The end of a run -/

/-- The end that the result of a command calls for. -/
def endingOf (result : Except Failure (ExitCode × List String)) : Ending :=
  match result with
  | .ok (code, _) => .exit code
  | .error e =>
    match e.handled? with
    | some h => .exit h.1
    | none => .escape (.command e)

/-- Once the settings are resolved, a run ends as its command calls for. -/
theorem ending_finishRun (before : List String) (env : Environment) (files : Files) (s : Settings)
    (r : Request) :
    (finishRun before env files s r).ending = endingOf (execute s files r).result := by
  unfold finishRun endingOf
  dsimp only
  generalize (execute s files r).result = result
  rcases result with e | ⟨code, lines⟩
  · dsimp only
    cases e.handled? <;> rfl
  · rfl

/-- A run of a request whose settings can be resolved, and that names no file for records, ends as
its command calls for. -/
theorem ending_run {words : List String} {r : Request} (hread : readRequest words = .ok r)
    (hlog : r.logFile.bind Settings.nonempty = none) {env : Environment} {files : Files}
    {s : Settings} (hsettings : (Settings.resolve r.settings env files).result = .ok s)
    (directory : String) :
    (run directory words env files).ending = endingOf (execute s files r).result := by
  have hrun : run directory words env files = finishRun
      (Log.Console.bare.lines (Settings.resolve r.settings env files).records) env files s r := by
    simp only [run, hread, runRequest, hsettings, hlog, Option.bind_none]
  rw [hrun, ending_finishRun]

/-! ## The command line -/

/-- A word that does not start with a hyphen is an operand. -/
theorem tagWord_operand (table : List (List Char × Switch)) {word : List Char}
    (h : word.head? ≠ some '-') : tagWord table word = .ok .operand := by
  unfold tagWord
  split
  · exact absurd rfl h
  · rfl

section

variable {path : String} (h : path.toList.head? ≠ some '-')
include h

/-- A path that does not start with a hyphen is not the separator. -/
theorem ne_separator : path ≠ "--" := by
  rintro rfl
  exact h rfl

/-- A path that does not start with a hyphen is what the command that checks manifests is to
check. -/
theorem read_check : Command.check.read [path] =
    .ok ({ Request.ofCommand .check with operands := [[path]] }, []) := by
  -- There is one word, and it is an operand, which fills the one slot.
  have htags : tagWords (nameTable Command.check.grammar.switches) [path] =
      .ok [⟨path, .operand⟩] := by
    simp only [tagWords, if_neg (ne_separator h), tagWord_operand _ h]
  have hwords : readWords (nameTable Command.check.grammar.switches) Command.check.grammar.slots 0
      [⟨path, .operand⟩] = ⟨[.fill ⟨"MANIFEST", .one⟩ ([path].erase "--")], .ok []⟩ := rfl
  have hvalues : [path].erase "--" = [path] :=
    List.erase_of_not_mem (by simpa using (ne_separator h).symm)
  simp only [Command.read, Grammar.read, htags, Except.map, hwords, hvalues]
  rfl

/-- The name of the command and a path that does not start with a hyphen ask for the manifest at the
path to be checked. -/
theorem readRequest_check : readRequest ["check", path] =
    .ok { Request.ofCommand .check with operands := [[path]] } := by
  have htags : tagWords (nameTable grammar.switches) ["check", path] =
      .ok [⟨"check", .operand⟩, ⟨path, .operand⟩] := by
    have hcheck : tagWord (nameTable grammar.switches) "check".toList = .ok .operand :=
      tagWord_operand _ (by decide)
    simp only [tagWords, if_neg (ne_separator h), tagWord_operand _ h, hcheck]
    rfl
  have hwords : readWords (nameTable grammar.switches) grammar.slots 0
      [⟨"check", .operand⟩, ⟨path, .operand⟩] =
        ⟨[.fill commandSlot ["check", path]], .ok []⟩ := rfl
  have hname : Command.ofName? "check" = some .check := by decide
  simp only [readRequest, Grammar.read, htags, Except.map, hwords, readCommand, hname, read_check h]
  rfl

end

/-! ## Checking -/

/-- A check ends with the verdict on the mods that are loaded, or fails as loading them does. -/
theorem result_runCheck (s : Settings) (files : Files) (path : String)
    (json errorOnWarnings : Bool) :
    (runCheck s files path json errorOnWarnings).result =
      ((Manifest.load files path).result.mapError .manifest).map fun mods =>
        let findings := Check.findings mods s.overrides
        (verdict findings errorOnWarnings,
          if json then [(reportDocument mods findings).json (.indented 4)]
          else reportLines mods findings) := by
  unfold runCheck
  rw [Report.result_bind, Report.result_mapError]
  cases (Manifest.load files path).result with
  | error e => rfl
  | ok mods => exact Report.result_when _ (Report.result_note _ _ _) _

/-- The verdict on findings is that all is well, that there are warnings, or that something is not
met. -/
theorem verdict_mem (findings : List Finding) (errorOnWarnings : Bool) :
    verdict findings errorOnWarnings ∈ [ExitCode.success, .warnings, .unsatisfied] := by
  unfold verdict
  split_ifs <;> decide

/-- A check of a manifest that is loaded ends with the verdict, and one of a manifest that is
invalid with the code for that; what else keeps the manifest from being loaded breaks it off. -/
theorem endingOf_runCheck (s : Settings) (files : Files) (path : String)
    (json errorOnWarnings : Bool) :
    endingOf (runCheck s files path json errorOnWarnings).result =
      match (Manifest.load files path).result with
      | .ok mods => .exit (verdict (Check.findings mods s.overrides) errorOnWarnings)
      | .error (.invalid _) => .exit .fileError
      | .error e => .escape (.command (.manifest e)) := by
  rw [result_runCheck]
  rcases (Manifest.load files path).result with (fault | e | defect) | mods <;> rfl

/-- A run that checks a manifest is broken off by a defect of the file. Without one it ends with the
code for files where the file cannot be opened, has not the form of a document or lists no mods.
Where it lists mods the run ends with the code for files or with a verdict, or it is broken off by a
numeral in the text of a version or of a range that is too long. -/
theorem check_ends {words : List String} {r : Request} (hread : readRequest words = .ok r)
    (hcommand : r.command = .check) (hlog : r.logFile.bind Settings.nonempty = none)
    {env : Environment} {files : Files} {s : Settings}
    (hsettings : (Settings.resolve r.settings env files).result = .ok s) (directory : String) :
    let path := r.operand 0
    let ending := (run directory words env files).ending
    (∀ defect, files.read path = .error (.defect defect) →
        ending = .escape (.command (.manifest (.file defect)))) ∧
      ((∀ defect, files.read path ≠ .error (.defect defect)) →
        (∀ items, ¬Manifest.Lists files path items) → ending = .exit .fileError) ∧
      ∀ items, Manifest.Lists files path items →
        (∃ code ∈ [ExitCode.success, .fileError, .warnings, .unsatisfied],
          ending = .exit code) ∨
        ∃ digits, (∃ entry ∈ items, Manifest.HoldsOverlong entry digits) ∧
          ending = .escape (.command (.manifest (.version (.numeral (.tooLong digits))))) := by
  intro path ending
  have hexecute : execute s files r = runCheck s files path r.json r.errorOnWarnings := by
    rw [execute, hcommand]
  have hending : ending = endingOf (runCheck s files path r.json r.errorOnWarnings).result := by
    rw [← hexecute]
    exact ending_run hread hlog hsettings directory
  rw [endingOf_runCheck] at hending
  refine ⟨?_, ?_, ?_⟩
  · intro defect hdefect
    rw [hending, Manifest.result_load_of_defect hdefect]
  · intro hdefect hmods
    obtain ⟨fault, hload⟩ := Manifest.result_load_of_not_lists hdefect hmods
    rw [hending, hload]
  · intro items hitems
    rw [hending, Manifest.result_load_of_lists hitems]
    -- The mods are read, or reading them fails as is foreseen.
    cases hresult : (Manifest.readMods items).result with
    | ok mods =>
      have hcodes : [ExitCode.success, .warnings, .unsatisfied] ⊆
          [.success, .fileError, .warnings, .unsatisfied] := by decide
      exact Or.inl ⟨_, hcodes (verdict_mem _ _), rfl⟩
    | error e =>
      cases Manifest.failsOnly_readMods items e hresult with
      | invalid fault => exact Or.inl ⟨.fileError, by decide, rfl⟩
      | @numeral digits hlong => exact Or.inr ⟨digits, hlong, rfl⟩

/-- A file that lists a mod, one that is no text, and none. -/
theorem check_ends_files :
    let files : Files := ⟨[
      ("m.yml", .document (.mapping [(.text "mods", .list [.mapping [(.text "id", .text "a"),
        (.text "version", .text "1.0"),
        (.text "breaks", .mapping [(.text "b", .list [.text "<1.x", .text "x"])])]])])),
      ("n.yml", .undecodable "invalid start byte")]⟩
    let request (path : String) : Request :=
      { Request.ofCommand .check with operands := [[path]] }
    let s : Settings := ⟨"INFO", 3600, 10000, ⟨[]⟩, none⟩
    let ending (path : String) := (run "/" ["check", path] [] files).ending
    (∀ path ∈ ["m.yml", "n.yml", "o.yml"], readRequest ["check", path] = .ok (request path)) ∧
      (Settings.resolve ⟨none, none, none⟩ [] files).result = .ok s ∧
      (∃ items, Manifest.Lists files "m.yml" items ∧
        ∃ code ∈ [ExitCode.success, .fileError, .warnings, .unsatisfied],
          ending "m.yml" = .exit code) ∧
      ending "n.yml" = .escape (.command (.manifest (.file (.undecodable "invalid start byte")))) ∧
      ending "o.yml" = .exit .fileError := by
  intro files request s ending
  have hread : ∀ path ∈ ["m.yml", "n.yml", "o.yml"],
      readRequest ["check", path] = .ok (request path) := by
    have hfree : ∀ path ∈ ["m.yml", "n.yml", "o.yml"], path.toList.head? ≠ some '-' := by decide
    exact fun path hpath => readRequest_check (hfree path hpath)
  have hsettings : (Settings.resolve ⟨none, none, none⟩ [] files).result = .ok s := rfl
  -- One of the files holds a list, the second one no text, and the third one is not there.
  have hmods : Manifest.Lists files "m.yml" _ := ⟨_, rfl, rfl⟩
  have htext : files.read "n.yml" = .error (.defect (.undecodable "invalid start byte")) := rfl
  have hnone : files.read "o.yml" = .error (.refused .missing) := rfl
  obtain ⟨-, -, hlists⟩ := check_ends (hread "m.yml" (by decide)) rfl rfl hsettings "/"
  obtain ⟨hdefect, -, -⟩ := check_ends (hread "n.yml" (by decide)) rfl rfl hsettings "/"
  obtain ⟨-, hmissing, -⟩ := check_ends (hread "o.yml" (by decide)) rfl rfl hsettings "/"
  refine ⟨hread, hsettings, ⟨_, hmods, ?_⟩, hdefect _ htext, hmissing ?_ ?_⟩
  · rcases hlists _ hmods with hexit | ⟨digits, -, hescape⟩
    · exact hexit
    · -- The range that cannot be read is skipped.
      have hending : ending "m.yml" = .exit .success := rfl
      cases hending.symm.trans hescape
  · intro defect hdefect
    cases hnone.symm.trans hdefect
  · rintro items ⟨d, hd, -⟩
    cases hnone.symm.trans hd

/-- A manifest that is no text is not answered with the code for files, but breaks the run off. -/
theorem check_broken_off_by_undecodable_manifest :
    let reason := "'utf-8' codec can't decode byte 0xff in position 6: invalid start byte"
    let files : Files := ⟨[("m.yml", .undecodable reason)]⟩
    let s : Settings := ⟨"INFO", 3600, 10000, ⟨[]⟩, none⟩
    (Settings.resolve ⟨none, none, none⟩ [] files).result = .ok s ∧
      (run "/" ["check", "m.yml"] [] files).ending =
        .escape (.command (.manifest (.file (.undecodable reason)))) :=
  ⟨rfl, rfl⟩

end Semrange.CommandLine
