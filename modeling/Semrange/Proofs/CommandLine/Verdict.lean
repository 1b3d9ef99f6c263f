import Semrange.Proofs.Check.Findings
import Semrange.Proofs.CommandLine.Checking

/-!
# The verdict of a check

A check ends with the code for what is not satisfied when a declaration of a hard kind is unmet, with
the code for warnings when only declarations of soft kinds are and warnings count, and otherwise with
success (`verdict_findings`). That is so for every manifest that is loaded, whether it is reported on
in lines, in JSON or not at all (`ending_of_check`).
-/

namespace Semrange.CommandLine

open Check (Effective HasUnmet Unmet declarations findings)

/-- Which declarations are unmet decides on the verdict. -/
theorem verdict_findings (mods : List Mod) (o : Overrides) (errorOnWarnings : Bool) :
    let code := verdict (findings mods o) errorOnWarnings
    (code = .unsatisfied ↔ HasUnmet mods o false) ∧
      (code = .warnings ↔ ¬HasUnmet mods o false ∧ HasUnmet mods o true ∧
        errorOnWarnings = true) ∧
      (code = .success ↔ ¬HasUnmet mods o false ∧
        ¬(HasUnmet mods o true ∧ errorOnWarnings = true)) := by
  intro code
  by_cases hhard : HasUnmet mods o false
  · have hcode : code = .unsatisfied := if_pos (Check.any_error_iff.mpr hhard)
    simp [hcode, hhard]
  · have hcode : code = if errorOnWarnings && !(findings mods o).isEmpty then ExitCode.warnings
        else .success := if_neg (mt Check.any_error_iff.mp hhard)
    have hsoft : (!(findings mods o).isEmpty) = true ↔ HasUnmet mods o true := by
      rw [Bool.not_eq_true', Check.isEmpty_findings_iff, or_iff_right hhard]
    have hwarn : (errorOnWarnings && !(findings mods o).isEmpty) = true ↔
        HasUnmet mods o true ∧ errorOnWarnings = true := by
      rw [Bool.and_eq_true, hsoft, and_comm]
    by_cases hboth : HasUnmet mods o true ∧ errorOnWarnings = true
    · rw [if_pos (hwarn.mpr hboth)] at hcode
      simp [hcode, hhard, hboth]
    · rw [if_neg (mt hwarn.mp hboth)] at hcode
      simp [hcode, hhard, hboth]

/-- A run that checks a manifest that is loaded ends with the verdict on its mods, however it is
reported on. -/
theorem ending_of_check {before : List String} {env : Environment} {files : Files} {s : Settings}
    {r : Request} {mods : List Mod} (hcommand : r.command = .check)
    (hload : (Manifest.load files (r.operand 0)).result = .ok mods) :
    (finishRun before env files s r).ending =
      .exit (verdict (findings mods s.overrides) r.errorOnWarnings) := by
  have hexecute : execute s files r =
      runCheck s files (r.operand 0) r.json r.errorOnWarnings := by
    rw [execute, hcommand]
  rw [ending_finishRun, hexecute, endingOf_runCheck, hload]

/-- A check has one finding for each unmet declaration, in order, a warning if the kind is soft, and
the finding tells the version that counts for the target. Its verdict goes by the unmet declarations
and by whether warnings count, and each run that loads the mods ends with it, with JSON or without
and with output or without. -/
theorem verdict_exact (mods : List Mod) (o : Overrides) :
    (findings mods o).map (fun f => (f.mod, f.dependency)) =
        (declarations mods).filter (fun e => Unmet mods o e.2) ∧
      (∀ f ∈ findings mods o, (f.severity = .warning ↔ f.dependency.kind.soft = true) ∧
        ∀ v, f.found = some v ↔ Effective mods o f.dependency.target v) ∧
      (∀ errorOnWarnings, let code := verdict (findings mods o) errorOnWarnings
        (code = .unsatisfied ↔ HasUnmet mods o false) ∧
          (code = .warnings ↔ ¬HasUnmet mods o false ∧ HasUnmet mods o true ∧
            errorOnWarnings = true) ∧
          (code = .success ↔ ¬HasUnmet mods o false ∧
            ¬(HasUnmet mods o true ∧ errorOnWarnings = true))) ∧
      ∀ (before : List String) (env : Environment) (files : Files) (s : Settings) (r : Request),
        r.command = .check → s.overrides = o →
          (Manifest.load files (r.operand 0)).result = .ok mods →
            (finishRun before env files s r).ending =
              .exit (verdict (findings mods o) r.errorOnWarnings) := by
  refine ⟨Check.map_findings, fun f hf => ⟨Check.severity_eq_warning_iff, fun v => ?_⟩,
    verdict_findings mods o, ?_⟩
  · obtain ⟨-, -, hfound⟩ := Check.mem_findings_iff.mp hf
    rw [hfound, Check.present?_eq_some_iff]
  · rintro before env files s r hcommand rfl hload
    exact ending_of_check hcommand hload

/-- A target that comes twice, overridden or not, and one that is only suggested and is absent. -/
theorem verdict_exact_twice :
    let wants : Document := .mapping [(.text "id", .text "a"), (.text "version", .text "1"),
      (.text "depends", .mapping [(.text "b", .text ">=2")]),
      (.text "suggests", .mapping [(.text "c", .text "*")])]
    let target (version : String) : Document :=
      .mapping [(.text "id", .text "b"), (.text "version", .text version)]
    let files : Files := ⟨[("m.yml", .document (.mapping [(.text "mods",
      .list [wants, target "1", target "3"])]))]⟩
    let version (major : Nat) : Version := .semantic ⟨major, [], false, none, none⟩
    let depends : Dependency := ⟨.depends, "b", [">=2"], [⟨[⟨.atLeast, version 2⟩]⟩]⟩
    let suggests : Dependency := ⟨.suggests, "c", ["*"], [.any]⟩
    let mods : List Mod := [⟨"a", version 1, [depends, suggests]⟩, ⟨"b", version 1, []⟩,
      ⟨"b", version 3, []⟩]
    let request (json quiet errorOnWarnings : Bool) : Request :=
      ⟨.check, [["m.yml"]], ⟨none, none, none⟩, none, errorOnWarnings, quiet, false, json⟩
    let settings (o : Overrides) : Settings := ⟨"INFO", 3600, 10000, o, none⟩
    let ending (o : Overrides) (r : Request) := (finishRun [] [] files (settings o) r).ending
    (Manifest.load files "m.yml").result = .ok mods ∧
      (∀ json quiet, ending ⟨[]⟩ (request json quiet true) = .exit .warnings) ∧
      (∀ json quiet, ending ⟨[]⟩ (request json quiet false) = .exit .success) ∧
      ∀ json quiet errorOnWarnings,
        ending ⟨[("b", version 1)]⟩ (request json quiet errorOnWarnings) = .exit .unsatisfied := by
  intro wants target files version depends suggests mods request settings ending
  have hload : (Manifest.load files "m.yml").result = .ok mods := by
    have hread : (Manifest.load files "m.yml").result.toOption = some mods := by decide +kernel
    cases hresult : (Manifest.load files "m.yml").result with
    | error e =>
      rw [hresult] at hread
      exact absurd hread nofun
    | ok l =>
      rw [hresult] at hread
      exact congrArg Except.ok (Option.some.inj hread)
  have hending : ∀ (o : Overrides) (json quiet errorOnWarnings : Bool),
      ending o (request json quiet errorOnWarnings) =
        .exit (verdict (findings mods o) errorOnWarnings) := by
    intro o json quiet errorOnWarnings
    obtain ⟨-, -, -, hrun⟩ := verdict_exact mods o
    exact hrun [] [] files (settings o) (request json quiet errorOnWarnings) rfl rfl hload
  have hwarnings : verdict (findings mods ⟨[]⟩) true = .warnings := by decide +kernel
  have hsuccess : verdict (findings mods ⟨[]⟩) false = .success := by decide +kernel
  have hunsatisfied : ∀ errorOnWarnings,
      verdict (findings mods ⟨[("b", version 1)]⟩) errorOnWarnings = .unsatisfied := by
    decide +kernel
  refine ⟨hload, fun json quiet => ?_, fun json quiet => ?_, fun json quiet flag => ?_⟩
  · rw [hending, hwarnings]
  · rw [hending, hsuccess]
  · rw [hending, hunsatisfied]

end Semrange.CommandLine
