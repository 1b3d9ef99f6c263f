import Semrange.Proofs.CommandLine.Configuration
import Semrange.Proofs.Overrides.Reading

/-!
# Which source of settings counts

Overrides come from the configuration, from the environment and from the arguments, and each of these
makes its replacements behind those of the ones before it (`mergedOverrides_eq_ok_iff`). So an id has
its version from the highest source that says anything about it, and within it from the last entry of
the id (`Sources.find?`, `latest_eq_some_iff`). But all entries of all sources have to denote
replacements, also those that no longer count (`WellFormed`). A level is taken from the highest source
that gives one (`givenLevels`); where it may not be set the default one is taken, and no lower source
is asked.

The numbers of the configuration are read before the overrides, and an infinite one is an error
(`HasInfinite`): then nothing is resolved, whatever the sources say.
-/

namespace Semrange.Settings

open Overrides (EntryDenotes PairDenotes entriesOf latest)

/-! ## Overrides -/

/-- The replacements that the sources of overrides make, each of them in order. -/
structure Sources where
  /-- Those of the configuration. -/
  configured : List (String × Version)
  /-- Those of the environment. -/
  inherited : List (String × Version)
  /-- Those of the arguments. -/
  given : List (String × Version)

/-- The last version that the highest source with one gives to an id. -/
def Sources.find? (r : Sources) (id : String) : Option Version :=
  (latest r.given id).or ((latest r.inherited id).or (latest r.configured id))

variable (args : Arguments) (env : Environment) (config : Document)

/-- The entries of all sources denote these replacements. -/
structure Sources.Denoted (r : Sources) : Prop where
  /-- Those of the configuration do. -/
  configured : List.Forall₂ PairDenotes (config.get "overrides").entries r.configured
  /-- Those of the environment do. -/
  inherited : List.Forall₂ EntryDenotes
    (entriesOf ((env.lookup replacementsVariable).getD "")) r.inherited
  /-- Those of the arguments do. -/
  given : List.Forall₂ EntryDenotes (entriesOf (args.replacements.getD "")) r.given

/-- Each entry of each source denotes a replacement. -/
structure WellFormed : Prop where
  /-- Each one of the configuration does. -/
  configured : ∀ p ∈ (config.get "overrides").entries, ∃ e, PairDenotes p e
  /-- Each one of the environment does. -/
  inherited : ∀ piece ∈ entriesOf ((env.lookup replacementsVariable).getD ""),
    ∃ e, EntryDenotes piece e
  /-- Each one of the arguments does. -/
  given : ∀ piece ∈ entriesOf (args.replacements.getD ""), ∃ e, EntryDenotes piece e

variable {args env config}

/-- The entries denote replacements when each one does. -/
theorem exists_denoted_iff :
    (∃ r : Sources, r.Denoted args env config) ↔ WellFormed args env config := by
  constructor
  · rintro ⟨r, hconfigured, hinherited, hgiven⟩
    exact ⟨exists_forall₂_iff.mp ⟨_, hconfigured⟩, exists_forall₂_iff.mp ⟨_, hinherited⟩,
      exists_forall₂_iff.mp ⟨_, hgiven⟩⟩
  · rintro ⟨hconfigured, hinherited, hgiven⟩
    obtain ⟨lc, hlc⟩ := exists_forall₂_iff.mpr hconfigured
    obtain ⟨li, hli⟩ := exists_forall₂_iff.mpr hinherited
    obtain ⟨lg, hlg⟩ := exists_forall₂_iff.mpr hgiven
    exact ⟨⟨lc, li, lg⟩, hlc, hli, hlg⟩

/-- The overrides of a text are merged in; where there is no text, or an empty one, it denotes
none. -/
theorem mergeText_eq (o : Overrides) (s : Option String) :
    mergeText o s = ((Overrides.ofText (s.getD "")).mapError .overrides).map o.mergedWith := by
  cases s with
  | none => rfl
  | some s =>
    by_cases hs : s = ""
    · -- An empty text is passed over, and would be read as no entries.
      subst hs
      rfl
    · have hsome : (some s).bind nonempty = some s := if_neg hs
      unfold mergeText
      rw [hsome, Option.getD_some]
      dsimp only
      cases Overrides.ofText s <;> rfl

/-- The overrides of a configuration are read, then those of the environment and of the arguments,
and then they are merged. -/
theorem mergedOverrides_eq :
    mergedOverrides args env config = Except.mapError .overrides (do
      let configured ← Overrides.ofPairs (config.get "overrides").entries
      let inherited ← Overrides.ofText ((env.lookup replacementsVariable).getD "")
      let given ← Overrides.ofText (args.replacements.getD "")
      return (configured.mergedWith inherited).mergedWith given) := by
  unfold mergedOverrides
  simp only [mergeText_eq]
  cases Overrides.ofPairs (config.get "overrides").entries with
  | error e => rfl
  | ok configured =>
    cases Overrides.ofText ((env.lookup replacementsVariable).getD "") with
    | error e => rfl
    | ok inherited => cases Overrides.ofText (args.replacements.getD "") <;> rfl

/-- The overrides of all sources come about by the replacements of the configuration, then those of
the environment and then those of the arguments. -/
theorem mergedOverrides_eq_ok_iff {o : Overrides} :
    mergedOverrides args env config = .ok o ↔ ∃ r : Sources, r.Denoted args env config ∧
      Overrides.empty.setAll (r.configured ++ (r.inherited ++ r.given)) = o := by
  -- Merging makes the replacements of the other source after those that are there.
  have hmerged : ∀ lc li lg : List (String × Version),
      ((Overrides.empty.setAll lc).mergedWith (Overrides.empty.setAll li)).mergedWith
        (Overrides.empty.setAll lg) = Overrides.empty.setAll (lc ++ (li ++ lg)) := by
    intro lc li lg
    rw [Overrides.mergedWith_setAll, Overrides.mergedWith_setAll, Overrides.setAll_append,
      Overrides.setAll_append]
  rw [mergedOverrides_eq, mapError_eq_ok]
  simp only [bind_eq_ok, Overrides.ofPairs_eq_ok_iff, Overrides.ofText_eq_ok_iff]
  constructor
  · rintro ⟨_, ⟨lc, hlc, rfl⟩, _, ⟨li, hli, rfl⟩, _, ⟨lg, hlg, rfl⟩, h⟩
    exact ⟨⟨lc, li, lg⟩, ⟨hlc, hli, hlg⟩, (hmerged lc li lg).symm.trans (Except.ok.inj h)⟩
  · rintro ⟨⟨lc, li, lg⟩, ⟨hlc, hli, hlg⟩, rfl⟩
    exact ⟨_, ⟨lc, hlc, rfl⟩, _, ⟨li, hli, rfl⟩, _, ⟨lg, hlg, rfl⟩,
      congrArg Except.ok (hmerged lc li lg)⟩

/-- An id has its version from the highest source that gives it one. -/
theorem apply_setAll_sources (r : Sources) (id : String) (v : Version) :
    (Overrides.empty.setAll (r.configured ++ (r.inherited ++ r.given))).apply id v =
      (r.find? id).getD v := by
  have hnone : Overrides.empty.find? id = none := rfl
  rw [Overrides.apply, Overrides.find?_setAll, hnone, Option.or_none, Overrides.latest_append,
    Overrides.latest_append, Option.or_assoc]
  rfl

/-- Where the sources have no overrides, an entry of one of them is wrong. -/
theorem exists_of_mergedOverrides_eq_error {e : ResolveError}
    (h : mergedOverrides args env config = .error e) : ∃ e', e = .overrides e' := by
  rw [mergedOverrides_eq, mapError_eq_error] at h
  obtain ⟨e', -, rfl⟩ := h
  exact ⟨e', rfl⟩

/-! ## Levels -/

variable (args env config) in
/-- The levels that the sources give, that of the highest source first. -/
def givenLevels : List String :=
  (args.logLevel.bind nonempty).toList ++ (((env.lookup Log.levelVariable).bind nonempty).toList ++
    if (config.get "log_level").isGiven then [(config.get "log_level").plain] else [])

/-- The level of the highest source is chosen. -/
theorem chooseLevel_eq :
    chooseLevel args env config =
      ((givenLevels args env config).head?.map Text.upper).getD Log.defaultLevelName := by
  unfold chooseLevel givenLevels
  simp only [List.head?_append, Option.head?_toList]
  split_ifs <;> rfl

/-! ## Numbers -/

variable (config) in
/-- The number under a key of the configuration is infinite. -/
def IsInfinite (key : String) : Prop :=
  ∃ negative, config.find? key = some (.scalar (.float (.infinite negative)))

variable (config) in
/-- A number of the configuration that is resolved is infinite. -/
def HasInfinite : Prop :=
  IsInfinite config "cache_ttl" ∨ IsInfinite config "cache_max_entries"

/-- Only an infinite number stands for no integer in a way that is an error. -/
theorem integer?_eq_error_iff {d : Document} {e : ResolveError} :
    integer? d = .error e ↔
      e = .infinite ∧ ∃ negative, d = .scalar (.float (.infinite negative)) := by
  constructor
  · intro h
    unfold integer? at h
    split at h
    · split at h
      · cases h
        exact ⟨rfl, _, rfl⟩
      · cases h
    all_goals cases h
  · rintro ⟨rfl, negative, rfl⟩
    rfl

/-- A number of the configuration that is not infinite is read, or passed over. -/
theorem exists_readInteger {key : String} (h : ¬IsInfinite config key) (default : Int) :
    ∃ n, (readInteger config key default).result = .ok n := by
  unfold readInteger
  split
  · -- There is nothing under the key.
    exact ⟨default, rfl⟩
  · next d hd =>
    rw [Report.result_bind, Report.result_ofExcept]
    cases hinteger : integer? d with
    | error e =>
      obtain ⟨-, negative, rfl⟩ := integer?_eq_error_iff.mp hinteger
      exact absurd ⟨negative, hd⟩ h
    | ok n =>
      cases n with
      | none => exact ⟨default, rfl⟩
      | some n => exact ⟨n, rfl⟩

/-- An infinite number of the configuration is an error. -/
theorem result_readInteger_of_isInfinite {key : String} (h : IsInfinite config key)
    (default : Int) : (readInteger config key default).result = .error .infinite := by
  obtain ⟨negative, hfind⟩ := h
  unfold readInteger
  rw [hfind]
  rfl

/-! ## What is resolved -/

/-- Where no number of the configuration is infinite, settings are resolved when there are overrides
of the sources. -/
theorem exists_result_resolve {files : Files}
    (hload : (loadConfig files (findConfig args env files)).result = .ok config)
    (hfinite : ¬HasInfinite config) :
    ∃ lifetime entries, (resolve args env files).result =
      (mergedOverrides args env config).map fun o =>
        ⟨checkedLevel (chooseLevel args env config), lifetime, entries, o,
          findConfig args env files⟩ := by
  obtain ⟨hfirst, hsecond⟩ := not_or.mp hfinite
  obtain ⟨lifetime, hlifetime⟩ := exists_readInteger hfirst defaultCacheLifetime
  obtain ⟨entries, hentries⟩ := exists_readInteger hsecond defaultCacheEntries
  refine ⟨lifetime, entries, ?_⟩
  rw [result_resolve hload, hlifetime, hentries]
  rfl

/-- Where all entries of the overrides of all sources denote replacements, an id has its version from
the highest source that gives it one, and the level is that of the highest source with one if it may
be set, and else the default one. Where some entry denotes none, that is the error, whatever higher
sources say. But an infinite number in the configuration is an error before that. -/
theorem resolve_takes_highest_source {files : Files}
    (hload : (loadConfig files (findConfig args env files)).result = .ok config) :
    (WellFormed args env config ↔ ∃ r : Sources, r.Denoted args env config) ∧
      (¬HasInfinite config → ∀ r : Sources, r.Denoted args env config →
        ∃ s, (resolve args env files).result = .ok s ∧
          (∀ id v, s.overrides.apply id v = (r.find? id).getD v) ∧
          (∀ name lower, givenLevels args env config = name :: lower →
            s.logLevel = checkedLevel (Text.upper name)) ∧
          (givenLevels args env config = [] → s.logLevel = Log.defaultLevelName)) ∧
      (¬HasInfinite config → ¬WellFormed args env config →
        ∃ e, (resolve args env files).result = .error (.overrides e)) ∧
      (HasInfinite config → (resolve args env files).result = .error .infinite) := by
  refine ⟨exists_denoted_iff.symm, fun hfinite r hr => ?_, fun hfinite hform => ?_, fun h => ?_⟩
  · obtain ⟨lifetime, entries, hresolve⟩ := exists_result_resolve hload hfinite
    -- The replacements of all sources are made, and what is resolved is what they leave.
    rw [mergedOverrides_eq_ok_iff.mpr ⟨r, hr, rfl⟩] at hresolve
    refine ⟨_, hresolve, apply_setAll_sources r, fun name lower hlevels => ?_, fun hlevels => ?_⟩
    · rw [chooseLevel_eq, hlevels]
      rfl
    · rw [chooseLevel_eq, hlevels]
      rfl
  · obtain ⟨lifetime, entries, hresolve⟩ := exists_result_resolve hload hfinite
    -- Overrides would come from entries that all denote replacements.
    cases hmerged : mergedOverrides args env config with
    | ok o =>
      obtain ⟨r, hr, -⟩ := mergedOverrides_eq_ok_iff.mp hmerged
      exact absurd (exists_denoted_iff.mp ⟨r, hr⟩) hform
    | error e =>
      obtain ⟨e', rfl⟩ := exists_of_mergedOverrides_eq_error hmerged
      rw [hmerged] at hresolve
      exact ⟨e', hresolve⟩
  · -- The lifetime is read first; the other number only counts where that one is finite.
    rw [result_resolve hload]
    by_cases hfirst : IsInfinite config "cache_ttl"
    · rw [result_readInteger_of_isInfinite hfirst]
      rfl
    · obtain ⟨lifetime, hlifetime⟩ := exists_readInteger hfirst defaultCacheLifetime
      rw [hlifetime, result_readInteger_of_isInfinite (h.resolve_left hfirst)]
      rfl

/-- Three sources that have something to say about the same ids, with a level that may not be set
above one that may, and an entry without a version that the arguments hold beside a good one. -/
theorem resolve_takes_highest_source_overlap :
    let version (major : Nat) : Version := .semantic ⟨major, [], false, none, none⟩
    let config : Document := .mapping [(.text "log_level", .text "debug"), (.text "overrides",
      .mapping [(.text "a", .text "1"), (.text "b", .text "1"), (.text "c", .text "1")])]
    let files : Files := ⟨[("modversion.yml", .document config)]⟩
    let env : Environment := [(replacementsVariable, "b:2,c:2"), (Log.levelVariable, "loud")]
    let args (replacements : String) : Arguments := ⟨none, none, some replacements⟩
    let r : Sources := ⟨[("a", version 1), ("b", version 1), ("c", version 1)],
      [("b", version 2), ("c", version 2)], [("c", version 3), ("c", version 4)]⟩
    (∀ replacements, (loadConfig files (findConfig (args replacements) env files)).result =
        .ok config) ∧
      ¬HasInfinite config ∧ r.Denoted (args "c:3,c:4") env config ∧
      (∃ s, (resolve (args "c:3,c:4") env files).result = .ok s ∧
        ["a", "b", "c", "d"].map (fun id => s.overrides.apply id (version 0)) =
          [version 1, version 2, version 4, version 0] ∧ s.logLevel = "INFO") ∧
      ¬WellFormed (args "c:3,b") env config ∧
      ∃ e, (resolve (args "c:3,b") env files).result = .error (.overrides e) := by
  intro version config files env args r
  -- The configuration is the file that is found when nothing else is named.
  have hfound : findConfig ⟨none, none, none⟩ env files = some "modversion.yml" := by
    decide +kernel
  have hload : ∀ replacements,
      (loadConfig files (findConfig (args replacements) env files)).result = .ok config := by
    intro replacements
    show (loadConfig files (findConfig ⟨none, none, none⟩ env files)).result = .ok config
    rw [hfound]
    unfold files config
    rfl
  have hfinite : ¬HasInfinite config := by
    rintro (⟨negative, h⟩ | ⟨negative, h⟩) <;> cases h
  have hinherited : List.Forall₂ EntryDenotes (entriesOf "b:2,c:2") r.inherited :=
    Overrides.mapM_readEntry_eq_ok_iff.mp rfl
  have hgiven : List.Forall₂ EntryDenotes (entriesOf "c:3,c:4") r.given :=
    Overrides.mapM_readEntry_eq_ok_iff.mp rfl
  have hr : r.Denoted (args "c:3,c:4") env config :=
    ⟨Overrides.mapM_readPair_eq_ok_iff.mp rfl, hinherited, hgiven⟩
  -- The second entry of the arguments has no colon.
  have hform : ¬WellFormed (args "c:3,b") env config := by
    intro h
    obtain ⟨e, he⟩ := h.given ['b'] (by decide +kernel)
    cases Overrides.readEntry_eq_ok_iff.mpr he
  obtain ⟨-, hresolved, -, -⟩ := resolve_takes_highest_source (hload "c:3,c:4")
  obtain ⟨-, -, hfails, -⟩ := resolve_takes_highest_source (hload "c:3,b")
  obtain ⟨s, hs, happly, hlevel, -⟩ := hresolved hfinite r hr
  refine ⟨hload, hfinite, hr, ⟨s, hs, ?_, hlevel "loud" ["debug"] rfl⟩, hform, hfails hfinite hform⟩
  simp only [happly]
  decide +kernel

/-- An infinite lifetime in the configuration, beside which a good replacement is lost. -/
theorem replacement_lost_beside_infinite_lifetime :
    let config : Document := .mapping [(.text "cache_ttl", .scalar (.float (.infinite false)))]
    let files : Files := ⟨[("modversion.yml", .document config)]⟩
    let args : Arguments := ⟨none, none, some "a:1"⟩
    (loadConfig files (findConfig args [] files)).result = .ok config ∧
      WellFormed args [] config ∧ (resolve args [] files).result = .error .infinite := by
  intro config files args
  have hfound : findConfig args [] files = some "modversion.yml" := by decide +kernel
  have hload : (loadConfig files (findConfig args [] files)).result = .ok config := by
    rw [hfound]
    unfold files config
    rfl
  have hgiven : List.Forall₂ EntryDenotes (entriesOf "a:1")
      [("a", .semantic ⟨1, [], false, none, none⟩)] := Overrides.mapM_readEntry_eq_ok_iff.mp rfl
  have hform : WellFormed args [] config :=
    exists_denoted_iff.mp ⟨⟨[], [], _⟩, .nil, .nil, hgiven⟩
  refine ⟨hload, hform, ?_⟩
  rw [result_resolve hload]
  rfl

end Semrange.Settings
