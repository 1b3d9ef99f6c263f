import Semrange.Proofs.Check.Findings
import Semrange.Proofs.Overrides.Replacements

/-!
# What a replacement changes in a check

Whether there is a finding for a declaration depends on the mods and on the overrides only by the
version that is present of its target (`finding?_congr`), and that version on the overrides only by
what they say about the target (`present?_congr`). So one more replacement changes no finding about
another target, whoever declares it, and nothing at all where its id is absent.

The order of the mods counts only where an id comes twice: otherwise the version that is present is
that of the one mod with the id (`effective_iff_of_nodup`), and other orders of the mods give the same
findings in another order (`findings_perm`).
-/

namespace Semrange.Check

variable {mods mods' : List Mod} {o p : Overrides}

/-! ## What a finding depends on -/

/-- The version that is present of an id depends on what the overrides say about that id. -/
theorem present?_congr {id : String} (h : o.find? id = p.find? id) :
    present? mods o id = present? mods p id := by
  simp only [present?, Overrides.apply, h]

/-- The finding for a declaration depends on the version that is present of its target. -/
theorem finding?_congr {m : Mod} {d : Dependency}
    (h : present? mods o d.target = present? mods' p d.target) :
    finding? mods o m d = finding? mods' p m d := by
  simp only [finding?, h]

/-- The findings about some declarations are those that there are for them one by one. -/
theorem filter_findings (keeps : Dependency → Bool) :
    (findings mods o).filter (fun f => keeps f.dependency) =
      mods.flatMap fun m => (m.dependencies.filter keeps).filterMap (finding? mods o m) := by
  have hmod : ∀ m : Mod, (m.dependencies.filterMap (finding? mods o m)).filter
      (fun f => keeps f.dependency) =
        (m.dependencies.filter keeps).filterMap (finding? mods o m) := by
    intro m
    rw [List.filter_filterMap, List.filterMap_filter]
    refine List.filterMap_congr fun d _ => ?_
    rw [finding?_eq]
    by_cases hunmet : Unmet mods o d
    · rw [if_pos hunmet]
      rfl
    · rw [if_neg hunmet, ite_self]
      rfl
  rw [findings, List.filter_flatMap]
  exact List.flatMap_congr fun m _ => hmod m

/-! ## Mods in another order -/

/-- Where no id comes twice, the version that counts for an id is that of the mod with the id, or its
replacement. -/
theorem effective_iff_of_nodup (h : (mods.map (·.id)).Nodup) {id : String} {v : Version} :
    Effective mods o id v ↔ ∃ m ∈ mods, m.id = id ∧ v = (o.find? id).getD m.version := by
  constructor
  · rintro ⟨before, m, after, rfl, hid, -, hv⟩
    exact ⟨m, List.mem_append_right _ List.mem_cons_self, hid, hv⟩
  · rintro ⟨m, hm, hid, hv⟩
    obtain ⟨before, after, rfl⟩ := List.append_of_mem hm
    rw [List.map_append, List.map_cons, List.nodup_append, List.nodup_cons] at h
    refine ⟨before, m, after, rfl, hid, fun n hn hsame => ?_, hv⟩
    exact h.2.1.1 (List.mem_map.mpr ⟨n, hn, hsame.trans hid.symm⟩)

/-- Where no id comes twice, the order of the mods does not matter for the versions that are
present. -/
theorem present?_perm (hperm : mods.Perm mods') (h : (mods.map (·.id)).Nodup) (id : String) :
    present? mods o id = present? mods' o id := by
  have h' : (mods'.map (·.id)).Nodup := (hperm.map _).nodup_iff.mp h
  refine Option.ext fun v => ?_
  rw [present?_eq_some_iff, present?_eq_some_iff, effective_iff_of_nodup h,
    effective_iff_of_nodup h']
  exact exists_congr fun m => and_congr_left fun _ => hperm.mem_iff

/-- Where no id comes twice, mods in another order have the same findings in another order. -/
theorem findings_perm (hperm : mods.Perm mods') (h : (mods.map (·.id)).Nodup) :
    (findings mods o).Perm (findings mods' o) := by
  have hfinding : ∀ m d, finding? mods o m d = finding? mods' o m d :=
    fun m d => finding?_congr (present?_perm hperm h d.target)
  have hsame : findings mods o =
      mods.flatMap fun m => m.dependencies.filterMap (finding? mods' o m) :=
    List.flatMap_congr fun m _ => List.filterMap_congr fun d _ => hfinding m d
  rw [hsame]
  exact hperm.flatMap_right _

/-! ## One more replacement -/

/-- One more replacement changes nothing about what overrides say of other ids. -/
theorem find?_mergedWith_of_ne {x id : String} (w : Version) (h : id ≠ x) :
    (o.mergedWith ⟨[(x, w)]⟩).find? id = o.find? id :=
  (o.find?_set x id w).trans (if_neg h)

/-- One more replacement leaves all findings about other targets as they are and in order, and all
findings where no mod has its id; otherwise its version is the one that counts for the id. Where no
id comes twice, mods in another order have the same findings in another order. -/
theorem replacements_act_locally (mods : List Mod) (o : Overrides) (x : String) (w : Version) :
    let replaced := o.mergedWith ⟨[(x, w)]⟩
    (findings mods replaced).filter (fun f => f.dependency.target ≠ x) =
        (findings mods o).filter (fun f => f.dependency.target ≠ x) ∧
      (Absent mods x → findings mods replaced = findings mods o) ∧
      (¬Absent mods x → Effective mods replaced x w) ∧
      ((mods.map (·.id)).Nodup → ∀ mods' : List Mod, mods.Perm mods' →
        (findings mods o).Perm (findings mods' o)) := by
  intro replaced
  have hother : ∀ d : Dependency, d.target ≠ x →
      present? mods replaced d.target = present? mods o d.target :=
    fun d hd => present?_congr (find?_mergedWith_of_ne w hd)
  refine ⟨?_, fun habsent => ?_, fun hthere => ?_, fun h mods' hperm => findings_perm hperm h⟩
  -- A filter over findings is one over declarations, of which those about other targets are alike.
  · have hkept : ∀ p : Overrides, (findings mods p).filter (fun f => f.dependency.target ≠ x) =
        mods.flatMap fun m =>
          (m.dependencies.filter fun d => d.target ≠ x).filterMap (finding? mods p m) :=
      fun p => filter_findings fun d => decide (d.target ≠ x)
    rw [hkept, hkept]
    refine List.flatMap_congr fun m _ => List.filterMap_congr fun d hd => finding?_congr ?_
    exact hother d (of_decide_eq_true (List.mem_filter.mp hd).2)
  · -- An absent target stays absent, whatever its replacement would be.
    refine List.flatMap_congr fun m _ => List.filterMap_congr fun d _ => finding?_congr ?_
    by_cases hd : d.target = x
    · rw [hd, present?_eq_none_iff.mpr habsent, present?_eq_none_iff.mpr habsent]
    · exact hother d hd
  · -- The mod whose version would count is there, but its replacement takes the place of the
    -- version.
    rw [← present?_eq_none_iff (o := replaced), ← ne_eq, Option.ne_none_iff_exists'] at hthere
    obtain ⟨v, hv⟩ := hthere
    obtain ⟨before, m, after, hmods, hid, hafter, -⟩ := present?_eq_some_iff.mp hv
    have hfind : replaced.find? x = some w := (o.find?_set x x w).trans (if_pos rfl)
    exact ⟨before, m, after, hmods, hid, hafter, by rw [hfind, Option.getD_some]⟩

/-- Two mods that want each other, of which one is replaced, and a target that is absent. -/
theorem replacements_act_locally_target :
    let version (major : Nat) : Version := .semantic ⟨major, [], false, none, none⟩
    let wants (target : String) : Dependency :=
      ⟨.depends, target, [">=2"], [⟨[⟨.atLeast, version 2⟩]⟩]⟩
    let suggests : Dependency := ⟨.suggests, "c", ["*"], [.any]⟩
    let mods : List Mod := [⟨"a", version 1, [wants "b", suggests]⟩, ⟨"b", version 1, [wants "a"]⟩]
    let replaced := Overrides.empty.mergedWith ⟨[("b", version 3)]⟩
    findings mods .empty = [⟨"a", wants "b", some (version 1)⟩, ⟨"a", suggests, none⟩,
        ⟨"b", wants "a", some (version 1)⟩] ∧
      findings mods replaced = [⟨"a", suggests, none⟩, ⟨"b", wants "a", some (version 1)⟩] ∧
      (findings mods replaced).filter (fun f => f.dependency.target ≠ "b") =
        (findings mods .empty).filter (fun f => f.dependency.target ≠ "b") ∧
      ¬Absent mods "b" ∧ Effective mods replaced "b" (version 3) ∧ Absent mods "c" ∧
      findings mods (Overrides.empty.mergedWith ⟨[("c", version 3)]⟩) = findings mods .empty ∧
      (mods.map (·.id)).Nodup ∧ (findings mods .empty).Perm (findings mods.reverse .empty) := by
  intro version wants suggests mods replaced
  have hthere : ¬Absent mods "b" := fun h => h ⟨"b", version 1, [wants "a"]⟩ (by decide) rfl
  have habsent : Absent mods "c" :=
    List.forall_mem_cons.mpr ⟨by decide, List.forall_mem_singleton.mpr (by decide)⟩
  have hnodup : (mods.map (·.id)).Nodup := by decide
  obtain ⟨hothers, -, heffective, hperm⟩ :=
    replacements_act_locally mods .empty "b" (version 3)
  obtain ⟨-, hsame, -, -⟩ := replacements_act_locally mods .empty "c" (version 3)
  exact ⟨by decide +kernel, by decide +kernel, hothers, hthere, heffective hthere, habsent,
    hsame habsent, hnodup, hperm hnodup mods.reverse (List.reverse_perm mods).symm⟩

end Semrange.Check
