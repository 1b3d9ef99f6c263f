import Mathlib.Data.List.Basic
import Semrange.Check

/-!
# What a check finds

A declaration is unmet when its target is absent and wanted, or when the version of the target that
counts does not satisfy it (`Unmet`). That version is the one of the last mod with the target's id,
or its replacement (`Effective`). A check has one finding for each unmet declaration, mod by mod and
then in the order in which they are declared (`map_findings`), and each finding tells the version
that counts (`mem_findings_iff`).
-/

namespace Semrange.Check

variable (mods : List Mod) (o : Overrides)

/-! ## Versions that count -/

/-- No mod has the id. -/
def Absent (id : String) : Prop :=
  ∀ m ∈ mods, m.id ≠ id

/-- The version that counts for an id: that of the last mod with the id, or its replacement if there
is one. -/
def Effective (id : String) (v : Version) : Prop :=
  ∃ before m after, mods = before ++ m :: after ∧ m.id = id ∧ (∀ n ∈ after, n.id ≠ id) ∧
    v = (o.find? id).getD m.version

/-- A declaration is unmet when its target is absent and wanted, or when the version that counts for
the target does not satisfy it. -/
def Unmet (d : Dependency) : Prop :=
  (d.kind.positive = true ∧ Absent mods d.target) ∨
    ∃ v, Effective mods o d.target v ∧ d.isSatisfiedBy v = false

variable {mods o}

/-- No version is present of an id that no mod has. -/
theorem present?_eq_none_iff {id : String} : present? mods o id = none ↔ Absent mods id := by
  rw [present?, Option.map_eq_none_iff, List.find?_eq_none]
  refine forall_congr' fun m => imp_congr List.mem_reverse ?_
  rw [beq_iff_eq]

/-- The version that is present is the one that counts. -/
theorem present?_eq_some_iff {id : String} {v : Version} :
    present? mods o id = some v ↔ Effective mods o id v := by
  simp only [present?, Option.map_eq_some_iff, List.find?_eq_some_iff_append, beq_iff_eq,
    Bool.not_eq_true', beq_eq_false_iff_ne]
  -- The search goes through the mods from the last one to the first.
  constructor
  · rintro ⟨m, ⟨hid, as, bs, hsplit, has⟩, rfl⟩
    rw [List.reverse_eq_iff, List.reverse_append, List.reverse_cons, List.append_assoc] at hsplit
    exact ⟨bs.reverse, m, as.reverse, hsplit, hid, fun n hn => has n (List.mem_reverse.mp hn), rfl⟩
  · rintro ⟨before, m, after, rfl, hid, hafter, rfl⟩
    refine ⟨m, ⟨hid, after.reverse, before.reverse, ?_,
      fun n hn => hafter n (List.mem_reverse.mp hn)⟩, rfl⟩
    rw [List.reverse_append, List.reverse_cons, List.append_assoc]
    rfl

/-- A declaration is not met by what is present when it is unmet. -/
theorem isMet_present?_iff {d : Dependency} :
    isMet d (present? mods o d.target) = false ↔ Unmet mods o d := by
  unfold Unmet
  simp only [← present?_eq_none_iff (o := o), ← present?_eq_some_iff]
  cases present? mods o d.target with
  | none => simp [isMet]
  | some v => simp [isMet]

instance (d : Dependency) : Decidable (Unmet mods o d) :=
  decidable_of_iff _ isMet_present?_iff

/-! ## Findings -/

/-- There is a finding for a declaration when it is unmet. -/
theorem finding?_eq (m : Mod) (d : Dependency) :
    finding? mods o m d =
      if Unmet mods o d then some ⟨m.id, d, present? mods o d.target⟩ else none := by
  unfold finding?
  dsimp only
  by_cases hunmet : Unmet mods o d
  · rw [if_pos hunmet, isMet_present?_iff.mpr hunmet]
    rfl
  · rw [if_neg hunmet, (Bool.not_eq_false _).mp (mt isMet_present?_iff.mp hunmet)]
    rfl

/-- A finding is one for an unmet declaration of a mod, and tells the version of the target that is
present. -/
theorem mem_findings_iff {f : Finding} :
    f ∈ findings mods o ↔ (∃ m ∈ mods, m.id = f.mod ∧ f.dependency ∈ m.dependencies) ∧
      Unmet mods o f.dependency ∧ f.found = present? mods o f.dependency.target := by
  simp only [findings, List.mem_flatMap, List.mem_filterMap, finding?_eq,
    Option.ite_none_right_eq_some, Option.some.injEq]
  constructor
  · rintro ⟨m, hm, d, hd, hunmet, rfl⟩
    exact ⟨⟨m, hm, rfl, hd⟩, hunmet, rfl⟩
  · rintro ⟨⟨m, hm, hid, hd⟩, hunmet, hfound⟩
    refine ⟨m, hm, f.dependency, hd, hunmet, ?_⟩
    rw [hid, ← hfound]

/-- A finding is a warning when the kind of its declaration is soft. -/
theorem severity_eq_warning_iff {k : Dependency.Kind} :
    k.severity = .warning ↔ k.soft = true := by
  unfold Dependency.Kind.severity
  cases k.soft <;> decide

/-- A finding is an error when the kind of its declaration is not soft. -/
theorem severity_eq_error_iff {k : Dependency.Kind} : k.severity = .error ↔ k.soft = false := by
  unfold Dependency.Kind.severity
  cases k.soft <;> decide

/-- The declarations of all mods with the ids of the mods, mod by mod. -/
def declarations (mods : List Mod) : List (String × Dependency) :=
  mods.flatMap fun m => m.dependencies.map fun d => (m.id, d)

/-- There is one finding for each unmet declaration, in order. -/
theorem map_findings : (findings mods o).map (fun f => (f.mod, f.dependency)) =
    (declarations mods).filter fun e => Unmet mods o e.2 := by
  have hmod : ∀ m : Mod, ∀ ds : List Dependency,
      (ds.filterMap (finding? mods o m)).map (fun f => (f.mod, f.dependency)) =
        (ds.map fun d => (m.id, d)).filter fun e => Unmet mods o e.2 := by
    intro m ds
    induction ds with
    | nil => rfl
    | cons d ds ih =>
      -- An unmet declaration has its finding, and a met one is left out on both sides.
      by_cases hunmet : Unmet mods o d
      · have hfinding := (finding?_eq m d).trans (if_pos hunmet)
        rw [List.filterMap_cons_some hfinding, List.map_cons, List.map_cons, List.filter_cons,
          if_pos (decide_eq_true hunmet), ih]
      · have hfinding := (finding?_eq m d).trans (if_neg hunmet)
        rw [List.filterMap_cons_none hfinding, List.map_cons, List.filter_cons,
          if_neg (fun h => hunmet (of_decide_eq_true h)), ih]
  unfold findings declarations
  rw [List.map_flatMap, List.filter_flatMap]
  exact List.flatMap_congr fun m _ => hmod m m.dependencies

/-! ## What findings tell -/

variable (mods o) in
/-- A declaration of a soft kind, or one of a hard kind, is unmet. -/
def HasUnmet (soft : Bool) : Prop :=
  ∃ m ∈ mods, ∃ d ∈ m.dependencies, d.kind.soft = soft ∧ Unmet mods o d

/-- Some finding is about a soft kind, or about a hard kind, when such a declaration is unmet. -/
theorem exists_mem_findings_iff {soft : Bool} :
    (∃ f ∈ findings mods o, f.dependency.kind.soft = soft) ↔ HasUnmet mods o soft := by
  constructor
  · rintro ⟨f, hf, hsoft⟩
    obtain ⟨⟨m, hm, -, hd⟩, hunmet, -⟩ := mem_findings_iff.mp hf
    exact ⟨m, hm, f.dependency, hd, hsoft, hunmet⟩
  · rintro ⟨m, hm, d, hd, hsoft, hunmet⟩
    exact ⟨⟨m.id, d, present? mods o d.target⟩,
      mem_findings_iff.mpr ⟨⟨m, hm, rfl, hd⟩, hunmet, rfl⟩, hsoft⟩

/-- Some finding is an error when a declaration of a hard kind is unmet. -/
theorem any_error_iff :
    ((findings mods o).any fun f => f.severity = .error) = true ↔ HasUnmet mods o false := by
  rw [List.any_eq_true, ← exists_mem_findings_iff]
  refine exists_congr fun f => and_congr_right fun _ => ?_
  rw [decide_eq_true_iff]
  exact severity_eq_error_iff

/-- There are findings when some declaration is unmet, of a hard kind or of a soft one. -/
theorem isEmpty_findings_iff :
    (findings mods o).isEmpty = false ↔ HasUnmet mods o false ∨ HasUnmet mods o true := by
  rw [List.isEmpty_eq_false_iff_exists_mem, ← exists_mem_findings_iff, ← exists_mem_findings_iff]
  constructor
  · rintro ⟨f, hf⟩
    cases hsoft : f.dependency.kind.soft with
    | false => exact Or.inl ⟨f, hf, hsoft⟩
    | true => exact Or.inr ⟨f, hf, hsoft⟩
  · rintro (⟨f, hf, -⟩ | ⟨f, hf, -⟩)
    · exact ⟨f, hf⟩
    · exact ⟨f, hf⟩

end Semrange.Check
