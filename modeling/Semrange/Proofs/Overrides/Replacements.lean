import Mathlib.Data.List.Induction
import Mathlib.Data.List.Nodup
import Semrange.Overrides

/-!
# Replacements one after the other

Overrides come about by replacements that are made one after the other (`setAll`), so that of each id
the last replacement counts (`find?_setAll`, `latest_eq_some_iff`). Merging overrides into others makes
their replacements once more, behind the others (`mergedWith_setAll`): an id that is replaced several
times has only one entry in them, but it keeps the place where it came first and the version that came
last, and that is all that later replacements leave of it.
-/

namespace Semrange.Overrides

/-- The overrides after replacements one after the other. -/
def setAll (o : Overrides) (l : List (String × Version)) : Overrides :=
  l.foldl (fun o e => o.set e.1 e.2) o

/-- The last version that replacements give to an id. -/
def latest (l : List (String × Version)) (id : String) : Option Version :=
  l.reverse.lookup id

/-! ## One replacement -/

/-- The version of an id is not in an entry of another one. -/
theorem lookup_cons_of_ne {k : String} {e : String × Version} (h : k ≠ e.1)
    (l : List (String × Version)) : (e :: l).lookup k = l.lookup k := by
  rw [List.lookup_cons, beq_eq_false_iff_ne.mpr h]

/-- A replacement counts for its id, and other ids have the versions that they had. -/
theorem find?_set (o : Overrides) (id k : String) (v : Version) :
    (o.set id v).find? k = if k = id then some v else o.find? k := by
  obtain ⟨l⟩ := o
  show (setEntry id v l).lookup k = if k = id then some v else l.lookup k
  induction l with
  | nil =>
    show ([(id, v)] : List (String × Version)).lookup k = if k = id then some v else none
    by_cases hk : k = id
    · rw [if_pos hk, hk, List.lookup_cons_self]
    · rw [if_neg hk, lookup_cons_of_ne hk, List.lookup_nil]
  | cons e l ih =>
    by_cases he : e.1 = id
    · -- The entry of the id has the new version.
      rw [setEntry, if_pos he]
      by_cases hk : k = id
      · rw [if_pos hk, hk, List.lookup_cons_self]
      · rw [if_neg hk, lookup_cons_of_ne hk, lookup_cons_of_ne (he ▸ hk)]
    · rw [setEntry, if_neg he]
      -- The entry stays; it counts for its own id, and others are looked for behind it.
      by_cases hk : k = e.1
      · rw [hk, List.lookup_cons_self, List.lookup_cons_self, if_neg he]
      · rw [lookup_cons_of_ne hk, lookup_cons_of_ne hk, ih]

/-- A replacement adds its id to those that are overridden. -/
theorem mem_map_setEntry {id k : String} {v : Version} {l : List (String × Version)} :
    k ∈ (setEntry id v l).map (·.1) ↔ k = id ∨ k ∈ l.map (·.1) := by
  induction l with
  | nil => simp [setEntry]
  | cons e l ih =>
    by_cases he : e.1 = id
    · simp [setEntry, he]
    · simp only [setEntry, he, if_false, List.map_cons, List.mem_cons, ih]
      exact or_left_comm

/-- The replacement of an id that has none yet comes last. -/
theorem setEntry_of_notMem {id : String} {v : Version} {l : List (String × Version)}
    (h : id ∉ l.map (·.1)) : setEntry id v l = l ++ [(id, v)] := by
  induction l with
  | nil => rfl
  | cons e l ih =>
    rw [List.map_cons, List.mem_cons, not_or] at h
    rw [setEntry, if_neg (Ne.symm h.1), ih h.2, List.cons_append]

/-- Of two replacements of one id the second one is left. -/
theorem setEntry_setEntry (id : String) (v w : Version) (l : List (String × Version)) :
    setEntry id w (setEntry id v l) = setEntry id w l := by
  induction l with
  | nil => simp [setEntry]
  | cons e l ih => by_cases he : e.1 = id <;> simp [setEntry, he, ih]

/-- The replacement of an id that has one already can be made before that of another id. -/
theorem setEntry_comm {id k : String} {v w : Version} {l : List (String × Version)} (hne : k ≠ id)
    (hmem : id ∈ l.map (·.1)) :
    setEntry id v (setEntry k w l) = setEntry k w (setEntry id v l) := by
  induction l with
  | nil => cases hmem
  | cons e l ih =>
    -- The first entry is changed by at most one of the two.
    by_cases hk : e.1 = k
    · have hid : e.1 ≠ id := hk ▸ hne
      simp [setEntry, hk, hne]
    · by_cases hid : e.1 = id
      · simp [setEntry, hid, Ne.symm hne]
      · rw [List.map_cons, List.mem_cons, or_iff_right (Ne.symm hid)] at hmem
        simp [setEntry, hk, hid, ih hmem]

/-! ## Many replacements -/

/-- Replacements can be made in two runs. -/
theorem setAll_append (o : Overrides) (l m : List (String × Version)) :
    o.setAll (l ++ m) = (o.setAll l).setAll m :=
  List.foldl_append

/-- The last of several replacements is made last. -/
theorem setAll_concat (o : Overrides) (l : List (String × Version)) (e : String × Version) :
    o.setAll (l ++ [e]) = (o.setAll l).set e.1 e.2 :=
  setAll_append o l [e]

/-- Of two runs of replacements the second one has the last version of an id if it has any. -/
theorem latest_append (l m : List (String × Version)) (id : String) :
    latest (l ++ m) id = (latest m id).or (latest l id) := by
  rw [latest, List.reverse_append, List.lookup_append]
  rfl

/-- The last version of an id is the one behind which the id does not come again. -/
theorem latest_eq_some_iff {l : List (String × Version)} {id : String} {v : Version} :
    latest l id = some v ↔
      ∃ before after, l = before ++ (id, v) :: after ∧ ∀ e ∈ after, e.1 ≠ id := by
  simp only [latest, List.lookup_eq_some_iff, bne_iff_ne]
  constructor
  · rintro ⟨m, k, hl, hm⟩
    rw [List.reverse_eq_iff, List.reverse_append, List.reverse_cons, List.append_assoc] at hl
    exact ⟨k.reverse, m.reverse, hl, fun e he => (hm e (List.mem_reverse.mp he)).symm⟩
  · rintro ⟨before, after, rfl, hafter⟩
    refine ⟨after.reverse, before.reverse, ?_, fun e he => (hafter e (List.mem_reverse.mp he)).symm⟩
    rw [List.reverse_append, List.reverse_cons, List.append_assoc]
    rfl

/-- After replacements an id has the last version that they give to it, or else the one that it
had. -/
theorem find?_setAll (o : Overrides) (l : List (String × Version)) (id : String) :
    (o.setAll l).find? id = (latest l id).or (o.find? id) := by
  induction l generalizing o with
  | nil => rfl
  | cons e l ih =>
    have hfirst : (latest [e] id).or (o.find? id) = (o.set e.1 e.2).find? id := by
      rw [find?_set]
      show (([e] : List (String × Version)).lookup id).or (o.find? id) = _
      by_cases hid : id = e.1
      · rw [if_pos hid, hid, List.lookup_cons_self, Option.some_or]
      · rw [if_neg hid, lookup_cons_of_ne hid, List.lookup_nil, Option.none_or]
    rw [← List.singleton_append, latest_append, Option.or_assoc, hfirst, setAll_append]
    exact ih (o.set e.1 e.2)

/-! ## Merging -/

/-- Each id is overridden once. -/
def Distinct (o : Overrides) : Prop :=
  (o.entries.map (·.1)).Nodup

/-- A replacement leaves each id overridden once. -/
theorem Distinct.set {o : Overrides} (h : o.Distinct) (id : String) (v : Version) :
    (o.set id v).Distinct := by
  obtain ⟨l⟩ := o
  show ((setEntry id v l).map (·.1)).Nodup
  replace h : (l.map (·.1)).Nodup := h
  induction l with
  | nil => exact List.nodup_singleton id
  | cons e l ih =>
    rw [List.map_cons, List.nodup_cons] at h
    -- The entry of the id keeps its place, or the id comes behind all others.
    by_cases he : e.1 = id
    · rw [setEntry, if_pos he, List.map_cons, List.nodup_cons]
      exact ⟨he ▸ h.1, h.2⟩
    · rw [setEntry, if_neg he, List.map_cons, List.nodup_cons, mem_map_setEntry, not_or]
      exact ⟨⟨he, h.1⟩, ih h.2⟩

/-- Overrides that come about by replacements override each id once. -/
theorem distinct_setAll (l : List (String × Version)) : (empty.setAll l).Distinct := by
  induction l using List.reverseRecOn with
  | nil => exact List.nodup_nil
  | append_singleton l e ih =>
    rw [setAll_concat]
    exact ih.set e.1 e.2

/-- The replacement of an id that has one already can be made before those of other ids. -/
theorem set_setAll {o : Overrides} {id : String} {l : List (String × Version)}
    (hid : id ∉ l.map (·.1)) (hmem : id ∈ o.entries.map (·.1)) (v : Version) :
    (o.setAll l).set id v = (o.set id v).setAll l := by
  induction l generalizing o with
  | nil => rfl
  | cons e l ih =>
    rw [List.map_cons, List.mem_cons, not_or] at hid
    have hcomm : (o.set e.1 e.2).set id v = (o.set id v).set e.1 e.2 :=
      congrArg Overrides.mk (setEntry_comm (Ne.symm hid.1) hmem)
    have hmem' : id ∈ (o.set e.1 e.2).entries.map (·.1) := mem_map_setEntry.mpr (Or.inr hmem)
    show ((o.set e.1 e.2).setAll l).set id v = ((o.set id v).set e.1 e.2).setAll l
    rw [ih hid.2 hmem', hcomm]

/-- Merging in overrides with one more replacement makes that replacement last. -/
theorem mergedWith_set {p : Overrides} (hp : p.Distinct) (o : Overrides) (id : String)
    (v : Version) : o.mergedWith (p.set id v) = (o.mergedWith p).set id v := by
  obtain ⟨l⟩ := p
  show o.setAll (setEntry id v l) = (o.setAll l).set id v
  replace hp : (l.map (·.1)).Nodup := hp
  induction l generalizing o with
  | nil => rfl
  | cons e l ih =>
    rw [List.map_cons, List.nodup_cons] at hp
    by_cases he : e.1 = id
    · -- The entry of the id has the new version at once, in place of the old one.
      subst he
      have hset : (o.set e.1 e.2).set e.1 v = o.set e.1 v :=
        congrArg Overrides.mk (setEntry_setEntry e.1 e.2 v o.entries)
      have hmem : e.1 ∈ (o.set e.1 e.2).entries.map (·.1) := mem_map_setEntry.mpr (Or.inl rfl)
      rw [setEntry, if_pos rfl]
      show (o.set e.1 v).setAll l = ((o.set e.1 e.2).setAll l).set e.1 v
      rw [set_setAll hp.1 hmem, hset]
    · rw [setEntry, if_neg he]
      exact ih (o.set e.1 e.2) hp.2

/-- Merging in overrides makes the replacements that they come from. -/
theorem mergedWith_setAll (o : Overrides) (l : List (String × Version)) :
    o.mergedWith (empty.setAll l) = o.setAll l := by
  -- From the end: what is merged in has kept one entry of each id, so that its last replacement is
  -- the one that can be made once more.
  induction l using List.reverseRecOn with
  | nil => rfl
  | append_singleton l e ih =>
    rw [setAll_concat, mergedWith_set (distinct_setAll l), ih, setAll_concat]

/-- Replacements of different ids are the entries that they make. -/
theorem entries_setAll {l : List (String × Version)} (h : (l.map (·.1)).Nodup) :
    (empty.setAll l).entries = l := by
  induction l using List.reverseRecOn with
  | nil => rfl
  | append_singleton l e ih =>
    rw [List.map_append, List.map_singleton, List.nodup_append] at h
    have hlast : e.1 ∉ l.map (·.1) := fun hmem => h.2.2 _ hmem _ (List.mem_singleton_self _) rfl
    rw [setAll_concat]
    show setEntry e.1 e.2 (empty.setAll l).entries = l ++ [e]
    rw [ih h.1, setEntry_of_notMem hlast]

end Semrange.Overrides
