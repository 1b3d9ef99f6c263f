import Mathlib.Data.List.DropRight
import Mathlib.Data.List.GetD
import Semrange.Proofs.Version.Preorder

/-!
# Versions that are the same

Two versions are the same just when they have one key: the components without the zeros at the end,
the prerelease and the build (`same_iff_key_eq`). Equality looks at the components with a pad behind
them and the key has a pad taken away, so this comes down to lists: two of them agree at every place
when they are padded just when they are one list when they are stripped of the pad
(`rdropWhile_eq_iff`). The canonical version of a class of same versions is the one with the key as
its components (`same_iff_canonical_eq`).

Versions that are the same stand alike in the order to every third one, with or without wildcards
(`compare_congr`).
-/

namespace Semrange

/-! ## Lists with a pad -/

section

variable {α : Type*} [BEq α] [LawfulBEq α] {pad : α}

/-- Stripping a list of its pad makes no difference to the padded list. -/
theorem getD_rdropWhile (l : List α) (pos : ℕ) :
    (l.rdropWhile (· == pad)).getD pos pad = l.getD pos pad := by
  have hsplit : l.rdropWhile (· == pad) ++ l.rtakeWhile (· == pad) = l :=
    List.rdropWhile_append_rtakeWhile
  have hpad : ∀ x ∈ l.rtakeWhile (· == pad), x = pad :=
    fun x hx => beq_iff_eq.mp (List.mem_rtakeWhile_imp (p := (· == pad)) hx)
  by_cases hpos : pos < (l.rdropWhile (· == pad)).length
  · conv_rhs => rw [← hsplit]
    rw [List.getD_append _ _ _ _ hpos]
  · have hle : (l.rdropWhile (· == pad)).length ≤ pos := not_lt.mp hpos
    conv_rhs => rw [← hsplit]
    rw [List.getD_append_right _ _ _ _ hle, List.getD_eq_default _ _ hle]
    -- What was taken away is nothing but the pad.
    rw [List.getD_eq_getElem?_getD]
    cases hget : (l.rtakeWhile (· == pad))[pos - (l.rdropWhile (· == pad)).length]? with
    | none => rfl
    | some x => exact (hpad x (List.mem_of_getElem? hget)).symm

/-- A stripped list is no longer than a list that it agrees with when both are padded. -/
theorem length_rdropWhile_le {l m : List α}
    (h : ∀ pos, (l.rdropWhile (· == pad)).getD pos pad = m.getD pos pad) :
    (l.rdropWhile (· == pad)).length ≤ m.length := by
  by_contra hlt
  have hne : l.rdropWhile (· == pad) ≠ [] := by
    intro hnil
    rw [hnil] at hlt
    exact hlt (Nat.zero_le _)
  have hlast := List.rdropWhile_last_not (· == pad) l hne
  -- The last member of the longer list would be the pad of the shorter one.
  have hend := h ((l.rdropWhile (· == pad)).length - 1)
  rw [List.getD_eq_default m _ (by omega), List.getD_eq_getElem _ _ (by omega)] at hend
  rw [List.getLast_eq_getElem, hend] at hlast
  exact hlast (beq_self_eq_true pad)

/-- Two lists agree when they are padded just when they are one list when they are stripped. -/
theorem rdropWhile_eq_iff {l m : List α} :
    l.rdropWhile (· == pad) = m.rdropWhile (· == pad) ↔
      ∀ pos, l.getD pos pad = m.getD pos pad := by
  constructor
  · intro h pos
    rw [← getD_rdropWhile l, h, getD_rdropWhile]
  · intro h
    -- Neither of the stripped lists is longer than the other, so they are compared place by place.
    have hagree : ∀ pos, (l.rdropWhile (· == pad)).getD pos pad =
        (m.rdropWhile (· == pad)).getD pos pad := by
      intro pos
      rw [getD_rdropWhile, getD_rdropWhile, h]
    have hlength : (l.rdropWhile (· == pad)).length = (m.rdropWhile (· == pad)).length :=
      le_antisymm (length_rdropWhile_le hagree)
        (length_rdropWhile_le fun pos => (hagree pos).symm)
    refine List.ext_getElem hlength fun pos hl hm => ?_
    rw [← List.getD_eq_getElem _ pad hl, ← List.getD_eq_getElem _ pad hm]
    exact hagree pos

end

namespace Semantic

/-! ## Keys -/

/-- A list of components without the zeros at its end, but with its first component in any case. -/
def strip : List Component → List Component
  | [] => []
  | k :: l => k :: l.rdropWhile (· == .number 0)

/-- What identifies a version: its stripped components, its prerelease and its build. -/
def key (v : Semantic) : List Component × Option String × Option String :=
  (strip v.components, v.prerelease, v.build)

/-- Without a wildcard the components are the numbers. -/
theorem components_of_not_wild {v : Semantic} (hv : v.wild = false) :
    v.components = .number v.major :: v.rest.map Component.number := by
  rw [components, if_neg (Bool.eq_false_iff.mp hv), List.append_nil]
  rfl

/-- A wildcard is the last component. -/
theorem components_of_wild {v : Semantic} (hv : v.wild = true) :
    v.components = .number v.major :: (v.rest.map Component.number ++ [.wildcard]) := by
  rw [components, if_pos hv]
  rfl

/-- Nothing is stripped of a core that ends in a wildcard. -/
theorem strip_components_of_wild {v : Semantic} (hv : v.wild = true) :
    strip v.components = v.components := by
  have hlast : (v.rest.map Component.number ++ [Component.wildcard]).rdropWhile
      (· == Component.number 0) = v.rest.map Component.number ++ [Component.wildcard] :=
    List.rdropWhile_concat_neg _ _ _ (by decide)
  rw [components_of_wild hv, strip, hlast]

/-- There is a wildcard among the components just when the core ends in one. -/
theorem wildcard_mem_components_iff {v : Semantic} :
    Component.wildcard ∈ v.components ↔ v.wild = true := by
  cases hv : v.wild with
  | false => simp [components_of_not_wild hv]
  | true => simp [components_of_wild hv]

/-- Stripping takes no wildcard away. -/
theorem wildcard_mem_strip_iff {v : Semantic} :
    Component.wildcard ∈ strip v.components ↔ v.wild = true := by
  cases hv : v.wild with
  | true => rw [strip_components_of_wild hv, wildcard_mem_components_iff, hv]
  | false =>
    refine iff_of_false (fun hmem => ?_) Bool.false_ne_true
    rw [components_of_not_wild hv, strip] at hmem
    rcases List.mem_cons.mp hmem with h | h
    · cases h
    · obtain ⟨n, -, hn⟩ := List.mem_map.mp ((List.rdropWhile_prefix _ _).subset h)
      cases hn

/-- The components of the canonical version are the stripped ones. -/
theorem components_canonical (v : Semantic) : v.canonical.components = strip v.components := by
  cases hv : v.wild with
  | true =>
    have hsame : v.canonical = v := if_pos hv
    rw [hsame, strip_components_of_wild hv]
  | false =>
    -- Dropping zeros from the numbers is dropping zeros from the components.
    have hshort : v.canonical = { v with rest := dropTrailingZeros v.rest } :=
      if_neg (Bool.eq_false_iff.mp hv)
    have hzero : ((· == Component.number 0) ∘ Component.number) = (· == 0) := by
      funext n
      simp
    have hmap : (v.rest.map Component.number).rdropWhile (· == .number 0) =
        (dropTrailingZeros v.rest).map Component.number := by
      rw [List.rdropWhile, ← List.map_reverse, List.dropWhile_map, ← List.map_reverse, hzero]
      rfl
    have hleft := components_of_not_wild (v := { v with rest := dropTrailingZeros v.rest }) hv
    rw [hshort, hleft, components_of_not_wild hv, strip, hmap]

/-! ## Equality -/

/-- Cores are the same when they agree in every component, written or not. -/
theorem sameCore_iff {a b : Semantic} :
    a.SameCore b ↔ ∀ pos, a.component pos = b.component pos :=
  ⟨SameCore.component_eq, fun h pos _ => h pos⟩

/-- Without a wildcard the components are the first number and then the others, padded with
zeros. -/
theorem component_of_not_wild {v : Semantic} (hv : v.wild = false) (pos : ℕ) :
    v.component pos =
      (Component.number v.major :: v.rest.map Component.number).getD pos (.number 0) := by
  have hpad : v.pad = .number 0 := by rw [pad, hv]; rfl
  rw [component_eq_getD, hpad]
  rfl

/-- The numbers of a core that ends in a wildcard are what is left when the wildcards are
stripped. -/
theorem rdropWhile_wildcard (l : List ℕ) :
    (l.map Component.number).rdropWhile (· == .wildcard) = l.map Component.number := by
  rw [List.rdropWhile_eq_self_iff]
  intro hne hlast
  obtain ⟨n, -, hn⟩ := List.mem_map.mp (List.getLast_mem hne)
  rw [← hn] at hlast
  cases hlast

/-- Two cores without wildcards are one list when they are stripped, just when they agree in every
component. -/
theorem strip_eq_iff_of_not_wild {a b : Semantic} (ha : a.wild = false) (hb : b.wild = false) :
    strip a.components = strip b.components ↔ ∀ pos, a.component pos = b.component pos := by
  rw [components_of_not_wild ha, components_of_not_wild hb, strip, strip, List.cons_eq_cons,
    rdropWhile_eq_iff]
  simp only [component_of_not_wild ha, component_of_not_wild hb]
  -- The first component is never stripped, and is the one at the first place.
  constructor
  · rintro ⟨hfirst, hrest⟩ pos
    cases pos with
    | zero => exact hfirst
    | succ pos => exact hrest pos
  · intro h
    exact ⟨h 0, fun pos => h (pos + 1)⟩

/-- Two cores that end in wildcards are one list when they are stripped, just when they agree in
every component. -/
theorem strip_eq_iff_of_wild {a b : Semantic} (ha : a.wild = true) (hb : b.wild = true) :
    strip a.components = strip b.components ↔ ∀ pos, a.component pos = b.component pos := by
  rw [strip_components_of_wild ha, strip_components_of_wild hb]
  constructor
  · intro h pos
    rw [component, component, h, pad, pad, ha, hb]
  · intro h
    have hpada : a.pad = .wildcard := by rw [pad, ha]; rfl
    have hpadb : b.pad = .wildcard := by rw [pad, hb]; rfl
    -- No number is a wildcard, so the numbers are what is left when the wildcards are taken away.
    have hnumbers : a.numbers.map Component.number = b.numbers.map Component.number := by
      rw [← rdropWhile_wildcard, ← rdropWhile_wildcard b.numbers, rdropWhile_eq_iff]
      intro pos
      have hpos := h pos
      rw [component_eq_getD, component_eq_getD, hpada, hpadb] at hpos
      exact hpos
    rw [components, components, hnumbers, ha, hb]

/-- Cores are the same when they are one list when they are stripped. -/
theorem sameCore_iff_strip_eq {a b : Semantic} :
    a.SameCore b ↔ strip a.components = strip b.components := by
  -- Either way the two cores end alike.
  have hcomponents : a.wild = b.wild →
      (strip a.components = strip b.components ↔ ∀ pos, a.component pos = b.component pos) := by
    intro hwild
    cases hb : b.wild with
    | false => exact strip_eq_iff_of_not_wild (hwild.trans hb) hb
    | true => exact strip_eq_iff_of_wild (hwild.trans hb) hb
  constructor
  · intro h
    exact (hcomponents h.wild_eq).mpr (sameCore_iff.mp h)
  · intro h
    have hwild : a.wild = b.wild := by
      rw [Bool.eq_iff_iff, ← wildcard_mem_strip_iff, ← wildcard_mem_strip_iff, h]
    exact sameCore_iff.mpr ((hcomponents hwild).mp h)

/-- Two versions are the same when they have one key. -/
theorem same_iff_key_eq {a b : Semantic} : a.Same b ↔ a.key = b.key := by
  rw [Same, sameCore_iff_strip_eq, key, key, Prod.mk.injEq, Prod.mk.injEq]

/-- A version is its components, its prerelease and its build. -/
theorem eq_of_components_eq {a b : Semantic} (h : a.components = b.components)
    (hprerelease : a.prerelease = b.prerelease) (hbuild : a.build = b.build) : a = b := by
  have hwild : a.wild = b.wild := by
    rw [Bool.eq_iff_iff, ← wildcard_mem_components_iff, ← wildcard_mem_components_iff, h]
  have hnumbers : a.numbers = b.numbers := by
    rw [components, components, hwild] at h
    exact List.map_injective_iff.mpr (fun _ _ => Component.number.inj) (List.append_cancel_right h)
  obtain ⟨major, rest, wild, prerelease, build⟩ := a
  obtain ⟨hmajor, hrest⟩ := List.cons_eq_cons.mp hnumbers
  subst hmajor hrest hwild hprerelease hbuild
  rfl

/-- Two versions are the same when they have one canonical version. -/
theorem same_iff_canonical_eq {a b : Semantic} : a.Same b ↔ a.canonical = b.canonical := by
  -- Only the core is made canonical.
  have hkeep : ∀ v : Semantic, v.canonical.prerelease = v.prerelease ∧
      v.canonical.build = v.build := by
    intro v
    unfold canonical
    split <;> exact ⟨rfl, rfl⟩
  constructor
  · rintro ⟨hcore, hprerelease, hbuild⟩
    refine eq_of_components_eq ?_ ?_ ?_
    · rw [components_canonical, components_canonical, sameCore_iff_strip_eq.mp hcore]
    · rw [(hkeep a).1, (hkeep b).1, hprerelease]
    · rw [(hkeep a).2, (hkeep b).2, hbuild]
  · intro h
    refine ⟨sameCore_iff_strip_eq.mpr ?_, ?_, ?_⟩
    · rw [← components_canonical, ← components_canonical, h]
    · rw [← (hkeep a).1, ← (hkeep b).1, h]
    · rw [← (hkeep a).2, ← (hkeep b).2, h]

/-- Being the same is an equivalence. -/
theorem same_equivalence : Equivalence Same where
  refl _ := same_iff_key_eq.mpr rfl
  symm h := same_iff_key_eq.mpr (same_iff_key_eq.mp h).symm
  trans h h' := same_iff_key_eq.mpr ((same_iff_key_eq.mp h).trans (same_iff_key_eq.mp h'))

/-! ## Order -/

/-- A core compares alike with every other one whether or not it is padded further, as long as its
pad and the other one's agree. -/
theorem compareCores_congr {padA padB : Component} (hpads : padA.compare padB = .eq)
    {l l' : List ℕ} (h : ∀ pos, (l.map Component.number).getD pos padA =
      (l'.map Component.number).getD pos padA) (m : List ℕ) :
    compareCores padA padB l m = compareCores padA padB l' m := by
  -- A core without numbers left goes on like one whose numbers are the pad.
  have hnil : ∀ {k : List ℕ} (m : List ℕ),
      (∀ pos, padA = (k.map Component.number).getD pos padA) →
        compareCores padA padB [] m = compareCores padA padB k m := by
    intro k
    induction k with
    | nil => exact fun _ _ => rfl
    | cons x k ih =>
      intro m hk
      have hx : padA = .number x := hk 0
      have htail : ∀ pos, padA = (k.map Component.number).getD pos padA := fun pos => hk (pos + 1)
      cases m with
      | nil =>
        rw [compareCores, compareCores, ← hx, hpads, ← ih [] htail]
        rfl
      | cons b m =>
        rw [compareCores, comparePad, compareCores, ← ih m htail, compareCores]
        nth_rewrite 1 [hx]
        rfl
  -- Where one of the two cores ends, the other one goes on with the pad.
  induction l generalizing l' m with
  | nil => exact hnil m h
  | cons a l ih =>
    cases l' with
    | nil => exact (hnil m fun pos => (h pos).symm).symm
    | cons a' l' =>
      obtain rfl : a = a' := Component.number.inj (h 0)
      have htail := ih fun pos => h (pos + 1)
      cases m with
      | nil => rw [compareCores, compareCores, htail]
      | cons b m => rw [compareCores, compareCores, htail]

/-- Versions that are the same compare alike with every third one. -/
theorem compare_congr {a b : Semantic} (h : a.Same b) (c : Semantic) :
    a.compare c = b.compare c := by
  obtain ⟨hcore, hprerelease, -⟩ := h
  have hpad : a.pad = b.pad := by rw [pad, pad, hcore.wild_eq]
  -- A pad is a zero or a wildcard, which is equal to everything, so two pads never differ.
  have hpads : a.pad.compare c.pad = .eq := by
    unfold pad
    cases a.wild <;> cases c.wild <;> rfl
  have hcores : compareCores a.pad c.pad a.numbers c.numbers =
      compareCores a.pad c.pad b.numbers c.numbers := by
    refine compareCores_congr hpads (fun pos => ?_) c.numbers
    have hpos := hcore.component_eq pos
    rw [component_eq_getD, component_eq_getD, ← hpad] at hpos
    exact hpos
  unfold Semantic.compare
  rw [hcores, hpad, hcore.wild_eq, hprerelease]

/-- Versions that are the same compare alike with every third one, also the other way around. -/
theorem compare_congr_right {a b : Semantic} (h : a.Same b) (c : Semantic) :
    c.compare a = c.compare b := by
  rw [compare_eq_swap c a, compare_congr h c, ← compare_eq_swap]

end Semantic

end Semrange
