import Mathlib.Data.List.Basic
import Semrange.Proofs.Version.Grammar

/-!
# Reading what was written

Every version that is read can be written down and is read back as it was (`parse_text`). For a
semantic version that takes a core of writable numbers, a prerelease that is one, and no prerelease
behind a wildcard (`Semantic.Legible`); a reader returns no others (`legible_of_parse`), but there
are more, such as the ends of the lines that `~` and `^` bound. What is written is within the
grammar, so that it is read is a matter of the grammar alone (`spells_parts`, `denotes_parts`).

So no two legible versions have one text (`Version.eq_of_text_eq`). A label in particular never has
the text of a semantic version without wildcards, whichever reader has refused it.
-/

namespace Semrange

namespace Numeral

/-- The value of a numeral of at most `k` digits is less than the `k`-th power of ten. -/
theorem value_lt {l : List Char} {k : ℕ} (h : l.all Char.isDigit = true) (hk : l.length ≤ k) :
    value l < Nat.pow 10 k := by
  -- The fold starts at zero, and what it has read so far counts once for each digit to come.
  suffices hacc : ∀ n, l.foldl (fun n d => 10 * n + (d.toNat - '0'.toNat)) n <
      Nat.pow 10 l.length * (n + 1) by
    have h0 := hacc 0
    rw [Nat.zero_add, Nat.mul_one] at h0
    exact Nat.lt_of_lt_of_le h0 (Nat.pow_le_pow_right (by decide) hk)
  clear hk
  induction l with
  | nil => exact fun n => by simp
  | cons d l ih =>
    intro n
    obtain ⟨hd, hl⟩ := Bool.and_eq_true_iff.mp (List.all_cons.symm.trans h)
    have hdigit : d.toNat - '0'.toNat ≤ 9 := Nat.sub_le_sub_right (Char.isDigit_iff_toNat.mp hd).2 _
    calc (d :: l).foldl (fun n d => 10 * n + (d.toNat - '0'.toNat)) n
        < Nat.pow 10 l.length * (10 * n + (d.toNat - '0'.toNat) + 1) := ih hl _
      _ ≤ Nat.pow 10 l.length * (10 * (n + 1)) := Nat.mul_le_mul_left _ (by omega)
      _ = Nat.pow 10 (d :: l).length * (n + 1) := (Nat.mul_assoc _ _ _).symm

/-- A number below the `k`-th power of ten has a numeral of at most `k` digits. -/
theorem length_toDigits_le {n k : ℕ} (hk : 0 < k) (h : n < Nat.pow 10 k) :
    (Nat.toDigits 10 n).length ≤ k :=
  (Nat.length_toDigits_le_iff (by decide) hk).mpr h

/-- The numeral of a number denotes it. -/
theorem value_toDigits (n : ℕ) : value (Nat.toDigits 10 n) = n :=
  Nat.ofDigitChars_ten_toDigits

end Numeral

namespace Semantic

/-! ## What readers return -/

/-- A semantic version that can be written down and read again. -/
structure Legible (v : Semantic) : Prop where
  /-- The numbers of the core are not too long. -/
  writable : ∀ n ∈ v.numbers, Numeral.Writable n
  /-- The prerelease is one. -/
  prerelease : ∀ p ∈ v.prerelease, isPrerelease p.toList = true
  /-- There is no prerelease behind a wildcard. -/
  released : v.wild = true → v.prerelease = none

/-- The empty prerelease is one. -/
theorem isPrerelease_empty : ∀ p ∈ some "", isPrerelease p.toList = true := by
  rintro p ⟨⟩
  rfl

/-- A numeral within the limit denotes a writable number. -/
theorem IsShortNumeral.writable {token : List Char} (h : IsShortNumeral token) :
    Numeral.Writable (Numeral.value token) :=
  Numeral.value_lt (List.all_eq_true.mpr h.isDigit) h.length_le

/-- What a reader returns is legible, and there is a wildcard only where wildcards are allowed. -/
theorem legible_of_parse {wildcards : Bool} {s : String} {v : Semantic}
    (h : parse wildcards s = .ok v) : v.Legible ∧ (v.wild = true → wildcards = true) := by
  obtain ⟨numerals, wilds, hspells, hdenotes⟩ := ofParts_eq_ok_iff.mp h
  have hallowed : v.wild = true → _ := fun hw => hspells.allowed (hdenotes.wild_iff.mp hw)
  refine ⟨⟨?_, ?_, fun hw => ?_⟩, fun hw => (hallowed hw).1⟩
  · -- The reader takes no numeral beyond the limit.
    rw [hdenotes.numbers_eq]
    intro n hn
    obtain ⟨token, htoken, rfl⟩ := List.mem_map.mp hn
    exact (hspells.numeral token htoken).writable
  · rw [hdenotes.prerelease_eq]
    intro q hq
    obtain ⟨l, hl, rfl⟩ := Option.map_eq_some_iff.mp hq
    rw [String.toList_ofList]
    exact isPrerelease_iff.mpr (hspells.prerelease l hl)
  · -- A wildcard was allowed as no prerelease follows.
    rw [hdenotes.prerelease_eq, Option.isNone_iff_eq_none.mp (hallowed hw).2]
    rfl

/-! ## What writing leaves to read -/

/-- The parts of the text of a version. -/
def parts (v : Semantic) : Parts :=
  ⟨['.'].intercalate (v.components.map Component.chars), v.prerelease.map String.toList,
    v.build.map String.toList⟩

/-- The text of a version is put together from its parts. -/
theorem chars_parts (v : Semantic) : v.parts.chars = v.chars := by
  simp only [Parts.chars, parts, chars, Option.map_map]
  rfl

/-- The numerals in the text of a version. -/
def numerals (v : Semantic) : List (List Char) :=
  v.numbers.map (Nat.toDigits 10)

/-- The wildcards in the text of a version: one, if it has any. -/
def wilds (v : Semantic) : List (List Char) :=
  if v.wild then [['x']] else []

/-- The numeral of a writable number is within the limit. -/
theorem isShortNumeral_toDigits {n : ℕ} (h : Numeral.Writable n) :
    IsShortNumeral (Nat.toDigits 10 n) where
  ne_nil := Nat.toDigits_ne_nil
  isDigit := fun _ hc => Nat.isDigit_of_mem_toDigits (by decide) (by decide) hc
  length_le := Numeral.length_toDigits_le (by decide) h

/-- The written components are the numerals and the wildcard. -/
theorem map_chars_components (v : Semantic) :
    v.components.map Component.chars = v.numerals ++ v.wilds := by
  rw [components, List.map_append, List.map_map, numerals, wilds]
  cases v.wild <;> rfl

/-- The text of a legible version is within the grammar, where wildcards are allowed if it has
one. -/
theorem spells_parts {wildcards : Bool} {v : Semantic} (h : v.Legible)
    (hwild : v.wild = true → wildcards = true) : Spells wildcards v.parts v.numerals v.wilds where
  numeral := by
    intro t ht
    obtain ⟨n, hn, rfl⟩ := List.mem_map.mp ht
    exact isShortNumeral_toDigits (h.writable n hn)
  wild := by
    unfold wilds
    cases v.wild with
    | false => exact List.forall_mem_nil _
    | true => decide
  allowed := by
    intro hne
    -- There is a wildcard to write only where the version has one.
    have hw : v.wild = true := by
      by_contra hnot
      exact hne (if_neg hnot)
    refine ⟨hwild hw, ?_⟩
    rw [parts, h.released hw]
    rfl
  core_eq := congrArg (['.'].intercalate ·) v.map_chars_components
  numerals_ne_nil := List.cons_ne_nil _ _
  prerelease := by
    intro l hl
    obtain ⟨p, hp, rfl⟩ := Option.map_eq_some_iff.mp hl
    exact isPrerelease_iff.mp (h.prerelease p hp)

/-- The text of a version denotes it. -/
theorem denotes_parts (v : Semantic) : Denotes v.parts v.numerals v.wilds v := by
  -- The texts of the prerelease and the build are taken apart and put together again.
  have hback : ∀ o : Option String, o = (o.map String.toList).map String.ofList := by
    intro o
    cases o with
    | none => rfl
    | some s => exact congrArg some String.ofList_toList.symm
  refine ⟨?_, ?_, hback v.prerelease, hback v.build⟩
  · rw [numerals, List.map_map]
    exact (List.map_id'' Numeral.value_toDigits v.numbers).symm
  · unfold wilds
    cases v.wild <;> simp

/-- A legible version is read back from its text, where wildcards are allowed if it has one. -/
theorem parse_text {wildcards : Bool} {v : Semantic} (h : v.Legible)
    (hwild : v.wild = true → wildcards = true) : parse wildcards v.text = .ok v := by
  rw [text, ← chars_parts]
  exact (spells_parts h hwild).parse_chars v.denotes_parts

end Semantic

namespace Version

/-! ## Versions of both kinds -/

/-- A version that can be told from all others by its text: a legible one without wildcards, or a
label that a reader of semantic versions refuses. -/
def Legible : Version → Prop
  | .semantic v => v.wild = false ∧ v.Legible
  | .label name => ∃ wildcards cause, Semantic.parse wildcards name = .error (.malformed cause)

/-- A semantic version is read by the reader of semantic versions. -/
theorem semantic_parse_of_parse {wildcards : Bool} {s : String} {u : Semantic}
    (h : parse wildcards s = .ok (.semantic u)) : Semantic.parse wildcards s = .ok u := by
  rcases (parse_eq_ok_iff.mp h).2 with ⟨_, ⟨⟩, hu⟩ | ⟨hlabel, -⟩
  · exact hu
  · exact absurd hlabel nofun

/-- A label is a text that the reader of semantic versions refuses. -/
theorem malformed_of_parse {wildcards : Bool} {s name : String}
    (h : parse wildcards s = .ok (.label name)) :
    s = name ∧ ∃ cause, Semantic.parse wildcards s = .error (.malformed cause) := by
  rcases (parse_eq_ok_iff.mp h).2 with ⟨_, hsemantic, -⟩ | ⟨⟨⟩, hmalformed⟩
  · exact absurd hsemantic nofun
  · exact ⟨rfl, hmalformed⟩

/-- What is read is legible, but for the wildcards of a semantic version. -/
theorem legible_of_parse {wildcards : Bool} {s : String} {v : Version}
    (h : parse wildcards s = .ok v) (hwild : ∀ u, v = .semantic u → u.wild = false) :
    v.Legible := by
  cases v with
  | semantic u => exact ⟨hwild u rfl, (Semantic.legible_of_parse (semantic_parse_of_parse h)).1⟩
  | label name =>
    obtain ⟨rfl, cause, hmalformed⟩ := malformed_of_parse h
    exact ⟨wildcards, cause, hmalformed⟩

/-- What is read where wildcards are not allowed is legible. -/
theorem legible_of_parse_false {s : String} {v : Version} (h : parse false s = .ok v) :
    v.Legible := by
  refine legible_of_parse h fun u hu => Bool.eq_false_iff.mpr fun hw => ?_
  rw [hu] at h
  exact absurd ((Semantic.legible_of_parse (semantic_parse_of_parse h)).2 hw) nofun

/-- A label that a reader refuses has not the text of a legible version without wildcards. -/
theorem text_ne_of_malformed {u : Semantic} (hw : u.wild = false) (hu : u.Legible) {name : String}
    (hn : Version.Legible (.label name)) : u.text ≠ name := by
  rintro rfl
  obtain ⟨wildcards, cause, hmalformed⟩ := hn
  rw [Semantic.parse_text hu fun h => absurd (hw.symm.trans h) nofun] at hmalformed
  exact absurd hmalformed nofun

/-- Legible versions with one text are one version. -/
theorem eq_of_text_eq {u v : Version} (hu : u.Legible) (hv : v.Legible) (h : u.text = v.text) :
    u = v := by
  cases u with
  | semantic a =>
    cases v with
    | semantic b =>
      -- A reader gives both back from the one text.
      have ha : Semantic.parse true a.text = .ok a := Semantic.parse_text hu.2 fun _ => rfl
      have hb : Semantic.parse true b.text = .ok b := Semantic.parse_text hv.2 fun _ => rfl
      rw [show a.text = b.text from h, hb] at ha
      exact congrArg Version.semantic (Except.ok.inj ha).symm
    | label t => exact absurd h (text_ne_of_malformed hu.1 hu.2 hv)
  | label s =>
    cases v with
    | semantic b => exact absurd h.symm (text_ne_of_malformed hv.1 hv.2 hu)
    | label t => exact congrArg Version.label h

/-! ## Texts of versions that have been read -/

/-- No semantic version is read from nothing. -/
theorem semantic_parse_empty (wildcards : Bool) :
    Semantic.parse wildcards "" = .error (.malformed .noComponent) := by
  cases wildcards <;> rfl

/-- A legible version is read from its text also where labels are let in. -/
theorem parse_semantic_text {wildcards : Bool} {u : Semantic} (h : u.Legible)
    (hwild : u.wild = true → wildcards = true) : parse wildcards u.text = .ok (.semantic u) := by
  have hread := Semantic.parse_text h hwild
  refine parse_eq_ok_iff.mpr ⟨fun hempty => ?_, Or.inl ⟨u, rfl, hread⟩⟩
  rw [hempty, semantic_parse_empty] at hread
  exact absurd hread nofun

/-- A version that has been read is read again from its text. -/
theorem parse_text_of_parse {wildcards : Bool} {s : String} {v : Version}
    (h : parse wildcards s = .ok v) : parse wildcards v.text = .ok v := by
  cases v with
  | semantic u =>
    obtain ⟨hlegible, hwild⟩ := Semantic.legible_of_parse (semantic_parse_of_parse h)
    exact parse_semantic_text hlegible hwild
  | label name =>
    obtain ⟨rfl, -⟩ := malformed_of_parse h
    exact h

/-- A version that has been read is read back from its text, and no other version that is read with
the same allowance for wildcards has that text, so it tells semantic versions from labels. -/
theorem text_round_trip {wildcards : Bool} {s : String} {v : Version}
    (h : parse wildcards s = .ok v) :
    (∃ u, parse wildcards v.text = .ok u ∧ u = v ∧ u.text = v.text) ∧
      (∀ t u, parse wildcards t = .ok u → u.text = v.text → u = v) ∧
      ∀ t u, parse wildcards t = .ok u → u.isSemantic ≠ v.isSemantic → u.text ≠ v.text := by
  have hread := parse_text_of_parse h
  have hinj : ∀ t u, parse wildcards t = .ok u → u.text = v.text → u = v := by
    intro t u hu htext
    -- Both are what the reader gives for the one text.
    have hback := parse_text_of_parse hu
    rw [htext, hread] at hback
    exact (Except.ok.inj hback).symm
  refine ⟨⟨v, hread, rfl, rfl⟩, hinj, fun t u hu hkind htext => hkind ?_⟩
  rw [hinj t u hu htext]

/-- A version with leading zeros, two spellings of a wildcard and a build with signs of its own. -/
theorem text_round_trip_line :
    let v : Version := .semantic ⟨1, [2], true, none, some "b-1+c"⟩
    parse true "01.2.X.*+b-1+c" = .ok v ∧ v.text = "1.2.x+b-1+c" ∧
      ∃ u, parse true v.text = .ok u ∧ u = v ∧ u.text = v.text := by
  intro v
  have h : parse true "01.2.X.*+b-1+c" = .ok v := by decide +kernel
  exact ⟨h, by decide +kernel, (text_round_trip h).1⟩

end Version

end Semrange
