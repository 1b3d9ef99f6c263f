import Semrange.Proofs.Predicate.Agreement

/-!
# Reading predicates that were written

The text of a term that has been read is a word, and the word is read as that term
(`readable_of_readTerm`). An operator is found again in front of a version, since a semantic version
starts with a digit and a label stands behind an equality sign, whatever it starts with
(`split_append`). The version is found again by the round trip of versions; a line, which is written
without its wildcard, is a version like any other. No blank gets into the word: only a build may
have characters of all kinds, and those of the build stood in a word before (`mem_of_mem_build`).

So the text of a predicate falls apart into the words of its terms, and it is read as that predicate
(`text_reads_back`).
-/

namespace Semrange

namespace Semantic

/-! ## Characters of a version -/

/-- The text of a legible version has no blanks if its build has none. -/
theorem isBlank_eq_false_of_mem_text {v : Semantic} (h : v.Legible)
    (hbuild : ∀ b ∈ v.build, ∀ c ∈ b.toList, Text.isBlank c = false) :
    ∀ c ∈ v.text.toList, Text.isBlank c = false := by
  have hspells : Spells true v.parts v.numerals v.wilds := spells_parts h fun _ => rfl
  intro c hc
  rw [text, String.toList_ofList, ← chars_parts] at hc
  -- A character is of the core, of the prerelease or of the build, or one of the signs before
  -- these.
  rcases Parts.of_mem_chars hc with hcore | ⟨l, hl, rfl | hpre⟩ | ⟨l, hl, rfl | hmem⟩
  · rcases hspells.of_mem_core hcore with rfl | hdigit | hwild
    · decide
    · exact Text.isBlank_eq_false_of_isDigit hdigit
    · rcases List.mem_cons.mp hwild with rfl | hwild
      · decide
      · rcases List.mem_pair.mp hwild with rfl | rfl <;> decide
  · decide
  · rcases (hspells.prerelease l hl).of_mem hpre with rfl | halnum | rfl
    · decide
    · exact Text.isBlank_eq_false_of_isAlphanum halnum
    · decide
  · decide
  · obtain ⟨b, hb, rfl⟩ := Option.map_eq_some_iff.mp hl
    exact hbuild b hb c hmem

/-- The build of a version that has been read stood in the text. -/
theorem mem_of_mem_build {wildcards : Bool} {s : String} {v : Semantic}
    (h : parse wildcards s = .ok v) : ∀ b ∈ v.build, ∀ c ∈ b.toList, c ∈ s.toList := by
  obtain ⟨numerals, wilds, -, hdenotes⟩ := ofParts_eq_ok_iff.mp h
  intro b hb c hc
  rw [hdenotes.build_eq] at hb
  obtain ⟨l, hl, rfl⟩ := Option.map_eq_some_iff.mp hb
  rw [String.toList_ofList] at hc
  rw [← (Parts.of_iff.mpr rfl : (Parts.ofChars s.toList).Of s.toList).chars_eq, Parts.chars, hl]
  exact List.mem_append_right _ (List.mem_cons_of_mem '+' hc)

/-- The text of a version starts with a digit. -/
theorem exists_text_eq_cons (v : Semantic) :
    ∃ c l, v.text.toList = c :: l ∧ c.isDigit = true := by
  obtain ⟨c, l, hl⟩ := List.exists_cons_of_ne_nil (Nat.toDigits_ne_nil (n := v.major) (b := 10))
  have hdigit : c.isDigit = true :=
    Nat.isDigit_of_mem_toDigits (by decide) (by decide) (hl ▸ List.mem_cons_self)
  -- In front is the numeral of the major version.
  have hcore : v.parts.core =
      c :: ['.'].intercalate (l :: (v.rest.map (Nat.toDigits 10) ++ v.wilds)) := by
    rw [parts, map_chars_components, numerals, numbers, List.map_cons, List.cons_append, hl,
      List.intercalate_cons_cons_left]
  rw [text, String.toList_ofList, ← chars_parts, Parts.chars, hcore]
  exact ⟨c, _, rfl, hdigit⟩

end Semantic

/-! ## Operators -/

/-- What is behind the operator of a token is in the token. -/
theorem Operator.mem_of_mem_split {token : List Char} {c : Char} (h : c ∈ (split token).2) :
    c ∈ token := by
  rw [split] at h
  cases hfind : all.find? fun op => op.chars.isPrefixOf token with
  | none =>
    rw [hfind] at h
    exact h
  | some op =>
    rw [hfind] at h
    exact List.mem_of_mem_drop h

/-- An operator is split off again, unless an equality sign behind it makes another one of it. -/
theorem Operator.split_append {op : Operator} {rest : List Char}
    (h : rest.head? = some '=' → op = .equal) : split (op.chars ++ rest) = (op, rest) := by
  have hne : ∀ c l, rest = c :: l → op ≠ .equal → ('=' == c) = false := by
    rintro c l rfl hop
    refine beq_eq_false_iff_ne.mpr ?_
    rintro rfl
    exact hop (h rfl)
  -- Only these two are the beginnings of other operators.
  cases op with
  | above | below =>
    cases rest with
    | nil => rfl
    | cons c l =>
      have hc := hne c l rfl nofun
      simp only [split, all, List.find?_cons]
      simp [chars, List.isPrefixOf, hc]
  | atLeast | atMost | equal | sameMinor | sameMajor => rfl

/-- There is no blank in an operator. -/
theorem Operator.isBlank_eq_false_of_mem_chars (op : Operator) :
    ∀ c ∈ op.chars, Text.isBlank c = false := by
  have hall : (op.chars.all fun c => !Text.isBlank c) = true := by cases op <;> decide
  intro c hc
  simpa using List.all_eq_true.mp hall c hc

/-! ## Terms -/

namespace Term

/-- A term that is written as a word and read off it again. -/
structure Readable (t : Term) : Prop where
  /-- It is read off its text. -/
  readTerm_text : Predicate.readTerm t.text.toList = .ok t
  /-- There is no blank in its text. -/
  isBlank_text : ∀ c ∈ t.text.toList, Text.isBlank c = false

/-- The text of a term is that of its operator and that of its reference. -/
theorem toList_text (t : Term) : t.text.toList = t.operator.chars ++ t.reference.text.toList := by
  rw [text, String.toList_append, Operator.text, String.toList_ofList]

/-- The text of a term is not empty and no star, since there is an operator in front. -/
theorem text_ne (t : Term) : t.text.toList ≠ [] ∧ t.text.toList ≠ ['*'] := by
  have hhead : ∀ op : Operator, ∀ l, op.chars ++ l ≠ [] ∧ op.chars ++ l ≠ ['*'] := by
    intro op l
    cases op <;> exact ⟨List.cons_ne_nil _ _, fun h => absurd (List.cons.inj h).1 (by decide)⟩
  rw [toList_text]
  exact hhead t.operator t.reference.text.toList

/-- An operator and a version that go together are read off their text where the version is read off
its own and does not make another operator of this one. -/
theorem readTerm_text_of_parse {op : Operator} {v : Version}
    (hhead : v.text.toList.head? = some '=' → op = .equal)
    (hv : Version.parse true v.text = .ok v) (hmake : Predicate.makeTerm op v = .ok ⟨op, v⟩) :
    Predicate.readTerm (Term.mk op v).text.toList = .ok ⟨op, v⟩ := by
  have hsome : v.text.toList ≠ [] := by
    intro hnil
    refine (Version.parse_eq_ok_iff.mp hv).1 ?_
    rw [← String.ofList_toList (s := v.text), hnil]
  rw [toList_text]
  refine Predicate.readTerm_eq_ok_iff.mpr ?_
  rw [Operator.split_append hhead, String.ofList_toList]
  exact ⟨hsome, v, hv, hmake⟩

/-- An operator with a legible semantic version without blanks is read off its text. -/
theorem readable_of_semantic (op : Operator) {u : Semantic} (hw : u.wild = false) (hu : u.Legible)
    (hbuild : ∀ b ∈ u.build, ∀ c ∈ b.toList, Text.isBlank c = false) :
    (Term.mk op (.semantic u)).Readable := by
  obtain ⟨c, l, htext, hdigit⟩ := u.exists_text_eq_cons
  constructor
  · refine readTerm_text_of_parse (fun hhead => ?_) ?_ ?_
    · -- The text of the version starts with a digit, which is no equality sign.
      rw [show (Version.semantic u).text.toList = c :: l from htext, List.head?_cons] at hhead
      rw [Option.some.inj hhead] at hdigit
      exact absurd hdigit (by decide)
    · exact Version.parse_semantic_text hu fun h => absurd (hw.symm.trans h) nofun
    · exact Predicate.makeTerm_eq_ok_iff.mpr (Or.inl ⟨u, rfl, hw, rfl⟩)
  · rw [toList_text]
    exact List.forall_mem_append.mpr
      ⟨op.isBlank_eq_false_of_mem_chars, Semantic.isBlank_eq_false_of_mem_text hu hbuild⟩

/-- A label without blanks that was refused as a semantic version is read off its text, behind an
equality sign. -/
theorem readable_of_label {name : String} (h : Version.parse true name = .ok (.label name))
    (hblank : ∀ c ∈ name.toList, Text.isBlank c = false) :
    (Term.mk .equal (.label name)).Readable := by
  constructor
  · exact readTerm_text_of_parse (fun _ => rfl) h
      (Predicate.makeTerm_eq_ok_iff.mpr (Or.inr (Or.inr ⟨name, rfl, rfl, rfl⟩)))
  · rw [toList_text]
    exact List.forall_mem_append.mpr ⟨Operator.isBlank_eq_false_of_mem_chars .equal, hblank⟩

/-- A term that was read off a word without blanks is read off its own text. -/
theorem readable_of_readTerm {word : List Char} {t : Term}
    (h : Predicate.readTerm word = .ok t) (hword : ∀ c ∈ word, Text.isBlank c = false) :
    t.Readable := by
  obtain ⟨-, v, hv, hmake⟩ := Predicate.readTerm_eq_ok_iff.mp h
  have hrest : ∀ c ∈ (String.ofList (Operator.split word).2).toList, Text.isBlank c = false := by
    intro c hc
    rw [String.toList_ofList] at hc
    exact hword c (Operator.mem_of_mem_split hc)
  have hsemantic : ∀ u, v = .semantic u →
      u.Legible ∧ ∀ b ∈ u.build, ∀ c ∈ b.toList, Text.isBlank c = false := by
    rintro u rfl
    have hu := Version.semantic_parse_of_parse hv
    exact ⟨(Semantic.legible_of_parse hu).1,
      fun b hb c hc => hrest c (Semantic.mem_of_mem_build hu b hb c hc)⟩
  -- What is read is a version without a wildcard, a line or a label.
  rcases Predicate.makeTerm_eq_ok_iff.mp hmake with
    ⟨u, rfl, hw, rfl⟩ | ⟨u, rfl, -, hline⟩ | ⟨name, rfl, -, rfl⟩
  · obtain ⟨hu, hbuild⟩ := hsemantic u rfl
    exact readable_of_semantic _ hw hu hbuild
  · -- The line is written without the wildcard, with the empty prerelease in its place.
    obtain ⟨hu, hbuild⟩ := hsemantic u rfl
    obtain ⟨-, line, -, rfl⟩ := Predicate.expandWildcard_eq_ok_iff.mp hline
    exact readable_of_semantic line rfl ⟨hu.writable, Semantic.isPrerelease_empty, nofun⟩ hbuild
  · obtain ⟨hname, -⟩ := Version.malformed_of_parse hv
    rw [hname] at hv hrest
    exact readable_of_label hv hrest

end Term

/-! ## Predicates -/

/-- A version is the same as itself. -/
theorem Version.Same.refl (v : Version) : v.Same v := by
  cases v with
  | semantic u => exact ⟨fun _ _ => rfl, rfl, rfl⟩
  | label name => exact (rfl : name = name)

namespace Predicate

/-- A predicate is the same as itself. -/
theorem Same.refl (p : Predicate) : p.Same p := by
  obtain ⟨ts⟩ := p
  show SameTerms ts ts
  induction ts with
  | nil => exact trivial
  | cons t ts ih => exact ⟨⟨rfl, Version.Same.refl t.reference⟩, ih⟩

/-- The words in the text of a predicate are those of its terms. -/
theorem termWords_text {p : Predicate} (h : ∀ t ∈ p.terms, t.Readable) :
    termWords p.text = p.terms.map fun t => t.text.toList := by
  obtain ⟨ts⟩ := p
  cases ts with
  | nil => rfl
  | cons t ts =>
    have hwords : ∀ w ∈ (t :: ts).map fun t => t.text.toList,
        (w ≠ [] ∧ w ≠ ['*']) ∧ ∀ c ∈ w, Text.isBlank c = false := by
      intro w hw
      obtain ⟨u, hu, rfl⟩ := List.mem_map.mp hw
      exact ⟨u.text_ne, (h u hu).isBlank_text⟩
    have htext : (Predicate.mk (t :: ts)).text.toList =
        [' '].intercalate ((t :: ts).map fun t => t.text.toList) := by
      show (" ".intercalate ((t :: ts).map Term.text)).toList = _
      rw [String.toList_intercalate, List.map_map]
      rfl
    -- The words are found again, and none of them is a star, which would be left out.
    rw [termWords, htext, Text.words_intercalate fun w hw => ⟨(hwords w hw).1.1, (hwords w hw).2⟩]
    exact List.filter_eq_self.mpr fun w hw => bne_iff_ne.mpr (hwords w hw).1.2

/-- A predicate of terms that are read off their texts is read off its text. -/
theorem parse_text {p : Predicate} (h : ∀ t ∈ p.terms, t.Readable) : parse p.text = .ok p := by
  refine parse_eq_ok_iff.mpr ?_
  rw [termWords_text h, List.forall₂_map_left_iff, List.forall₂_same]
  exact fun t ht => (h t ht).readTerm_text

/-- A predicate that has been read is read back from its text, term by term as it was. -/
theorem text_reads_back {s : String} {p : Predicate} (h : parse s = .ok p) :
    ∃ q, parse p.text = .ok q ∧ q = p ∧ q.Same p ∧ q.text = p.text := by
  refine ⟨p, parse_text fun t ht => ?_, rfl, Same.refl p, rfl⟩
  obtain ⟨word, hword, hblank⟩ := exists_word_of_parse h t ht
  exact Term.readable_of_readTerm hword hblank

/-- A label that starts with an equality sign, one that is a star, a line with a build, and a
version with leading zeros. -/
theorem text_reads_back_mixture :
    let p : Predicate := ⟨[⟨.equal, .label "=1"⟩, ⟨.equal, .label "*"⟩,
      ⟨.sameMinor, .semantic ⟨1, [2], false, some "", some "b+c"⟩⟩,
      ⟨.below, .semantic ⟨1, [0], false, some "-", none⟩⟩]⟩
    parse "==1 =*\t1.2.X+b+c * <01.0--" = .ok p ∧ p.text = "==1 =* ~1.2-+b+c <1.0--" ∧
      ∃ q, parse p.text = .ok q ∧ q = p ∧ q.Same p ∧ q.text = p.text := by
  intro p
  have h : parse "==1 =*\t1.2.X+b+c * <01.0--" = .ok p := by decide +kernel
  exact ⟨h, by decide +kernel, text_reads_back h⟩

end Predicate

end Semrange
