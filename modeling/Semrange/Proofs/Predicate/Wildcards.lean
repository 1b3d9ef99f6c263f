import Semrange.Proofs.Predicate.Lines

/-!
# Wildcards in range expressions

What becomes of a word whose core is numerals and wildcards in any order (`HasWildcards`). If the
wildcards are where they belong (`IsLine`), behind the numerals and without a prerelease, the word
is the term of a line, provided that it has one numeral or two and stands under equality. If they
are not, the reader of semantic versions refuses the text, and the word is what every text is that
this reader refuses: a label under equality, and nothing under another operator
(`readTerm_eq_ok_iff_of_hasWildcards`).

An expression with such a word is read if all of its words are. Otherwise it is malformed, unless a
numeral in it is too long (`parse_eq_error_cases`).
-/

namespace Semrange

namespace Semantic

/-! ## Wildcards in a core -/

/-- Parts whose core is numerals and wildcards in any order, with at least one wildcard. -/
structure HasWildcards (p : Parts) (tokens : List (List Char)) : Prop where
  /-- The core is these tokens with dots between them. -/
  core_eq : p.core = ['.'].intercalate tokens
  /-- Each token is a numeral or a wildcard. -/
  token : ∀ t ∈ tokens, IsNumeral t ∨ t ∈ wildcardTokens
  /-- There is a wildcard. -/
  exists_wild : ∃ t ∈ tokens, t ∈ wildcardTokens

/-- Parts of a line: numerals and then wildcards, some of each, without a prerelease. -/
structure IsLine (p : Parts) (numerals wilds : List (List Char)) : Prop where
  /-- There is no prerelease. -/
  released : p.prerelease = none
  /-- The core is these tokens with dots between them. -/
  core_eq : p.core = ['.'].intercalate (numerals ++ wilds)
  /-- The first ones are numerals. -/
  numeral : ∀ t ∈ numerals, IsNumeral t
  /-- The other ones are wildcards. -/
  wild : ∀ t ∈ wilds, t ∈ wildcardTokens
  /-- There is a numeral. -/
  numerals_ne_nil : numerals ≠ []
  /-- There is a wildcard. -/
  wilds_ne_nil : wilds ≠ []

/-- There is no dot in a wildcard. -/
theorem dot_notMem_of_mem_wildcardTokens {t : List Char} (h : t ∈ wildcardTokens) : '.' ∉ t := by
  have hall : ∀ t ∈ wildcardTokens, '.' ∉ t := by decide
  exact hall t h

/-- A core with wildcards falls apart into its tokens. -/
theorem HasWildcards.splitOn_core {p : Parts} {tokens : List (List Char)}
    (h : HasWildcards p tokens) : p.core.splitOn '.' = tokens := by
  obtain ⟨t, ht, -⟩ := h.exists_wild
  refine Text.splitOn_eq_iff.mpr ⟨List.ne_nil_of_mem ht, fun u hu => ?_, h.core_eq⟩
  rcases h.token u hu with hnumeral | hwild
  · exact hnumeral.dot_notMem
  · exact dot_notMem_of_mem_wildcardTokens hwild

/-- The test for a core with wildcards. -/
theorem hasWildcards_iff {p : Parts} {tokens : List (List Char)} :
    HasWildcards p tokens ↔ p.core.splitOn '.' = tokens ∧
      (tokens.all fun t => Numeral.isDigits t || isWildcard t) = true ∧
        tokens.any isWildcard = true := by
  have hall : (tokens.all fun t => Numeral.isDigits t || isWildcard t) = true ↔
      ∀ t ∈ tokens, IsNumeral t ∨ t ∈ wildcardTokens := by
    simp only [List.all_eq_true, Bool.or_eq_true, isDigits_iff, isWildcard_iff]
  have hany : tokens.any isWildcard = true ↔ ∃ t ∈ tokens, t ∈ wildcardTokens := by
    simp only [List.any_eq_true, isWildcard_iff]
  rw [hall, hany]
  constructor
  · exact fun h => ⟨h.splitOn_core, h.token, h.exists_wild⟩
  · rintro ⟨hsplit, htoken, hwild⟩
    exact ⟨(Text.splitOn_eq_iff.mp hsplit).2.2, htoken, hwild⟩

instance (p : Parts) (tokens : List (List Char)) : Decidable (HasWildcards p tokens) :=
  decidable_of_iff' _ hasWildcards_iff

/-- No token of a core with wildcards is empty. -/
theorem HasWildcards.nil_notMem {p : Parts} {tokens : List (List Char)}
    (h : HasWildcards p tokens) : [] ∉ tokens := by
  intro hnil
  rcases h.token [] hnil with hnumeral | hwild
  · exact hnumeral.ne_nil rfl
  · exact absurd hwild (by decide)

/-- There is a text where there is a core with wildcards. -/
theorem HasWildcards.ne_nil {l : List Char} {tokens : List (List Char)}
    (h : HasWildcards (Parts.ofChars l) tokens) : l ≠ [] := by
  rintro rfl
  have hsplit : [[]] = tokens := h.splitOn_core
  exact h.nil_notMem (hsplit ▸ List.mem_singleton_self [])

/-- A line is a core with wildcards. -/
theorem IsLine.hasWildcards {p : Parts} {numerals wilds : List (List Char)}
    (h : IsLine p numerals wilds) : HasWildcards p (numerals ++ wilds) := by
  obtain ⟨w, hw⟩ := List.exists_mem_of_ne_nil wilds h.wilds_ne_nil
  refine ⟨h.core_eq, fun t ht => ?_, w, List.mem_append_right _ hw, h.wild w hw⟩
  exact (List.mem_append.mp ht).imp (h.numeral t) (h.wild t)

/-- A semantic version with wildcards in its core is a line of numerals within the limit. -/
theorem HasWildcards.isLine_of_spells {p : Parts} {tokens numerals wilds : List (List Char)}
    (h : HasWildcards p tokens) (hspells : Spells true p numerals wilds) :
    IsLine p numerals wilds := by
  have htokens : tokens = numerals ++ wilds := h.splitOn_core.symm.trans hspells.splitOn_core
  -- One of the tokens is a wildcard, and no numeral is.
  have hwilds : wilds ≠ [] := by
    rintro rfl
    obtain ⟨t, ht, hwild⟩ := h.exists_wild
    rw [htokens, List.append_nil] at ht
    have hno := (hspells.numeral t ht).isWildcard_eq_false
    rw [isWildcard_iff.mpr hwild] at hno
    exact absurd hno nofun
  exact ⟨Option.isNone_iff_eq_none.mp (hspells.allowed hwilds).2, hspells.core_eq,
    fun t ht => (hspells.numeral t ht).toIsNumeral, hspells.wild, hspells.numerals_ne_nil, hwilds⟩

/-- A line of numerals within the limit is a semantic version. -/
theorem IsLine.spells {p : Parts} {numerals wilds : List (List Char)} (h : IsLine p numerals wilds)
    (hshort : ∀ t ∈ numerals, t.length ≤ Numeral.limit) : Spells true p numerals wilds where
  numeral t ht := ⟨h.numeral t ht, hshort t ht⟩
  wild := h.wild
  allowed _ := ⟨rfl, by rw [h.released]; rfl⟩
  core_eq := h.core_eq
  numerals_ne_nil := h.numerals_ne_nil
  prerelease := by
    rw [h.released]
    exact nofun

/-- In a line where not all numerals are within the limit, one that is too long is met. -/
theorem IsLine.exists_overlong {p : Parts} {numerals wilds : List (List Char)}
    (h : IsLine p numerals wilds) (hlong : ¬∀ t ∈ numerals, t.length ≤ Numeral.limit) :
    ∃ before token after, Overlong p before token after := by
  have hsome : (numerals.find? fun t => decide (Numeral.limit < t.length)).isSome = true := by
    simpa using hlong
  obtain ⟨token, hfind⟩ := Option.isSome_iff_exists.mp hsome
  -- It is the first one, since the reader goes from the left.
  obtain ⟨htoken, before, after, hnumerals, hbefore⟩ := List.find?_eq_some_iff_append.mp hfind
  have hcore : p.core = ['.'].intercalate (before ++ token :: (after ++ wilds)) := by
    rw [h.core_eq, hnumerals, List.append_assoc, List.cons_append]
  have hwild := h.hasWildcards
  rw [hnumerals, List.append_assoc, List.cons_append] at hwild
  have hnumeral : ∀ t ∈ before ++ token :: after, IsNumeral t := hnumerals ▸ h.numeral
  obtain ⟨hnumeralBefore, hnumeralAfter⟩ := List.forall_mem_append.mp hnumeral
  obtain ⟨hnumeralToken, hnumeralAfter⟩ := List.forall_mem_cons.mp hnumeralAfter
  refine ⟨before, token, after ++ wilds, hnumeralToken, ?_, hcore, ?_, ?_, ?_, ?_⟩
  · rw [h.released]
    exact nofun
  · exact List.forall_mem_append.mpr ⟨fun t ht => (hnumeralAfter t ht).dot_notMem,
      fun t ht => dot_notMem_of_mem_wildcardTokens (h.wild t ht)⟩
  · intro hlast
    have hnil := Text.nil_mem_splitOn_of_getLast? hlast
    rw [hwild.splitOn_core] at hnil
    exact hwild.nil_notMem hnil
  · intro t ht
    exact ⟨hnumeralBefore t ht, by simpa using hbefore t ht⟩
  · exact of_decide_eq_true htoken

/-- A text is malformed when it is no semantic version and no numeral in it is met that is too
long. -/
theorem parse_eq_malformed_iff {wildcards : Bool} {s : String} :
    (∃ cause, parse wildcards s = .error (.malformed cause)) ↔
      (¬∃ numerals wilds, Spells wildcards (Parts.ofChars s.toList) numerals wilds) ∧
        ¬∃ before token after, Overlong (Parts.ofChars s.toList) before token after := by
  -- A text is read, meets a numeral that is too long, or is malformed.
  have hok : ∀ v, parse wildcards s = .ok v ↔ _ := fun v => ofParts_eq_ok_iff
  have hnumeral : ∀ fault, parse wildcards s = .error (.numeral fault) ↔ _ :=
    fun fault => ofParts_eq_numeral_iff
  constructor
  · rintro ⟨cause, h⟩
    constructor
    · rintro ⟨numerals, wilds, hspells⟩
      obtain ⟨v, hv⟩ := hspells.exists_denotes
      exact absurd (h.symm.trans ((hok v).mpr ⟨numerals, wilds, hspells, hv⟩)) nofun
    · rintro ⟨before, token, after, hlong⟩
      exact absurd (h.symm.trans ((hnumeral _).mpr ⟨before, token, after, hlong, rfl⟩)) nofun
  · rintro ⟨hspells, hlong⟩
    rcases h : parse wildcards s with (cause | fault) | v
    · exact ⟨cause, rfl⟩
    · obtain ⟨before, token, after, hmet, -⟩ := (hnumeral fault).mp h
      exact absurd ⟨before, token, after, hmet⟩ hlong
    · obtain ⟨numerals, wilds, hmade, -⟩ := (hok v).mp h
      exact absurd ⟨numerals, wilds, hmade⟩ hspells

section

variable {l : List Char} {tokens : List (List Char)}
  (h : HasWildcards (Parts.ofChars l) tokens)
include h

/-- A text with wildcards in its core is a semantic version when it is a line of numerals within the
limit. -/
theorem HasWildcards.parse_eq_ok_iff {v : Semantic} :
    parse true (String.ofList l) = .ok v ↔
      ∃ numerals wilds, IsLine (Parts.ofChars l) numerals wilds ∧
        (∀ d ∈ numerals, d.length ≤ Numeral.limit) ∧
          Denotes (Parts.ofChars l) numerals wilds v := by
  rw [parse, String.toList_ofList, ofParts_eq_ok_iff]
  refine exists₂_congr fun numerals wilds => ⟨?_, ?_⟩
  · rintro ⟨hspells, hdenotes⟩
    exact ⟨h.isLine_of_spells hspells, fun d hd => (hspells.numeral d hd).length_le, hdenotes⟩
  · rintro ⟨hline, hshort, hdenotes⟩
    exact ⟨hline.spells hshort, hdenotes⟩

/-- A text with wildcards in its core is malformed when it is no line and no numeral in it is met
that is too long. -/
theorem HasWildcards.parse_eq_malformed_iff :
    (∃ cause, parse true (String.ofList l) = .error (.malformed cause)) ↔
      (¬∃ numerals wilds, IsLine (Parts.ofChars l) numerals wilds) ∧
        ¬∃ before token after, Overlong (Parts.ofChars l) before token after := by
  rw [Semantic.parse_eq_malformed_iff, String.toList_ofList]
  refine and_congr_left fun hlong => not_congr ⟨?_, ?_⟩
  · rintro ⟨numerals, wilds, hspells⟩
    exact ⟨numerals, wilds, h.isLine_of_spells hspells⟩
  · -- A line with a numeral that is too long has been excluded.
    rintro ⟨numerals, wilds, hline⟩
    have hshort : ∀ d ∈ numerals, d.length ≤ Numeral.limit :=
      not_not.mp fun hnot => hlong (hline.exists_overlong hnot)
    exact ⟨numerals, wilds, hline.spells hshort⟩

/-- A text with wildcards in its core is read as a version in one of these two ways. -/
theorem HasWildcards.version_parse_eq_ok_iff {v : Version} :
    Version.parse true (String.ofList l) = .ok v ↔
      (∃ u, v = .semantic u ∧ parse true (String.ofList l) = .ok u) ∨
        v = .label (String.ofList l) ∧
          ∃ cause, parse true (String.ofList l) = .error (.malformed cause) := by
  have hne : String.ofList l ≠ "" := by
    intro hempty
    exact h.ne_nil (String.toList_ofList.symm.trans (congrArg String.toList hempty))
  exact Version.parse_eq_ok_iff.trans (and_iff_right hne)

end

end Semantic

/-- A text that is not empty is refused as a version only for a numeral that is too long. -/
theorem Version.meetsOverlong_of_parse {wildcards : Bool} {s : String} {e : ReadError}
    (h : parse wildcards s = .error e) (hne : s ≠ "") :
    ∃ digits, Semantic.MeetsOverlong s.toList digits ∧ e = .numeral (.tooLong digits) := by
  rw [parse, if_neg hne] at h
  rcases hs : Semantic.parse wildcards s with (cause | fault) | v
  · rw [hs] at h
    cases h
  · rw [hs] at h
    cases h
    obtain ⟨before, token, after, hlong, rfl⟩ := Semantic.ofParts_eq_numeral_iff.mp hs
    exact ⟨token.length, ⟨before, token, after, hlong, rfl⟩, rfl⟩
  · rw [hs] at h
    cases h

namespace Predicate

open Semantic (Denotes HasWildcards IsLine MeetsOverlong Overlong Parts)

/-! ## Words with wildcards -/

/-- The term of a line that has one numeral or two, none of them too long. -/
def IsLineTerm (p : Parts) (t : Term) : Prop :=
  ∃ numerals wilds v line, IsLine p numerals wilds ∧ (∀ d ∈ numerals, d.length ≤ Numeral.limit) ∧
    Denotes p numerals wilds v ∧ LineOperator numerals.length line ∧
      t = ⟨line, .semantic v.lineStart⟩

/-- A word with wildcards in its core is read under equality only. It is the term of its line if it
is a line, and otherwise a label, unless a numeral is met that is too long. -/
theorem readTerm_eq_ok_iff_of_hasWildcards {word : List Char} {tokens : List (List Char)}
    {t : Term} (h : HasWildcards (Parts.ofChars (Operator.split word).2) tokens) :
    readTerm word = .ok t ↔ (Operator.split word).1 = .equal ∧
      (IsLineTerm (Parts.ofChars (Operator.split word).2) t ∨
        (¬∃ numerals wilds, IsLine (Parts.ofChars (Operator.split word).2) numerals wilds) ∧
          (¬∃ before token after,
            Overlong (Parts.ofChars (Operator.split word).2) before token after) ∧
          t = ⟨.equal, .label (String.ofList (Operator.split word).2)⟩) := by
  rw [readTerm_eq_ok_iff, and_iff_right h.ne_nil]
  generalize (Operator.split word).1 = op
  generalize (Operator.split word).2 = rest at h ⊢
  simp only [h.version_parse_eq_ok_iff]
  -- A line has a wildcard, so its version does not go with other operators either.
  have hline : ∀ {numerals wilds u}, IsLine (Parts.ofChars rest) numerals wilds →
      Denotes (Parts.ofChars rest) numerals wilds u →
        u.wild = true ∧ u.numbers.length = numerals.length := by
    intro numerals wilds u hline hdenotes
    refine ⟨hdenotes.wild_iff.mpr hline.wilds_ne_nil, ?_⟩
    rw [hdenotes.numbers_eq, List.length_map]
  constructor
  · rintro ⟨v, ⟨u, rfl, hu⟩ | ⟨rfl, hcause⟩, hmake⟩
    · -- Read as a semantic version, the word is a line.
      obtain ⟨numerals, wilds, hplaced, hshort, hdenotes⟩ := h.parse_eq_ok_iff.mp hu
      obtain ⟨hwild, hlength⟩ := hline hplaced hdenotes
      have hexpand : expandWildcard op u = .ok t := (if_pos hwild).symm.trans hmake
      obtain ⟨rfl, line, hoperator, rfl⟩ := (expandWildcard_eq_ok_iff_of_wild hwild).mp hexpand
      rw [hlength] at hoperator
      exact ⟨rfl, Or.inl ⟨numerals, wilds, u, line, hplaced, hshort, hdenotes, hoperator, rfl⟩⟩
    · -- Refused as one, it is a label.
      obtain ⟨hnot, hlong⟩ := h.parse_eq_malformed_iff.mp hcause
      obtain ⟨rfl, ⟨⟩⟩ := ite_else_error_eq_ok.mp hmake
      exact ⟨rfl, Or.inr ⟨hnot, hlong, rfl⟩⟩
  · rintro ⟨rfl, ⟨numerals, wilds, u, line, hplaced, hshort, hdenotes, hoperator, rfl⟩ |
      ⟨hnot, hlong, rfl⟩⟩
    · obtain ⟨hwild, hlength⟩ := hline hplaced hdenotes
      have hexpand : expandWildcard .equal u = .ok ⟨line, .semantic u.lineStart⟩ :=
        (expandWildcard_eq_ok_iff_of_wild hwild).mpr ⟨rfl, line, hlength ▸ hoperator, rfl⟩
      exact ⟨.semantic u,
        Or.inl ⟨u, rfl, h.parse_eq_ok_iff.mpr ⟨numerals, wilds, hplaced, hshort, hdenotes⟩⟩,
        (if_pos hwild).trans hexpand⟩
    · exact ⟨.label (String.ofList rest),
        Or.inr ⟨rfl, h.parse_eq_malformed_iff.mpr ⟨hnot, hlong⟩⟩, rfl⟩

/-! ## Expressions with wildcards -/

/-- Where two lists are related member by member, a member of the first has its partner at the same
place of the second. -/
theorem exists_getElem?_of_forall₂ {α β : Type} {R : α → β → Prop} {l : List α} {m : List β}
    (h : List.Forall₂ R l m) {i : ℕ} {a : α} (hi : l[i]? = some a) :
    ∃ b, m[i]? = some b ∧ R a b := by
  induction h generalizing i with
  | nil => exact absurd hi nofun
  | @cons c d _ _ hcd _ ih =>
    cases i with
    | zero =>
      cases hi
      exact ⟨d, rfl, hcd⟩
    | succ i => exact ih hi

/-- Where words are refused, one of them is. -/
theorem exists_error_of_readTerms {words : List (List Char)} {e : TermError}
    (h : readTerms words = .error e) : ∃ w ∈ words, readTerm w = .error e := by
  induction words with
  | nil => cases h
  | cons w ws ih =>
    -- The error is that of the head, or of a word behind it.
    rw [readTerms] at h
    cases hw : readTerm w with
    | error e' =>
      rw [hw] at h
      cases h
      exact ⟨w, List.mem_cons_self, hw⟩
    | ok t =>
      cases hws : readTerms ws with
      | error e' =>
        rw [hw, hws] at h
        cases h
        obtain ⟨v, hv, herror⟩ := ih hws
        exact ⟨v, List.mem_cons_of_mem w hv, herror⟩
      | ok ts =>
        rw [hw, hws] at h
        cases h

/-- A word is refused for its version only where a numeral is too long: any other text behind the
operator is a version. -/
theorem meetsOverlong_of_readTerm {word : List Char} {e : Version.ReadError}
    (h : readTerm word = .error (.version e)) :
    ∃ digits, MeetsOverlong (Operator.split word).2 digits ∧ e = .numeral (.tooLong digits) := by
  rcases hsplit : Operator.split word with ⟨op, rest⟩
  simp only [readTerm, hsplit] at h
  by_cases hempty : rest.isEmpty = true
  · rw [if_pos hempty] at h
    cases h
  · rw [if_neg hempty] at h
    -- The text behind the operator is refused; what is made of one that is read has other errors.
    cases hv : Version.parse true (String.ofList rest) with
    | ok v =>
      rw [hv] at h
      cases hmake : makeTerm op v <;> simp [hmake] at h
    | error e' =>
      rw [hv] at h
      cases h
      have hne : rest ≠ [] := by
        rintro rfl
        exact hempty rfl
      simpa using Version.meetsOverlong_of_parse hv (by simpa using hne)

/-- An expression is refused for a version only where a numeral in one of its words is too long. -/
theorem meetsOverlong_of_parse {s : String} {e : Version.ReadError}
    (h : parse s = .error (.version e)) : ∃ w ∈ termWords s, ∃ digits,
      MeetsOverlong (Operator.split w).2 digits ∧ e = .numeral (.tooLong digits) := by
  rw [parse] at h
  cases hterms : readTerms (termWords s) with
  | ok ts =>
    rw [hterms] at h
    cases h
  | error e' =>
    obtain ⟨w, hw, herror⟩ := exists_error_of_readTerms hterms
    rw [hterms] at h
    cases e' with
    | malformed cause => cases h
    | version e' =>
      cases h
      exact ⟨w, hw, meetsOverlong_of_readTerm herror⟩

/-- An expression that is not read is malformed, or a numeral in one of its words is too long. -/
theorem parse_eq_error_cases {s : String} {e : ParseError} (h : parse s = .error e) :
    (∃ cause, e = .malformed s cause) ∨ ∃ fault, e = .version (.numeral fault) ∧
      ∃ w ∈ termWords s, ∃ before token after,
        Overlong (Parts.ofChars (Operator.split w).2) before token after := by
  cases e with
  | version e =>
    obtain ⟨w, hw, digits, ⟨before, token, after, hlong, -⟩, rfl⟩ := meetsOverlong_of_parse h
    exact Or.inr ⟨_, rfl, w, hw, before, token, after, hlong⟩
  | malformed expression cause =>
    -- The expression is named in the error as it stands.
    rw [parse] at h
    split at h <;> cases h
    exact Or.inl ⟨cause, rfl⟩

/-- An expression with a word that has wildcards in its core is malformed, has a numeral in one of
its words that is too long, or is read. If it is read, the word stands under equality, and its term
is that of its line: one numeral or two and then wildcards, without a prerelease. Words in which the
wildcards stand elsewhere are not refused under equality but become labels. -/
theorem wildcards_read_or_refused {e : String} {i : ℕ} {word : List Char}
    {tokens : List (List Char)} (hword : (termWords e)[i]? = some word)
    (hwild : HasWildcards (Parts.ofChars (Operator.split word).2) tokens) :
    (∃ cause, parse e = .error (.malformed e cause)) ∨
      (∃ fault, parse e = .error (.version (.numeral fault)) ∧ ∃ w ∈ termWords e,
        ∃ before token after, Overlong (Parts.ofChars (Operator.split w).2) before token after) ∨
      ∃ p t, parse e = .ok p ∧ p.terms[i]? = some t ∧ (Operator.split word).1 = .equal ∧
        (IsLineTerm (Parts.ofChars (Operator.split word).2) t ∨
          (¬∃ numerals wilds, IsLine (Parts.ofChars (Operator.split word).2) numerals wilds) ∧
            t = ⟨.equal, .label (String.ofList (Operator.split word).2)⟩) := by
  cases hparse : parse e with
  | error err =>
    rcases parse_eq_error_cases hparse with ⟨cause, rfl⟩ | ⟨fault, rfl, hlong⟩
    · exact Or.inl ⟨cause, rfl⟩
    · exact Or.inr (Or.inl ⟨fault, rfl, hlong⟩)
  | ok p =>
    -- An expression that is read has a term for the word.
    obtain ⟨t, ht, hread⟩ := exists_getElem?_of_forall₂ (parse_eq_ok_iff.mp hparse) hword
    obtain ⟨hequal, hterm⟩ := (readTerm_eq_ok_iff_of_hasWildcards hwild).mp hread
    exact Or.inr (Or.inr ⟨p, t, rfl, ht, hequal, hterm.imp_right fun h => ⟨h.1, h.2.2⟩⟩)

/-- The second word of an expression, a line of two numerals with two wildcards and a build. -/
theorem wildcards_read_or_refused_minor :
    let e := "<2 1.2.X.*+b"
    let word := "1.2.X.*+b".toList
    (termWords e)[1]? = some word ∧
      HasWildcards (Parts.ofChars (Operator.split word).2) [['1'], ['2'], ['X'], ['*']] ∧
      ∃ p t, parse e = .ok p ∧ p.terms[1]? = some t ∧ t.text = "~1.2-+b" ∧
        IsLineTerm (Parts.ofChars (Operator.split word).2) t := by
  intro e word
  have hword : (termWords e)[1]? = some word := by decide +kernel
  have hwild :
      HasWildcards (Parts.ofChars (Operator.split word).2) [['1'], ['2'], ['X'], ['*']] := by
    decide +kernel
  have hparse : parse e = .ok ⟨[⟨.below, .semantic ⟨2, [], false, none, none⟩⟩,
      ⟨.sameMinor, .semantic ⟨1, [2], false, some "", some "b"⟩⟩]⟩ := by decide +kernel
  refine ⟨hword, hwild, ?_⟩
  rcases wildcards_read_or_refused hword hwild with
    ⟨cause, h⟩ | ⟨fault, h, -⟩ | ⟨p, t, h, ht, -, hline | ⟨-, hlabel⟩⟩
  · exact absurd (hparse.symm.trans h) nofun
  · exact absurd (hparse.symm.trans h) nofun
  · cases hparse.symm.trans h
    cases ht
    exact ⟨_, _, hparse, rfl, by decide +kernel, hline⟩
  · cases hparse.symm.trans h
    cases ht
    exact absurd hlabel (by decide)

/-- Wildcards before a number, before a prerelease and without a number become labels. -/
theorem misplaced_wildcards_become_labels :
    HasWildcards (Parts.ofChars (Operator.split "1.x.2".toList).2) [['1'], ['x'], ['2']] ∧
      HasWildcards (Parts.ofChars (Operator.split "1.x-beta".toList).2) [['1'], ['x']] ∧
      HasWildcards (Parts.ofChars (Operator.split "=x".toList).2) [['x']] ∧
      parse "1.x.2" = .ok ⟨[⟨.equal, .label "1.x.2"⟩]⟩ ∧
      parse "1.x-beta" = .ok ⟨[⟨.equal, .label "1.x-beta"⟩]⟩ ∧
      parse "=x" = .ok ⟨[⟨.equal, .label "x"⟩]⟩ := by
  decide +kernel

end Predicate

end Semrange
