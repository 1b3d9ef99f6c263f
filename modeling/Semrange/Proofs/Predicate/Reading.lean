import Mathlib.Data.List.Forall2
import Semrange.Predicate.Parser
import Semrange.Proofs.Text.Pieces
import Semrange.Proofs.Version.Grammar

/-!
# What is read off a range expression

An expression is read word by word (`parse_eq_ok_iff`). A word is read as a term where a version
follows its operator and the two go together (`readTerm_eq_ok_iff`): a version without a wildcard
goes with every operator, a wildcard and a label with equality only (`makeTerm_eq_ok_iff`). So an
expression can be read just when each of its words can, and what is true of all terms that are read
off words is true of the terms of a predicate (`exists_word_of_parse`).
-/

namespace Semrange.Predicate

/-- A version with a wildcard stands for a line under equality where the wildcard is in the second
place or in the third. -/
theorem expandWildcard_eq_ok_iff {op : Operator} {v : Semantic} {t : Term} :
    expandWildcard op v = .ok t ↔ op = .equal ∧ ∃ line : Operator,
      (v.size = 2 ∧ line = .sameMajor ∨ v.size = 3 ∧ line = .sameMinor) ∧
        t = ⟨line, .semantic { v with wild := false, prerelease := some "" }⟩ := by
  rw [expandWildcard, ite_error_eq_ok, not_not]
  refine and_congr_right fun _ => ?_
  -- The wildcard in the second place fixes one number, and in the third place two.
  by_cases htwo : v.size = 2
  · rw [if_pos htwo, htwo]
    constructor
    · rintro ⟨⟩
      exact ⟨_, Or.inl ⟨rfl, rfl⟩, rfl⟩
    · rintro ⟨_, ⟨-, rfl⟩ | ⟨h, -⟩, rfl⟩
      · rfl
      · exact absurd h (by decide)
  · rw [if_neg htwo, ite_else_error_eq_ok]
    constructor
    · rintro ⟨hthree, ⟨⟩⟩
      exact ⟨_, Or.inr ⟨hthree, rfl⟩, rfl⟩
    · rintro ⟨_, ⟨h, -⟩ | ⟨hthree, rfl⟩, rfl⟩
      · exact absurd h htwo
      · exact ⟨hthree, rfl⟩

/-- An operator and a version make a term: of themselves if there is no wildcard, for a line if
there is one, and under equality if the version is a label. -/
theorem makeTerm_eq_ok_iff {op : Operator} {v : Version} {t : Term} :
    makeTerm op v = .ok t ↔
      (∃ u : Semantic, v = .semantic u ∧ u.wild = false ∧ t = ⟨op, .semantic u⟩) ∨
      (∃ u : Semantic, v = .semantic u ∧ u.wild = true ∧ expandWildcard op u = .ok t) ∨
      ∃ name, v = .label name ∧ op = .equal ∧ t = ⟨.equal, .label name⟩ := by
  cases v with
  | semantic u =>
    -- Of the three ways to make a term one remains for each kind of version.
    by_cases hw : u.wild = true
    · have hmake : makeTerm op (.semantic u) = expandWildcard op u := if_pos hw
      rw [hmake]
      constructor
      · exact fun h => Or.inr (Or.inl ⟨u, rfl, hw, h⟩)
      · rintro (⟨_, ⟨⟩, hnot, -⟩ | ⟨_, ⟨⟩, -, h⟩ | ⟨_, hlabel, -⟩)
        · exact absurd (hnot.symm.trans hw) nofun
        · exact h
        · exact absurd hlabel nofun
    · have hmake : makeTerm op (.semantic u) = .ok ⟨op, .semantic u⟩ := if_neg hw
      rw [hmake]
      constructor
      · rintro ⟨⟩
        exact Or.inl ⟨u, rfl, Bool.eq_false_iff.mpr hw, rfl⟩
      · rintro (⟨_, ⟨⟩, -, rfl⟩ | ⟨_, ⟨⟩, hwild, -⟩ | ⟨_, hlabel, -⟩)
        · rfl
        · exact absurd hwild hw
        · exact absurd hlabel nofun
  | label name =>
    refine ite_else_error_eq_ok.trans ⟨?_, ?_⟩
    · rintro ⟨rfl, ⟨⟩⟩
      exact Or.inr (Or.inr ⟨name, rfl, rfl, rfl⟩)
    · rintro (⟨_, hsemantic, -⟩ | ⟨_, hsemantic, -⟩ | ⟨_, ⟨⟩, rfl, rfl⟩)
      · exact absurd hsemantic nofun
      · exact absurd hsemantic nofun
      · exact ⟨rfl, rfl⟩

/-- A word is read as a term where a version is read behind its operator and goes with it. -/
theorem readTerm_eq_ok_iff {word : List Char} {t : Term} :
    readTerm word = .ok t ↔ (Operator.split word).2 ≠ [] ∧
      ∃ v, Version.parse true (String.ofList (Operator.split word).2) = .ok v ∧
        makeTerm (Operator.split word).1 v = .ok t := by
  rcases hsplit : Operator.split word with ⟨op, rest⟩
  simp only [readTerm, hsplit]
  rw [ite_error_eq_ok, Bool.not_eq_true, List.isEmpty_eq_false_iff]
  refine and_congr_right fun _ => ?_
  cases hv : Version.parse true (String.ofList rest) with
  | error e => exact iff_of_false nofun fun ⟨_, h, _⟩ => absurd h nofun
  | ok v =>
    cases hmake : makeTerm op v with
    | error cause =>
      simp only [hmake]
      refine iff_of_false nofun ?_
      rintro ⟨_, ⟨⟩, h⟩
      exact absurd (hmake.symm.trans h) nofun
    | ok u =>
      simp only [hmake]
      -- One version is read behind the operator, and it makes one term.
      constructor
      · rintro ⟨⟩
        exact ⟨v, rfl, hmake⟩
      · rintro ⟨_, ⟨⟩, h⟩
        rw [Except.ok.inj (hmake.symm.trans h)]

/-- Words are read one by one. -/
theorem readTerms_eq_ok_iff {words : List (List Char)} {ts : List Term} :
    readTerms words = .ok ts ↔ List.Forall₂ (fun w t => readTerm w = .ok t) words ts := by
  induction words generalizing ts with
  | nil =>
    rw [List.forall₂_nil_left_iff]
    exact ⟨fun h => (Except.ok.inj h).symm, fun h => congrArg Except.ok h.symm⟩
  | cons w ws ih =>
    -- The first word that is refused ends it; else each word has its one term.
    rw [readTerms, List.forall₂_cons_left_iff]
    cases hw : readTerm w with
    | error e => exact iff_of_false nofun fun ⟨_, _, h, _⟩ => absurd h nofun
    | ok t =>
      cases hws : readTerms ws with
      | error e =>
        refine iff_of_false nofun ?_
        rintro ⟨_, us, -, hus, -⟩
        exact absurd (hws.symm.trans (ih.mpr hus)) nofun
      | ok us =>
        constructor
        · rintro ⟨⟩
          exact ⟨t, us, rfl, ih.mp hws, rfl⟩
        · rintro ⟨_, vs, ⟨⟩, hvs, rfl⟩
          rw [Except.ok.inj (hws.symm.trans (ih.mpr hvs))]

/-- An expression is read word by word. -/
theorem parse_eq_ok_iff {s : String} {p : Predicate} :
    parse s = .ok p ↔
      List.Forall₂ (fun w t => readTerm w = .ok t) (termWords s) p.terms := by
  rw [← readTerms_eq_ok_iff, parse]
  cases readTerms (termWords s) with
  | ok ts =>
    constructor
    · rintro ⟨⟩
      rfl
    · rintro ⟨⟩
      rfl
  | error e => cases e <;> exact iff_of_false nofun nofun

/-- Where two lists are related member by member, each member of the second one has a partner in the
first. -/
theorem exists_left_of_forall₂ {α β : Type} {R : α → β → Prop} {l : List α} {m : List β}
    (h : List.Forall₂ R l m) : ∀ b ∈ m, ∃ a ∈ l, R a b := by
  induction h with
  | nil => exact List.forall_mem_nil _
  | @cons a b _ _ hab _ ih =>
    refine List.forall_mem_cons.mpr ⟨⟨a, List.mem_cons_self, hab⟩, fun c hc => ?_⟩
    obtain ⟨d, hd, hdc⟩ := ih c hc
    exact ⟨d, List.mem_cons_of_mem a hd, hdc⟩

/-- Predicates that ranges denote one by one have been read. -/
theorem exists_parse_of_forall₂ {es : List String} {ps : List Predicate}
    (h : List.Forall₂ (fun e p => parse e = .ok p) es ps) : ∀ p ∈ ps, ∃ e, parse e = .ok p := by
  intro p hp
  obtain ⟨e, -, he⟩ := exists_left_of_forall₂ h p hp
  exact ⟨e, he⟩

/-- Each term of a predicate that has been read was read off a word without blanks. -/
theorem exists_word_of_parse {s : String} {p : Predicate} (h : parse s = .ok p) :
    ∀ t ∈ p.terms, ∃ word, readTerm word = .ok t ∧ ∀ c ∈ word, Text.isBlank c = false := by
  intro t ht
  obtain ⟨word, hword, hread⟩ := exists_left_of_forall₂ (parse_eq_ok_iff.mp h) t ht
  exact ⟨word, hread, (Text.nonempty_of_mem_words (List.mem_filter.mp hword).1).2⟩

end Semrange.Predicate
