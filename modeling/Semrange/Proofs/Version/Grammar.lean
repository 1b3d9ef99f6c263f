import Mathlib.Data.List.Forall2
import Semrange.Proofs.Text.Pieces
import Semrange.Version.Parser

/-!
# The grammar of versions

A text has its parts in one way only (`Parts.of_iff`). It is a semantic version just when its core
is numerals and then wildcards, with dots between them, and its prerelease is empty or identifiers
with dots between them (`Spells`). The numerals have a greatest length. A longer one is refused in
another way, but only where a reader that goes from the prerelease to the ends of the core, and then
through its tokens, meets it before anything else that is wrong (`Overlong`).

The tokens are read one by one, so what is read off them is settled first, by inductions on the
tokens or on the numerals before the first other token (`readComponents_eq_ok_iff`,
`readComponents_eq_numeral_iff`); what comes out otherwise is neither of the two.
-/

namespace Semrange

section

variable {ε α : Type*} {c : Prop} [Decidable c] {e : ε} {o : Except ε α} {a : α}

/-- A reader that refuses under a condition returns something where the condition fails and it goes
on to return that. -/
theorem ite_error_eq_ok : (if c then .error e else o) = .ok a ↔ ¬c ∧ o = .ok a := by
  by_cases h : c
  · rw [if_pos h]
    exact iff_of_false nofun fun h' => h'.1 h
  · rw [if_neg h]
    exact (and_iff_right h).symm

/-- A reader that refuses unless a condition holds returns something where it holds and the reader
goes on to return that. -/
theorem ite_else_error_eq_ok : (if c then o else .error e) = .ok a ↔ c ∧ o = .ok a := by
  by_cases h : c
  · rw [if_pos h]
    exact (and_iff_right h).symm
  · rw [if_neg h]
    exact iff_of_false nofun fun h' => h h'.1

/-- A reader that refuses under a condition fails otherwise where the condition fails and it goes on
to fail like that. -/
theorem ite_error_eq_error {e' : ε} (hne : e ≠ e') :
    (if c then .error e else o) = .error e' ↔ ¬c ∧ o = .error e' := by
  by_cases h : c
  · rw [if_pos h]
    exact iff_of_false (fun h' => hne (Except.error.inj h')) fun h' => h'.1 h
  · rw [if_neg h]
    exact (and_iff_right h).symm

/-- What is made of a result is there just when the result is. -/
theorem map_eq_ok {β : Type*} {f : α → β} {b : β} : o.map f = .ok b ↔ ∃ a, o = .ok a ∧ f a = b := by
  cases o with
  | error e => exact iff_of_false nofun nofun
  | ok a => simp [Except.map]

end

/-- A step that follows a result returns something where the result is there and the step returns
that. -/
theorem bind_eq_ok {ε α β : Type} {o : Except ε α} {f : α → Except ε β} {b : β} :
    o >>= f = .ok b ↔ ∃ a, o = .ok a ∧ f a = .ok b := by
  cases o with
  | error e => exact iff_of_false nofun nofun
  | ok a => simp [bind, Except.bind]

/-- Seeing an error as another one makes no difference to what is returned. -/
theorem mapError_eq_ok {ε δ α : Type} {o : Except ε α} {f : ε → δ} {a : α} :
    o.mapError f = .ok a ↔ o = .ok a := by
  cases o with
  | error e => exact iff_of_false nofun nofun
  | ok b => simp [Except.mapError]

/-- An error that is seen as another one is there before. -/
theorem mapError_eq_error {ε δ α : Type} {o : Except ε α} {f : ε → δ} {e : δ} :
    o.mapError f = .error e ↔ ∃ e', o = .error e' ∧ f e' = e := by
  cases o with
  | error e' => simp [Except.mapError]
  | ok a => simp [Except.mapError]

/-- A step for each member of a list gives a list when each step gives a member of it. -/
theorem mapM_eq_ok_iff {ε α β : Type} {f : α → Except ε β} {l : List α} {m : List β} :
    l.mapM f = .ok m ↔ List.Forall₂ (fun a b => f a = .ok b) l m := by
  induction l generalizing m with
  | nil =>
    rw [List.forall₂_nil_left_iff]
    exact ⟨fun h => (Except.ok.inj h).symm, fun h => congrArg Except.ok h.symm⟩
  | cons a l ih =>
    simp only [List.mapM_cons, bind_eq_ok, List.forall₂_cons_left_iff, ih]
    constructor
    · rintro ⟨b, hb, m', hm', h⟩
      exact ⟨b, m', hb, hm', (Except.ok.inj h).symm⟩
    · rintro ⟨b, m', hb, hm', rfl⟩
      exact ⟨b, hb, m', hm', rfl⟩

/-- The members of a list have related ones in another list when each of them has one. -/
theorem exists_forall₂_iff {α β : Type} {R : α → β → Prop} {l : List α} :
    (∃ m, List.Forall₂ R l m) ↔ ∀ a ∈ l, ∃ b, R a b := by
  induction l with
  | nil => exact iff_of_true ⟨[], .nil⟩ (List.forall_mem_nil _)
  | cons a l ih =>
    rw [List.forall_mem_cons, ← ih]
    constructor
    · rintro ⟨_, hall⟩
      obtain ⟨b, m, hb, hm, -⟩ := List.forall₂_cons_left_iff.mp hall
      exact ⟨⟨b, hb⟩, m, hm⟩
    · rintro ⟨⟨b, hb⟩, m, hm⟩
      exact ⟨b :: m, .cons hb hm⟩

/-- Where steps for the members of a list fail, one of them does. -/
theorem exists_of_mapM_eq_error {ε α β : Type} {f : α → Except ε β} {l : List α} {e : ε}
    (h : l.mapM f = .error e) : ∃ a ∈ l, f a = .error e := by
  induction l with
  | nil => cases h
  | cons a l ih =>
    rw [List.mapM_cons] at h
    -- The first step that fails ends it, and what stands behind its member is not looked at.
    cases ha : f a with
    | error e' =>
      rw [ha] at h
      cases h
      exact ⟨a, List.mem_cons_self, ha⟩
    | ok b =>
      cases hl : l.mapM f with
      | error e' =>
        rw [ha, hl] at h
        cases h
        obtain ⟨c, hc, herror⟩ := ih hl
        exact ⟨c, List.mem_cons_of_mem a hc, herror⟩
      | ok m =>
        rw [ha, hl] at h
        cases h

namespace Semantic

open Version (ReadError)

/-! ## Parts of a text -/

/-- The text that parts make. -/
def Parts.chars (p : Parts) : List Char :=
  p.core ++ (p.prerelease.map ('-' :: ·)).getD [] ++ (p.build.map ('+' :: ·)).getD []

/-- The parts of a text: the build follows its first plus sign, and the prerelease the first hyphen
before that. -/
structure Parts.Of (p : Parts) (l : List Char) : Prop where
  /-- The parts make the text. -/
  chars_eq : p.chars = l
  /-- No hyphen stands before the one of the prerelease. -/
  hyphen : '-' ∉ p.core
  /-- No plus sign stands before the one of the build. -/
  plus : '+' ∉ p.core ++ (p.prerelease.map ('-' :: ·)).getD []

/-- A character of the text that parts make is a sign or a character of one of them. -/
theorem Parts.of_mem_chars {p : Parts} {c : Char} (h : c ∈ p.chars) :
    c ∈ p.core ∨ (∃ l ∈ p.prerelease, c = '-' ∨ c ∈ l) ∨ ∃ l ∈ p.build, c = '+' ∨ c ∈ l := by
  have hsigned : ∀ {sign : Char} {o : Option (List Char)}, c ∈ (o.map (sign :: ·)).getD [] →
      ∃ l ∈ o, c = sign ∨ c ∈ l := by
    intro sign o hc
    cases o with
    | none => exact absurd hc List.not_mem_nil
    | some l => exact ⟨l, rfl, List.mem_cons.mp hc⟩
  rcases List.mem_append.mp h with h | h
  · rcases List.mem_append.mp h with h | h
    · exact Or.inl h
    · exact Or.inr (Or.inl (hsigned h))
  · exact Or.inr (Or.inr (hsigned h))

/-- Each text has its parts in one way only. -/
theorem Parts.of_iff {p : Parts} {l : List Char} : p.Of l ↔ p = ofChars l := by
  constructor
  · rintro ⟨rfl, hhyphen, hplus⟩
    -- The build is cut off first, so a hyphen in it does not start a prerelease.
    have houter := Text.cut_append hplus p.build
    have hinner := Text.cut_append hhyphen p.prerelease
    simp only [ofChars, chars, houter, hinner]
  · rintro rfl
    have houter := Text.append_cut '+' l
    have hinner := Text.append_cut '-' (Text.cut '+' l).1
    refine ⟨?_, Text.not_mem_fst_cut '-' _, ?_⟩
    · simp only [ofChars, chars, hinner, houter]
    · simp only [ofChars, hinner]
      exact Text.not_mem_fst_cut '+' l

/-! ## Numerals -/

/-- A numeral: a run of digits. -/
structure IsNumeral (token : List Char) : Prop where
  /-- There is one. -/
  ne_nil : token ≠ []
  /-- There are only digits. -/
  isDigit : ∀ c ∈ token, c.isDigit = true

/-- A numeral within the limit. -/
structure IsShortNumeral (token : List Char) : Prop extends IsNumeral token where
  /-- It is not too long. -/
  length_le : token.length ≤ Numeral.limit

/-- The test for numerals. -/
theorem isDigits_iff {token : List Char} : Numeral.isDigits token = true ↔ IsNumeral token := by
  rw [Numeral.isDigits, Bool.and_eq_true, Bool.not_eq_true', List.isEmpty_eq_false_iff,
    List.all_eq_true]
  exact ⟨fun h => ⟨h.1, h.2⟩, fun h => ⟨h.ne_nil, h.isDigit⟩⟩

/-- A numeral is read as what it denotes, unless it is too long. -/
theorem readComponent_of_isNumeral {token : List Char} (h : IsNumeral token) :
    readComponent token = (Numeral.read token).mapError .numeral := by
  obtain ⟨c, l, rfl⟩ := List.exists_cons_of_ne_nil h.ne_nil
  have hblank : ¬(c :: l).all Text.isBlank = true := by
    rw [List.all_cons, Text.isBlank_eq_false_of_isDigit (h.isDigit c List.mem_cons_self)]
    exact nofun
  rw [readComponent, if_neg hblank, if_pos (isDigits_iff.mpr h)]
  cases Numeral.read (c :: l) <;> rfl

/-- A token that is no numeral is malformed. -/
theorem readComponent_of_not_isNumeral {token : List Char} (h : ¬IsNumeral token) :
    ∃ cause, readComponent token = .error (.malformed cause) := by
  rw [readComponent, if_neg (mt isDigits_iff.mp h)]
  by_cases hblank : token.all Text.isBlank = true
  · exact ⟨_, if_pos hblank⟩
  · exact ⟨_, if_neg hblank⟩

/-- A numeral within the limit is read as what it denotes. -/
theorem readComponent_of_isShortNumeral {token : List Char} (h : IsShortNumeral token) :
    readComponent token = .ok (Numeral.value token) := by
  rw [readComponent_of_isNumeral h.toIsNumeral, Numeral.read, if_neg (Nat.not_lt.mpr h.length_le)]
  rfl

/-- A numeral beyond the limit is refused as such. -/
theorem readComponent_of_limit_lt {token : List Char} (h : IsNumeral token)
    (hlong : Numeral.limit < token.length) :
    readComponent token = .error (.numeral (.tooLong token.length)) := by
  rw [readComponent_of_isNumeral h, Numeral.read, if_pos hlong]
  rfl

/-- What reading a token can come to. -/
theorem readComponent_cases (token : List Char) :
    IsShortNumeral token ∨ IsNumeral token ∧ Numeral.limit < token.length ∨
      ∃ cause, readComponent token = .error (.malformed cause) := by
  by_cases h : IsNumeral token
  · rcases Nat.lt_or_ge Numeral.limit token.length with hlong | hshort
    · exact Or.inr (Or.inl ⟨h, hlong⟩)
    · exact Or.inl ⟨h, hshort⟩
  · exact Or.inr (Or.inr (readComponent_of_not_isNumeral h))

/-! ## Tokens -/

/-- The ways to write a wildcard. -/
def wildcardTokens : List (List Char) :=
  [['x'], ['X'], ['*']]

/-- The test for wildcards. -/
theorem isWildcard_iff {token : List Char} : isWildcard token = true ↔ token ∈ wildcardTokens := by
  simp [isWildcard, wildcardTokens, or_assoc]

/-- A numeral is no wildcard. -/
theorem IsNumeral.isWildcard_eq_false {token : List Char} (h : IsNumeral token) :
    isWildcard token = false := by
  refine Bool.eq_false_iff.mpr fun hw => ?_
  have hmem := isWildcard_iff.mp hw
  simp only [wildcardTokens, List.mem_cons, List.not_mem_nil, or_false] at hmem
  rcases hmem with rfl | rfl | rfl
  all_goals exact absurd (h.isDigit _ List.mem_cons_self) (by decide)

/-- The tokens of a core: numerals within the limit and then wildcards, which are there only where
they are allowed and no prerelease follows. -/
structure Tokens (wildcards released : Bool) (numerals wilds : List (List Char)) : Prop where
  /-- The first ones are numerals within the limit. -/
  numeral : ∀ t ∈ numerals, IsShortNumeral t
  /-- The other ones are wildcards. -/
  wild : ∀ t ∈ wilds, t ∈ wildcardTokens
  /-- Wildcards are there only where they may be. -/
  allowed : wilds ≠ [] → wildcards = true ∧ released = true

section

variable {wildcards released : Bool}

/-- A numeral within the limit is read, and then the tokens behind it are. -/
theorem readComponents_cons_of_isShortNumeral {token : List Char} (h : IsShortNumeral token)
    (tokens : List (List Char)) :
    readComponents wildcards released (token :: tokens) =
      (readComponents wildcards released tokens).map fun r => (Numeral.value token :: r.1, r.2) := by
  rw [readComponents, h.isWildcard_eq_false, Bool.and_false, if_neg Bool.false_ne_true,
    readComponent_of_isShortNumeral h]
  cases readComponents wildcards released tokens <;> rfl

/-- What reading tokens can come to, by the first one: it is a wildcard where they are allowed, a
numeral within the limit or beyond it, or it is malformed. -/
theorem readComponents_cons_cases (wildcards released : Bool) (token : List Char)
    (tokens : List (List Char)) :
    (wildcards = true ∧ token ∈ wildcardTokens) ∨ IsShortNumeral token ∨
      (IsNumeral token ∧ Numeral.limit < token.length ∧
        readComponents wildcards released (token :: tokens) =
          .error (.numeral (.tooLong token.length))) ∨
      ∃ cause, readComponents wildcards released (token :: tokens) = .error (.malformed cause) := by
  by_cases hw : (wildcards && isWildcard token) = true
  · obtain ⟨hallowed, hwild⟩ := Bool.and_eq_true_iff.mp hw
    exact Or.inl ⟨hallowed, isWildcard_iff.mp hwild⟩
  · rw [readComponents, if_neg hw]
    rcases readComponent_cases token with h | ⟨h, hlong⟩ | ⟨cause, h⟩
    · exact Or.inr (Or.inl h)
    · rw [readComponent_of_limit_lt h hlong]
      exact Or.inr (Or.inr (Or.inl ⟨h, hlong, rfl⟩))
    · rw [h]
      exact Or.inr (Or.inr (Or.inr ⟨cause, rfl⟩))

/-- Tokens that start with a wildcard, where wildcards are allowed, are read if they are all
wildcards and no prerelease follows. -/
theorem readComponents_cons_of_wild {token : List Char} (h : token ∈ wildcardTokens)
    (tokens : List (List Char)) :
    readComponents true released (token :: tokens) =
      if !released then .error (.malformed .wildcardBeforePrerelease)
      else if tokens.all isWildcard then .ok ([], true)
      else .error (.malformed .wildcardInside) := by
  rw [readComponents, Bool.true_and, if_pos (isWildcard_iff.mpr h)]

/-- What is read off the tokens of a core are the numbers that the numerals denote, and whether
there are wildcards. -/
theorem Tokens.readComponents_eq {numerals wilds : List (List Char)}
    (h : Tokens wildcards released numerals wilds) :
    readComponents wildcards released (numerals ++ wilds) =
      .ok (numerals.map Numeral.value, !wilds.isEmpty) := by
  obtain ⟨hnumeral, hwild, hallowed⟩ := h
  -- Numerals are taken off the front; behind them there are wildcards only, or nothing.
  induction numerals with
  | nil =>
    cases wilds with
    | nil => rfl
    | cons token tokens =>
      obtain ⟨rfl, rfl⟩ := hallowed (List.cons_ne_nil token tokens)
      obtain ⟨htoken, htokens⟩ := List.forall_mem_cons.mp hwild
      have hall : tokens.all isWildcard = true :=
        List.all_eq_true.mpr fun t ht => isWildcard_iff.mpr (htokens t ht)
      rw [List.nil_append, readComponents_cons_of_wild htoken, if_neg (by decide), if_pos hall]
      rfl
  | cons token tokens ih =>
    obtain ⟨htoken, htokens⟩ := List.forall_mem_cons.mp hnumeral
    rw [List.cons_append, readComponents_cons_of_isShortNumeral htoken, ih htokens]
    rfl

/-- Tokens are read as numbers, and perhaps a wildcard, just when they are those of a core. -/
theorem readComponents_eq_ok_iff {tokens : List (List Char)} {r : List ℕ × Bool} :
    readComponents wildcards released tokens = .ok r ↔
      ∃ numerals wilds, tokens = numerals ++ wilds ∧ Tokens wildcards released numerals wilds ∧
        r = (numerals.map Numeral.value, !wilds.isEmpty) := by
  constructor
  · intro h
    induction tokens generalizing r with
    | nil =>
      cases h
      exact ⟨[], [], rfl, ⟨List.forall_mem_nil _, List.forall_mem_nil _, absurd rfl⟩, rfl⟩
    | cons token tokens ih =>
      -- Behind a wildcard nothing is read any more: the tokens are only looked at.
      rcases readComponents_cons_cases wildcards released token tokens with
        ⟨rfl, hwild⟩ | hshort | ⟨-, -, herror⟩ | ⟨cause, herror⟩
      · -- A wildcard is the last thing read, and the others only have to be wildcards too.
        rw [readComponents_cons_of_wild hwild] at h
        obtain ⟨hreleased, hrest⟩ := ite_error_eq_ok.mp h
        obtain ⟨hall, hr⟩ := ite_else_error_eq_ok.mp hrest
        rw [Bool.not_eq_true', Bool.not_eq_false] at hreleased
        have htokens : ∀ t ∈ tokens, t ∈ wildcardTokens :=
          fun t ht => isWildcard_iff.mp (List.all_eq_true.mp hall t ht)
        exact ⟨[], token :: tokens, rfl, ⟨List.forall_mem_nil _,
          List.forall_mem_cons.mpr ⟨hwild, htokens⟩, fun _ => ⟨rfl, hreleased⟩⟩,
          (Except.ok.inj hr).symm⟩
      · -- A numeral goes in front of what is read behind it.
        rw [readComponents_cons_of_isShortNumeral hshort] at h
        obtain ⟨s, hs, rfl⟩ := map_eq_ok.mp h
        obtain ⟨numerals, wilds, rfl, htokens, rfl⟩ := ih hs
        exact ⟨token :: numerals, wilds, rfl,
          ⟨List.forall_mem_cons.mpr ⟨hshort, htokens.numeral⟩, htokens.wild, htokens.allowed⟩, rfl⟩
      · exact absurd (herror.symm.trans h) nofun
      · exact absurd (herror.symm.trans h) nofun
  · rintro ⟨numerals, wilds, rfl, htokens, rfl⟩
    exact htokens.readComponents_eq

/-- A numeral beyond the limit is met among the tokens just when all tokens before it are numerals
within the limit. -/
theorem readComponents_eq_numeral_iff {tokens : List (List Char)} {fault : Numeral.Fault} :
    readComponents wildcards released tokens = .error (.numeral fault) ↔
      ∃ before token after, tokens = before ++ token :: after ∧ (∀ t ∈ before, IsShortNumeral t) ∧
        IsNumeral token ∧ Numeral.limit < token.length ∧ fault = .tooLong token.length := by
  constructor
  · intro h
    induction tokens with
    | nil => exact absurd h nofun
    | cons token tokens ih =>
      -- Reading goes on behind a numeral within the limit only, which is added to `before`.
      rcases readComponents_cons_cases wildcards released token tokens with
        ⟨rfl, hwild⟩ | hshort | ⟨hnumeral, hlong, herror⟩ | ⟨cause, herror⟩
      · -- A misplaced wildcard is malformed, but never too long.
        rw [readComponents_cons_of_wild hwild] at h
        split_ifs at h
        all_goals exact absurd h nofun
      · rw [readComponents_cons_of_isShortNumeral hshort] at h
        cases hrest : readComponents wildcards released tokens with
        | ok r =>
          rw [hrest] at h
          exact absurd h nofun
        | error e =>
          rw [hrest] at h
          cases h
          obtain ⟨before, long, after, rfl, hbefore, hlong⟩ := ih hrest
          exact ⟨token :: before, long, after, rfl, List.forall_mem_cons.mpr ⟨hshort, hbefore⟩,
            hlong⟩
      · -- This is the numeral, with nothing before it.
        rw [herror] at h
        cases h
        exact ⟨[], token, tokens, rfl, List.forall_mem_nil _, hnumeral, hlong, rfl⟩
      · rw [herror] at h
        exact absurd h nofun
  · rintro ⟨before, token, after, rfl, hbefore, hnumeral, hlong, rfl⟩
    -- Back again, each of those before it is read and the error comes from behind it.
    induction before with
    | nil =>
      rw [List.nil_append, readComponents, hnumeral.isWildcard_eq_false, Bool.and_false,
        if_neg Bool.false_ne_true, readComponent_of_limit_lt hnumeral hlong]
    | cons t before ih =>
      obtain ⟨ht, htail⟩ := List.forall_mem_cons.mp hbefore
      rw [List.cons_append, readComponents_cons_of_isShortNumeral ht, ih htail]
      rfl

end

/-! ## Versions -/

/-- An identifier of a prerelease. -/
structure IsIdentifier (l : List Char) : Prop where
  /-- It is not empty. -/
  ne_nil : l ≠ []
  /-- It has ASCII letters, digits and hyphens only. -/
  chars : ∀ c ∈ l, c.isAlphanum = true ∨ c = '-'

/-- A prerelease is empty or identifiers with dots between them. -/
def IsPrerelease (l : List Char) : Prop :=
  l = [] ∨ ∃ ids, (∀ i ∈ ids, IsIdentifier i) ∧ l = ['.'].intercalate ids

/-- The test for identifiers. -/
theorem isIdentifier_iff {l : List Char} :
    (!l.isEmpty && l.all isIdentifierChar) = true ↔ IsIdentifier l := by
  simp only [Bool.and_eq_true, Bool.not_eq_true', List.isEmpty_eq_false_iff, List.all_eq_true,
    isIdentifierChar, Bool.or_eq_true, beq_iff_eq]
  exact ⟨fun h => ⟨h.1, h.2⟩, fun h => ⟨h.ne_nil, h.chars⟩⟩

/-- The test for prereleases. -/
theorem isPrerelease_iff {l : List Char} : isPrerelease l = true ↔ IsPrerelease l := by
  rw [isPrerelease, Bool.or_eq_true, List.isEmpty_iff]
  refine or_congr_right' fun hne => ?_
  rw [List.all_eq_true]
  constructor
  · intro h
    exact ⟨l.splitOn '.', fun i hi => isIdentifier_iff.mp (h i hi),
      (List.intercalate_splitOn '.').symm⟩
  · rintro ⟨ids, hids, rfl⟩
    -- Identifiers have no dots, so they are the very pieces that the test looks at.
    have hfree : ∀ i ∈ ids, '.' ∉ i :=
      fun i hi hdot => ((hids i hi).chars '.' hdot).elim (by decide) (by decide)
    have hsome : ids ≠ [] := by
      rintro rfl
      exact hne rfl
    rw [List.splitOn_intercalate '.' hfree hsome]
    exact fun i hi => isIdentifier_iff.mpr (hids i hi)

/-- The parts of a semantic version, with the tokens of its core. -/
structure Spells (wildcards : Bool) (p : Parts) (numerals wilds : List (List Char)) : Prop
    extends Tokens wildcards p.prerelease.isNone numerals wilds where
  /-- The core is these tokens with dots between them. -/
  core_eq : p.core = ['.'].intercalate (numerals ++ wilds)
  /-- There is a numeral. -/
  numerals_ne_nil : numerals ≠ []
  /-- The prerelease is one. -/
  prerelease : ∀ l ∈ p.prerelease, IsPrerelease l

/-- The version that parts and the tokens of their core denote. -/
structure Denotes (p : Parts) (numerals wilds : List (List Char)) (v : Semantic) : Prop where
  /-- The numbers are those that the numerals denote, in their order. -/
  numbers_eq : v.numbers = numerals.map Numeral.value
  /-- All wildcards together count as one. -/
  wild_iff : v.wild = true ↔ wilds ≠ []
  /-- The prerelease is as it stands. -/
  prerelease_eq : v.prerelease = p.prerelease.map String.ofList
  /-- The build is as it stands. -/
  build_eq : v.build = p.build.map String.ofList

/-- Parts in which a numeral beyond the limit is met before anything else that is wrong. -/
structure Overlong (p : Parts) (before : List (List Char)) (token : List Char)
    (after : List (List Char)) : Prop extends IsNumeral token where
  /-- The prerelease is one. -/
  prerelease : ∀ l ∈ p.prerelease, IsPrerelease l
  /-- The core is these tokens with dots between them. -/
  core_eq : p.core = ['.'].intercalate (before ++ token :: after)
  /-- The last tokens are tokens. -/
  free : ∀ t ∈ after, '.' ∉ t
  /-- The core does not end in a dot. -/
  getLast?_ne : p.core.getLast? ≠ some '.'
  /-- The first tokens are numerals within the limit. -/
  short : ∀ t ∈ before, IsShortNumeral t
  /-- The numeral is too long. -/
  limit_lt : Numeral.limit < token.length

/-- In a version text a numeral of so many digits, which are too many, is met before anything else
that is wrong. -/
def MeetsOverlong (l : List Char) (digits : ℕ) : Prop :=
  ∃ before token after, Overlong (Parts.ofChars l) before token after ∧ digits = token.length

/-- A text in which a numeral that is too long is met is at least as long. -/
theorem MeetsOverlong.limit_lt {l : List Char} {digits : ℕ} (h : MeetsOverlong l digits) :
    Numeral.limit < l.length := by
  obtain ⟨before, token, after, hover, -⟩ := h
  have hpart : ∀ (c : Char) (m : List Char), (Text.cut c m).1.length ≤ m.length := by
    intro c m
    have hlength := congrArg List.length (Text.append_cut c m)
    rw [List.length_append] at hlength
    exact Nat.le.intro hlength
  calc Numeral.limit < token.length := hover.limit_lt
    _ ≤ (Parts.ofChars l).core.length := by
      rw [hover.core_eq]
      exact Text.length_le_length_intercalate '.' (List.mem_append_right _ List.mem_cons_self)
    _ ≤ l.length := Nat.le_trans (hpart '-' _) (hpart '+' l)

/-- A numeral has no dot in it. -/
theorem IsNumeral.dot_notMem {token : List Char} (h : IsNumeral token) : '.' ∉ token :=
  fun hdot => absurd (h.isDigit '.' hdot) (by decide)

/-- The tokens of a core are not empty and have no dots in them. -/
theorem Tokens.forall_mem {wildcards released : Bool} {numerals wilds : List (List Char)}
    (h : Tokens wildcards released numerals wilds) : ∀ t ∈ numerals ++ wilds, t ≠ [] ∧ '.' ∉ t := by
  have hwild : ∀ t ∈ wildcardTokens, t ≠ [] ∧ '.' ∉ t := by decide
  exact List.forall_mem_append.mpr
    ⟨fun t ht => ⟨(h.numeral t ht).ne_nil, (h.numeral t ht).dot_notMem⟩,
      fun t ht => hwild t (h.wild t ht)⟩

section

variable {wildcards : Bool} {p : Parts}

/-- The core of a semantic version falls apart into its tokens. -/
theorem Spells.splitOn_core {numerals wilds : List (List Char)}
    (h : Spells wildcards p numerals wilds) : p.core.splitOn '.' = numerals ++ wilds :=
  Text.splitOn_eq_iff.mpr ⟨List.append_ne_nil_of_left_ne_nil h.numerals_ne_nil wilds,
    fun t ht => (h.toTokens.forall_mem t ht).2, h.core_eq⟩

/-- A core with a numeral that is too long falls apart into its tokens. -/
theorem Overlong.splitOn_core {before after : List (List Char)} {token : List Char}
    (h : Overlong p before token after) : p.core.splitOn '.' = before ++ token :: after := by
  refine Text.splitOn_eq_iff.mpr ⟨List.append_ne_nil_of_right_ne_nil _ (List.cons_ne_nil _ _),
    ?_, h.core_eq⟩
  exact List.forall_mem_append.mpr ⟨fun t ht => (h.short t ht).dot_notMem,
    List.forall_mem_cons.mpr ⟨h.toIsNumeral.dot_notMem, h.free⟩⟩

/-- A prerelease that is checked is one. -/
theorem any_not_isPrerelease_iff :
    ¬(p.prerelease.any fun l => !isPrerelease l) = true ↔ ∀ l ∈ p.prerelease, IsPrerelease l := by
  simp only [Option.any_eq_true, Bool.not_eq_true', not_exists, not_and, Bool.not_eq_false,
    isPrerelease_iff, Option.mem_def]

/-- A version is made of parts where their checks hold and the tokens of the core give its
numbers. -/
theorem ofParts_eq_ok {v : Semantic} :
    ofParts wildcards p = .ok v ↔ (∀ l ∈ p.prerelease, IsPrerelease l) ∧
      p.core.getLast? ≠ some '.' ∧ p.core.head? ≠ some '.' ∧
      readComponents wildcards p.prerelease.isNone (p.core.splitOn '.') =
        .ok (v.numbers, v.wild) ∧
      v.prerelease = p.prerelease.map String.ofList ∧ v.build = p.build.map String.ofList := by
  rw [ofParts, ite_error_eq_ok, ite_error_eq_ok, ite_error_eq_ok, any_not_isPrerelease_iff]
  refine and_congr_right fun _ => and_congr_right fun _ => and_congr_right fun _ => ?_
  cases hr : readComponents wildcards p.prerelease.isNone (p.core.splitOn '.') with
  | error e => exact iff_of_false nofun fun h => absurd h.1 nofun
  | ok r =>
    obtain ⟨ns, wild⟩ := r
    cases ns with
    -- Nothing is made without a first number, and each version has one.
    | nil => exact iff_of_false nofun fun h => absurd h.1 nofun
    | cons major rest =>
      constructor
      · rintro ⟨⟩
        exact ⟨rfl, rfl, rfl⟩
      · obtain ⟨major', rest', wild', prerelease, build⟩ := v
        rintro ⟨h, rfl, rfl⟩
        cases h
        rfl

/-- Parts are refused for a numeral where their checks hold and the tokens of the core are refused
for it. -/
theorem ofParts_eq_numeral {fault : Numeral.Fault} :
    ofParts wildcards p = .error (.numeral fault) ↔ (∀ l ∈ p.prerelease, IsPrerelease l) ∧
      p.core.getLast? ≠ some '.' ∧ p.core.head? ≠ some '.' ∧
      readComponents wildcards p.prerelease.isNone (p.core.splitOn '.') =
        .error (.numeral fault) := by
  -- The checks before the tokens refuse as malformed, so an error about a numeral is one of the
  -- tokens.
  have hne : ∀ cause, ReadError.malformed cause ≠ ReadError.numeral fault := fun _ => nofun
  rw [ofParts, ite_error_eq_error (hne _), ite_error_eq_error (hne _), ite_error_eq_error (hne _),
    any_not_isPrerelease_iff]
  refine and_congr_right fun _ => and_congr_right fun _ => and_congr_right fun _ => ?_
  cases readComponents wildcards p.prerelease.isNone (p.core.splitOn '.') with
  | error e =>
    constructor
    · rintro ⟨⟩
      rfl
    · rintro ⟨⟩
      rfl
  | ok r =>
    obtain ⟨ns, wild⟩ := r
    cases ns with
    | nil => exact iff_of_false nofun nofun
    | cons major rest => exact iff_of_false nofun nofun

/-- Parts make a version just when they are those of a semantic version, which it is. -/
theorem ofParts_eq_ok_iff {v : Semantic} :
    ofParts wildcards p = .ok v ↔
      ∃ numerals wilds, Spells wildcards p numerals wilds ∧ Denotes p numerals wilds v := by
  rw [ofParts_eq_ok]
  constructor
  · rintro ⟨hpre, -, -, hread, hprerelease, hbuild⟩
    obtain ⟨numerals, wilds, hsplit, htokens, hr⟩ := readComponents_eq_ok_iff.mp hread
    obtain ⟨hnumbers, hwild⟩ := Prod.mk.inj hr
    have hcore := (Text.splitOn_eq_iff.mp hsplit).2.2
    refine ⟨numerals, wilds, ⟨htokens, hcore, ?_, hpre⟩, ⟨hnumbers, ?_, hprerelease, hbuild⟩⟩
    · rintro rfl
      exact absurd hnumbers (List.cons_ne_nil _ _)
    · rw [hwild, Bool.not_eq_true', List.isEmpty_eq_false_iff]
  · rintro ⟨numerals, wilds, hspells, hdenotes⟩
    have hwild : v.wild = !wilds.isEmpty := by
      rw [Bool.eq_iff_iff, hdenotes.wild_iff, Bool.not_eq_true', List.isEmpty_eq_false_iff]
    -- A dot at either end would leave an empty token, and no token of a core is empty.
    have hnil : [] ∉ p.core.splitOn '.' := by
      rw [hspells.splitOn_core]
      exact fun h => (hspells.toTokens.forall_mem [] h).1 rfl
    refine ⟨hspells.prerelease, fun h => hnil (Text.nil_mem_splitOn_of_getLast? h),
      fun h => hnil (List.mem_of_head? (Text.head?_splitOn_of_head? h)), ?_,
      hdenotes.prerelease_eq, hdenotes.build_eq⟩
    rw [hspells.splitOn_core, hspells.toTokens.readComponents_eq, hdenotes.numbers_eq, hwild]

/-- Parts are refused for a numeral just when one that is too long is met before anything else that
is wrong. -/
theorem ofParts_eq_numeral_iff {fault : Numeral.Fault} :
    ofParts wildcards p = .error (.numeral fault) ↔
      ∃ before token after, Overlong p before token after ∧ fault = .tooLong token.length := by
  rw [ofParts_eq_numeral]
  constructor
  · rintro ⟨hpre, hlast, -, hread⟩
    obtain ⟨before, token, after, hsplit, hbefore, hnumeral, hlong, hfault⟩ :=
      readComponents_eq_numeral_iff.mp hread
    -- The tokens behind the numeral are not read, so all that is known is that they have no dots.
    obtain ⟨-, hfree, hcore⟩ := Text.splitOn_eq_iff.mp hsplit
    have hafter : ∀ t ∈ after, '.' ∉ t := fun t ht =>
      hfree t (List.mem_append_right _ (List.mem_cons_of_mem token ht))
    exact ⟨before, token, after, ⟨hnumeral, hpre, hcore, hafter, hlast, hbefore, hlong⟩, hfault⟩
  · rintro ⟨before, token, after, h, hfault⟩
    refine ⟨h.prerelease, h.getLast?_ne, fun hhead => ?_, ?_⟩
    · -- The first token is a numeral, and so it is not empty.
      have hfirst := Text.head?_splitOn_of_head? hhead
      rw [h.splitOn_core] at hfirst
      cases before with
      | nil => exact h.ne_nil (Option.some.inj hfirst)
      | cons t before => exact (h.short t List.mem_cons_self).ne_nil (Option.some.inj hfirst)
    · rw [h.splitOn_core]
      exact readComponents_eq_numeral_iff.mpr
        ⟨before, token, after, rfl, h.short, h.toIsNumeral, h.limit_lt, hfault⟩

end

/-- Parts that are those of a semantic version denote one. -/
theorem Spells.exists_denotes {wildcards : Bool} {p : Parts} {numerals wilds : List (List Char)}
    (h : Spells wildcards p numerals wilds) : ∃ v, Denotes p numerals wilds v := by
  obtain ⟨token, tokens, rfl⟩ := List.exists_cons_of_ne_nil h.numerals_ne_nil
  refine ⟨⟨Numeral.value token, tokens.map Numeral.value, !wilds.isEmpty,
    p.prerelease.map String.ofList, p.build.map String.ofList⟩, rfl, ?_, rfl, rfl⟩
  rw [Bool.not_eq_true', List.isEmpty_eq_false_iff]

/-! ## Texts that are put together by the grammar -/

/-- A character of a prerelease is a dot or one that an identifier may have. -/
theorem IsPrerelease.of_mem {l : List Char} (h : IsPrerelease l) {c : Char} (hc : c ∈ l) :
    c = '.' ∨ c.isAlphanum = true ∨ c = '-' := by
  rcases h with rfl | ⟨ids, hids, rfl⟩
  · exact absurd hc List.not_mem_nil
  · rcases Text.eq_or_mem_of_mem_intercalate hc with hdot | ⟨i, hi, hmem⟩
    · exact Or.inl hdot
    · exact Or.inr ((hids i hi).chars c hmem)

/-- A character of a core is a dot, a digit or a wildcard. -/
theorem Spells.of_mem_core {wildcards : Bool} {p : Parts} {numerals wilds : List (List Char)}
    (h : Spells wildcards p numerals wilds) {c : Char} (hc : c ∈ p.core) :
    c = '.' ∨ c.isDigit = true ∨ c ∈ ['x', 'X', '*'] := by
  have hwild : ∀ t ∈ wildcardTokens, ∀ c ∈ t, c ∈ ['x', 'X', '*'] := by simp [wildcardTokens]
  rw [h.core_eq] at hc
  rcases Text.eq_or_mem_of_mem_intercalate hc with hdot | ⟨t, ht, hmem⟩
  · exact Or.inl hdot
  · rcases List.mem_append.mp ht with ht | ht
    · exact Or.inr (Or.inl ((h.numeral t ht).isDigit c hmem))
    · exact Or.inr (Or.inr (hwild t (h.wild t ht) c hmem))

/-- The grammar is unambiguous: parts of a semantic version are the parts of the text that they
make. -/
theorem Spells.of_chars {wildcards : Bool} {p : Parts} {numerals wilds : List (List Char)}
    (h : Spells wildcards p numerals wilds) : p.Of p.chars := by
  have hcore : '+' ∉ p.core ∧ '-' ∉ p.core := by
    constructor
    · exact fun hc => absurd (h.of_mem_core hc) (by decide)
    · exact fun hc => absurd (h.of_mem_core hc) (by decide)
  refine ⟨rfl, hcore.2, ?_⟩
  -- A prerelease may have hyphens, but that one stands in front of them.
  rw [List.mem_append, not_or]
  refine ⟨hcore.1, ?_⟩
  cases hp : p.prerelease with
  | none => exact List.not_mem_nil
  | some l =>
    show '+' ∉ '-' :: l
    rw [List.mem_cons, not_or]
    exact ⟨by decide, fun hc => absurd ((h.prerelease l hp).of_mem hc) (by decide)⟩

/-- The text that parts of a semantic version make is read as the version that they denote. -/
theorem Spells.parse_chars {wildcards : Bool} {p : Parts} {numerals wilds : List (List Char)}
    (h : Spells wildcards p numerals wilds) {v : Semantic} (hv : Denotes p numerals wilds v) :
    parse wildcards (String.ofList p.chars) = .ok v := by
  rw [parse, String.toList_ofList, ← Parts.of_iff.mp h.of_chars]
  exact ofParts_eq_ok_iff.mpr ⟨numerals, wilds, h, hv⟩

end Semantic

namespace Version

open Semantic (Denotes Overlong Parts Spells)

/-- A text that is not empty is read as the semantic version that it is, or as a label if the reader
of semantic versions finds it malformed. -/
theorem parse_eq_ok_iff {wildcards : Bool} {s : String} {v : Version} :
    parse wildcards s = .ok v ↔ s ≠ "" ∧
      ((∃ u, v = .semantic u ∧ Semantic.parse wildcards s = .ok u) ∨
        v = .label s ∧ ∃ cause, Semantic.parse wildcards s = .error (.malformed cause)) := by
  rw [parse, ite_error_eq_ok]
  refine and_congr_right fun _ => ?_
  -- Only what the reader of semantic versions finds malformed is kept as a label.
  cases Semantic.parse wildcards s with
  | ok u =>
    constructor
    · rintro ⟨⟩
      exact Or.inl ⟨u, rfl, rfl⟩
    · rintro (⟨_, rfl, ⟨⟩⟩ | ⟨-, _, h⟩)
      · rfl
      · exact absurd h nofun
  | error e =>
    cases e with
    | malformed cause =>
      constructor
      · rintro ⟨⟩
        exact Or.inr ⟨rfl, cause, rfl⟩
      · rintro (⟨_, -, h⟩ | ⟨rfl, -⟩)
        · exact absurd h nofun
        · rfl
    | numeral fault =>
      refine iff_of_false nofun ?_
      rintro (⟨_, -, h⟩ | ⟨-, _, h⟩)
      · exact absurd h nofun
      · exact absurd h nofun

/-- The reader of semantic versions accepts exactly the grammar: a text, which has its parts in one
way only, is read when they are those of a semantic version, and as the version that they denote. It
is refused for a numeral when one that is too long comes before anything else that is wrong, and is
malformed otherwise; then it is read as a label. -/
theorem parse_exactly_grammar (wildcards : Bool) (s : String) :
    ∃ p : Parts, (∀ q : Parts, q.Of s.toList ↔ q = p) ∧
      ((∃ v, Semantic.parse wildcards s = .ok v) ↔
        ∃ numerals wilds, Spells wildcards p numerals wilds) ∧
      (∀ v, Semantic.parse wildcards s = .ok v ↔
        ∃ numerals wilds, Spells wildcards p numerals wilds ∧ Denotes p numerals wilds v) ∧
      (∀ fault, Semantic.parse wildcards s = .error (.numeral fault) ↔
        ∃ before token after, Overlong p before token after ∧ fault = .tooLong token.length) ∧
      ((∃ cause, Semantic.parse wildcards s = .error (.malformed cause)) ↔
        (¬∃ numerals wilds, Spells wildcards p numerals wilds) ∧
          ¬∃ before token after, Overlong p before token after) ∧
      ∀ v, parse wildcards s = .ok v ↔ s ≠ "" ∧
        ((∃ u, v = .semantic u ∧ Semantic.parse wildcards s = .ok u) ∨
          v = .label s ∧ ∃ cause, Semantic.parse wildcards s = .error (.malformed cause)) := by
  have hok : ∀ v, Semantic.parse wildcards s = .ok v ↔ _ := fun v => Semantic.ofParts_eq_ok_iff
  have hnumeral : ∀ fault, Semantic.parse wildcards s = .error (.numeral fault) ↔ _ :=
    fun fault => Semantic.ofParts_eq_numeral_iff
  -- Some version is read where some tokens spell one, as each spelling denotes something.
  have hsome : (∃ v, Semantic.parse wildcards s = .ok v) ↔
      ∃ numerals wilds, Spells wildcards (Parts.ofChars s.toList) numerals wilds := by
    constructor
    · rintro ⟨v, hv⟩
      obtain ⟨numerals, wilds, hspells, -⟩ := (hok v).mp hv
      exact ⟨numerals, wilds, hspells⟩
    · rintro ⟨numerals, wilds, hspells⟩
      obtain ⟨v, hv⟩ := hspells.exists_denotes
      exact ⟨v, (hok v).mpr ⟨numerals, wilds, hspells, hv⟩⟩
  have hlong : (∃ fault, Semantic.parse wildcards s = .error (.numeral fault)) ↔
      ∃ before token after, Overlong (Parts.ofChars s.toList) before token after := by
    constructor
    · rintro ⟨fault, hfault⟩
      obtain ⟨before, token, after, h, -⟩ := (hnumeral fault).mp hfault
      exact ⟨before, token, after, h⟩
    · rintro ⟨before, token, after, h⟩
      exact ⟨_, (hnumeral _).mpr ⟨before, token, after, h, rfl⟩⟩
  -- What is left is that the malformed texts are the ones of neither kind.
  refine ⟨Parts.ofChars s.toList, fun q => Parts.of_iff, hsome, hok, hnumeral, ?_,
    fun v => parse_eq_ok_iff⟩
  rw [← hsome, ← hlong]
  cases Semantic.parse wildcards s with
  | ok v => exact iff_of_false (fun ⟨_, h⟩ => absurd h nofun) fun h => h.1 ⟨v, rfl⟩
  | error e =>
    cases e with
    | malformed cause =>
      exact iff_of_true ⟨cause, rfl⟩ ⟨fun ⟨_, h⟩ => absurd h nofun, fun ⟨_, h⟩ => absurd h nofun⟩
    | numeral fault => exact iff_of_false (fun ⟨_, h⟩ => absurd h nofun) fun h => h.2 ⟨fault, rfl⟩

end Version

end Semrange
