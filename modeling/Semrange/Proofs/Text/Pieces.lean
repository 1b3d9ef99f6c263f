import Mathlib.Data.List.Basic
import Semrange.Text.Blank
import Semrange.Text.Cut

/-!
# Texts taken apart

A text that is taken apart at a separator is its pieces with that separator between them, and the
pieces are free of it; there is only one such list (`splitOn_eq_iff`). A piece is empty where the
separator stands at either end of the text.

No word goes on past a blank, so where two texts meet in one, they have their words one after the
other (`words_append`), and a text that is put together from words with blanks between them has just
these words (`words_intercalate`).
-/

namespace Semrange.Text

/-! ## Cuts -/

/-- A text is cut where it was put together, behind a part without the cutting character. -/
theorem cut_append {c : Char} {l : List Char} (h : c ∉ l) (o : Option (List Char)) :
    cut c (l ++ (o.map (c :: ·)).getD []) = (l, o) := by
  induction l with
  | nil =>
    cases o with
    | none => rfl
    | some m => exact if_pos rfl
  | cons d l ih =>
    rw [List.mem_cons, not_or] at h
    rw [List.cons_append, cut, if_neg (Ne.symm h.1), ih h.2]

/-! ## Pieces -/

/-- No character of a piece is a separator. -/
theorem forall_mem_of_mem_splitOnP {p : Char → Bool} {l w : List Char} (h : w ∈ l.splitOnP p) :
    ∀ c ∈ w, p c = false := by
  induction l generalizing w with
  | nil =>
    rw [List.splitOnP_nil, List.mem_singleton] at h
    rw [h]
    exact List.forall_mem_nil _
  | cons d l ih =>
    rw [List.splitOnP_cons_eq_if_modifyHead] at h
    by_cases hd : p d = true
    · -- A separator leaves an empty piece before the rest.
      rw [if_pos hd, List.mem_cons] at h
      rcases h with rfl | h
      · exact List.forall_mem_nil _
      · exact ih h
    · -- The first piece of the rest grows by a character that is no separator.
      rw [if_neg hd] at h
      obtain ⟨v, vs, hv⟩ := List.exists_cons_of_ne_nil (List.splitOnP_ne_nil p l)
      rw [hv] at h ih
      rw [List.modifyHead_cons, List.mem_cons] at h
      rcases h with rfl | h
      · exact List.forall_mem_cons.mpr ⟨Bool.eq_false_iff.mpr hd, ih List.mem_cons_self⟩
      · exact ih (List.mem_cons_of_mem v h)

/-- The separator is in no piece. -/
theorem notMem_of_mem_splitOn {c : Char} {l w : List Char} (h : w ∈ l.splitOn c) : c ∉ w := by
  rw [List.splitOn_eq_splitOnP] at h
  intro hc
  have hne := forall_mem_of_mem_splitOnP h c hc
  rw [beq_self_eq_true] at hne
  exact absurd hne nofun

/-- The pieces of a text are the texts without the separator that it is put together from. -/
theorem splitOn_eq_iff {c : Char} {l : List Char} {ws : List (List Char)} :
    l.splitOn c = ws ↔ ws ≠ [] ∧ (∀ w ∈ ws, c ∉ w) ∧ l = [c].intercalate ws := by
  constructor
  · rintro rfl
    exact ⟨List.splitOn_ne_nil c l, fun w => notMem_of_mem_splitOn,
      (List.intercalate_splitOn c).symm⟩
  · rintro ⟨hne, hfree, rfl⟩
    exact List.splitOn_intercalate c hfree hne

/-- A character of texts with a separator between them is that separator or a character of one of
the texts. -/
theorem eq_or_mem_of_mem_intercalate {sep c : Char} {l : List (List Char)}
    (h : c ∈ [sep].intercalate l) : c = sep ∨ ∃ i ∈ l, c ∈ i := by
  induction l with
  | nil => exact absurd h nofun
  | cons i l ih =>
    cases l with
    | nil =>
      rw [List.intercalate_singleton] at h
      exact Or.inr ⟨i, List.mem_singleton_self i, h⟩
    | cons j l =>
      -- The first text, the separator behind it, and what follows.
      rw [List.intercalate_cons_cons, List.mem_append, List.mem_append, List.mem_singleton] at h
      rcases h with (h | h) | h
      · exact Or.inr ⟨i, List.mem_cons_self, h⟩
      · exact Or.inl h
      · rcases ih h with h | ⟨k, hk, hc⟩
        · exact Or.inl h
        · exact Or.inr ⟨k, List.mem_cons_of_mem i hk, hc⟩

/-- A text is at least as long as each of the texts that it is put together from. -/
theorem length_le_length_intercalate (sep : Char) {w : List Char} {l : List (List Char)}
    (h : w ∈ l) : w.length ≤ ([sep].intercalate l).length := by
  induction l with
  | nil => cases h
  | cons i l ih =>
    cases l with
    | nil =>
      obtain rfl := List.mem_singleton.mp h
      exact Nat.le_of_eq (congrArg List.length List.intercalate_singleton.symm)
    | cons j l =>
      rw [List.intercalate_cons_cons, List.length_append, List.length_append]
      rcases List.mem_cons.mp h with rfl | h
      · omega
      · have hrest := ih h
        omega

/-- Where a text starts with the separator, its first piece is empty. -/
theorem head?_splitOn_of_head? {c : Char} {l : List Char} (h : l.head? = some c) :
    (l.splitOn c).head? = some [] := by
  obtain ⟨m, rfl⟩ := List.head?_eq_some_iff.mp h
  exact congrArg List.head? (List.splitOn_append_cons_self [] m)

/-- Where a text ends in the separator, one of its pieces is empty. -/
theorem nil_mem_splitOn_of_getLast? {c : Char} {l : List Char} (h : l.getLast? = some c) :
    [] ∈ l.splitOn c := by
  obtain ⟨m, rfl⟩ := List.getLast?_eq_some_iff.mp h
  rw [List.splitOn_append_cons_self]
  exact List.mem_append_right _ List.mem_cons_self

/-! ## Trimming -/

/-- A text that does not start with a blank has none to be taken away there. -/
theorem trimStart_eq_self {l : List Char} (h : ∀ c ∈ l.head?, isBlank c = false) :
    trimStart l = l := by
  cases l with
  | nil => rfl
  | cons c l => exact List.dropWhile_cons_of_neg (Bool.eq_false_iff.mp (h c rfl))

/-- A text without a blank at either end is not trimmed. -/
theorem trim_eq_self {l : List Char} (hhead : ∀ c ∈ l.head?, isBlank c = false)
    (hlast : ∀ c ∈ l.getLast?, isBlank c = false) : trim l = l := by
  have hreverse : trimStart l.reverse = l.reverse := by
    refine trimStart_eq_self fun c hc => hlast c ?_
    rwa [List.head?_reverse] at hc
  rw [trim, trimStart_eq_self hhead, hreverse, List.reverse_reverse]

/-! ## Words -/

/-- A letter or digit is not blank. -/
theorem isBlank_eq_false_of_isAlphanum {c : Char} (h : c.isAlphanum = true) :
    isBlank c = false := by
  -- No range of blanks meets one of these three.
  have hrange : ((65 ≤ c.toNat ∧ c.toNat ≤ 90) ∨ (97 ≤ c.toNat ∧ c.toNat ≤ 122)) ∨
      (48 ≤ c.toNat ∧ c.toNat ≤ 57) := by
    refine (Bool.or_eq_true_iff.mp h).imp (fun halpha => ?_) Char.isDigit_iff_toNat.mp
    refine (Bool.or_eq_true_iff.mp (show (c.isUpper || c.isLower) = true from halpha)).imp ?_ ?_
    · intro hupper
      exact of_decide_eq_true hupper
    · intro hlower
      obtain ⟨hge, hle⟩ := Bool.and_eq_true_iff.mp hlower
      exact ⟨of_decide_eq_true hge, of_decide_eq_true hle⟩
  simp [isBlank, inRanges, blankRanges]
  omega

/-- A digit is not blank. -/
theorem isBlank_eq_false_of_isDigit {c : Char} (h : c.isDigit = true) : isBlank c = false :=
  isBlank_eq_false_of_isAlphanum (Bool.or_eq_true_iff.mpr (Or.inr h))

/-- A word is not empty and has no blank in it. -/
theorem nonempty_of_mem_words {l w : List Char} (h : w ∈ words l) :
    w ≠ [] ∧ ∀ c ∈ w, isBlank c = false := by
  obtain ⟨hmem, hne⟩ := List.mem_filter.mp h
  rw [Bool.not_eq_true', List.isEmpty_eq_false_iff] at hne
  exact ⟨hne, forall_mem_of_mem_splitOnP hmem⟩

/-- A blank parts the words before it from those behind it. -/
theorem words_append_cons {c : Char} (hc : isBlank c = true) (l m : List Char) :
    words (l ++ c :: m) = words l ++ words m := by
  rw [words, List.splitOnP_append_cons l m hc, List.filter_append]
  rfl

/-- Two texts have their words one after the other where the first one ends in a blank or the second
one starts with one. -/
theorem words_append {l m : List Char}
    (h : l.getLast?.any isBlank = true ∨ m.head?.any isBlank = true) :
    words (l ++ m) = words l ++ words m := by
  rcases h with h | h
  · -- The blank at the end has no word behind it.
    obtain ⟨c, hlast, hc⟩ := (Option.any_eq_true _ _).mp h
    obtain ⟨k, rfl⟩ := List.getLast?_eq_some_iff.mp hlast
    rw [List.append_assoc, List.singleton_append, words_append_cons hc, words_append_cons hc]
    exact congrArg (· ++ words m) (List.append_nil _).symm
  · -- The blank at the start has no word before it.
    obtain ⟨c, hhead, hc⟩ := (Option.any_eq_true _ _).mp h
    obtain ⟨k, rfl⟩ := List.head?_eq_some_iff.mp hhead
    rw [words_append_cons hc]
    exact congrArg (words l ++ ·) (words_append_cons hc [] k).symm

/-- Words with single blanks between them are found again. -/
theorem words_intercalate {ws : List (List Char)}
    (h : ∀ w ∈ ws, w ≠ [] ∧ ∀ c ∈ w, isBlank c = false) : words ([' '].intercalate ws) = ws := by
  induction ws with
  | nil => rfl
  | cons w ws ih =>
    obtain ⟨⟨hne, hfree⟩, htail⟩ := List.forall_mem_cons.mp h
    have hkept : (!w.isEmpty) = true := by
      rw [Bool.not_eq_true', List.isEmpty_eq_false_iff]
      exact hne
    cases ws with
    -- The last word has no blank behind it.
    | nil =>
      rw [List.intercalate_singleton, words, List.splitOnP_eq_singleton hfree]
      exact (List.filter_cons ..).trans (if_pos hkept)
    | cons v vs =>
      rw [List.intercalate_cons_cons, List.append_assoc, List.singleton_append, words,
        List.splitOnP_append_cons_of_forall_mem hfree ' ' (by decide), List.filter_cons,
        if_pos hkept]
      exact congrArg (w :: ·) (ih htail)

end Semrange.Text
