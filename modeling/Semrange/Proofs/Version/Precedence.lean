import Mathlib.Data.Sum.Order
import Semrange.Proofs.Version.Rank
import Semrange.Proofs.Version.RoundTrip

/-!
# Precedence of prereleases

Prereleases compare as the rule of precedence has it (`compare_eq_precedence`): identifier by
identifier, numbers by their size and below all words, words by their characters, and the shorter
list below its continuations. The rule is an order on what the identifiers stand for (`precedence`).

No identifier is converted for that, so numbers may be of any size. Between numerals without idle
zeros the longer one is the greater one, since its first digit alone outweighs all of the shorter
one, and numerals of one length are in the order of their digits (`compares_value`).
-/

namespace Semrange

open Ordering (Compares)

namespace Numeral

/-! ## Values of numerals -/

/-- The first digit of a numeral counts a power of ten for the digits behind it. -/
theorem value_cons (c : Char) (l : List Char) :
    value (c :: l) = Nat.pow 10 l.length * (c.toNat - '0'.toNat) + value l := by
  have h : value (c :: l) = Nat.ofDigitChars 10 l (10 * 0 + (c.toNat - '0'.toNat)) := rfl
  rw [h, Nat.ofDigitChars_eq_ofDigitChars_zero, Nat.mul_zero, Nat.zero_add]
  rfl

/-- A numeral whose first digit is less denotes less than one of the same length. -/
theorem value_cons_lt {c d : Char} {l m : List Char} (hc : c.isDigit = true)
    (hl : l.all Char.isDigit = true) (hlength : l.length = m.length) (h : c < d) :
    value (c :: l) < value (d :: m) := by
  have hlt : c.toNat < d.toNat := UInt32.lt_iff_toNat_lt.mp (Char.lt_def.mp h)
  have hge : '0'.toNat ≤ c.toNat := (Char.isDigit_iff_toNat.mp hc).1
  have hdigit : c.toNat - '0'.toNat + 1 ≤ d.toNat - '0'.toNat := by omega
  calc value (c :: l)
      < Nat.pow 10 l.length * (c.toNat - '0'.toNat) + Nat.pow 10 l.length := by
        rw [value_cons]
        exact Nat.add_lt_add_left (value_lt hl le_rfl) _
    _ = Nat.pow 10 l.length * (c.toNat - '0'.toNat + 1) := (Nat.mul_succ _ _).symm
    _ ≤ Nat.pow 10 l.length * (d.toNat - '0'.toNat) := Nat.mul_le_mul_left _ hdigit
    _ ≤ value (d :: m) := by
        rw [value_cons, hlength]
        exact Nat.le_add_right _ _

/-- Numerals of one length are in the order of their digits. -/
theorem compares_value_of_length_eq {i j : List Char} (hi : i.all Char.isDigit = true)
    (hj : j.all Char.isDigit = true) (hlength : i.length = j.length) :
    (Ord.compare i j).Compares (value i) (value j) := by
  induction i generalizing j with
  | nil =>
    obtain rfl := List.eq_nil_of_length_eq_zero hlength.symm
    exact rfl
  | cons c i ih =>
    obtain ⟨d, j, rfl⟩ := List.exists_cons_of_length_eq_add_one hlength.symm
    obtain ⟨hc, hrest⟩ := Bool.and_eq_true_iff.mp (List.all_cons.symm.trans hi)
    obtain ⟨hd, hrest'⟩ := Bool.and_eq_true_iff.mp (List.all_cons.symm.trans hj)
    have htails : i.length = j.length := Nat.succ.inj hlength
    rw [List.compare_cons_cons]
    refine compares_then (compares_compare c d) (value_cons_lt hc hrest htails)
      (value_cons_lt hd hrest' htails.symm) ?_
    rintro rfl
    -- Equal first digits count the same, so the digits behind them decide.
    have hmono : StrictMono fun n => Nat.pow 10 j.length * (c.toNat - '0'.toNat) + n :=
      fun _ _ hlt => Nat.add_lt_add_left hlt _
    rw [value_cons, value_cons, htails]
    exact hmono.compares.mpr (ih hrest hrest' htails)

end Numeral

namespace Semantic

/-! ## Identifiers -/

/-- A numeral without idle zeros: a zero, or digits the first of which is not zero. -/
structure IsPlainNumeral (i : List Char) : Prop extends IsNumeral i where
  /-- There is no idle zero. -/
  eq_zero : i.head? = some '0' → i = ['0']

/-- The test for numerals without idle zeros. -/
theorem isNumeric_iff {i : List Char} : isNumeric i = true ↔ IsPlainNumeral i := by
  rw [isNumeric, Bool.or_eq_true, Bool.and_eq_true, beq_iff_eq, isDigits_iff, bne_iff_ne]
  constructor
  · rintro (rfl | ⟨hnumeral, hhead⟩)
    · exact ⟨isDigits_iff.mp rfl, fun _ => rfl⟩
    · exact ⟨hnumeral, fun h => absurd h hhead⟩
  · intro h
    -- A numeral that starts with a zero is that zero.
    by_cases hhead : i.head? = some '0'
    · exact Or.inl (h.eq_zero hhead)
    · exact Or.inr ⟨h.toIsNumeral, hhead⟩

instance (i : List Char) : Decidable (IsPlainNumeral i) :=
  decidable_of_iff _ isNumeric_iff

/-- What an identifier stands for when it is compared with others: a number if it is a numeral
without idle zeros, and otherwise its characters. Numbers come before words. -/
def precedence (i : List Char) : ℕ ⊕ₗ List Char :=
  if IsPlainNumeral i then toLex (Sum.inl (Numeral.value i)) else toLex (Sum.inr i)

/-- A longer numeral without idle zeros denotes more. -/
theorem IsPlainNumeral.value_lt {i j : List Char} (hi : IsPlainNumeral i) (hj : IsPlainNumeral j)
    (h : i.length < j.length) : Numeral.value i < Numeral.value j := by
  obtain ⟨d, m, rfl⟩ := List.exists_cons_of_ne_nil hj.ne_nil
  have hlength : i.length ≤ m.length := Nat.le_of_lt_succ h
  -- The longer one has a second digit, so its first digit is not zero.
  have hne : d ≠ '0' := by
    rintro rfl
    have hm : m = [] := (List.cons.inj (hj.eq_zero rfl)).2
    rw [hm] at hlength
    exact hi.ne_nil (List.eq_nil_of_length_eq_zero (Nat.le_zero.mp hlength))
  have hdigit : 1 ≤ d.toNat - '0'.toNat := by
    have hge := (Char.isDigit_iff_toNat.mp (hj.isDigit d List.mem_cons_self)).1
    have hne' : d.toNat ≠ '0'.toNat := fun heq => hne (Char.toNat_inj.mp heq)
    omega
  calc Numeral.value i
      < Nat.pow 10 m.length := Numeral.value_lt (List.all_eq_true.mpr hi.isDigit) hlength
    _ ≤ Nat.pow 10 m.length * (d.toNat - '0'.toNat) := Nat.le_mul_of_pos_right _ hdigit
    _ ≤ Numeral.value (d :: m) := by
        rw [Numeral.value_cons]
        exact Nat.le_add_right _ _

/-- Comparing the lengths of numerals without idle zeros and then their characters is right for what
they denote. -/
theorem IsPlainNumeral.compares_value {i j : List Char} (hi : IsPlainNumeral i)
    (hj : IsPlainNumeral j) :
    ((Ord.compare i.length j.length).then (Ord.compare i j)).Compares (Numeral.value i)
      (Numeral.value j) := by
  refine compares_then (compares_compare i.length j.length) (hi.value_lt hj) (hj.value_lt hi) ?_
  exact Numeral.compares_value_of_length_eq (List.all_eq_true.mpr hi.isDigit)
    (List.all_eq_true.mpr hj.isDigit)

/-- The comparison of identifiers is right for what they stand for. -/
theorem compares_precedence (i j : List Char) :
    (compareIdentifiers i j).Compares (precedence i) (precedence j) := by
  unfold compareIdentifiers precedence
  -- Two numbers compare as such, two words by their characters, and a number comes before a word.
  by_cases hi : IsPlainNumeral i
  · rw [if_pos hi, isNumeric_iff.mpr hi]
    by_cases hj : IsPlainNumeral j
    · rw [if_pos hj, isNumeric_iff.mpr hj]
      exact Sum.Lex.inl_strictMono.compares.mpr (hi.compares_value hj)
    · rw [if_neg hj, Bool.eq_false_iff.mpr (mt isNumeric_iff.mp hj)]
      exact Sum.Lex.inl_lt_inr _ _
  · rw [if_neg hi, Bool.eq_false_iff.mpr (mt isNumeric_iff.mp hi)]
    by_cases hj : IsPlainNumeral j
    · rw [if_pos hj, isNumeric_iff.mpr hj]
      exact Sum.Lex.inl_lt_inr _ _
    · rw [if_neg hj, Bool.eq_false_iff.mpr (mt isNumeric_iff.mp hj)]
      exact Sum.Lex.inr_strictMono.compares.mpr (compares_chars i j)

/-! ## Prereleases -/

/-- The identifiers that a prerelease is put together from are found again. -/
theorem identifiers_eq {p : String} {l : List (List Char)} (hl : ∀ i ∈ l, IsIdentifier i)
    (hp : p.toList = ['.'].intercalate l) : identifiers p = l := by
  have hfree : ∀ i ∈ l, '.' ∉ i :=
    fun i hi hdot => ((hl i hi).chars '.' hdot).elim (by decide) (by decide)
  -- Nothing is dropped for being empty.
  have hkept : ∀ i ∈ l, (!i.isEmpty) = true := by
    intro i hi
    rw [Bool.not_eq_true', List.isEmpty_eq_false_iff]
    exact (hl i hi).ne_nil
  rw [identifiers, hp]
  by_cases hnil : l = []
  · rw [hnil]
    rfl
  · rw [List.splitOn_intercalate '.' hfree hnil, List.filter_eq_self.mpr hkept]

/-- Prereleases compare by what their identifiers stand for, one after the other: numbers by their
size, whatever that is, numbers below words, words by their characters, and a list of identifiers
below its continuations. An identifier that starts with an idle zero stands for a word. -/
theorem compare_eq_precedence {p q : String} {l m : List (List Char)}
    (hl : ∀ i ∈ l, IsIdentifier i) (hm : ∀ i ∈ m, IsIdentifier i)
    (hp : p.toList = ['.'].intercalate l) (hq : q.toList = ['.'].intercalate m) :
    ((comparePrereleases p q = .lt ↔ l.map precedence < m.map precedence) ∧
      (comparePrereleases p q = .eq ↔ l.map precedence = m.map precedence) ∧
      (comparePrereleases p q = .gt ↔ m.map precedence < l.map precedence)) ∧
      ∀ i : List Char, i.head? = some '0' → i ≠ ['0'] → precedence i = toLex (Sum.inr i) := by
  refine ⟨?_, fun i hhead hne => if_neg fun h => hne (h.eq_zero hhead)⟩
  have hcompares : (comparePrereleases p q).Compares (l.map precedence) (m.map precedence) := by
    rw [comparePrereleases, identifiers_eq hl hp, identifiers_eq hm hq]
    exact compares_map compares_precedence l m
  exact ⟨hcompares.eq_lt, hcompares.eq_eq, hcompares.eq_gt⟩

/-- Twenty digits against an identifier with idle zeros, behind a word that both start with. -/
theorem compare_eq_precedence_twenty_digits :
    let p := "rc.98765432109876543210"
    let q := "rc.007.1"
    let l := ["rc".toList, "98765432109876543210".toList]
    let m := ["rc".toList, "007".toList, "1".toList]
    (∀ i ∈ l, IsIdentifier i) ∧ (∀ i ∈ m, IsIdentifier i) ∧ p.toList = ['.'].intercalate l ∧
      q.toList = ['.'].intercalate m ∧ comparePrereleases p q = .lt ∧
      l.map precedence < m.map precedence ∧
      precedence "007".toList = toLex (Sum.inr "007".toList) := by
  intro p q l m
  have hl : ∀ i ∈ l, (!i.isEmpty && i.all isIdentifierChar) = true := by decide +kernel
  have hm : ∀ i ∈ m, (!i.isEmpty && i.all isIdentifierChar) = true := by decide +kernel
  have hil : ∀ i ∈ l, IsIdentifier i := fun i hi => isIdentifier_iff.mp (hl i hi)
  have him : ∀ i ∈ m, IsIdentifier i := fun i hi => isIdentifier_iff.mp (hm i hi)
  have hp : p.toList = ['.'].intercalate l := by decide +kernel
  have hq : q.toList = ['.'].intercalate m := by decide +kernel
  have hlt : comparePrereleases p q = .lt := by decide +kernel
  obtain ⟨⟨hless, -, -⟩, hidle⟩ := compare_eq_precedence hil him hp hq
  exact ⟨hil, him, hp, hq, hlt, hless.mp hlt, hidle _ (by decide) (by decide)⟩

end Semantic

end Semrange
