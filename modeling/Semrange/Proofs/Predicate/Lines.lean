import Semrange.Proofs.Predicate.Agreement
import Semrange.Proofs.Predicate.RoundTrip

/-!
# Lines of versions

A version with a wildcard stands for a line: all versions that agree with it in the numbers before
the wildcard. It does so in two ways that share no code. In the order of versions the wildcard
agrees with everything from its place on, and it evens out the difference between a release and a
prerelease, so what compares equal to it is its line (`compare_wild_eq_iff`). In a range it is
rewritten to `~` or `^` with the lowest version of the line as the reference; what agrees with that
version in its numbers is never below it (`rank_lineStart_le`), so these operators ask for the line
and for nothing else (`test_lineStart_iff`). The interval between their bounds is the line again,
where there is a numeral for the upper one (`line_tests_agree`).
-/

namespace Semrange

namespace Semantic

/-! ## The wildcard in the order of versions -/

/-- Behind the core of a pattern that ends in a wildcard everything agrees. -/
theorem compareCores_wildcard_nil (l : List ℕ) :
    compareCores (.number 0) .wildcard l [] = .eq := by
  induction l with
  | nil => rfl
  | cons a l ih => rw [compareCores, ih]; rfl

/-- A core of zeros compares equal to the numbers of a pattern when these are zeros. -/
theorem comparePad_eq_iff (m : List ℕ) :
    comparePad (.number 0) m = .eq ↔ ∀ pos < m.length, 0 = numberAt m pos := by
  induction m with
  | nil => exact iff_of_true rfl fun pos hpos => absurd hpos pos.not_lt_zero
  | cons b m ih =>
    have hhead : (Component.number 0).compare (.number b) = .eq ↔ 0 = b := compare_eq_iff_eq
    rw [comparePad, Ordering.then_eq_eq, hhead, ih, List.length_cons, Nat.forall_lt_succ_left]
    rfl

/-- A core compares equal to a pattern that ends in a wildcard when it agrees with its numbers. -/
theorem compareCores_wildcard_eq_iff (l m : List ℕ) :
    compareCores (.number 0) .wildcard l m = .eq ↔
      ∀ pos < m.length, numberAt l pos = numberAt m pos := by
  -- The pattern is followed to its end; a core that ends before it goes on with zeros.
  induction m generalizing l with
  | nil =>
    exact iff_of_true (compareCores_wildcard_nil l) fun pos hpos => absurd hpos pos.not_lt_zero
  | cons b m ih =>
    cases l with
    | nil => exact comparePad_eq_iff (b :: m)
    | cons a l =>
      have hhead : Ord.compare a b = .eq ↔ a = b := compare_eq_iff_eq
      rw [compareCores, Ordering.then_eq_eq, hhead, ih, List.length_cons, Nat.forall_lt_succ_left]
      rfl

/-- Before the pad the components are the numbers of the core. -/
theorem component_of_lt {v : Semantic} {pos : ℕ} (h : pos < v.numbers.length) :
    v.component pos = .number (numberAt v.numbers pos) := by
  have hget : v.numbers[pos]? = some v.numbers[pos] := List.getElem?_eq_getElem h
  rw [component_eq_getD, numberAt, List.getD_eq_getElem?_getD, List.getD_eq_getElem?_getD,
    List.getElem?_map, hget]
  rfl

/-- A prerelease makes no difference next to a wildcard without one. -/
theorem compareStages_lenient (p : Option String) : compareStages true p none = .eq := by
  cases p with
  | none => rfl
  | some p => rfl

/-- What compares equal to a version with a wildcard is what agrees with the numbers before it. -/
theorem compare_wild_eq_iff {v w : Semantic} (hv : v.wild = false) (hw : w.wild = true)
    (hreleased : w.prerelease = none) :
    v.compare w = .eq ↔ ∀ pos < w.numbers.length, v.component pos = w.component pos := by
  have hpv : v.pad = .number 0 := by simp [pad, hv]
  have hpw : w.pad = .wildcard := by simp [pad, hw]
  have hstages : compareStages (v.wild || w.wild) v.prerelease w.prerelease = .eq := by
    rw [hw, hreleased, Bool.or_true]
    exact compareStages_lenient v.prerelease
  unfold Semantic.compare
  rw [hpv, hpw, hstages, Ordering.then_eq, compareCores_wildcard_eq_iff]
  refine forall_congr' fun pos => imp_congr_right fun hpos => ?_
  rw [component_eq_numberAt hv, component_of_lt hpos, Component.number.injEq]

/-! ## The lowest version of a line -/

/-- The lowest version of the line that a version with a wildcard stands for. -/
def lineStart (w : Semantic) : Semantic :=
  { w with wild := false, prerelease := some "" }

/-- The lowest version of a line is at or below all that agree with it in its numbers. -/
theorem rank_lineStart_le {v w : Semantic} (hv : v.wild = false)
    (h : ∀ pos < w.numbers.length, v.component pos = w.lineStart.component pos) :
    w.lineStart.rank ≤ v.rank := by
  have hplace : ∀ pos, numberAt w.numbers pos ≤ numberAt v.numbers pos := by
    intro pos
    by_cases hpos : pos < w.numbers.length
    · have heq := h pos hpos
      rw [component_eq_numberAt hv, component_eq_numberAt rfl, Component.number.injEq] at heq
      exact heq.ge
    · -- Past its numbers the lowest version goes on with zeros.
      have hzero : numberAt w.numbers pos = 0 := by
        rw [numberAt, List.getD_eq_getElem?_getD, List.getElem?_eq_none (not_lt.mp hpos)]
        rfl
      omega
  exact Prod.Lex.toLex_mono ⟨Pi.toLex_monotone hplace, stage_empty_le _⟩

/-- A version with a wildcard has one component more than it has numbers. -/
theorem size_of_wild {w : Semantic} (hw : w.wild = true) : w.size = w.numbers.length + 1 := by
  simp [size, components, hw]

/-- The lowest version of a line that can be written can be written. -/
theorem Legible.lineStart {w : Semantic} (h : w.Legible) : w.lineStart.Legible :=
  ⟨h.writable, isPrerelease_empty, nofun⟩

end Semantic

/-! ## The wildcard in ranges -/

namespace Operator

open Semantic (numberAt component_eq_numberAt compares_rank rank_lineStart_le)

section

variable {op : Operator} {k : ℕ} {w : Semantic} (hk : op.line? = some k)
  (hlen : w.numbers.length = k + 1)
include hk

/-- There is an upper bound for a line when there is a numeral for the number past it. -/
theorem exists_upper_iff_of_line {ref : Semantic} (hr : ref.wild = false) :
    (∃ upper, op.upper ref = .ok upper) ↔ Numeral.Writable (numberAt ref.numbers k + 1) := by
  -- Both operators derive the bound from the number at the place of the line.
  have hnext : ∀ make : ℕ → Option Semantic,
      (∃ upper, (nextComponent (ref.component k)).map make = .ok upper) ↔
        Numeral.Writable (numberAt ref.numbers k + 1) := by
    intro make
    rw [component_eq_numberAt hr, nextComponent_number]
    by_cases hw : Numeral.Writable (numberAt ref.numbers k + 1)
    · rw [if_pos hw]
      exact iff_of_true ⟨_, rfl⟩ hw
    · rw [if_neg hw]
      exact iff_of_false nofun hw
  cases op with
  | atLeast | atMost | above | below | equal => exact absurd hk nofun
  | sameMinor =>
    cases hk
    rw [upper]
    exact hnext _
  | sameMajor =>
    cases hk
    rw [upper]
    exact hnext _

include hlen

/-- The operator of a line lets just those pass that agree with its lowest version in its
numbers. -/
theorem test_lineStart_iff {v : Semantic} (hv : v.wild = false) :
    op.test v w.lineStart = true ↔
      ∀ pos < w.numbers.length, v.component pos = w.lineStart.component pos := by
  rw [test_of_line hk, isGE_iff (compares_rank hv rfl)]
  have hle : ∀ pos, pos ≤ k ↔ pos < w.numbers.length := fun pos => by omega
  simp only [hle]
  exact and_iff_right_of_imp fun h => rank_lineStart_le hv h

end

end Operator

namespace Predicate

open Semantic (numberAt)

/-- The operator that a line with so many numbers before its wildcard is rewritten to. -/
inductive LineOperator : ℕ → Operator → Prop where
  /-- Behind one number the line is that of a major version. -/
  | major : LineOperator 1 .sameMajor
  /-- Behind two numbers the line is that of a minor version. -/
  | minor : LineOperator 2 .sameMinor

/-- A version with a wildcard stands for its line under equality, if it has one number or two. -/
theorem expandWildcard_eq_ok_iff_of_wild {op : Operator} {w : Semantic} (hw : w.wild = true)
    {t : Term} : expandWildcard op w = .ok t ↔ op = .equal ∧
      ∃ line, LineOperator w.numbers.length line ∧ t = ⟨line, .semantic w.lineStart⟩ := by
  rw [expandWildcard_eq_ok_iff, Semantic.size_of_wild hw]
  refine and_congr_right fun _ => exists_congr fun line => and_congr_left fun _ => ?_
  constructor
  · rintro (⟨hone, rfl⟩ | ⟨htwo, rfl⟩)
    · rw [Nat.succ.inj hone]
      exact .major
    · rw [Nat.succ.inj htwo]
      exact .minor
  · generalize w.numbers.length = n
    rintro (_ | _)
    · exact Or.inl ⟨rfl, rfl⟩
    · exact Or.inr ⟨rfl, rfl⟩

/-- A text without blanks is a single word behind an equality sign. -/
theorem termWords_equal {s : String} (hblank : ∀ c ∈ s.toList, Text.isBlank c = false) :
    termWords ("=" ++ s) = [Operator.equal.chars ++ s.toList] := by
  have hchars : ("=" ++ s).toList = [' '].intercalate [Operator.equal.chars ++ s.toList] := by
    rw [String.toList_append, List.intercalate_singleton]
    rfl
  have hword : ∀ c ∈ Operator.equal.chars ++ s.toList, Text.isBlank c = false :=
    List.forall_mem_append.mpr ⟨Operator.isBlank_eq_false_of_mem_chars .equal, hblank⟩
  have hstar : Operator.equal.chars ++ s.toList ≠ ['*'] := by
    intro h
    exact absurd (List.cons.inj h).1 (by decide)
  rw [termWords, hchars, Text.words_intercalate]
  · exact List.filter_eq_self.mpr (List.forall_mem_singleton.mpr (bne_iff_ne.mpr hstar))
  · exact List.forall_mem_singleton.mpr ⟨List.cons_ne_nil _ _, hword⟩

/-- A version with a wildcard behind one number or two is read as the term of its line. -/
theorem parse_equal_of_wild {s : String} {w : Semantic} (hs : Semantic.parse true s = .ok w)
    (hw : w.wild = true) {line : Operator} (hline : LineOperator w.numbers.length line)
    (hblank : ∀ c ∈ s.toList, Text.isBlank c = false) :
    parse ("=" ++ s) = .ok ⟨[⟨line, .semantic w.lineStart⟩]⟩ := by
  have hne : s ≠ "" := by
    rintro rfl
    rw [Version.semantic_parse_empty] at hs
    exact absurd hs nofun
  have hlist : s.toList ≠ [] := by
    intro h
    exact hne (String.ofList_toList.symm.trans (congrArg String.ofList h))
  have hversion : Version.parse true s = .ok (.semantic w) :=
    Version.parse_eq_ok_iff.mpr ⟨hne, Or.inl ⟨w, rfl, hs⟩⟩
  have hmake : makeTerm .equal (.semantic w) = .ok ⟨line, .semantic w.lineStart⟩ :=
    makeTerm_eq_ok_iff.mpr (Or.inr (Or.inl ⟨w, rfl, hw,
      (expandWildcard_eq_ok_iff_of_wild hw).mpr ⟨rfl, line, hline, rfl⟩⟩))
  -- There is one word, which falls apart into the sign and the text.
  refine parse_eq_ok_iff.mpr ?_
  rw [termWords_equal hblank]
  refine .cons (readTerm_eq_ok_iff.mpr ?_) .nil
  rw [Operator.split_append fun _ => rfl, String.ofList_toList]
  exact ⟨hlist, .semantic w, hversion, hmake⟩

/-- A predicate of one term tests that term. -/
theorem test_singleton (t : Term) (v : Version) : (⟨[t]⟩ : Predicate).test v = t.test v :=
  Bool.and_true _

/-- A predicate of one term with a semantic reference has the interval between the bounds of the
operator. -/
theorem interval_singleton_eq_ok_iff {op : Operator} {ref : Semantic} {i : Interval} :
    (⟨[⟨op, .semantic ref⟩]⟩ : Predicate).interval = .ok (some i) ↔
      ∃ upper, op.upper ref = .ok upper ∧ op.between ref upper = i := by
  have hterm : (Term.mk op (.semantic ref)).interval = (op.upper ref).map (op.between ref) := rfl
  simp only [interval, hterm]
  cases op.upper ref with
  | error e => simp [Except.map]
  | ok upper => simp [Except.map, narrow]

/-- The operator of a line fixes as many components as the line has numbers. -/
theorem LineOperator.exists_line {n : ℕ} {line : Operator} (h : LineOperator n line) :
    ∃ k, line.line? = some k ∧ n = k + 1 := by
  cases h with
  | major => exact ⟨0, rfl, rfl⟩
  | minor => exact ⟨1, rfl, rfl⟩

/-- A version that is read with a wildcard behind one number or two, and that is put behind an
equality sign, stands for the versions that compare equal to it, which are those that agree with the
numbers before the wildcard, whatever follows these. The interval of the range contains the same
versions; it can be had when there is a numeral for the number past the line. -/
theorem line_tests_agree {s : String} {w : Semantic} (hs : Semantic.parse true s = .ok w)
    (hw : w.wild = true) (hplace : w.numbers.length = 1 ∨ w.numbers.length = 2)
    (hblank : ∀ c ∈ s.toList, Text.isBlank c = false) :
    ∃ p, parse ("=" ++ s) = .ok p ∧
      (∀ v : Semantic, v.wild = false →
        (p.test (.semantic v) = true ↔ v.compare w = .eq) ∧
        (v.compare w = .eq ↔
          ∀ pos < w.numbers.length, v.component pos = w.component pos)) ∧
      ((∃ i, p.interval = .ok (some i)) ↔
        ∀ n ∈ w.numbers.getLast?, Numeral.Writable (n + 1)) ∧
      ∀ i, p.interval = .ok (some i) → ∀ v : Semantic, v.wild = false →
        (i.contains (.semantic v) = true ↔ v.compare w = .eq) := by
  obtain ⟨line, hline⟩ : ∃ line, LineOperator w.numbers.length line := by
    rcases hplace with h | h
    · rw [h]
      exact ⟨_, .major⟩
    · rw [h]
      exact ⟨_, .minor⟩
  obtain ⟨k, hk, hlen⟩ := hline.exists_line
  obtain ⟨hlegible, -⟩ := Semantic.legible_of_parse hs
  -- Compared with the version itself, what agrees is the line.
  have hcompare : ∀ v : Semantic, v.wild = false → (v.compare w = .eq ↔
      ∀ pos < w.numbers.length, v.component pos = w.component pos) :=
    fun v hv => Semantic.compare_wild_eq_iff hv hw (hlegible.released hw)
  -- Before the wildcard the lowest version of the line has the numbers of the line.
  have hnumbers : ∀ pos < w.numbers.length, w.lineStart.component pos = w.component pos := by
    intro pos hpos
    rw [Semantic.component_of_lt hpos]
    exact Semantic.component_of_lt (v := w.lineStart) hpos
  -- The test of the range asks for the same numbers.
  have htest : ∀ v : Semantic, v.wild = false →
      (line.test v w.lineStart = true ↔ v.compare w = .eq) := by
    intro v hv
    rw [Operator.test_lineStart_iff hk hlen hv, hcompare v hv]
    exact forall₂_congr fun pos hpos => by rw [hnumbers pos hpos]
  have hlast : w.numbers.getLast? = some (numberAt w.lineStart.numbers k) := by
    have hpos : k < w.numbers.length := by omega
    rw [List.getLast?_eq_getElem?, hlen, Nat.add_sub_cancel, List.getElem?_eq_getElem hpos]
    exact congrArg some (List.getElem_eq_getD 0)
  have hstart : Version.Legible (.semantic w.lineStart) := ⟨rfl, hlegible.lineStart⟩
  have hwritable := Operator.exists_upper_iff_of_line hk hstart.1
  refine ⟨_, parse_equal_of_wild hs hw hline hblank, fun v hv => ⟨?_, hcompare v hv⟩, ?_, ?_⟩
  · rw [test_singleton]
    exact htest v hv
  · simp only [interval_singleton_eq_ok_iff, hlast, Option.mem_some_iff, forall_eq', ← hwritable]
    exact ⟨fun ⟨_, upper, h, _⟩ => ⟨upper, h⟩, fun ⟨upper, h⟩ => ⟨_, upper, h, rfl⟩⟩
  · -- The interval is that between the bounds, where the test is true.
    intro i hi v hv
    obtain ⟨upper, hupper, rfl⟩ := interval_singleton_eq_ok_iff.mp hi
    have hread := Term.describes_between hstart hupper
    rw [Interval.contains_iff rfl (hread.legible _ rfl).concrete hv, ← htest v hv]
    exact (Operator.test_iff_mem_extent rfl hupper hv).symm

/-- The line of `1.2`, with two spellings of the wildcard and a build, and a prerelease of it. -/
theorem line_tests_agree_minor :
    let w : Semantic := ⟨1, [2], true, none, some "b"⟩
    let v : Semantic := ⟨1, [2, 7], false, some "rc", none⟩
    Semantic.parse true "1.2.X.*+b" = .ok w ∧ w.wild = true ∧ w.numbers.length = 2 ∧
      v.wild = false ∧ v.compare w = .eq ∧
        ∃ p, parse ("=" ++ "1.2.X.*+b") = .ok p ∧ p.test (.semantic v) = true ∧
          ∃ i, p.interval = .ok (some i) ∧ i.contains (.semantic v) = true := by
  intro w v
  have hs : Semantic.parse true "1.2.X.*+b" = .ok w := by decide +kernel
  have hall : ("1.2.X.*+b".toList.all fun c => !Text.isBlank c) = true := by decide +kernel
  have hblank : ∀ c ∈ "1.2.X.*+b".toList, Text.isBlank c = false :=
    fun c hc => by simpa using List.all_eq_true.mp hall c hc
  obtain ⟨p, hp, htest, hsome, hcontains⟩ := line_tests_agree hs rfl (Or.inr rfl) hblank
  have hcompare : v.compare w = .eq := by decide
  have hwritable : ∀ n ∈ w.numbers.getLast?, Numeral.Writable (n + 1) := by decide +kernel
  obtain ⟨i, hi⟩ := hsome.mpr hwritable
  exact ⟨hs, rfl, rfl, rfl, hcompare, p, hp, (htest v rfl).1.mpr hcompare, i, hi,
    (hcontains i hi v rfl).mpr hcompare⟩

end Predicate

end Semrange
