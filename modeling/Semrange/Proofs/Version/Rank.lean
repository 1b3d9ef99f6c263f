import Mathlib.Data.Char
import Mathlib.Data.List.Lex
import Mathlib.Data.Prod.Lex
import Mathlib.Order.Compare
import Mathlib.Order.PiLex
import Mathlib.Order.WithBot
import Semrange.Version.Order

/-!
# Versions in a line

Without wildcards the comparison of semantic versions is that of their ranks (`compares_rank`),
which are the elements of a linear order: first the core, padded with zeros and ordered by its first
difference, then what follows the core. Two versions that compare equal have one rank, so what the
order says about versions, whatever their builds and idle zeros, is read off the ranks.

Each comparison goes with a key. `Ordering.Compares o a b` says that `o` is right for the keys `a`
and `b`, and the keys of parts that are compared one after the other are put together in the same
way as the comparisons (`compares_then`, and by it `compares_toLex`, `compares_cons` and
`compares_place_cons`).

Versions that are the same compare equal, also those with wildcards, which have no rank
(`compare_eq_of_same`).
-/

namespace Semrange

open Ordering (Compares)

/-- The comparison of a linear order is right. -/
theorem compares_compare {α : Type*} [LinearOrder α] (a b : α) :
    (Ord.compare a b).Compares a b := by
  rw [← cmp_eq_compare]
  exact cmp_compares a b

/-- A right comparison that is not greater says that the one is at most the other. -/
theorem isLE_iff {α : Type*} [LinearOrder α] {o : Ordering} {a b : α} (h : o.Compares a b) :
    o.isLE = true ↔ a ≤ b := by
  rw [← h.ne_gt, Ordering.isLE_iff_ne_gt]

/-- A right comparison that is not less says that the one is at least the other. -/
theorem isGE_iff {α : Type*} [LinearOrder α] {o : Ordering} {a b : α} (h : o.Compares a b) :
    o.isGE = true ↔ b ≤ a := by
  rw [← h.ne_lt, Ordering.isGE_iff_ne_lt]

/-- Right comparisons go together: what is not greater than a second thing, which is not greater than a
third one, is not greater than that. -/
theorem isLE_trans_of_compares {α : Type*} [LinearOrder α] {o p q : Ordering} {a b c : α}
    (hab : o.Compares a b) (hbc : p.Compares b c) (hac : q.Compares a c) (ho : o.isLE = true)
    (hp : p.isLE = true) : q.isLE = true := by
  rw [isLE_iff hab] at ho
  rw [isLE_iff hbc] at hp
  exact (isLE_iff hac).mpr (ho.trans hp)

/-- Comparing one thing and then another is right for keys that are in the order of the first where
that differs, and for which the second comparison is right where it does not. -/
theorem compares_then {α β : Type*} [LinearOrder α] [Preorder β] {o p : Ordering} {a b : α}
    {c d : β} (ho : o.Compares a b) (hlt : a < b → c < d) (hgt : b < a → d < c)
    (heq : a = b → p.Compares c d) : (o.then p).Compares c d := by
  cases o with
  | lt => exact hlt ho
  | gt => exact hgt ho
  | eq => exact heq ho

/-- Comparing one part and then another is right for pairs in lexicographic order. -/
theorem compares_toLex {α β : Type*} [LinearOrder α] [LinearOrder β] {o p : Ordering} {a b : α}
    {c d : β} (ho : o.Compares a b) (hp : p.Compares c d) :
    (o.then p).Compares (toLex (a, c)) (toLex (b, d)) := by
  have hfirst : ∀ {a b : α} (c d : β), a < b → toLex (a, c) < toLex (b, d) :=
    fun _ _ h => Prod.Lex.toLex_lt_toLex.mpr (Or.inl h)
  refine compares_then ho (hfirst c d) (hfirst d c) ?_
  rintro rfl
  -- Only now do the second parts count.
  have hsecond : StrictMono fun c : β => toLex (a, c) := by
    intro c d h
    exact Prod.Lex.toLex_lt_toLex.mpr (Or.inr ⟨rfl, h⟩)
  exact hsecond.compares.mpr hp

/-- Comparing heads and then tails is right for lists in lexicographic order. -/
theorem compares_cons {α : Type*} [LinearOrder α] {o p : Ordering} {a b : α} {l m : List α}
    (ho : o.Compares a b) (hp : p.Compares l m) : (o.then p).Compares (a :: l) (b :: m) := by
  have hhead : ∀ {a b : α} (l m : List α), a < b → a :: l < b :: m :=
    fun _ _ h => List.cons_lt_cons_iff.mpr (Or.inl h)
  refine compares_then ho (hhead l m) (hhead m l) ?_
  rintro rfl
  have htail : StrictMono (a :: ·) := fun _ _ h => List.cons_lt_cons_iff.mpr (Or.inr ⟨rfl, h⟩)
  exact htail.compares.mpr hp

/-- Comparing lists element by element is right for the lists of keys. -/
theorem compares_map {α β : Type*} [LinearOrder β] {compare : α → α → Ordering} {key : α → β}
    (h : ∀ a b, (compare a b).Compares (key a) (key b)) (l m : List α) :
    (List.compareLex compare l m).Compares (l.map key) (m.map key) := by
  induction l generalizing m with
  | nil =>
    cases m with
    | nil => exact rfl
    | cons b m => exact List.nil_lt_cons _ _
  | cons a l ih =>
    cases m with
    | nil => exact List.nil_lt_cons _ _
    | cons b m =>
      rw [List.compareLex_cons_cons]
      exact compares_cons (h a b) (ih m)

/-- Texts compare by their characters. -/
theorem compares_chars (i j : List Char) : (Ord.compare i j).Compares i j := by
  have h : (Ord.compare i j).Compares (i.map id) (j.map id) :=
    compares_map (fun a b : Char => compares_compare a b) i j
  rw [List.map_id, List.map_id] at h
  exact h

namespace Semantic

/-! ## Cores -/

/-- The number of a core at a position, zero past its end. -/
def numberAt (l : List ℕ) (pos : ℕ) : ℕ :=
  l.getD pos 0

/-- The numbers of a core and the zeros it goes on with, ordered by the first difference. -/
def place (l : List ℕ) : Lex (ℕ → ℕ) :=
  toLex (numberAt l)

/-- A core without numbers goes on with zeros from the start. -/
theorem place_nil : place [] = place [0] := by
  funext pos
  cases pos <;> rfl

/-- Comparing the first numbers and then the others is right for cores. -/
theorem compares_place_cons {o p : Ordering} {a b : ℕ} {l m : List ℕ} (ho : o.Compares a b)
    (hp : p.Compares (place l) (place m)) :
    (o.then p).Compares (place (a :: l)) (place (b :: m)) := by
  -- A difference at the head decides, and one behind it only moves by a place.
  have first : ∀ {a b : ℕ} (l m : List ℕ), a < b → place (a :: l) < place (b :: m) :=
    fun _ _ h => ⟨0, fun pos hpos => absurd hpos pos.not_lt_zero, h⟩
  have later : ∀ {l m : List ℕ}, place l < place m → place (a :: l) < place (a :: m) := by
    rintro l m ⟨pos, heq, hlt⟩
    refine ⟨pos + 1, fun i hi => ?_, hlt⟩
    cases i with
    | zero => rfl
    | succ i => exact heq i (Nat.lt_of_succ_lt_succ hi)
  refine compares_then ho (first l m) (first m l) ?_
  rintro rfl
  cases p with
  | lt => exact later hp
  | gt => exact later hp
  | eq =>
    funext pos
    cases pos with
    | zero => rfl
    | succ pos => exact congrFun hp pos

/-- Comparing a core of zeros with another one is right. -/
theorem compares_comparePad (m : List ℕ) :
    (comparePad (.number 0) m).Compares (place []) (place m) := by
  induction m with
  | nil => exact rfl
  | cons b m ih =>
    rw [place_nil]
    exact compares_place_cons (compares_compare 0 b) ih

/-- Comparing two cores padded with zeros is right. -/
theorem compares_compareCores (l m : List ℕ) :
    (compareCores (.number 0) (.number 0) l m).Compares (place l) (place m) := by
  induction l generalizing m with
  | nil => exact compares_comparePad m
  | cons a l ih =>
    cases m with
    | nil =>
      rw [place_nil]
      exact compares_place_cons (compares_compare a 0) (ih [])
    | cons b m => exact compares_place_cons (compares_compare a b) (ih m)

/-! ## Stages -/

/-- Where an identifier stands: numbers before words, and the shorter of two numbers first. -/
def standing (i : List Char) : Bool ×ₗ ℕ ×ₗ List Char :=
  toLex (!isNumeric i, toLex (if isNumeric i then i.length else 0, i))

/-- The comparison of identifiers is right. -/
theorem compares_compareIdentifiers (i j : List Char) :
    (compareIdentifiers i j).Compares (standing i) (standing j) := by
  -- A word and a number are told apart by the first flag alone, so only these two cases go deeper.
  have numbers := compares_toLex (compares_compare false false)
    (compares_toLex (compares_compare i.length j.length) (compares_chars i j))
  have words := compares_toLex (compares_compare true true)
    (compares_toLex (compares_compare 0 0) (compares_chars i j))
  unfold compareIdentifiers standing
  cases isNumeric i with
  | true =>
    cases isNumeric j with
    | true => exact numbers
    | false => exact Prod.Lex.toLex_lt_toLex.mpr (Or.inl Bool.false_lt_true)
  | false =>
    cases isNumeric j with
    | true => exact Prod.Lex.toLex_lt_toLex.mpr (Or.inl Bool.false_lt_true)
    | false => exact words

/-- What follows a core: the identifiers of a prerelease, or nothing, which comes last. -/
abbrev Stage : Type :=
  WithTop (List (Bool ×ₗ ℕ ×ₗ List Char))

/-- The stage of a prerelease that may be missing. -/
def stage : Option String → Stage
  | none => ⊤
  | some p => WithTop.some ((identifiers p).map standing)

/-- The comparison of what follows two cores is right. -/
theorem compares_compareStages (p q : Option String) :
    (compareStages false p q).Compares (stage p) (stage q) := by
  cases p with
  | none =>
    cases q with
    | none => exact rfl
    | some q => exact WithTop.coe_lt_top _
  | some p =>
    cases q with
    | none => exact WithTop.coe_lt_top _
    | some q =>
      show (comparePrereleases p q).Compares _ _
      -- The keys are those of the identifiers, put below the missing prerelease.
      have h := compares_map compares_compareIdentifiers (identifiers p) (identifiers q)
      unfold comparePrereleases
      cases hc : List.compareLex compareIdentifiers (identifiers p) (identifiers q) with
      | lt =>
        rw [hc] at h
        exact WithTop.coe_lt_coe.mpr h
      | gt =>
        rw [hc] at h
        exact WithTop.coe_lt_coe.mpr h
      | eq =>
        rw [hc] at h
        exact congrArg WithTop.some h

/-- Nothing comes before the empty prerelease. -/
theorem stage_empty_le (s : Stage) : stage (some "") ≤ s := by
  cases s with
  | none => exact le_top
  | some l => exact WithTop.coe_le_coe.mpr (not_lt.mp (List.not_lt_nil l))

/-! ## Ranks -/

/-- Where a version without wildcards stands among all others. -/
def Rank : Type :=
  Lex (ℕ → ℕ) ×ₗ Stage

noncomputable instance : LinearOrder Rank :=
  inferInstanceAs (LinearOrder (Lex (ℕ → ℕ) ×ₗ Stage))

/-- The rank of a version. -/
def rank (v : Semantic) : Rank :=
  toLex (place v.numbers, stage v.prerelease)

/-- The comparison of versions without wildcards is that of their ranks. -/
theorem compares_rank {a b : Semantic} (ha : a.wild = false) (hb : b.wild = false) :
    (a.compare b).Compares a.rank b.rank := by
  have hpa : a.pad = .number 0 := by rw [pad, ha]; rfl
  have hpb : b.pad = .number 0 := by rw [pad, hb]; rfl
  unfold Semantic.compare
  rw [hpa, hpb, ha, hb]
  exact compares_toLex (compares_compareCores _ _) (compares_compareStages _ _)

/-! ## Components -/

/-- A component of a core is one of its numbers, or the pad behind them. -/
theorem component_eq_getD (v : Semantic) (pos : ℕ) :
    v.component pos = (v.numbers.map Component.number).getD pos v.pad := by
  unfold component components
  rw [List.getD_eq_getElem?_getD]
  cases hw : v.wild with
  | false => rw [if_neg Bool.false_ne_true, List.append_nil]
  | true =>
    -- The wildcard that is written is the one that the core goes on with.
    have hpad : v.pad = .wildcard := by rw [pad, hw]; rfl
    rw [if_pos rfl, hpad]
    by_cases hpos : pos < (v.numbers.map Component.number).length
    · rw [List.getElem?_append_left hpos]
    · rw [List.getElem?_append_right (not_lt.mp hpos), List.getElem?_eq_none (not_lt.mp hpos)]
      cases pos - (v.numbers.map Component.number).length <;> rfl

/-- Without a wildcard the components are the numbers of the core and the zeros behind them. -/
theorem component_eq_numberAt {v : Semantic} (hv : v.wild = false) (pos : ℕ) :
    v.component pos = .number (numberAt v.numbers pos) := by
  have hpad : v.pad = .number 0 := by rw [pad, hv]; rfl
  rw [component_eq_getD, hpad, List.getD_eq_getElem?_getD, List.getElem?_map]
  unfold numberAt
  rw [List.getD_eq_getElem?_getD]
  exact Option.getD_map _ _ _

/-- Past what is written there is only the pad. -/
theorem component_of_size_le {v : Semantic} {pos : ℕ} (h : v.size ≤ pos) :
    v.component pos = v.pad := by
  unfold component
  rw [List.getElem?_eq_none h]
  rfl

/-- A wildcard is written behind the numbers of a core. -/
theorem component_of_wild {v : Semantic} (hv : v.wild = true) :
    v.numbers.length < v.size ∧ v.component v.numbers.length = .wildcard := by
  have hsize : v.size = v.numbers.length + 1 := by simp [size, components, hv]
  have hpad : v.pad = .wildcard := by rw [pad, hv]; rfl
  refine ⟨hsize ▸ Nat.lt_succ_self _, ?_⟩
  rw [component_eq_getD, List.getD_eq_getElem?_getD,
    List.getElem?_eq_none (List.length_map _).le, hpad]
  rfl

/-- Of cores that agree in what is written of both, neither ends in a wildcard or both do. -/
theorem SameCore.wild_imp {a b : Semantic} (h : a.SameCore b) (ha : a.wild = true) :
    b.wild = true := by
  obtain ⟨hlt, hwildcard⟩ := component_of_wild ha
  by_contra hb
  rw [h _ (hlt.trans_le (le_max_left _ _)), component_eq_numberAt (Bool.eq_false_iff.mpr hb)]
    at hwildcard
  exact absurd hwildcard nofun

/-- Cores that agree in what is written of both end in wildcards both or neither. -/
theorem SameCore.wild_eq {a b : Semantic} (h : a.SameCore b) : a.wild = b.wild := by
  have hsymm : b.SameCore a := fun pos hpos => (h pos (max_comm b.size a.size ▸ hpos)).symm
  exact Bool.eq_iff_iff.mpr ⟨h.wild_imp, hsymm.wild_imp⟩

/-- Cores that agree in what is written of both agree in all components. -/
theorem SameCore.component_eq {a b : Semantic} (h : a.SameCore b) (pos : ℕ) :
    a.component pos = b.component pos := by
  by_cases hpos : pos < max a.size b.size
  · exact h pos hpos
  · -- Past what is written of both, both go on alike.
    obtain ⟨hsa, hsb⟩ := Nat.max_le.mp (not_lt.mp hpos)
    rw [component_of_size_le hsa, component_of_size_le hsb, pad, pad, h.wild_eq]

/-- Two cores without wildcards have one place when they agree in every component. -/
theorem place_eq_iff {a b : Semantic} (ha : a.wild = false) (hb : b.wild = false) :
    place a.numbers = place b.numbers ↔ ∀ pos, a.component pos = b.component pos := by
  have hpos : ∀ pos, a.component pos = b.component pos ↔
      numberAt a.numbers pos = numberAt b.numbers pos := by
    intro pos
    rw [component_eq_numberAt ha, component_eq_numberAt hb, Component.number.injEq]
  rw [forall_congr' hpos]
  exact toLex_inj.trans funext_iff

/-! ## Versions that are the same -/

/-- A component compares equal to itself. -/
theorem compare_component_self (k : Component) : k.compare k = .eq := by
  cases k with
  | number n => exact compare_eq_iff_eq.mpr rfl
  | wildcard => rfl

/-- Cores that agree in every place compare equal, whatever their pads. -/
theorem compareCores_eq_of_agree {padA padB : Component} {l m : List ℕ}
    (h : ∀ pos, (l.map Component.number).getD pos padA = (m.map Component.number).getD pos padB) :
    compareCores padA padB l m = .eq := by
  induction l generalizing m with
  | nil =>
    rw [compareCores]
    induction m with
    | nil => rfl
    | cons b m ih =>
      -- The first core has ended, so its pad is the number here.
      have hhead : padA.compare (.number b) = .eq := by
        rw [show padA = .number b from h 0]
        exact compare_component_self _
      rw [comparePad, hhead]
      exact ih fun pos => h (pos + 1)
  | cons a l ih =>
    cases m with
    | nil =>
      -- The second core has ended.
      have hhead : (Component.number a).compare padB = .eq := by
        rw [show padB = .number a from (h 0).symm]
        exact compare_component_self _
      rw [compareCores, hhead]
      exact ih (m := []) fun pos => h (pos + 1)
    | cons b m =>
      have hhead : Ord.compare a b = .eq := compare_eq_iff_eq.mpr (Component.number.inj (h 0))
      rw [compareCores, hhead]
      exact ih fun pos => h (pos + 1)

/-- Versions that are the same compare equal, with or without wildcards. -/
theorem compare_eq_of_same {a b : Semantic} (h : a.Same b) : a.compare b = .eq := by
  obtain ⟨hcore, hpre, -⟩ := h
  have hcores : compareCores a.pad b.pad a.numbers b.numbers = .eq := by
    refine compareCores_eq_of_agree fun pos => ?_
    rw [← component_eq_getD, ← component_eq_getD]
    exact hcore.component_eq pos
  -- The prerelease is one and the same, whether or not a wildcard is near.
  have hstages : ∀ (lenient : Bool) (p : Option String), compareStages lenient p p = .eq := by
    intro lenient p
    cases p with
    | none => rfl
    | some p => exact (compares_map compares_compareIdentifiers _ _).eq_eq.mpr rfl
  unfold Semantic.compare
  rw [hcores, hpre, hstages]
  rfl

/-- Versions without wildcards that are the same have one rank. -/
theorem rank_eq_of_same {a b : Semantic} (ha : a.wild = false) (hb : b.wild = false)
    (h : a.Same b) : a.rank = b.rank :=
  (compares_rank ha hb).eq_eq.mp (compare_eq_of_same h)

end Semantic

end Semrange
