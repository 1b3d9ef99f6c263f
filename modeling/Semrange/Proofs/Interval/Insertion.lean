import Semrange.Interval.Union
import Semrange.Proofs.Interval.Extent

/-!
# What an insertion does to a list

`insertSpan` sweeps a span through a list. `Inserted` lists what it may do at the head of the list,
with the order of the cuts that calls for it, and what becomes of the rest; `Covered` says how it
finds that everything is covered. It does nothing else (`outcome_insertSpan`), so what insertions
keep or change is proved by induction on these relations.
-/

namespace Semrange.Interval

/-- What becomes of a list when a span is inserted that does not cover everything together with it.
The upper end of the span stays the same on the way, the lower one is replaced by that of the head
when the head grows. -/
inductive Inserted (upper : Option End) : Option End → List Interval → List Interval → Prop where
  /-- The new span comes behind all others. -/
  | last (lower : Option End) : Inserted upper lower [] [.span lower upper]
  /-- A label stays where it is. -/
  | around {lower : Option End} {l r : List Interval} (name : String) (reach : Reach) :
    Inserted upper lower l r →
      Inserted upper lower (.around name reach :: l) (.around name reach :: r)
  /-- The head holds the new span. -/
  | kept {lower cl cu : Option End} {l : List Interval} :
    lowerCut cl ≤ lowerCut lower → upperCut upper ≤ upperCut cu →
      Inserted upper lower (.span cl cu :: l) (.span cl cu :: l)
  /-- The new span ends before the head begins. -/
  | placed {lower cl cu : Option End} {l : List Interval} : upperCut upper < lowerCut cl →
    Inserted upper lower (.span cl cu :: l) (.span lower upper :: .span cl cu :: l)
  /-- The new span reaches the head from below and makes it longer. -/
  | widened {lower cl cu : Option End} {l : List Interval} :
    upper.isSome → lowerCut lower ≤ lowerCut cl → lowerCut cl ≤ upperCut upper →
      upperCut upper ≤ upperCut cu → Inserted upper lower (.span cl cu :: l) (.span lower cu :: l)
  /-- The new span holds the head. -/
  | swallowed {lower cl : Option End} {f : End} {l r : List Interval} :
    lowerCut lower ≤ lowerCut cl → upperCut (some f) ≤ upperCut upper →
      Inserted upper lower l r → Inserted upper lower (.span cl (some f) :: l) r
  /-- The head reaches the new span from below and makes it longer. -/
  | grown {lower cl : Option End} {f : End} {l r : List Interval} :
    lowerCut cl ≤ lowerCut lower → lowerCut lower ≤ upperCut (some f) →
      upperCut (some f) ≤ upperCut upper → Inserted upper cl l r →
        Inserted upper lower (.span cl (some f) :: l) r
  /-- The head ends before the new span begins. -/
  | passed {lower cl : Option End} {f : End} {l r : List Interval} :
    upperCut (some f) < lowerCut lower → Inserted upper lower l r →
      Inserted upper lower (.span cl (some f) :: l) (.span cl (some f) :: r)
  /-- The new span holds the head, and both are unbounded above. -/
  | replaced {lower cl : Option End} {l : List Interval} :
    upper = none → lowerCut lower < lowerCut cl →
      Inserted upper lower (.span cl none :: l) [.span lower upper]

/-- How an insertion finds that everything is covered. -/
inductive Covered (upper : Option End) : Option End → List Interval → Prop where
  /-- Together the new span and the head hold everything. -/
  | head {lower cl cu : Option End} {l : List Interval} :
    Set.Ico (lowerCut lower) (upperCut upper) ∪ Set.Ico (lowerCut cl) (upperCut cu) =
      Set.Ico ⊥ ⊤ → Covered upper lower (.span cl cu :: l)
  /-- Everything is covered without the head. -/
  | tail {lower : Option End} {l : List Interval} (i : Interval) :
    Covered upper lower l → Covered upper lower (i :: l)
  /-- The head reaches the new span from below and makes it longer. -/
  | grown {lower cl : Option End} {f : End} {l : List Interval} :
    lowerCut cl ≤ lowerCut lower → lowerCut lower ≤ upperCut (some f) →
      upperCut (some f) ≤ upperCut upper → Covered upper cl l →
        Covered upper lower (.span cl (some f) :: l)

/-- What the outcome of an insertion says. -/
def Outcome (upper lower : Option End) (l : List Interval) : Option (List Interval) → Prop
  | some r => Inserted upper lower l r
  | none => Covered upper lower l

section

variable {upper lower cl : Option End} {f : End} {l : List Interval} {o : Option (List Interval)}

/-- A label is passed by, whatever the outcome. -/
theorem Outcome.around (name : String) (reach : Reach) (h : Outcome upper lower l o) :
    Outcome upper lower (.around name reach :: l) (o.map (.around name reach :: ·)) := by
  cases o with
  | some r => exact Inserted.around name reach h
  | none => exact Covered.tail _ h

/-- A span that the new one holds is dropped, whatever the outcome. -/
theorem Outcome.swallowed (hl : lowerCut lower ≤ lowerCut cl)
    (hu : upperCut (some f) ≤ upperCut upper) (h : Outcome upper lower l o) :
    Outcome upper lower (.span cl (some f) :: l) o := by
  cases o with
  | some r => exact Inserted.swallowed hl hu h
  | none => exact Covered.tail _ h

/-- A span that reaches the new one from below is joined with it, whatever the outcome. -/
theorem Outcome.grown (hl : lowerCut cl ≤ lowerCut lower)
    (hr : lowerCut lower ≤ upperCut (some f)) (hu : upperCut (some f) ≤ upperCut upper)
    (h : Outcome upper cl l o) : Outcome upper lower (.span cl (some f) :: l) o := by
  cases o with
  | some r => exact Inserted.grown hl hr hu h
  | none => exact Covered.grown hl hr hu h

/-- A span that ends before the new one is passed by, whatever the outcome. -/
theorem Outcome.passed (hlt : upperCut (some f) < lowerCut lower)
    (h : Outcome upper lower l o) :
    Outcome upper lower (.span cl (some f) :: l) (o.map (.span cl (some f) :: ·)) := by
  cases o with
  | some r => exact Inserted.passed hlt h
  | none => exact Covered.tail _ h

end

/-! ## The cases of an insertion -/

section

variable {upper cl : Option End} (hupper : End.ConcreteOrNone upper)
  (hcl : End.ConcreteOrNone cl) {l : List Interval}
include hupper hcl

/-- A span that begins no later than the head and ends no later is put before the head or makes it
longer. -/
theorem outcome_of_reaches {lower cu : Option End} (hsome : upper.isSome = true)
    (hlow : lowerCut lower ≤ lowerCut cl) (hup : upperCut upper ≤ upperCut cu) :
    Outcome upper lower (.span cl cu :: l)
      (if reaches upper cl then some (.span lower cu :: l)
        else some (.span lower upper :: .span cl cu :: l)) := by
  have hreach := reaches_iff hupper hcl
  by_cases hr : reaches upper cl = true
  · rw [if_pos hr]
    exact Inserted.widened hsome hlow (hreach.mp hr) hup
  · rw [if_neg hr]
    exact Inserted.placed (not_le.mp (mt hreach.mpr hr))

/-- Downward without end meets upward without end. -/
theorem outcome_none_none :
    Outcome upper none (.span cl none :: l) (insertSpan none upper (.span cl none :: l)) := by
  have hreach := reaches_iff hupper hcl
  by_cases hr : reaches upper cl = true
  · -- The two meet, and together they extend over everything.
    rw [insertSpan, if_pos hr]
    have hlu : lowerCut none ≤ upperCut none := bot_le
    refine Covered.head ?_
    rw [Set.Ico_union_Ico' (hreach.mp hr) hlu]
    exact congrArg₂ Set.Ico (min_eq_left bot_le) (max_eq_right le_top)
  · rw [insertSpan, if_neg hr]
    exact Inserted.placed (not_le.mp (mt hreach.mpr hr))

/-- Downward without end meets a span with an upper end. -/
theorem outcome_none_some {f : End} (hf : End.ConcreteOrNone (some f))
    (hsame : Outcome upper none l (insertSpan none upper l)) :
    Outcome upper none (.span cl (some f) :: l)
      (insertSpan none upper (.span cl (some f) :: l)) := by
  have hU := compares_compareUpper hupper hf
  by_cases hge : (compareUpper upper (some f)).isGE = true
  · -- The head ends no later and starts no earlier.
    rw [insertSpan, if_pos hge]
    exact hsame.swallowed bot_le ((isGE_iff hU).mp hge)
  · have hle : upperCut upper ≤ upperCut (some f) := (not_le.mp (mt (isGE_iff hU).mpr hge)).le
    rw [insertSpan, if_neg hge]
    by_cases hnone : cl.isNone = true
    · rw [if_pos hnone]
      obtain rfl : cl = none := Option.isNone_iff_eq_none.mp hnone
      exact Inserted.kept le_rfl hle
    · rw [if_neg hnone]
      exact outcome_of_reaches hupper hcl (isSome_of_upperCut_le hle) bot_le hle

/-- A span with a lower end meets upward without end. -/
theorem outcome_some_none {e : End} (he : End.ConcreteOrNone (some e)) :
    Outcome upper (some e) (.span cl none :: l)
      (insertSpan (some e) upper (.span cl none :: l)) := by
  have hL := compares_compareLower he hcl
  by_cases hge : (compareLower (some e) cl).isGE = true
  · -- The head starts no later and has no end.
    rw [insertSpan, if_pos hge]
    exact Inserted.kept ((isGE_iff hL).mp hge) le_top
  · have hlt : lowerCut (some e) < lowerCut cl := not_le.mp (mt (isGE_iff hL).mpr hge)
    rw [insertSpan, if_neg hge]
    by_cases hnone : upper.isNone = true
    · rw [if_pos hnone]
      exact Inserted.replaced (Option.isNone_iff_eq_none.mp hnone) hlt
    · rw [if_neg hnone]
      have hsome := Option.isSome_iff_ne_none.mpr (mt Option.isNone_iff_eq_none.mpr hnone)
      exact outcome_of_reaches hupper hcl hsome hlt.le le_top

/-- A span with a lower end meets one with an upper end, and both reach each other. -/
theorem outcome_some_some {e f : End} (he : End.ConcreteOrNone (some e))
    (hf : End.ConcreteOrNone (some f)) (hef : lowerCut (some e) ≤ upperCut (some f))
    (hr : lowerCut cl ≤ upperCut upper)
    (hsame : Outcome upper (some e) l (insertSpan (some e) upper l))
    (hlonger : Outcome upper cl l (insertSpan cl upper l)) :
    Outcome upper (some e) (.span cl (some f) :: l)
      (if (compareUpper upper (some f)).isLE then
        if compareLower (some e) cl = .lt then some (.span (some e) (some f) :: l)
        else some (.span cl (some f) :: l)
      else if compareLower (some e) cl = .gt then
        if cl.isNone && upper.isNone then none else insertSpan cl upper l
      else insertSpan (some e) upper l) := by
  have hU := compares_compareUpper hupper hf
  have hL := compares_compareLower he hcl
  by_cases hle : (compareUpper upper (some f)).isLE = true
  · -- The head ends no earlier: it is made longer at its start, or holds the new span.
    have hle' : upperCut upper ≤ upperCut (some f) := (isLE_iff hU).mp hle
    rw [if_pos hle]
    by_cases hlt : compareLower (some e) cl = .lt
    · rw [if_pos hlt]
      exact Inserted.widened (isSome_of_upperCut_le hle') (hL.eq_lt.mp hlt).le hr hle'
    · rw [if_neg hlt]
      exact Inserted.kept (hL.ne_lt.mp hlt) hle'
  · -- The new span ends later: it takes over the start of the head, or holds the head.
    have hgt : upperCut (some f) < upperCut upper := not_le.mp (mt (isLE_iff hU).mpr hle)
    rw [if_neg hle]
    by_cases hlow : compareLower (some e) cl = .gt
    · have hlow' : lowerCut cl < lowerCut (some e) := hL.eq_gt.mp hlow
      rw [if_pos hlow]
      by_cases hall : (cl.isNone && upper.isNone) = true
      · -- With neither end left, everything is covered.
        rw [if_pos hall]
        rw [Bool.and_eq_true, Option.isNone_iff_eq_none, Option.isNone_iff_eq_none] at hall
        obtain ⟨rfl, rfl⟩ := hall
        refine Covered.head ?_
        rw [Set.Ico_union_Ico' hr hef]
        exact congrArg₂ Set.Ico (min_eq_right bot_le) (max_eq_left le_top)
      · rw [if_neg hall]
        exact hlonger.grown hlow'.le hef hgt.le
    · rw [if_neg hlow]
      exact hsame.swallowed (hL.ne_gt.mp hlow) hgt.le

/-- The outcome of an insertion where the head is a span, from those with what is behind it. -/
theorem outcome_insertSpan_cons {lower cu : Option End} (hlower : End.ConcreteOrNone lower)
    (hcu : End.ConcreteOrNone cu) (hsame : Outcome upper lower l (insertSpan lower upper l))
    (hlonger : Outcome upper cl l (insertSpan cl upper l)) :
    Outcome upper lower (.span cl cu :: l) (insertSpan lower upper (.span cl cu :: l)) := by
  cases lower with
  | none =>
    cases cu with
    | none => exact outcome_none_none hupper hcl
    | some f => exact outcome_none_some hupper hcl hcu hsame
  | some e =>
    cases cu with
    | none => exact outcome_some_none hupper hcl hlower
    | some f =>
      have hback := reaches_iff hcu hlower
      have hreach := reaches_iff hupper hcl
      by_cases hb : reaches (some f) (some e) = true
      · rw [insertSpan, if_pos hb]
        by_cases hr : reaches upper cl = true
        · rw [if_pos hr]
          exact outcome_some_some hupper hcl hlower hcu (hback.mp hb) (hreach.mp hr) hsame hlonger
        · -- The new span ends before the head.
          rw [if_neg hr]
          exact Inserted.placed (not_le.mp (mt hreach.mpr hr))
      · -- The head ends before the new span.
        rw [insertSpan, if_neg hb]
        exact hsame.passed (not_le.mp (mt hback.mpr hb))

end

/-- An insertion does nothing but what `Inserted` and `Covered` say. -/
theorem outcome_insertSpan {lower upper : Option End} (hi : (span lower upper).Concrete)
    {l : List Interval} (hl : ∀ i ∈ l, i.Concrete) :
    Outcome upper lower l (insertSpan lower upper l) := by
  -- When the head grows, it is the lower end of the head that goes on.
  induction l generalizing lower with
  | nil => exact Inserted.last lower
  | cons i l ih =>
    obtain ⟨hhead, htail⟩ := List.forall_mem_cons.mp hl
    cases i with
    | around name reach => exact (ih hi htail).around name reach
    | span cl cu =>
      exact outcome_insertSpan_cons hi.2 hhead.1 hi.1 hhead.2 (ih hi htail)
        (ih ⟨hhead.1, hi.2⟩ htail)

end Semrange.Interval
