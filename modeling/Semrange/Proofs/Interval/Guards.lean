import Semrange.Interval.Checked
import Semrange.Proofs.Interval.Membership
import Semrange.Proofs.Version.Preorder

/-!
# Guards

Before the algebra builds an interval it compares the ends, and what such a guard finds out is what
`ofBounds` asks for (`valid_of_reaches`, `valid_of_leavesRoom`). That needs no more of the order than
that comparisons turn around, so it holds for all intervals, and not only for valid ones. The guards
themselves read versions only off ends that are there.

So none of the checks that `Checked` adds to comparisons and intersections ever fails: with its checks
an operation returns what it returns without them.
-/

namespace Semrange.Interval

/-! ## Validity -/

/-- An interval is valid just when its own bounds are not refused. -/
theorem valid_iff {i : Interval} : i.Valid ↔ ofBounds i.lower? i.upper? = .ok i := by
  cases i with
  | span lower upper =>
    cases lower with
    | none => cases upper <;> exact iff_of_true trivial rfl
    | some e =>
      cases upper with
      | none => exact iff_of_true trivial rfl
      | some f => exact (ite_error_eq_ok.trans (and_iff_left rfl)).symm
  | around name reach =>
    cases reach with
    | below | above => exact iff_of_true trivial rfl
    | within => exact iff_of_true trivial (if_pos rfl)

/-- An upper end reaches a lower end unless it comes before, or there and both leave the version out. -/
theorem reaches_some (e f : End) :
    reaches (some e) (some f) = !(e.version.compare f.version = .lt ||
      e.version.compare f.version = .eq && !e.inclusive && !f.inclusive) := by
  simp only [reaches]
  cases e.version.compare f.version <;> cases e.inclusive <;> cases f.inclusive <;> rfl

/-- A lower end leaves room before an upper end when it comes before, or there and both hold the
version. -/
theorem leavesRoom_some (e f : End) :
    leavesRoom (some e) (some f) = (e.version.compare f.version = .lt ||
      e.version.compare f.version = .eq && e.inclusive && f.inclusive) := by
  simp only [leavesRoom]
  cases e.version.compare f.version <;> cases e.inclusive <;> cases f.inclusive <;> rfl

/-- A span is valid when its upper end reaches its lower end. -/
theorem valid_of_reaches {lower upper : Option End} (h : reaches upper lower = true) :
    (span lower upper).Valid := by
  cases lower with
  | none => exact trivial
  | some e =>
    cases upper with
    | none => exact trivial
    | some f =>
      intro hgt
      rw [reaches_some, Semantic.compare_eq_swap, hgt] at h
      exact Bool.false_ne_true h

/-- A span is valid when there is room between its ends. -/
theorem valid_of_leavesRoom {lower upper : Option End} (h : leavesRoom lower upper = true) :
    (span lower upper).Valid := by
  cases lower with
  | none => exact trivial
  | some e =>
    cases upper with
    | none => exact trivial
    | some f =>
      intro hgt
      rw [leavesRoom_some, hgt] at h
      exact Bool.false_ne_true h

namespace Checked

/-! ## Steps that have a result -/

/-- A computation goes on with the result of a step that has one. -/
theorem ok_bind {ε α β : Type} (a : α) (f : α → Except ε β) : (.ok a >>= f) = f a :=
  rfl

/-- Where a step has a result for every member of a list, so does the walk through the list. -/
theorem mapM_eq_ok {ε α β : Type} {f : α → Except ε β} {g : α → β}
    (h : ∀ a, f a = .ok (g a)) (l : List α) : l.mapM f = .ok (l.map g) := by
  obtain rfl : f = fun a => pure (g a) := funext h
  exact List.mapM_pure

/-- Where a step always has a result, so does a fold. -/
theorem foldlM_eq_ok {ε α β : Type} {f : β → α → Except ε β} {g : β → α → β}
    (h : ∀ b a, f b a = .ok (g b a)) (b : β) (l : List α) :
    l.foldlM f b = .ok (l.foldl g b) := by
  obtain rfl : f = fun b a => pure (g b a) := funext₂ h
  exact List.foldlM_pure

/-! ## Guards -/

/-- Bounds of a valid interval are not refused. -/
theorem between_of_valid {i : Interval} (h : i.Valid) : between i.lower? i.upper? = .ok i := by
  unfold between
  rw [valid_iff.mp h]
  rfl

/-- A label and itself are not refused as bounds. -/
theorem between_point (name : String) :
    between (some ⟨.label name, true⟩) (some ⟨.label name, true⟩) =
      .ok (around name (.within true true)) :=
  between_of_valid (i := around name (.within true true)) trivial

section

variable (al au bl bu : Option End)

/-- The lower ends of spans are compared without a fault. -/
theorem compareMin_span :
    compareMin (span al au) (span bl bu) = .ok (compareLower al bl) := by
  cases al with
  | none => cases bl <;> rfl
  | some e =>
    cases bl with
    | none => rfl
    | some f =>
      obtain ⟨v, p⟩ := e
      obtain ⟨w, q⟩ := f
      -- Both ends are there: the tests agree for each outcome of the comparison and both flags.
      show Except.ok (if v.compare w = .gt || v.compare w = .eq && !p && q then Ordering.gt
        else if v.compare w = .lt || p && !q then .lt else .eq) =
        .ok ((v.compare w).then (compare q p))
      cases v.compare w <;> cases p <;> cases q <;> rfl

/-- The upper ends of spans are compared without a fault. -/
theorem compareMax_span :
    compareMax (span al au) (span bl bu) = .ok (compareUpper au bu) := by
  cases au with
  | none => cases bu <;> rfl
  | some e =>
    cases bu with
    | none => rfl
    | some f =>
      obtain ⟨v, p⟩ := e
      obtain ⟨w, q⟩ := f
      show Except.ok (if v.compare w = .lt || v.compare w = .eq && !p && q then Ordering.lt
        else if v.compare w = .gt || p && !q then .gt else .eq) =
        .ok ((v.compare w).then (compare p q))
      cases v.compare w <;> cases p <;> cases q <;> rfl

/-- Where a span has an upper end and another one a lower end, the former is compared with the latter
without a fault. -/
theorem touchesBefore_span (e f : End) :
    touchesBefore (span al (some e)) (span (some f) bu) = .ok (reaches (some e) (some f)) := by
  rw [reaches_some]
  rfl

/-- Whether a span meets another one is found out without a fault. -/
theorem meets_span : meets (span al au) (span bl bu) = .ok (reaches au bl) := by
  cases au with
  | none => rfl
  | some e =>
    cases bl with
    | none => rfl
    | some f => exact touchesBefore_span al bu e f

/-- Where a span has a lower end and another one an upper end, the former is compared with the latter
without a fault. -/
theorem startsBeforeEnd_span (e f : End) :
    startsBeforeEnd (span (some e) au) (span bl (some f)) = .ok (reaches (some f) (some e)) := by
  have hstarts : startsBeforeEnd (span (some e) au) (span bl (some f)) =
      .ok (e.version.compare f.version = .lt ||
        e.version.compare f.version = .eq && (e.inclusive || f.inclusive)) := rfl
  rw [hstarts, reaches_some, Semantic.compare_eq_swap f.version e.version]
  cases e.version.compare f.version <;> cases e.inclusive <;> cases f.inclusive <;> rfl

/-! ## Intersections -/

/-- Of two ends, the interval between them is built only if there is room. -/
theorem sharedBetween_span (e f : End) :
    sharedBetween (span (some e) au).lower? (span bl (some f)).upper? =
      .ok (spanBetween (some e) (some f)) := by
  -- Where there is room between the ends, the interval is accepted.
  have hbetween : leavesRoom (some e) (some f) = true →
      between (span (some e) au).lower? (span bl (some f)).upper? =
        .ok (span (some e) (some f)) :=
    fun h => between_of_valid (valid_of_leavesRoom h)
  rw [leavesRoom_some] at hbetween
  show (if (e.version.compare f.version = .lt ||
      e.version.compare f.version = .eq && e.inclusive && f.inclusive) = true then
        some <$> between (span (some e) au).lower? (span bl (some f)).upper?
      else .ok none) = _
  rw [spanBetween, leavesRoom_some]
  split_ifs with hroom
  · rw [hbetween hroom]
    rfl
  · rfl

/-- The greater of two lower ends is there. -/
theorem isSome_of_compareLower {e f : Option End} :
    (compareLower e f = .lt → f.isSome = true) ∧ (compareLower e f = .gt → e.isSome = true) := by
  cases e <;> cases f <;> simp [compareLower]

/-- The smaller of two upper ends is there. -/
theorem isSome_of_compareUpper {e f : Option End} :
    (compareUpper e f = .lt → e.isSome = true) ∧ (compareUpper e f = .gt → f.isSome = true) := by
  cases e <;> cases f <;> simp [compareUpper]

/-- What two spans share is found without a fault. -/
theorem intersectSemantic_spans :
    intersectSemantic (span al au) (span bl bu) = .ok (intersectSpans al au bl bu) := by
  unfold intersectSemantic intersectSpans
  rw [compareMin_span, compareMax_span]
  -- Where one span has the greater lower end and the other one the smaller upper end, a new interval is
  -- built between the two, which are there. Else one of the spans is the result.
  cases hl : compareLower al bl with
  | lt =>
    cases hu : compareUpper au bu with
    | lt =>
      obtain ⟨f, rfl⟩ := Option.isSome_iff_exists.mp (isSome_of_compareLower.1 hl)
      obtain ⟨e, rfl⟩ := Option.isSome_iff_exists.mp (isSome_of_compareUpper.1 hu)
      exact sharedBetween_span bu al f e
    | eq => rfl
    | gt => rfl
  | eq => cases compareUpper au bu <;> rfl
  | gt =>
    cases hu : compareUpper au bu with
    | lt => rfl
    | eq => rfl
    | gt =>
      obtain ⟨e, rfl⟩ := Option.isSome_iff_exists.mp (isSome_of_compareLower.2 hl)
      obtain ⟨f, rfl⟩ := Option.isSome_iff_exists.mp (isSome_of_compareUpper.2 hu)
      exact sharedBetween_span au bl e f

end

/-- Between two bounds at one label, one of which is there, the interval is built only if the label
lies between them. -/
theorem sharedPlain_label (name : String) {lower upper : Option Bool}
    (h : lower.isSome = true ∨ upper.isSome = true) :
    sharedPlain (lower.map (Bound.mk (.label name))) (upper.map (Bound.mk (.label name))) =
      .ok ((Reach.ofFlags lower upper).map (around name)) := by
  cases lower with
  | none =>
    cases upper with
    | none => exact absurd h (by decide)
    | some j => rfl
  | some i =>
    cases upper with
    | none => rfl
    | some j =>
      -- Both bounds are there: the label lies between them only if both hold it.
      cases i <;> cases j <;> try rfl
      exact congrArg (some <$> ·) (between_point name)

/-- Two bounds at one label are combined as their flags are. -/
theorem combine_map (name : String) (i j : Option Bool) :
    combine (i.map (Bound.mk (.label name))) (j.map (Bound.mk (.label name))) =
      (Reach.meetFlags i j).map (Bound.mk (.label name)) := by
  cases i <;> cases j <;> rfl

/-- Where all bounds are at one label, they are combined. -/
theorem intersectPlain_of_same {a b : Interval} {name : String} (hne : a.bounds ++ b.bounds ≠ [])
    (h : ∀ c ∈ a.bounds ++ b.bounds, c.version = .label name) :
    intersectPlain a b = sharedPlain (combine a.lower? b.lower?) (combine a.upper? b.upper?) := by
  unfold intersectPlain
  dsimp only
  split
  next heq => exact absurd heq hne
  next first rest heq =>
    have hfirst : first.version = .label name := h first (heq ▸ List.mem_cons_self)
    refine if_neg (Bool.eq_false_iff.mp (List.any_eq_false.mpr fun c hc => ?_))
    rw [hfirst, h c hc]
    simp [Version.Same]

/-- Intervals with bounds at different versions share nothing, if one of them is around a label. -/
theorem intersectPlain_of_ne {a b : Interval} {c d : Bound} (hc : c ∈ a.bounds) (hd : d ∈ b.bounds)
    (hne : ∀ v, c.version.Same v → ¬d.version.Same v) : intersectPlain a b = .ok none := by
  unfold intersectPlain
  dsimp only
  split
  next heq => exact absurd (heq ▸ List.mem_append_left b.bounds hc) List.not_mem_nil
  next first rest heq =>
    -- One of the two is at another version than the first bound of all.
    refine if_pos (List.any_eq_true.mpr ?_)
    by_cases hsame : c.version.Same first.version
    · exact ⟨d, List.mem_append_right a.bounds hd, by simpa using hne _ hsame⟩
    · exact ⟨c, List.mem_append_left b.bounds hc, by simpa using hsame⟩

/-- Where all bounds are at one label, two intervals share what lies between the bounds. -/
theorem intersectPlain_label (name : String) {a b : Interval} (al au bl bu : Option Bool)
    (hal : a.lower? = al.map (Bound.mk (.label name)))
    (hau : a.upper? = au.map (Bound.mk (.label name)))
    (hbl : b.lower? = bl.map (Bound.mk (.label name)))
    (hbu : b.upper? = bu.map (Bound.mk (.label name)))
    (h : (Reach.meetFlags al bl).isSome = true ∨ (Reach.meetFlags au bu).isSome = true) :
    intersectPlain a b =
      .ok ((Reach.ofFlags (Reach.meetFlags al bl) (Reach.meetFlags au bu)).map (around name)) := by
  have hmap : ∀ o : Option Bool, ∀ c ∈ (o.map (Bound.mk (.label name))).toList,
      c.version = .label name := by
    intro o c hc
    obtain ⟨i, -, rfl⟩ := Option.map_eq_some_iff.mp (Option.mem_toList.mp hc)
    rfl
  -- All bounds are at the label, and there is one.
  have hsame : ∀ c ∈ a.bounds ++ b.bounds, c.version = .label name := by
    unfold bounds
    rw [hal, hau, hbl, hbu]
    exact List.forall_mem_append.mpr ⟨List.forall_mem_append.mpr ⟨hmap al, hmap au⟩,
      List.forall_mem_append.mpr ⟨hmap bl, hmap bu⟩⟩
  have hne : a.bounds ++ b.bounds ≠ [] := by
    intro hnil
    simp only [bounds, hal, hau, hbl, hbu, List.append_eq_nil_iff, Option.toList_eq_nil_iff,
      Option.map_eq_none_iff] at hnil
    obtain ⟨⟨rfl, rfl⟩, rfl, rfl⟩ := hnil
    exact absurd h (by decide)
  rw [intersectPlain_of_same hne hsame, hal, hau, hbl, hbu, combine_map, combine_map]
  exact sharedPlain_label name h

/-- An interval around a label has a bound. -/
theorem exists_bound_around (name : String) (reach : Reach) :
    ∃ b ∈ (around name reach).bounds, b.version = .label name := by
  cases reach <;> exact ⟨_, List.mem_cons_self, rfl⟩

/-- A span with an end has a bound. -/
theorem exists_bound_span {lower upper : Option End} (h : ¬(lower = none ∧ upper = none)) :
    ∃ b ∈ (span lower upper).bounds, ∃ v, b.version = .semantic v := by
  cases lower with
  | some e => exact ⟨_, List.mem_cons_self, _, rfl⟩
  | none =>
    cases upper with
    | some f => exact ⟨_, List.mem_cons_self, _, rfl⟩
    | none => exact absurd ⟨rfl, rfl⟩ h

/-- No version is the same as a semantic version and as a label. -/
theorem not_same_label {v : Semantic} {name : String} {w : Version}
    (h : (Version.semantic v).Same w) : ¬(Version.label name).Same w := by
  cases w with
  | semantic _ => exact not_false
  | label _ => exact absurd h not_false

/-- What two intervals share is found without a fault. -/
theorem intersect_some (i j : Interval) :
    Checked.intersect (some i) (some j) = .ok (i.intersect j) := by
  -- Two spans are taken by their order. Else one interval is around a label, and what counts is whether
  -- all bounds are at one version.
  cases i with
  | span al au =>
    cases j with
    | span bl bu => exact intersectSemantic_spans al au bl bu
    | around t q =>
      show intersectPlain (span al au) (around t q) = _
      rw [intersect_span_around]
      split_ifs with hall
      · -- Everything has no bounds: those of the other interval are kept.
        obtain ⟨rfl, rfl⟩ := hall
        exact intersectPlain_label t none none q.lower? q.upper? rfl rfl rfl rfl
          q.isSome_lower?_or_upper?
      · -- A span with an end has a bound at a semantic version, the other interval one at a label.
        obtain ⟨c, hc, v, hv⟩ := exists_bound_span hall
        obtain ⟨d, hd, hname⟩ := exists_bound_around t q
        refine intersectPlain_of_ne hc hd ?_
        rw [hv, hname]
        exact fun w => not_same_label
  | around s r =>
    cases j with
    | span bl bu =>
      show intersectPlain (around s r) (span bl bu) = _
      rw [intersect_around_span, intersect_span_around]
      split_ifs with hall
      · -- Everything has no bounds: those of the other interval are kept.
        obtain ⟨rfl, rfl⟩ := hall
        have hnone : ∀ o : Option Bool, Reach.meetFlags o none = o := by
          rintro (_ | _) <;> rfl
        have hshared := intersectPlain_label s (a := around s r) (b := span none none) r.lower?
          r.upper? none none rfl rfl rfl rfl
        rw [hnone, hnone] at hshared
        exact hshared r.isSome_lower?_or_upper?
      · -- A span with an end has a bound at a semantic version, the other interval one at a label.
        obtain ⟨c, hc, hname⟩ := exists_bound_around s r
        obtain ⟨d, hd, v, hv⟩ := exists_bound_span hall
        refine intersectPlain_of_ne hc hd ?_
        rw [hv, hname]
        exact fun w hw hw' => not_same_label hw' hw
    | around t q =>
      show intersectPlain (around s r) (around t q) = .ok (if s = t then _ else _)
      split_ifs with hname
      · -- Around one label, the bounds are combined.
        subst hname
        exact intersectPlain_label s r.lower? r.upper? q.lower? q.upper? rfl rfl rfl rfl
          (r.isSome_meetFlags q)
      · -- Around two labels, there is a bound at each.
        obtain ⟨c, hc, hs⟩ := exists_bound_around s r
        obtain ⟨d, hd, ht⟩ := exists_bound_around t q
        refine intersectPlain_of_ne hc hd ?_
        rw [hs, ht]
        rintro (_ | w) hw hw'
        · exact hw
        · exact hname (hw.trans hw'.symm)

/-- What two intervals share, either of which may be empty, is found without a fault. -/
theorem intersect_eq (i j : Option Interval) :
    Checked.intersect i j = .ok (intersect? i j) := by
  cases i with
  | none => rfl
  | some i =>
    cases j with
    | none => rfl
    | some j => exact intersect_some i j

end Checked

end Semrange.Interval
