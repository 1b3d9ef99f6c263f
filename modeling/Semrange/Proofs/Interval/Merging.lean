import Semrange.Proofs.Interval.Exclusion
import Semrange.Proofs.Interval.Guards

/-!
# Unions and complements with checks

No check of an insertion ever fails, nor of what is made of insertions. A span reads versions off ends
of its own and of the spans that it meets. They are there as long as neither the new span nor a member
of the list is everything (`mergeSemantic_span`), and unions see to that: the interval of all versions
stands alone in them (`unionAll_eq_all_or`), and a span that grows into it ends the insertion.
-/

namespace Semrange.Interval.Checked

/-! ## Insertions around a label -/

/-- The bounds of an interval around a label are at that label. -/
theorem plainVersion_around (name : String) (reach : Reach) :
    plainVersion (around name reach) = .ok (.label name) := by
  cases reach <;> rfl

/-- The intervals around a label are found without a fault. -/
theorem isAround_label (name : String) (c : Interval) :
    isAround (.label name) c = .ok (reachAround? name c).isSome := by
  cases c with
  | span lower upper => rfl
  | around s r =>
    show (plainVersion (around s r) >>= fun v => .ok (decide (v.Same (.label name)))) = _
    rw [plainVersion_around, ok_bind]
    -- Two labels are the same version where they are the same text.
    show Except.ok (decide (s = name)) = .ok (if s = name then some r else none).isSome
    by_cases h : s = name <;> simp [h]

/-- An interval around a label covers what its reach covers. -/
theorem plainShape_around (name : String) (reach : Reach) :
    plainShape (around name reach) = reach.coverage := by
  cases reach with
  | below i => cases i <;> rfl
  | above i => cases i <;> rfl
  | within i j => rfl

/-- The intervals of a list around a label are given by their reaches. -/
theorem filter_isSome_reachAround (name : String) (l : List Interval) :
    l.filter (fun c => (reachAround? name c).isSome) =
      (l.filterMap (reachAround? name)).map (around name) := by
  induction l with
  | nil => rfl
  | cons c l ih =>
    cases c with
    | span lower upper => exact ih
    | around s r =>
      -- The head is kept, with its reach, where it is around the same label.
      by_cases h : s = name
      · subst h
        have hr : reachAround? s (around s r) = some r := if_pos rfl
        rw [List.filter_cons_of_pos (by rw [hr]; rfl), List.filterMap_cons_some hr, ih]
        rfl
      · have hr : reachAround? name (around s r) = none := if_neg h
        rw [List.filter_cons_of_neg (by rw [hr]; exact nofun), List.filterMap_cons_none hr, ih]

/-- What is covered around a label is built without a fault. -/
theorem plainIntervals_label (name : String) (c : Coverage) :
    plainIntervals (.label name) c = .ok (c.reaches.map (around name)) := by
  -- All but the point have one bound only, which is never refused.
  rcases c with ⟨_ | _, _ | _, _ | _⟩ <;> try rfl
  exact congrArg (· >>= fun i => .ok [i]) (between_point name)

/-- An interval around a label is added to a list without a fault. -/
theorem mergePlain_around (name : String) (reach : Reach) (l : List Interval) :
    mergePlain (around name reach) l = .ok (insertAround name reach l) := by
  have hmarks := mapM_eq_ok (isAround_label name) l
  have hpair : ∀ m : List Interval,
      (m.map fun c => (c, (reachAround? name c).isSome)).map Prod.fst = m := by
    intro m
    rw [List.map_map]
    exact List.map_id m
  unfold mergePlain insertAround
  rw [plainVersion_around, ok_bind, hmarks, ok_bind]
  dsimp only
  -- Which members are around the label is marked first; without the marks, what is kept in front
  -- and behind is cut from the list itself.
  rw [← List.map_prod_left_eq_zip, List.takeWhile_map, List.dropWhile_map, List.filter_map,
    List.filter_map, hpair, hpair, hpair]
  simp only [Function.comp_def, Option.not_isSome, filter_isSome_reachAround]
  -- The members around the label, if there are any, are given by their reaches.
  cases l.filterMap (reachAround? name) with
  | nil => rfl
  | cons r known =>
    -- What they cover is added up alike.
    have hcovered : ((r :: known).map (around name)).foldl (fun c j => c.or (plainShape j))
        (plainShape (around name reach)) =
          (r :: known).foldl (fun c q => c.or q.coverage) reach.coverage := by
      rw [List.foldl_map, plainShape_around]
      simp only [plainShape_around]
    rw [List.map_cons] at hcovered ⊢
    dsimp only
    rw [hcovered]
    by_cases hfull : ((r :: known).foldl (fun c q => c.or q.coverage) reach.coverage).isFull = true
    · rw [if_pos hfull, if_pos hfull]
      rfl
    · rw [if_neg hfull, if_neg hfull, plainIntervals_label]
      rfl

/-! ## Insertions of spans -/

/-- A span is everything when it has no ends. -/
theorem isAll_span (lower upper : Option End) :
    (span lower upper).isAll = (lower.isNone && upper.isNone) := by
  cases lower <;> cases upper <;> rfl

section

variable {l : List Interval}

/-- A span without a lower end meets one without an upper end. -/
theorem mergeSemantic_none_none (e f : End) :
    mergeSemantic (span none (some e)) (span (some f) none :: l) =
      .ok (insertSpan none (some e) (span (some f) none :: l)) := by
  show (touchesBefore (span none (some e)) (span (some f) none) >>= fun b =>
    if b = true then .ok none else .ok (some _)) = _
  rw [touchesBefore_span, ok_bind, insertSpan]
  split_ifs <;> rfl

/-- A span without a lower end meets one with an upper end. -/
theorem mergeSemantic_none_some (e g : End) (cl : Option End)
    (ih : mergeSemantic (span none (some e)) l = .ok (insertSpan none (some e) l)) :
    mergeSemantic (span none (some e)) (span cl (some g) :: l) =
      .ok (insertSpan none (some e) (span cl (some g) :: l)) := by
  show (compareMax (span none (some e)) (span cl (some g)) >>= fun o =>
    if o.isGE = true then mergeSemantic (span none (some e)) l
    else if (span cl (some g)).lower?.isNone = true then .ok (some (span cl (some g) :: l))
    else touchesBefore (span none (some e)) (span cl (some g)) >>= fun b =>
      if b = true then .ok (some (span none (some g) :: l))
      else .ok (some (span none (some e) :: span cl (some g) :: l))) = _
  rw [compareMax_span, ok_bind, insertSpan]
  -- The head is swallowed if the new span ends no earlier.
  by_cases hge : (compareUpper (some e) (some g)).isGE = true
  · rw [if_pos hge, if_pos hge, ih]
  · rw [if_neg hge, if_neg hge]
    cases cl with
    -- Without a lower end the head encompasses the new span; with one, it is reached or not.
    | none => rfl
    | some f =>
      rw [touchesBefore_span, ok_bind]
      cases reaches (some e) (some f) <;> rfl

/-- A span with a lower end meets one without an upper end. -/
theorem mergeSemantic_some_none (e : End) (upper cl : Option End) (hhead : span cl none ≠ all) :
    mergeSemantic (span (some e) upper) (span cl none :: l) =
      .ok (insertSpan (some e) upper (span cl none :: l)) := by
  show (compareMin (span (some e) upper) (span cl none) >>= fun o =>
    if o.isGE = true then .ok (some (span cl none :: l))
    else if (span (some e) upper).upper?.isNone = true then .ok (some [span (some e) upper])
    else touchesBefore (span (some e) upper) (span cl none) >>= fun b =>
      if b = true then .ok (some (span (some e) none :: l))
      else .ok (some (span (some e) upper :: span cl none :: l))) = _
  rw [compareMin_span, ok_bind, insertSpan]
  -- The head encompasses the new span if that starts no earlier.
  by_cases hge : (compareLower (some e) cl).isGE = true
  · rw [if_pos hge, if_pos hge]
  · rw [if_neg hge, if_neg hge]
    cases upper with
    -- Without an upper end the new span replaces all that is left; with one, it reaches the head or
    -- not.
    | none => rfl
    | some g =>
      cases cl with
      | none => exact absurd rfl hhead
      | some f =>
        rw [touchesBefore_span, ok_bind]
        cases reaches (some g) (some f) <;> rfl

/-- A span with a lower end meets one with an upper end. -/
theorem mergeSemantic_some_some (e g : End) (upper cl : Option End)
    (ih : ∀ lower, span lower upper ≠ all →
      mergeSemantic (span lower upper) l = .ok (insertSpan lower upper l)) :
    mergeSemantic (span (some e) upper) (span cl (some g) :: l) =
      .ok (insertSpan (some e) upper (span cl (some g) :: l)) := by
  have hsame := ih (some e) nofun
  show (startsBeforeEnd (span (some e) upper) (span cl (some g)) >>= fun b =>
    if b = true then
      meets (span (some e) upper) (span cl (some g)) >>= fun b =>
        if b = true then
          compareMin (span (some e) upper) (span cl (some g)) >>= fun o =>
            compareMax (span (some e) upper) (span cl (some g)) >>= fun o' =>
              if o'.isLE = true then
                if o = .lt then
                  between (span (some e) upper).lower? (span cl (some g)).upper? >>= fun i =>
                    .ok (some (i :: l))
                else .ok (some (span cl (some g) :: l))
              else if o = .gt then
                between (span cl (some g)).lower? (span (some e) upper).upper? >>= fun i =>
                  if i.isAll = true then .ok none else mergeSemantic i l
              else mergeSemantic (span (some e) upper) l
        else .ok (some (span (some e) upper :: span cl (some g) :: l))
    else mergeSemantic (span (some e) upper) l >>= fun o =>
      .ok (o.map (span cl (some g) :: ·))) = _
  -- The branches are those of `insertSpan`; what has to be seen is that the spans built in them are
  -- valid, by the guards passed on the way.
  rw [startsBeforeEnd_span, ok_bind, insertSpan]
  by_cases hback : reaches (some g) (some e) = true
  · rw [if_pos hback, if_pos hback, meets_span, ok_bind]
    by_cases hreach : reaches upper cl = true
    · rw [if_pos hreach, if_pos hreach, compareMin_span, compareMax_span, ok_bind, ok_bind]
      by_cases hle : (compareUpper upper (some g)).isLE = true
      · -- The head ends behind the start of the new span, so it may end the longer one.
        have hwidened : between (span (some e) upper).lower? (span cl (some g)).upper? =
            .ok (span (some e) (some g)) := between_of_valid (valid_of_reaches hback)
        rw [if_pos hle, if_pos hle, hwidened]
        split_ifs <;> rfl
      · -- The new span reaches the head, so it may end a span that starts with the head.
        have hgrown : between (span cl (some g)).lower? (span (some e) upper).upper? =
            .ok (span cl upper) := between_of_valid (valid_of_reaches hreach)
        rw [if_neg hle, if_neg hle, hgrown, ok_bind, isAll_span, hsame]
        split_ifs with hgt hall
        · rfl
        · exact ih cl fun heq => hall (isAll_span cl upper ▸ congrArg isAll heq)
        · rfl
    · -- The new span ends before the head.
      rw [if_neg hreach, if_neg hreach]
  · -- The head ends before the new span and is passed.
    rw [if_neg hback, if_neg hback, hsame]
    rfl

end

/-- A span is added to a list without a fault, unless it or a member of the list is everything. -/
theorem mergeSemantic_span {lower upper : Option End} {l : List Interval}
    (hne : span lower upper ≠ all) (hl : all ∉ l) :
    mergeSemantic (span lower upper) l = .ok (insertSpan lower upper l) := by
  -- For all lower ends, since the new span takes over that of a member it swallows.
  induction l generalizing lower with
  | nil => rfl
  | cons c l ih =>
    obtain ⟨hhead, htail⟩ := List.ne_and_not_mem_of_not_mem_cons hl
    cases c with
    | around s r =>
      -- Labels are passed.
      show (mergeSemantic (span lower upper) l >>= fun o => .ok (o.map (around s r :: ·))) = _
      rw [ih hne htail]
      rfl
    | span cl cu =>
      cases lower with
      | none =>
        cases upper with
        | none => exact absurd rfl hne
        | some e =>
          cases cu with
          | none =>
            cases cl with
            | none => exact absurd rfl hhead
            | some f => exact mergeSemantic_none_none e f
          | some g => exact mergeSemantic_none_some e g cl (ih hne htail)
      | some e =>
        cases cu with
        | none => exact mergeSemantic_some_none e upper cl hhead.symm
        | some g => exact mergeSemantic_some_some e g upper cl fun lower h => ih h htail

-- Beside everything there is no lower end to compare with.
example : mergeSemantic (span none (some ⟨⟨1, [], false, none, none⟩, true⟩)) [all] =
    .error .missing := rfl

/-! ## Unions -/

/-- An interval is inserted without a fault into a list in which that of all versions stands alone, if
it is there. -/
theorem insert_some (i : Interval) {l : List Interval} (hl : l = [all] ∨ all ∉ l) :
    Checked.insert (some i) l = .ok (i.insert l) := by
  rcases hl with rfl | hl
  · rfl
  · cases l with
    | nil => rfl
    | cons c l =>
      have hne : c :: l ≠ [all] := fun h => hl (h ▸ List.mem_cons_self)
      unfold Checked.insert Interval.insert
      simp only [List.isEmpty_cons, Bool.false_eq_true, if_false, if_neg hne]
      cases i with
      | around name reach => exact mergePlain_around name reach (c :: l)
      | span lower upper =>
        by_cases hall : span lower upper = all
        · obtain ⟨rfl, rfl⟩ := span.inj hall
          rfl
        · show (if (span lower upper).isAll = true then Except.ok [all]
            else mergeSemantic (span lower upper) (c :: l) >>= fun o => .ok (o.getD [all])) = _
          rw [mergeSemantic_span hall hl]
          -- The only span without ends is everything.
          cases lower <;> cases upper <;> first | exact absurd rfl hall | rfl

/-- An interval that may be empty is inserted without a fault into a union. -/
theorem insert_unionAll (i : Option Interval) (l : List (Option Interval)) :
    Checked.insert i (Interval.unionAll l.reduceOption) =
      .ok (Interval.unionAll (l ++ [i]).reduceOption) := by
  rw [List.reduceOption_append]
  cases i with
  | none =>
    rw [List.reduceOption_singleton, Option.toList_none, List.append_nil]
    rfl
  | some i =>
    rw [List.reduceOption_singleton, Option.toList_some, unionAll_append_singleton]
    exact insert_some i (unionAll_eq_all_or _)

/-- Intervals are united without a fault. -/
theorem unionAll_eq (l : List (Option Interval)) :
    Checked.unionAll l = .ok (Interval.unionAll l.reduceOption) := by
  induction l using List.reverseRecOn with
  | nil => rfl
  | append_singleton l i ih =>
    unfold Checked.unionAll at ih ⊢
    rw [List.foldlM_append, ih, ok_bind, List.foldlM_cons, insert_unionAll]
    rfl

/-- Intervals and one more are united without a fault. -/
theorem union_eq (l : List (Option Interval)) (i : Option Interval) :
    Checked.union l i = .ok (Interval.unionAll (l ++ [i]).reduceOption) := by
  unfold Checked.union
  rw [unionAll_eq, ok_bind, insert_unionAll]

/-- Of what two intervals share, one of each of two lists, that which is not empty. -/
theorem reduceOption_sharedPairs (a b : List (Option Interval)) :
    (a.map fun i => b.map fun j => intersect? i j).flatten.reduceOption =
      a.reduceOption.flatMap fun i => b.reduceOption.filterMap fun j => i.intersect j := by
  induction a with
  | nil => rfl
  | cons i a ih =>
    rw [List.map_cons, List.flatten_cons, List.reduceOption_append, ih]
    cases i with
    | none =>
      -- An empty interval shares nothing with any other one.
      have hnone : (b.map fun j => intersect? none j).reduceOption = [] := by
        rw [List.reduceOption, List.filterMap_map]
        exact List.filterMap_eq_nil_iff.mpr fun j _ => rfl
      rw [hnone, List.reduceOption_cons_of_none, List.nil_append]
    | some i =>
      have hsome : (b.map fun j => intersect? (some i) j).reduceOption =
          b.reduceOption.filterMap fun j => i.intersect j := by
        unfold List.reduceOption
        rw [List.filterMap_map, List.filterMap_filterMap]
        rfl
      rw [hsome, List.reduceOption_cons_of_some, List.flatMap_cons]

/-- What two lists share is found without a fault. -/
theorem intersectAll_eq (a b : List (Option Interval)) :
    Checked.intersectAll a b = .ok (Interval.intersectAll a.reduceOption b.reduceOption) := by
  have hrow : ∀ i, b.mapM (fun j => Checked.intersect i j) = .ok (b.map fun j => intersect? i j) :=
    fun i => mapM_eq_ok (intersect_eq i) b
  unfold Checked.intersectAll Interval.intersectAll
  rw [mapM_eq_ok hrow, ok_bind, unionAll_eq, reduceOption_sharedPairs]

/-! ## Complements -/

/-- What lies outside of an interval that may be empty is found without a fault. -/
theorem complement_eq (i : Option Interval) : Checked.complement i = .ok (complement? i) := by
  cases i with
  | none => rfl
  | some i =>
    cases i with
    | span lower upper =>
      cases lower with
      | none => cases upper <;> rfl
      | some e =>
        cases upper with
        | none => rfl
        | some f =>
          -- Both ends are there: only if they leave out the same version nothing is within.
          show (if (decide (e.version.Same f.version) && !e.inclusive && !f.inclusive) = true then
            Except.ok [all] else Except.ok [span none (some e.flip), span (some f.flip) none]) =
              Except.ok (if (decide (e.version.Same f.version) && !e.inclusive && !f.inclusive) = true
                then [all] else [span none (some e.flip), span (some f.flip) none])
          split_ifs <;> rfl
    | around name reach =>
      rcases reach with i | i | ⟨i, j⟩
      · rfl
      · rfl
      · -- Both bounds are at the label, which is the same as itself.
        show (if (decide (name = name) && !i && !j) = true then
            Except.ok [all] else Except.ok [around name (.below !i), around name (.above !j)]) =
              Except.ok (if (!i && !j) = true then [all]
                else [around name (.below !i), around name (.above !j)])
        rw [decide_eq_true rfl, Bool.true_and]
        split_ifs <;> rfl

/-- What lies outside of all of several intervals is found without a fault. -/
theorem complementAll_eq (l : List (Option Interval)) :
    Checked.complementAll l = .ok (Interval.complementAll l) := by
  cases l with
  | nil => rfl
  | cons i l =>
    rw [Checked.complementAll, complement_eq, ok_bind]
    -- What lies outside of one more interval is shared with what lies outside of those before.
    refine foldlM_eq_ok (fun known j => ?_) _ l
    rw [complement_eq, ok_bind, intersectAll_eq, reduceOption_map_some, reduceOption_map_some]

end Semrange.Interval.Checked
