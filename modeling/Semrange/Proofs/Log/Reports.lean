import Semrange.Log.Basic

/-!
# Results of reports

What a report made of others has as its result, which does not depend on the records, and which
errors it can have (`FailsOnly`): an error of two reports in a row is one of the first or one of the
second, so that a reader that is made of others fails only as these do. Of the records those count
that are at least warnings (`warnings`); two reports in a row make those of both.
-/

namespace Semrange.Report

variable {ε δ α β : Type}

/-! ## The result -/

/-- A report of a value has it as its result. -/
@[simp]
theorem result_pure (a : α) : (pure a : Report ε α).result = .ok a :=
  rfl

/-- Of two reports, one after the other, the second one has the result, unless the first has
none. -/
@[simp]
theorem result_bind (r : Report ε α) (f : α → Report ε β) :
    (r >>= f).result = r.result.bind fun a => (f a).result := by
  obtain ⟨records, e | a⟩ := r <;> rfl

/-- A report that only makes records has no other result than that it has been made. -/
@[simp]
theorem result_tell (records : List Log.Record) :
    (tell records : Report ε Unit).result = .ok () :=
  rfl

/-- Making a record has no other result than that it has been made. -/
@[simp]
theorem result_note (level : Log.Level) (source : Log.Source) (text : String) :
    (note level source text : Report ε Unit).result = .ok () :=
  rfl

/-- A report without records has the result that it is made of. -/
@[simp]
theorem result_ofExcept (result : Except ε α) : (ofExcept result).result = result :=
  rfl

/-- A report of an error has it as its result. -/
@[simp]
theorem result_fail (e : ε) : (fail e : Report ε α).result = .error e :=
  rfl

/-- A report whose error is seen as another one has its result with that error. -/
@[simp]
theorem result_mapError (f : ε → δ) (r : Report ε α) :
    (r.mapError f).result = r.result.mapError f :=
  rfl

/-- What follows on a result without records is what is made of the result. -/
theorem ofExcept_bind (a : α) (f : α → Report ε β) : ofExcept (.ok a) >>= f = f a :=
  rfl

/-- What is only told under a condition makes no difference to the result. -/
theorem result_when (p : Prop) [Decidable p] {u : Report ε Unit} (hu : u.result = .ok ())
    (f : Unit → Report ε α) : (if p then u >>= f else f ()).result = (f ()).result := by
  by_cases hp : p
  · rw [if_pos hp, result_bind, hu]
    rfl
  · rw [if_neg hp]

/-! ## The warnings -/

/-- The records of a report that are at least warnings. -/
def warnings (r : Report ε α) : List Log.Record :=
  r.records.filter fun record => Log.Level.warning.rank ≤ record.level.rank

/-- A report of a value makes no warnings. -/
theorem warnings_pure (a : α) : (pure a : Report ε α).warnings = [] :=
  rfl

/-- Two reports, one after the other, make the warnings of both if the first one has a value. -/
theorem warnings_bind {r : Report ε α} {a : α} (h : r.result = .ok a) (f : α → Report ε β) :
    (r >>= f).warnings = r.warnings ++ (f a).warnings := by
  obtain ⟨records, result⟩ := r
  obtain rfl : result = .ok a := h
  exact List.filter_append ..

/-- What follows on records for those who look for a fault makes the warnings that it makes by
itself. -/
theorem warnings_tell_bind {records : List Log.Record} (h : ∀ r ∈ records, r.level = .debug)
    (f : Unit → Report ε α) : (tell records >>= f).warnings = (f ()).warnings := by
  have hnone : (tell records : Report ε Unit).warnings = [] := by
    refine List.filter_eq_nil_iff.mpr fun r hr => ?_
    rw [h r hr]
    decide
  rw [warnings_bind (result_tell records), hnone, List.nil_append]

/-! ## The errors -/

/-- A report fails only with errors that have a property. -/
def FailsOnly (r : Report ε α) (P : ε → Prop) : Prop :=
  ∀ e, r.result = .error e → P e

variable {P Q : ε → Prop}

/-- A report that has a value does not fail. -/
theorem FailsOnly.of_result {r : Report ε α} {a : α} (h : r.result = .ok a) : r.FailsOnly P := by
  intro e he
  rw [h] at he
  cases he

/-- A report of a value does not fail. -/
theorem FailsOnly.pure (a : α) : (Pure.pure a : Report ε α).FailsOnly P :=
  .of_result (result_pure a)

/-- A report of an error fails with it. -/
theorem FailsOnly.fail {e : ε} (he : P e) : (fail e : Report ε α).FailsOnly P := by
  intro e' he'
  rw [result_fail] at he'
  cases he'
  exact he

/-- Two reports, one after the other, fail as the first one does or as the second one does after a
value of the first. -/
theorem FailsOnly.bind {r : Report ε α} {f : α → Report ε β} (hr : r.FailsOnly P)
    (hf : ∀ a, r.result = .ok a → (f a).FailsOnly P) : (r >>= f).FailsOnly P := by
  intro e he
  rw [result_bind] at he
  cases hresult : r.result with
  | error e' =>
    rw [hresult] at he
    cases he
    exact hr e hresult
  | ok a =>
    rw [hresult] at he
    exact hf a hresult e he

/-- What follows on making a record fails as it does by itself. -/
theorem FailsOnly.after_note {level : Log.Level} {source : Log.Source} {text : String}
    {f : Unit → Report ε α} (hf : (f ()).FailsOnly P) :
    (note level source text >>= f).FailsOnly P :=
  .bind (.of_result (result_note level source text)) fun _ _ => hf

/-- A report whose errors have a property fails only with errors that have a weaker one. -/
theorem FailsOnly.mono {r : Report ε α} (hr : r.FailsOnly P) (h : ∀ e, P e → Q e) :
    r.FailsOnly Q :=
  fun e he => h e (hr e he)

end Semrange.Report
