import Semrange.Version.Basic

/-!
# Versions from their fields

A semantic version may be given by its components instead of by a text. Then each component is a
wildcard or any document, and `Semantic.ofFields` accepts natural numbers with at most one wildcard,
at the end. Prerelease and build are taken as they are.
-/

namespace Semrange.Semantic

/-- What is offered as a component. -/
inductive Field where
  /-- The wildcard. -/
  | wildcard
  /-- Any other value. -/
  | value (d : Document)

/-- A field in literal form. -/
def Field.literal : Field → String
  | .wildcard => "<Wildcard.ANY: 'x'>"
  | .value d => d.literal

/-- Fields in literal form; a single one is followed by a comma. -/
def fieldsLiteral : List Field → String
  | [f] => s!"({f.literal},)"
  | l => "(" ++ ", ".intercalate (l.map Field.literal) ++ ")"

/-- Why fields make no version. -/
inductive FieldError where
  /-- There is none, or the first one is a wildcard. -/
  | noNumber (fields : List Field)
  /-- A wildcard is followed by something. -/
  | wildcardInside (fields : List Field)
  /-- A field is no natural number. -/
  | component (field : Field) (fields : List Field)

/-- The text of an error. -/
def FieldError.message : FieldError → String
  | .noNumber fields => s!"Invalid components: {fieldsLiteral fields}"
  | .wildcardInside fields => s!"Wildcard must be the last component: {fieldsLiteral fields}"
  | .component field fields =>
    s!"Invalid version component {field.literal} in {fieldsLiteral fields}"

/-- The number that a field denotes. -/
def Field.number? : Field → Option Nat
  | .value (.scalar (.int (.ofNat n))) => some n
  | _ => none

/-- The numbers of the fields, and whether a wildcard follows them; `all` is what errors show. -/
def readFields (all : List Field) : List Field → Except FieldError (List Nat × Bool)
  | [] => .ok ([], false)
  | [.wildcard] => .ok ([], true)
  | .wildcard :: _ => .error (.wildcardInside all)
  | f :: fs =>
    match f.number? with
    | none => .error (.component f all)
    | some n =>
      match readFields all fs with
      | .error e => .error e
      | .ok (ns, wild) => .ok (n :: ns, wild)

/-- The version with the given fields. -/
def ofFields (fields : List Field) (prerelease build : Option String) :
    Except FieldError Semantic :=
  match fields with
  | [] | .wildcard :: _ => .error (.noNumber fields)
  | _ =>
    match readFields fields fields with
    | .error e => .error e
    | .ok ([], _) => .error (.noNumber fields)
    | .ok (major :: rest, wild) => .ok ⟨major, rest, wild, prerelease, build⟩

end Semrange.Semantic
