import Semrange.Predicate.Basic
import Semrange.Version.Parser

/-!
# Reading predicates

A range expression is a sequence of words, one for each term; a star stands for no term. A word is
an operator, or none for equality, and a version, which may be a label only under equality. A
version that ends in a wildcard stands for the whole line of versions: `1.x` is read as `^1-` and
`1.2.x` as `~1.2-`, where the empty prerelease is the lowest one.

What is worth telling about a word that was read in another way than it was written is a `Note`.
-/

namespace Semrange.Predicate

/-- What is wrong with a range expression. -/
inductive Malformation where
  /-- An operator without a version. -/
  | noVersion (op : Operator)
  /-- A wildcard under another operator than equality. -/
  | wildcardOperator
  /-- A wildcard elsewhere than in the second or third place. -/
  | wildcardPlace
  /-- A label under another operator than equality. -/
  | labelOperator (op : Operator)
deriving DecidableEq, Repr

/-- The text of a malformation. -/
def Malformation.message : Malformation → String
  | .noVersion op => s!"missing version after '{op.text}'!"
  | .wildcardOperator =>
    "version ranges with wildcards (.X) require using the equality operator or no operator at all!"
  | .wildcardPlace => "wildcards are only supported as the second or third component!"
  | .labelOperator op =>
    s!"version ranges need to be semantic version compatible to use the '{op.text}' operator!"

/-- Why a word is no term. -/
inductive TermError where
  /-- The word is malformed. -/
  | malformed (cause : Malformation)
  /-- Its version could not be read. -/
  | version (error : Version.ReadError)
deriving DecidableEq, Repr

/-- Why a range expression could not be read. -/
inductive ParseError where
  /-- One of its words is malformed. -/
  | malformed (expression : String) (cause : Malformation)
  /-- One of its versions could not be read. -/
  | version (error : Version.ReadError)
deriving DecidableEq, Repr

/-- The text of an error. -/
def ParseError.message : ParseError → String
  | .malformed expression cause => s!"Invalid predicate: {expression}, {cause.message}"
  | .version error => error.message

/-- The term that a version with a wildcard stands for. -/
def expandWildcard (op : Operator) (v : Semantic) : Except Malformation Term :=
  if op ≠ .equal then .error .wildcardOperator
  else
    let ref := Version.semantic { v with wild := false, prerelease := some "" }
    if v.size = 2 then .ok ⟨.sameMajor, ref⟩
    else if v.size = 3 then .ok ⟨.sameMinor, ref⟩
    else .error .wildcardPlace

/-- The term that an operator and a version make. -/
def makeTerm (op : Operator) : Version → Except Malformation Term
  | .semantic v => if v.wild then expandWildcard op v else .ok ⟨op, .semantic v⟩
  | .label name => if op = .equal then .ok ⟨op, .label name⟩ else .error (.labelOperator op)

/-- The term that a word denotes. -/
def readTerm (word : List Char) : Except TermError Term :=
  let (op, rest) := Operator.split word
  if rest.isEmpty then .error (.malformed (.noVersion op))
  else
    match Version.parse true (String.ofList rest) with
    | .error e => .error (.version e)
    | .ok v =>
      match makeTerm op v with
      | .error cause => .error (.malformed cause)
      | .ok t => .ok t

/-- The words of an expression that stand for terms. -/
def termWords (s : String) : List (List Char) :=
  (Text.words s.toList).filter fun w => w != ['*']

/-- The terms that words denote. -/
def readTerms : List (List Char) → Except TermError (List Term)
  | [] => .ok []
  | w :: ws =>
    match readTerm w with
    | .error e => .error e
    | .ok t =>
      match readTerms ws with
      | .error e => .error e
      | .ok ts => .ok (t :: ts)

/-- The predicate that a range expression denotes. -/
def parse (s : String) : Except ParseError Predicate :=
  match readTerms (termWords s) with
  | .ok ts => .ok ⟨ts⟩
  | .error (.malformed cause) => .error (.malformed s cause)
  | .error (.version e) => .error (.version e)

/-- The predicates that range expressions denote, each one once. -/
def parseAll (expressions : List String) : Except ParseError (List Predicate) :=
  (expressions.mapM parse).map distinct

/-- A remark on how a word was read. -/
inductive Note where
  /-- A version was read as a label. -/
  | label (name : String) (cause : Semrange.Malformation)
  /-- A version with a wildcard was read as a term. -/
  | expanded (v : Semantic) (term : Term)
deriving DecidableEq, Repr

/-- The text of a remark. -/
def Note.message : Note → String
  | .label name cause => cause.labelNote name
  | .expanded v term => s!"Rewrote wildcard range {v.text} as {term.text}"

/-- The remarks on a word. -/
def termNotes (word : List Char) : List Note :=
  let (op, rest) := Operator.split word
  let s := String.ofList rest
  match Version.labelCause? true s, Semantic.parse true s with
  | some cause, _ => [.label s cause]
  | none, .ok v =>
    if v.wild then ((expandWildcard op v).toOption.map (Note.expanded v)).toList else []
  | none, .error _ => []

/-- The remarks on words up to the first one that is no term. -/
def notesOn : List (List Char) → List Note
  | [] => []
  | w :: ws => termNotes w ++ if (readTerm w).toBool then notesOn ws else []

/-- The remarks on a range expression. -/
def notes (s : String) : List Note :=
  notesOn (termWords s)

/-- The remarks on range expressions up to the first one that cannot be read. -/
def notesOnAll : List String → List Note
  | [] => []
  | s :: l => notes s ++ if (parse s).toBool then notesOnAll l else []

end Semrange.Predicate
