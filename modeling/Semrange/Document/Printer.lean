import Semrange.Decimal.Shortest
import Semrange.Document.Basic
import Semrange.Text.Quoted

/-!
# Documents in messages

How a document appears inside a message. Its literal form shows texts in quotes, lists in brackets
and mappings in braces, all on one line; its plain form differs only for a text, which is shown as
it is. Numbers with a fraction are written with the fewest digits that identify them, positionally
while the leading digit stands between the fourth place after the point and the sixteenth before
it, and otherwise with a signed exponent of at least two digits.
-/

namespace Semrange

/-- The decimal digits of a number. -/
def Decimal.digitText (n : Nat) : String :=
  toString n

/-- The exponent of ten below which a number is no longer written positionally. -/
def Decimal.leastPositional : Int := -4

/-- The exponent of ten from which on a number is no longer written positionally. -/
def Decimal.firstScientific : Int := 16

/-- The exponent part of a number in scientific form: its sign and at least two digits. -/
def Decimal.exponentText (e : Int) : String :=
  let digits := toString e.natAbs
  (if e < 0 then "e-" else "e+") ++ (if e.natAbs < 10 then "0" else "") ++ digits

/-- A positive decimal as it is shown: always with a point unless it has an exponent. -/
def Decimal.Scientific.text (d : Decimal.Scientific) : String :=
  let digits := (toString d.digits).toList
  -- the exponent of the leading digit
  let lead := d.exponent + (digits.length : Int) - 1
  if Decimal.leastPositional ≤ lead ∧ lead < Decimal.firstScientific then
    if lead < 0 then
      "0." ++ String.ofList (List.replicate (-lead - 1).toNat '0' ++ digits)
    else
      let whole := digits.take (lead.toNat + 1)
      let zeros := List.replicate (lead.toNat + 1 - digits.length) '0'
      let rest := digits.drop (lead.toNat + 1)
      String.ofList (whole ++ zeros ++ '.' :: (if rest.isEmpty then ['0'] else rest))
  else
    let rest := digits.drop 1
    String.ofList (digits.take 1 ++ (if rest.isEmpty then [] else '.' :: rest)) ++
      Decimal.exponentText lead

/-- A floating-point number as it is shown. -/
def Binary64.text : Binary64 → String
  | .nan => "nan"
  | .infinite negative => if negative then "-inf" else "inf"
  | .finite negative m q =>
    (if negative then "-" else "") ++
      if m = 0 then "0.0" else (Decimal.shortest m q).text

/-- A scalar in literal form. -/
def Scalar.literal : Scalar → String
  | .null => "None"
  | .bool b => if b then "True" else "False"
  | .int n => toString n
  | .float x => x.text
  | .text s => Text.quoted s

/-- A scalar in plain form. -/
def Scalar.plain : Scalar → String
  | .text s => s
  | k => k.literal

/-- The word for the kind of a scalar. -/
def Scalar.kindName : Scalar → String
  | .null => "NoneType"
  | .bool _ => "bool"
  | .int _ => "int"
  | .float _ => "float"
  | .text _ => "str"

namespace Document

mutual

/-- A document in literal form. -/
def literal : Document → String
  | .scalar s => s.literal
  | .list items => "[" ++ ", ".intercalate (literals items) ++ "]"
  | .mapping entries => "\x7b" ++ ", ".intercalate (entryLiterals entries) ++ "\x7d"

/-- The literal forms of the documents of a list. -/
def literals : List Document → List String
  | [] => []
  | d :: l => d.literal :: literals l

/-- The literal forms of the entries of a mapping. -/
def entryLiterals : List (Scalar × Document) → List String
  | [] => []
  | (k, d) :: l => (k.literal ++ ": " ++ d.literal) :: entryLiterals l

end

/-- A document in plain form. -/
def plain : Document → String
  | .scalar s => s.plain
  | d => d.literal

/-- The word for the kind of a document. -/
def kindName : Document → String
  | .scalar s => s.kindName
  | .list _ => "list"
  | .mapping _ => "dict"

end Document

end Semrange
