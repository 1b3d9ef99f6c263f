import Semrange.Document.Printer

/-!
# Documents as JSON

How a document is written as JSON text: on one line, or over several lines with every nested item
on a line of its own. Characters beyond ASCII stay as they are; quotes, backslashes and control
characters are escaped.
-/

namespace Semrange

/-- How a character is written inside a JSON string. -/
def Text.jsonChar (c : Char) : List Char :=
  if c = '"' ∨ c = '\\' then ['\\', c]
  else if c = '\n' then ['\\', 'n']
  else if c = '\r' then ['\\', 'r']
  else if c = '\t' then ['\\', 't']
  else if c = '\x08' then ['\\', 'b']
  else if c = '\x0c' then ['\\', 'f']
  else if c.toNat < 0x20 then '\\' :: 'u' :: hexDigits 4 c.toNat
  else [c]

/-- A text as a JSON string. -/
def Text.json (s : String) : String :=
  String.ofList ('"' :: s.toList.flatMap jsonChar ++ ['"'])

/-- A floating-point number in JSON. -/
def Binary64.json : Binary64 → String
  | .nan => "NaN"
  | .infinite negative => if negative then "-Infinity" else "Infinity"
  | x => x.text

/-- A scalar in JSON. -/
def Scalar.json : Scalar → String
  | .null => "null"
  | .bool b => if b then "true" else "false"
  | .int n => toString n
  | .float x => x.json
  | .text s => Text.json s

/-- A key in JSON, always a string. -/
def Scalar.jsonKey : Scalar → String
  | .text s => Text.json s
  | k => Text.json k.json

namespace Document

/-- How items are laid out: on one line, or one below the other with this many blanks for each
level. -/
inductive Layout where
  /-- On one line. -/
  | line
  /-- On lines of their own. -/
  | indented (step : Nat)

/-- The items between two brackets, at the given depth. -/
def Layout.enclose (layout : Layout) (depth : Nat) (left right : String) (items : List String) :
    String :=
  if items.isEmpty then left ++ right
  else
    match layout with
    | .line => left ++ ", ".intercalate items ++ right
    | .indented step =>
      let newline (level : Nat) := "\n" ++ String.ofList (List.replicate (step * level) ' ')
      left ++ newline (depth + 1) ++ ("," ++ newline (depth + 1)).intercalate items ++
        newline depth ++ right

mutual

/-- A document in JSON, at the given depth. -/
def jsonAt (layout : Layout) (depth : Nat) : Document → String
  | .scalar s => s.json
  | .list items => layout.enclose depth "[" "]" (jsonItems layout (depth + 1) items)
  | .mapping entries =>
    layout.enclose depth "\x7b" "\x7d" (jsonEntries layout (depth + 1) entries)

/-- The documents of a list in JSON. -/
def jsonItems (layout : Layout) (depth : Nat) : List Document → List String
  | [] => []
  | d :: l => jsonAt layout depth d :: jsonItems layout depth l

/-- The entries of a mapping in JSON. -/
def jsonEntries (layout : Layout) (depth : Nat) : List (Scalar × Document) → List String
  | [] => []
  | (k, d) :: l => (k.jsonKey ++ ": " ++ jsonAt layout depth d) :: jsonEntries layout depth l

end

/-- A document in JSON. -/
def json (layout : Layout) (d : Document) : String :=
  jsonAt layout 0 d

end Document

end Semrange
