import Semrange.Document.Basic
import Semrange.Numeral

/-!
# Reading documents

The text form of documents: objects become mappings with texts as keys, arrays become lists, and a
number is an integer unless it has a point or an exponent. The words `NaN`, `Infinity` and
`-Infinity` are floating-point numbers. Each reader takes the rest of the text and returns what
it read with what is left; `read?` demands that only blanks are left.
-/

namespace Semrange.Document

/-- Whether a character may stand between the parts of a document. -/
def isSpace (c : Char) : Bool :=
  c == ' ' || c == '\n' || c == '\r' || c == '\t'

/-- The value of a hexadecimal digit. -/
def hexValue? (c : Char) : Option Nat :=
  if c.isDigit then some (c.toNat - '0'.toNat)
  else if 'a' ≤ c ∧ c ≤ 'f' then some (c.toNat - 'a'.toNat + 10)
  else if 'A' ≤ c ∧ c ≤ 'F' then some (c.toNat - 'A'.toNat + 10)
  else none

/-- The number of four hexadecimal digits. -/
def hexUnit? (a b c d : Char) : Option Nat := do
  let w ← hexValue? a
  let x ← hexValue? b
  let y ← hexValue? c
  let z ← hexValue? d
  return ((w * 16 + x) * 16 + y) * 16 + z

/-- The character behind a backslash that stands for a single other one. -/
def letterEscape? : Char → Option Char
  | '"' => some '"'
  | '\\' => some '\\'
  | '/' => some '/'
  | 'b' => some '\x08'
  | 'f' => some '\x0c'
  | 'n' => some '\n'
  | 'r' => some '\r'
  | 't' => some '\t'
  | _ => none

/-- The code points of a quoted text up to its closing quote, and what follows it. Characters
beyond 16 bits may come as two escapes, which are not joined yet. -/
def readUnits? : List Char → Option (List Nat × List Char)
  | [] => none
  | '"' :: l => some ([], l)
  | '\\' :: 'u' :: a :: b :: c :: d :: l => do
    let n ← hexUnit? a b c d
    let (ns, r) ← readUnits? l
    return (n :: ns, r)
  | '\\' :: e :: l => do
    let c ← letterEscape? e
    let (ns, r) ← readUnits? l
    return (c.toNat :: ns, r)
  | c :: l => do
    let (ns, r) ← readUnits? l
    return (c.toNat :: ns, r)

/-- The characters of a sequence of code points, two halves of a pair joined into one; a half that
stands alone becomes the replacement character. -/
def joinUnits : List Nat → List Char
  | [] => []
  | [n] => [if 0xD800 ≤ n ∧ n < 0xE000 then '\ufffd' else Char.ofNat n]
  | m :: n :: l =>
    if 0xD800 ≤ m ∧ m < 0xDC00 ∧ 0xDC00 ≤ n ∧ n < 0xE000 then
      Char.ofNat (0x10000 + (m - 0xD800) * 0x400 + (n - 0xDC00)) :: joinUnits l
    else if 0xD800 ≤ m ∧ m < 0xE000 then '\ufffd' :: joinUnits (n :: l)
    else Char.ofNat m :: joinUnits (n :: l)

/-- A quoted text, its opening quote already taken. -/
def readText? (l : List Char) : Option (String × List Char) :=
  (readUnits? l).map fun (ns, r) => (String.ofList (joinUnits ns), r)

/-- Whether a character may occur in a number. -/
def isNumberChar (c : Char) : Bool :=
  c.isDigit || c == '+' || c == '-' || c == '.' || c == 'e' || c == 'E'

/-- The integer that a sign or none and ASCII digits denote. -/
def signedValue? : List Char → Option Int
  | '-' :: l => if Numeral.isDigits l then some (-(Numeral.value l : Int)) else none
  | '+' :: l => if Numeral.isDigits l then some (Numeral.value l) else none
  | l => if Numeral.isDigits l then some (Numeral.value l) else none

/-- The floating-point number of a whole part, a fraction and an exponent. -/
def floatValue? (l : List Char) : Option Scalar := do
  let (negative, l) := match l with
    | '-' :: r => (true, r)
    | r => (false, r)
  let mantissa := l.takeWhile fun c => c != 'e' && c != 'E'
  let exponent ← match l.drop mantissa.length with
    | [] => some 0
    | _ :: r => signedValue? r
  let whole := mantissa.takeWhile (· != '.')
  let fraction := mantissa.drop (whole.length + 1)
  let digits := whole ++ fraction
  if Numeral.isDigits digits then
    some (.float (Binary64.ofDecimal negative (Numeral.value digits)
      (exponent - (fraction.length : Int))))
  else none

/-- A number: an integer unless it has a point or an exponent. -/
def numberValue? (l : List Char) : Option Scalar :=
  if l.any fun c => c == '.' || c == 'e' || c == 'E' then floatValue? l
  else (signedValue? l).map .int

/-- The words that stand for a value. -/
def wordValues : List (List Char × Scalar) :=
  [("null".toList, .null), ("true".toList, .bool true), ("false".toList, .bool false),
   ("NaN".toList, .float .nan), ("Infinity".toList, .float (.infinite false)),
   ("-Infinity".toList, .float (.infinite true))]

/-- A word or a number at the start of the text. -/
def readScalar? (l : List Char) : Option (Document × List Char) :=
  match wordValues.find? fun w => w.1.isPrefixOf l with
  | some (w, k) => some (.scalar k, l.drop w.length)
  | none =>
    let digits := l.takeWhile isNumberChar
    (numberValue? digits).map fun k => (.scalar k, l.drop digits.length)

mutual

/-- A document at the start of the text. Every nested reader takes one step of fuel, so the length
of the text suffices. -/
def readValue? : Nat → List Char → Option (Document × List Char)
  | 0, _ => none
  | fuel + 1, l =>
    match l.dropWhile isSpace with
    | '"' :: r => (readText? r).map fun (s, r) => (text s, r)
    | '[' :: r =>
      match r.dropWhile isSpace with
      | ']' :: r => some (.list [], r)
      | r => (readItems? fuel r).map fun (items, r) => (.list items, r)
    | '\x7b' :: r =>
      match r.dropWhile isSpace with
      | '\x7d' :: r => some (.mapping [], r)
      | r => (readEntries? fuel r).map fun (entries, r) => (ofEntries entries, r)
    | r => readScalar? r

/-- The items of a list up to its closing bracket. -/
def readItems? : Nat → List Char → Option (List Document × List Char)
  | 0, _ => none
  | fuel + 1, l => do
    let (item, r) ← readValue? fuel l
    match r.dropWhile isSpace with
    | ',' :: r =>
      let (items, r) ← readItems? fuel r
      return (item :: items, r)
    | ']' :: r => return ([item], r)
    | _ => none

/-- The entries of a mapping up to its closing brace. -/
def readEntries? : Nat → List Char → Option (List (Scalar × Document) × List Char)
  | 0, _ => none
  | fuel + 1, l =>
    match l.dropWhile isSpace with
    | '"' :: r => do
      let (key, r) ← readText? r
      match r.dropWhile isSpace with
      | ':' :: r =>
        let (item, r) ← readValue? fuel r
        match r.dropWhile isSpace with
        | ',' :: r =>
          let (entries, r) ← readEntries? fuel r
          return ((.text key, item) :: entries, r)
        | '\x7d' :: r => return ([(.text key, item)], r)
        | _ => none
      | _ => none
    | _ => none

end

/-- The document that a text denotes. -/
def read? (s : String) : Option Document :=
  match readValue? (s.length + 1) s.toList with
  | some (d, r) => if r.all isSpace then some d else none
  | none => none

end Semrange.Document
