import Semrange.Text.Blank
import Semrange.Text.DecimalDigit

/-!
# Numerals of bounded length

Numbers have any size here, their numerals do not: one of more than `limit` digits is neither read
nor written. `read` reads a run of ASCII digits, leading zeros included in the count, and
`Writable` says which numbers have a numeral. `readInteger?` reads a signed integer from free text.
-/

namespace Semrange.Numeral

/-- The greatest number of digits of a numeral that is read or written. -/
def limit : Nat := 4300

/-- Why a numeral was refused. -/
inductive Fault where
  /-- A numeral to be read has this many digits. -/
  | tooLong (digits : Nat)
  /-- A number to be written would need too many digits. -/
  | unwritable
deriving DecidableEq, Repr

/-- The text of a fault. -/
def Fault.message : Fault → String
  | .tooLong digits =>
    s!"Exceeds the limit ({limit} digits) for integer string conversion: value has {digits} digits; " ++
      "use sys.set_int_max_str_digits() to increase the limit"
  | .unwritable =>
    s!"Exceeds the limit ({limit} digits) for integer string conversion; " ++
      "use sys.set_int_max_str_digits() to increase the limit"

/-- The number that a run of ASCII digits denotes. -/
def value (digits : List Char) : Nat :=
  digits.foldl (fun n d => 10 * n + (d.toNat - '0'.toNat)) 0

/-- Whether the text is a nonempty run of ASCII digits. -/
def isDigits (l : List Char) : Bool :=
  !l.isEmpty && l.all Char.isDigit

/-- The number that a run of ASCII digits denotes, unless the run is too long. -/
def read (digits : List Char) : Except Fault Nat :=
  if limit < digits.length then .error (.tooLong digits.length) else .ok (value digits)

/-- A number is writable when its numeral is within the limit. -/
def Writable (n : Nat) : Prop :=
  n < Nat.pow 10 limit

instance (n : Nat) : Decidable (Writable n) :=
  inferInstanceAs (Decidable (n < Nat.pow 10 limit))

/-- Whether a blank may stand around an integer in free text: all may but the information
separators. -/
def isPadding (c : Char) : Bool :=
  Text.isBlank c && !(decide (0x1C ≤ c.toNat) && decide (c.toNat ≤ 0x1F))

/-- The digits of an unsigned integer in free text: digits of any script, a single underscore
allowed between two of them. -/
def groupedDigits? : List Char → Option (List Nat)
  | [] => none
  | [c] => (Text.decimalDigit? c).map ([·])
  | c :: '_' :: l => do
    let d ← Text.decimalDigit? c
    let ds ← groupedDigits? l
    return d :: ds
  | c :: l => do
    let d ← Text.decimalDigit? c
    let ds ← groupedDigits? l
    return d :: ds

/-- The unsigned integer that a free text denotes, if its digits are within the limit. -/
def readUnsigned? (l : List Char) : Option Nat := do
  let ds ← groupedDigits? l
  if limit < ds.length then none else some (ds.foldl (fun n d => 10 * n + d) 0)

/-- The integer that a free text denotes: blanks around it, then a sign or none, then digits. -/
def readInteger? (s : String) : Option Int :=
  let l := (((s.toList.dropWhile isPadding).reverse).dropWhile isPadding).reverse
  match l with
  | '-' :: r => (readUnsigned? r).map fun n => -(n : Int)
  | '+' :: r => (readUnsigned? r).map fun n => (n : Int)
  | r => (readUnsigned? r).map fun n => (n : Int)

example : readInteger? " -1_000\n" = some (-1000) ∧ readInteger? "1__0" = none ∧
    readInteger? "+ 5" = none := by decide

end Semrange.Numeral
