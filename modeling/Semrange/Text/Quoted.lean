import Semrange.Text.Printable

/-!
# Quoted texts

A text inside a message is shown in quotes, so that blanks at its ends and invisible characters can
be seen. The rule: single quotes, or double quotes if the text holds a single quote and no double
one; the quote in use and the backslash stand behind a backslash; line feed, carriage return and
tab have letters; every other character that is not printable is written by its number, in two,
four or eight hexadecimal digits.
-/

namespace Semrange.Text

/-- The lower-case hexadecimal digit of `d`, for `d` below sixteen. -/
def hexDigit (d : Nat) : Char :=
  if d < 10 then Char.ofNat (48 + d) else Char.ofNat (87 + d)

/-- The last `width` hexadecimal digits of `n`. -/
def hexDigits : Nat → Nat → List Char
  | 0, _ => []
  | width + 1, n => hexDigits width (n / 16) ++ [hexDigit (n % 16)]

/-- A character by its number: two digits where they suffice, else four, else eight. -/
def numericEscape (c : Char) : List Char :=
  if c.toNat < 0x100 then '\\' :: 'x' :: hexDigits 2 c.toNat
  else if c.toNat < 0x10000 then '\\' :: 'u' :: hexDigits 4 c.toNat
  else '\\' :: 'U' :: hexDigits 8 c.toNat

/-- How `c` is written between the quotes `q`. -/
def quotedChar (q c : Char) : List Char :=
  if c = q ∨ c = '\\' then ['\\', c]
  else if c = '\n' then ['\\', 'n']
  else if c = '\r' then ['\\', 'r']
  else if c = '\t' then ['\\', 't']
  else if isPrintable c then [c]
  else numericEscape c

/-- The quotes that `s` is put into: double ones only where they save an escape. -/
def quoteFor (l : List Char) : Char :=
  if l.contains '\'' && !l.contains '"' then '"' else '\''

/-- The text in quotes. -/
def quoted (s : String) : String :=
  let q := quoteFor s.toList
  String.ofList (q :: s.toList.flatMap (quotedChar q) ++ [q])

end Semrange.Text
