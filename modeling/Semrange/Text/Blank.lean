/-!
# Blank characters

Which characters count as blank, and what texts need of them: cutting blanks off both ends
(`trim`) and taking a text apart into words (`words`). Blanks are the white space of Unicode 14
together with the four information separators `U+001C` to `U+001F`; the zero-width space is none.
-/

namespace Semrange.Text

/-- Whether the code point of `c` lies in one of the closed ranges. -/
def inRanges (ranges : List (Nat × Nat)) (c : Char) : Bool :=
  ranges.any fun r => decide (r.1 ≤ c.toNat) && decide (c.toNat ≤ r.2)

/-- The closed ranges of blank code points, ascending and apart. -/
def blankRanges : List (Nat × Nat) :=
  [(0x09, 0x0D), (0x1C, 0x20), (0x85, 0x85), (0xA0, 0xA0), (0x1680, 0x1680), (0x2000, 0x200A),
   (0x2028, 0x2029), (0x202F, 0x202F), (0x205F, 0x205F), (0x3000, 0x3000)]

/-- Whether `c` is blank. -/
def isBlank (c : Char) : Bool :=
  inRanges blankRanges c

/-- The text without the blanks at its start. -/
def trimStart (l : List Char) : List Char :=
  l.dropWhile isBlank

/-- The text without the blanks at either end. -/
def trim (l : List Char) : List Char :=
  (trimStart (trimStart l).reverse).reverse

/-- The maximal runs of characters that are not blank, in order. -/
def words (l : List Char) : List (List Char) :=
  (l.splitOnP isBlank).filter fun w => !w.isEmpty

/-- Every character that is white space in the core library's sense is blank. -/
theorem isBlank_of_isWhitespace {c : Char} (h : c.isWhitespace = true) : isBlank c = true := by
  simp only [Char.isWhitespace, Bool.or_eq_true, decide_eq_true_eq] at h
  rcases h with ((h | h) | h) | h
  · subst h; decide
  · subst h; decide
  · subst h; decide
  · subst h; decide

-- The table adds to the core library's class, and not everything.
example : isBlank '\u3000' = true ∧ isBlank '\u200b' = false ∧ isBlank 'x' = false := by decide

end Semrange.Text
