/-!
# Cutting a text at a character

`cut c l` parts `l` at the first `c`. Nothing is lost: the two parts, with `c` between them if it
occurs, give the text back (`append_cut`), and the first part is free of `c`.
-/

namespace Semrange.Text

/-- The part of the text before the first `c`, and the part after it if `c` occurs. -/
def cut (c : Char) : List Char → List Char × Option (List Char)
  | [] => ([], none)
  | d :: l => if d = c then ([], some l) else (d :: (cut c l).1, (cut c l).2)

/-- The two parts of a cut, with the cutting character between them, are the text. -/
theorem append_cut (c : Char) (l : List Char) :
    (cut c l).1 ++ ((cut c l).2.map (c :: ·)).getD [] = l := by
  induction l with
  | nil => rfl
  | cons d l ih =>
    by_cases h : d = c
    · simp [cut, h]
    · simp [cut, h, ih]

/-- The cutting character does not occur before the cut. -/
theorem not_mem_fst_cut (c : Char) (l : List Char) : c ∉ (cut c l).1 := by
  induction l with
  | nil => simp [cut]
  | cons d l ih =>
    by_cases h : d = c
    · simp [cut, h]
    · simp only [cut, h, if_false, List.mem_cons, not_or]
      exact ⟨fun e => h e.symm, ih⟩

end Semrange.Text
