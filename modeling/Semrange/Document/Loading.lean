import Semrange.Document.Basic
import Semrange.Numeral

/-!
# Loading documents

A document is made from its text level by level. The scalars of one level come first, in their
order and a key before what it holds; what is inside of lists and mappings comes with the level
below. An integer with too long a numeral cannot be made, and the first such integer counts.
-/

namespace Semrange

/-- Why a scalar cannot be made from its numeral, if so. -/
def Scalar.numeralFault? : Scalar → Option Numeral.Fault
  | .int n =>
    if Numeral.Writable n.natAbs then none
    else some (.tooLong (Nat.toDigits 10 n.natAbs).length)
  | _ => none

namespace Document

/-- The levels of two documents that stand side by side. -/
def beside (l m : List (List Scalar)) : List (List Scalar) :=
  List.zipWithAll (fun a b => a.getD [] ++ b.getD []) l m

mutual

/-- The scalars of a document, keys included, level by level. -/
def levels : Document → List (List Scalar)
  | .scalar s => [[s]]
  | .list items => [] :: itemLevels items
  | .mapping entries => [] :: entryLevels entries

/-- The levels of the documents of a list. -/
def itemLevels : List Document → List (List Scalar)
  | [] => []
  | d :: l => beside d.levels (itemLevels l)

/-- The levels of the entries of a mapping. -/
def entryLevels : List (Scalar × Document) → List (List Scalar)
  | [] => []
  | (k, d) :: l => beside (beside [[k]] d.levels) (entryLevels l)

end

/-- Why a document cannot be made from its text, if so. -/
def numeralFault? (d : Document) : Option Numeral.Fault :=
  d.levels.flatten.findSome? Scalar.numeralFault?

end Document

end Semrange
