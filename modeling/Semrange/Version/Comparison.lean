import Semrange.Version.Order

/-!
# Comparison signs

The four signs of order between versions. A version can be compared with a version only: with any
other value there is no answer, while equality is always answered.
-/

namespace Semrange

/-- A sign of order. -/
inductive Relation where
  /-- Less. -/
  | lt
  /-- Less or equal. -/
  | le
  /-- Greater. -/
  | gt
  /-- Greater or equal. -/
  | ge
deriving DecidableEq, Repr

/-- A sign as it is written. -/
def Relation.symbol : Relation → String
  | .lt => "<"
  | .le => "<="
  | .gt => ">"
  | .ge => ">="

/-- Whether the sign is right for two things that compare in the given way. -/
def Relation.allows : Relation → Ordering → Bool
  | .lt, o => o.isLT
  | .le, o => o.isLE
  | .gt, o => o.isGT
  | .ge, o => o.isGE

/-- What stands beside a sign. -/
inductive Operand where
  /-- A version. -/
  | version (v : Version)
  /-- Any other value. -/
  | other (d : Document)

/-- The word for the kind of an operand. -/
def Operand.kindName : Operand → String
  | .version v => v.kindName
  | .other d => d.kindName

/-- Why a comparison has no answer. -/
inductive ComparisonError where
  /-- One of the operands is no version. -/
  | unordered (sign : Relation) (left right : String)
deriving DecidableEq, Repr

/-- The text of an error. -/
def ComparisonError.message : ComparisonError → String
  | .unordered sign left right =>
    s!"'{sign.symbol}' not supported between instances of '{left}' and '{right}'"

/-- Whether the sign is right between two operands. -/
def Relation.holds (sign : Relation) : Operand → Operand → Except ComparisonError Bool
  | .version a, .version b => .ok (sign.allows (a.compare b))
  | a, b => .error (.unordered sign a.kindName b.kindName)

/-- Whether two operands are the same version. -/
def Operand.isSame : Operand → Operand → Bool
  | .version a, .version b => decide (a.Same b)
  | _, _ => false

end Semrange
