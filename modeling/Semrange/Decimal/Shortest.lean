import Semrange.Decimal.Binary64

/-!
# The shortest decimal of a floating-point number

Every double-precision number is the nearest one to a whole interval of reals. `shortest` finds the
decimal with the fewest digits in that interval, and of those the nearest to the number itself; an
exact tie goes to the even digit. It tries, for one digit, two digits and so on, the two
neighbours of the number on the decimal grid of that fineness, in exact integer arithmetic.
-/

namespace Semrange.Decimal

/-- The decimal `digits * 10 ^ exponent`. -/
structure Scientific where
  /-- The digits, read as one number. -/
  digits : Nat
  /-- The power of ten of the last digit. -/
  exponent : Int
deriving DecidableEq, Repr

/-- Compares `a * 10 ^ i` with `n * 2 ^ j`. -/
def compareScaled (a : Nat) (i : Int) (n : Nat) (j : Int) : Ordering :=
  compare (a * Nat.pow 10 i.toNat * Nat.pow 2 (-j).toNat)
    (n * Nat.pow 2 j.toNat * Nat.pow 10 (-i).toNat)

/-- Whether the double nearest to `d` is `m * 2 ^ q`. The interval of such decimals reaches half way
to the two neighbours, and holds its ends when `m` is even; below a power of two the lower
neighbour is only half as far away. -/
def identifies (m : Nat) (q : Int) (d : Scientific) : Bool :=
  let low := if m = Nat.pow 2 52 ∧ -1074 < q then 4 * m - 1 else 4 * m - 2
  let high := 4 * m + 2
  let closed := m % 2 == 0
  let l := compareScaled d.digits d.exponent low (q - 2)
  let h := compareScaled d.digits d.exponent high (q - 2)
  (l == .gt || (closed && l == .eq)) && (h == .lt || (closed && h == .eq))

/-- The least `k` with `m * 2 ^ q < 10 ^ k`, for positive `m`. -/
def magnitude (m : Nat) (q : Int) : Int :=
  let start := Int.fdiv (((m.log2 : Int) + q) * 30103) 100000 - 1
  (((List.range 5).map fun (i : Nat) => start + (i : Int)).find? fun k =>
    compareScaled 1 k m q == .gt).getD (start + 5)

/-- The best decimal on the grid of step `10 ^ g`, if one there identifies the number. -/
def onGrid? (m : Nat) (q g : Int) : Option Scientific :=
  let below := (m * Nat.pow 2 q.toNat * Nat.pow 10 (-g).toNat) /
    (Nat.pow 2 (-q).toNat * Nat.pow 10 g.toNat)
  let lower : Scientific := ⟨below, g⟩
  let upper : Scientific := ⟨below + 1, g⟩
  match identifies m q lower, identifies m q upper with
  | false, false => none
  | true, false => some lower
  | false, true => some upper
  | true, true =>
    match compareScaled (2 * below + 1) g m (q + 1) with
    | .gt => some lower
    | .lt => some upper
    | .eq => if below % 2 = 0 then some lower else some upper

/-- The decimal with the zeros at the end of its digits moved into the exponent. -/
def stripZeros (d : Scientific) : Scientific :=
  if h : d.digits ≠ 0 ∧ d.digits % 10 = 0 then
    stripZeros ⟨d.digits / 10, d.exponent + 1⟩
  else d
termination_by d.digits
decreasing_by exact Nat.div_lt_self (Nat.pos_of_ne_zero h.1) (by decide)

/-- The shortest decimal whose nearest double is `m * 2 ^ q`, for positive `m`. Seventeen digits
always suffice; were none found, the exact value would stand in. -/
def shortest (m : Nat) (q : Int) : Scientific :=
  let k := magnitude m q
  let found := ((List.range 17).map fun (n : Nat) => k - ((n : Int) + 1)).findSome? (onGrid? m q)
  stripZeros (found.getD
    (if 0 ≤ q then ⟨m * Nat.pow 2 q.toNat, 0⟩ else ⟨m * Nat.pow 5 (-q).toNat, q⟩))

end Semrange.Decimal
