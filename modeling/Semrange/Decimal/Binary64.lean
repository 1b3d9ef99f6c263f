/-!
# Floating-point numbers by their parts

A double-precision number as an exact integer pair: sign, mantissa and power of two. All
arithmetic on it is arithmetic of integers; the machine's own arithmetic only rounds a decimal to
the nearest number, in `ofDecimal`.
-/

namespace Semrange

/-- A double-precision number. -/
inductive Binary64 where
  /-- Not a number. -/
  | nan
  /-- An infinity. -/
  | infinite (negative : Bool)
  /-- The number `mantissa * 2 ^ exponent`, with its sign; zero has a sign too. -/
  | finite (negative : Bool) (mantissa : Nat) (exponent : Int)
deriving DecidableEq, Repr

namespace Binary64

/-- The number that 64 bits stand for: a sign, eleven bits of exponent, 52 bits of fraction. -/
def ofBits (bits : UInt64) : Binary64 :=
  let negative := bits >>> 63 == 1
  let scale := ((bits >>> 52) &&& 0x7FF).toNat
  let fraction := (bits &&& 0xFFFFFFFFFFFFF).toNat
  if scale = 0x7FF then
    if fraction = 0 then .infinite negative else .nan
  else if scale = 0 then .finite negative fraction (-1074)
  else .finite negative (Nat.pow 2 52 + fraction) ((scale : Int) - 1075)

/-- The number nearest to `digits * 10 ^ exponent`, with a sign. -/
def ofDecimal (negative : Bool) (digits : Nat) (exponent : Int) : Binary64 :=
  match ofBits (Float.ofScientific digits (decide (exponent < 0)) exponent.natAbs).toBits with
  | .finite _ m q => .finite negative m q
  | .infinite _ => .infinite negative
  | .nan => .nan

/-- Whether the number is zero, of either sign. -/
def isZero : Binary64 → Bool
  | .finite _ m _ => m == 0
  | _ => false

/-- The integer part, toward zero; `none` for what is not finite. -/
def truncate? : Binary64 → Option Int
  | .finite negative m q =>
    let n : Int := if 0 ≤ q then (m * Nat.pow 2 q.toNat : Nat) else (m / Nat.pow 2 (-q).toNat : Nat)
    some (if negative then -n else n)
  | _ => none

/-- Whether the number is exactly the integer `n`. -/
def equalsInt (x : Binary64) (n : Int) : Bool :=
  match x with
  | .finite negative m q =>
    let s : Int := if negative then -(m : Int) else m
    s * (Nat.pow 2 q.toNat : Nat) == n * (Nat.pow 2 (-q).toNat : Nat)
  | _ => false

/-- Numeric equality: the zeros are equal, and what is not a number differs from itself. -/
def equals : Binary64 → Binary64 → Bool
  | .nan, _ => false
  | .finite _ 0 _, .finite _ 0 _ => true
  | x, y => x == y

end Binary64

end Semrange
