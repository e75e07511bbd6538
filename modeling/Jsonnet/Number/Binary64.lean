/-!
# Binary64 numbers

The exact value of a 64-bit binary floating-point number. A finite number is a
signed multiple of `2 ^ -1074`, the least positive one, so remainders, rounding to
integers and comparisons with decimals are arithmetic of natural numbers.
-/

namespace Jsonnet

/-- The value of a floating-point number. -/
inductive Binary64 where
  | nan
  | infinite (negative : Bool)
  /-- The number `units * 2 ^ -1074`, or its opposite. -/
  | finite (negative : Bool) (units : Nat)
  deriving DecidableEq, Repr, Inhabited

namespace Binary64

/-- How many units make one. -/
def unitsPerOne : Nat := Nat.pow 2 1074

/-- The sign bit of a number. -/
def signOf (bits : UInt64) : Bool := bits.toNat / Nat.pow 2 63 % 2 == 1

/-- The exponent field of a number. -/
def exponentOf (bits : UInt64) : Nat := bits.toNat / Nat.pow 2 52 % Nat.pow 2 11

/-- The fraction field of a number. -/
def fractionOf (bits : UInt64) : Nat := bits.toNat % Nat.pow 2 52

/-- The magnitude that the exponent and the fraction of a finite number make. -/
def magnitude (exponent fraction : Nat) : Nat :=
  if exponent = 0 then fraction else (Nat.pow 2 52 + fraction) * Nat.pow 2 (exponent - 1)

/-- The value that a bit pattern stands for. -/
def ofBits (bits : UInt64) : Binary64 :=
  let exponent := exponentOf bits
  let fraction := fractionOf bits
  if exponent = 2047 then
    if fraction = 0 then .infinite (signOf bits) else .nan
  else .finite (signOf bits) (magnitude exponent fraction)

/-- The bits of a magnitude without its sign. A magnitude with more than 53 significant
bits loses the lower ones. -/
def magnitudeBits (units : Nat) : Nat :=
  if units < Nat.pow 2 53 then units
  else
    let shift := units.log2 - 52
    shift * Nat.pow 2 52 + units / Nat.pow 2 shift

/-- The bit pattern of a value. -/
def toBits : Binary64 → UInt64
  | .nan => 0x7ff8000000000000
  | .infinite negative => if negative then 0xfff0000000000000 else 0x7ff0000000000000
  | .finite negative units =>
    let magnitude := magnitudeBits units
    ((if negative then Nat.pow 2 63 else 0) + magnitude).toUInt64

/-- The remainder of a division whose quotient is rounded towards zero; it has the
sign of the dividend. -/
def remainder : Binary64 → Binary64 → Binary64
  | .finite negative x, .finite _ y => if y = 0 then .nan else .finite negative (x % y)
  | .finite negative x, .infinite _ => .finite negative x
  | _, _ => .nan

/-- The greatest integer below a value or equal to it. -/
def floor : Binary64 → Binary64
  | .finite negative units =>
    let whole := units / unitsPerOne
    let up := negative && units % unitsPerOne != 0
    .finite negative ((if up then whole + 1 else whole) * unitsPerOne)
  | other => other

/-- The least integer above a value or equal to it. -/
def ceil : Binary64 → Binary64
  | .finite negative units =>
    let whole := units / unitsPerOne
    let up := !negative && units % unitsPerOne != 0
    .finite negative ((if up then whole + 1 else whole) * unitsPerOne)
  | other => other

/-- Whether a value is an integer; infinities are none. -/
def isInteger : Binary64 → Bool
  | .finite _ units => units % unitsPerOne == 0
  | _ => false

/-- The value without its fraction, held inside `[low, high]`; what is not a number
counts as zero. -/
def clamp (low high : Int) : Binary64 → Int
  | .nan => 0
  | .infinite negative => if negative then low else high
  | .finite negative units =>
    let whole : Int := Int.ofNat (units / unitsPerOne)
    max low (min high (if negative then -whole else whole))

end Binary64

end Jsonnet
