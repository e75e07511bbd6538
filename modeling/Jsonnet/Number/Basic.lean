import Jsonnet.Number.Binary64

/-!
# Numbers

A number of the language is a 64-bit binary floating-point number, kept as its bits: what
is not a number also has a sign and a fraction, which stay as they are until something is
computed with it. Numbers are compared, turned into integers, added and subtracted by
their bits; products, quotients and the elementary functions are those of the machine.
-/

namespace Jsonnet

/-- A 64-bit binary floating-point number, given by its bits. Equal bits are more than
equal numbers: the two zeros differ, and what is not a number is equal to itself. -/
structure Number where
  bits : UInt64
  deriving DecidableEq, Hashable, Repr, Inhabited

namespace Number

/-- The value of a number. -/
def value (x : Number) : Binary64 := .ofBits x.bits

/-- The number with a value. -/
def ofValue (v : Binary64) : Number := ⟨v.toBits⟩

/-- The number as the machine computes with it. -/
def toFloat (x : Number) : Float := .ofBits x.bits

/-- The number that the machine has computed. -/
def ofFloat (x : Float) : Number := ⟨x.toBits⟩

/-- Zero, the positive one. -/
def zero : Number := ⟨0⟩

/-! ### Comparison -/

/-- The bits without the sign. -/
def magnitude (x : Number) : Nat := x.bits.toNat % Nat.pow 2 63

/-- The magnitude of the infinities. -/
def infiniteMagnitude : Nat := 2047 * Nat.pow 2 52

/-- Whether this is not a number. -/
def isNaN (x : Number) : Bool := infiniteMagnitude < x.magnitude

/-- Whether a number is infinite. -/
def isInfinite (x : Number) : Bool := x.magnitude == infiniteMagnitude

/-- The place of a number in the order of all numbers, those of zeros being zero. -/
def rank (x : Number) : Int :=
  if Binary64.signOf x.bits then -Int.ofNat x.magnitude else Int.ofNat x.magnitude

/-- Whether two numbers are equal; what is not a number is equal to none. -/
def equal (x y : Number) : Bool := !x.isNaN && !y.isNaN && x.rank == y.rank

/-- Whether a number is less than another. -/
def less (x y : Number) : Bool := !x.isNaN && !y.isNaN && x.rank < y.rank

/-- Whether a number is less than another or equal to it. -/
def lessEq (x y : Number) : Bool := !x.isNaN && !y.isNaN && x.rank ≤ y.rank

/-! ### Rounding -/

/-- The quotient of two natural numbers, rounded to nearest, ties to even. -/
def roundedQuotient (n divisor : Nat) : Nat :=
  let quotient := n / divisor
  let twice := 2 * (n % divisor)
  if twice < divisor || (twice == divisor && quotient % 2 == 0) then quotient
  else quotient + 1

/-- A number of units rounded to 53 significant bits, to nearest, ties to even. -/
def roundedUnits (units : Nat) : Nat :=
  if units < Nat.pow 2 53 then units
  else
    let last := Nat.pow 2 (units.log2 - 52)
    roundedQuotient units last * last

/-- The value nearest to a number of units; from `2 ^ 1024` on that is an infinity. -/
def nearest (negative : Bool) (units : Nat) : Binary64 :=
  let units := roundedUnits units
  if units < Nat.pow 2 1024 * Binary64.unitsPerOne then .finite negative units
  else .infinite negative

/-! ### Arithmetic -/

/-- The value nearest to the sum of two values. Opposites add up to the positive zero. -/
def sum : Binary64 → Binary64 → Binary64
  | .finite s x, .finite t y =>
    if s = t then nearest s (x + y)
    else if x = y then .finite false 0
    else if y < x then nearest s (x - y)
    else nearest t (y - x)
  | .infinite s, .infinite t => if s = t then .infinite s else .nan
  | .infinite s, .finite .. => .infinite s
  | .finite .., .infinite t => .infinite t
  | _, _ => .nan

/-- The opposite; also of what is not a number only the sign changes. -/
def opposite (x : Number) : Number := ⟨x.bits ^^^ 0x8000000000000000⟩

instance : Neg Number := ⟨opposite⟩
instance : Add Number := ⟨fun x y => ofValue (sum x.value y.value)⟩
instance : Sub Number := ⟨fun x y => x + -y⟩
instance : Mul Number := ⟨fun x y => ofFloat (x.toFloat * y.toFloat)⟩
instance : Div Number := ⟨fun x y => ofFloat (x.toFloat / y.toFloat)⟩

/-- The remainder of the division of two numbers, with the sign of the first. -/
def remainder (x y : Number) : Number := ofValue (x.value.remainder y.value)

/-- The greatest integer below a number or equal to it. -/
def floor (x : Number) : Number := ofValue x.value.floor

/-- The least integer above a number or equal to it. -/
def ceil (x : Number) : Number := ofValue x.value.ceil

/-- The square root. -/
def sqrt (x : Number) : Number := ofFloat x.toFloat.sqrt

/-- The exponential function. -/
def exp (x : Number) : Number := ofFloat x.toFloat.exp

/-- The natural logarithm. -/
def log (x : Number) : Number := ofFloat x.toFloat.log

/-- A number to the power of another. -/
def pow (x y : Number) : Number := ofFloat (x.toFloat.pow y.toFloat)

/-- The number nearest to a power of ten. -/
def powerOfTen (exponent : Nat) : Number := ofFloat (.ofScientific 1 false exponent)

/-! ### Integers -/

/-- The number nearest to a natural number below `2 ^ 1024`, ties to even. -/
def ofNat (n : Nat) : Number :=
  if n = 0 then zero
  else
    let places := n.log2
    let significand :=
      if places ≤ 52 then n * Nat.pow 2 (52 - places)
      else roundedQuotient n (Nat.pow 2 (places - 52))
    ⟨((1022 + places) * Nat.pow 2 52 + significand).toUInt64⟩

/-- The number nearest to an integer, ties to even. -/
def ofInt : Int → Number
  | .ofNat n => ofNat n
  | .negSucc n => -ofNat (n + 1)

/-- Whether a number is an integer. -/
def isIntegral (x : Number) : Bool := x.value.isInteger

/-- The least integer of 64 bits. -/
def leastWord : Int := -Int.ofNat (Nat.pow 2 63)

/-- The greatest integer of 64 bits. -/
def greatestWord : Int := Int.ofNat (Nat.pow 2 63) - 1

/-- The 64-bit integer that is left when the fraction of a number is dropped; a number
out of range counts as the nearer end of the range, and what is not a number as zero. -/
def word (x : Number) : Int := x.value.clamp leastWord greatestWord

end Number

end Jsonnet
