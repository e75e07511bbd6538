import Jsonnet.Number.Basic

/-!
# Decimal text of numbers

A number is written with the fewest decimal digits that read back to it, and among
those with the digits nearest to it. The digits are always laid out around the point;
there is no exponent, and an integer is written without a point.
-/

namespace Jsonnet

/-- The decimal number `digits * 10 ^ exponent`. -/
structure Decimal where
  digits : Nat
  exponent : Int
  deriving DecidableEq, Repr, Inhabited

namespace Decimal

/-- The decimals that read back to one positive number: those between `low` and `high`,
all three counted in quarters of the unit `2 ^ -1074`, and the ends themselves if
`closed`. -/
structure Interval where
  low : Nat
  value : Nat
  high : Nat
  closed : Bool

/-- The interval of a positive finite number. It reaches half of the way to the two
neighbours, which below a power of two is a quarter of the gap above it; its ends
belong to it when the fraction is even. -/
def Interval.ofBits (bits : UInt64) : Interval :=
  let exponent := Binary64.exponentOf bits
  let fraction := Binary64.fractionOf bits
  let units := Binary64.magnitude exponent fraction
  let gap := Nat.pow 2 (exponent - 1)
  { low := 4 * units - (if fraction = 0 && exponent != 0 then gap else 2 * gap)
    value := 4 * units
    high := 4 * units + 2 * gap
    closed := fraction % 2 = 0 }

/-- A point of the decimal grid and the value of a number, brought to one scale. -/
def scaled (exponent : Int) (quarters : Nat) : Nat × Nat :=
  let quartersPerOne := 4 * Binary64.unitsPerOne
  match exponent with
  | .ofNat k => (Nat.pow 10 k * quartersPerOne, quarters)
  | .negSucc k => (quartersPerOne, quarters * Nat.pow 10 (k + 1))

/-- Whether a decimal reads back to the number of an interval. -/
def readsBack (interval : Interval) (d : Decimal) : Bool :=
  let (step, low) := scaled d.exponent interval.low
  let (_, high) := scaled d.exponent interval.high
  let point := d.digits * step
  if interval.closed then low ≤ point && point ≤ high else low < point && point < high

/-- The decimal on the grid of one exponent that reads back and is nearest to the
number; of two that are equally near, the greater. -/
def onGrid? (interval : Interval) (exponent : Int) : Option Decimal :=
  let (step, value) := scaled exponent interval.value
  let below : Decimal := ⟨value / step, exponent⟩
  let above : Decimal := ⟨value / step + 1, exponent⟩
  match readsBack interval below, readsBack interval above with
  | true, true =>
    if above.digits * step - value ≤ value - below.digits * step then some above else some below
  | true, false => some below
  | false, true => some above
  | false, false => none

/-- The first grid with a decimal that reads back, from a coarse grid on to finer
ones. -/
def search (interval : Interval) (exponent : Int) : Nat → Decimal
  | 0 => ⟨(scaled exponent interval.value).2 / (scaled exponent interval.value).1, exponent⟩
  | steps + 1 =>
    match onGrid? interval exponent with
    | some d => d
    | none => search interval (exponent - 1) steps

/-- The shortest decimal that reads back to a positive finite number. The first grid
is coarser than the number, and 17 digits always suffice. -/
def shortest (bits : UInt64) : Decimal :=
  let interval := Interval.ofBits bits
  let binaryExponent : Int := Int.ofNat interval.value.log2 - 1076
  search interval ((binaryExponent + 1) * 30103 / 100000 + 1) 22

/-- The positional text of a decimal. -/
def text (d : Decimal) : String :=
  let digits := toString d.digits
  match d.exponent with
  | .ofNat k => digits ++ "".pushn '0' k
  | .negSucc k =>
    let places := k + 1
    if digits.length ≤ places then
      "0." ++ "".pushn '0' (places - digits.length) ++ digits
    else
      let whole := digits.toList.take (digits.length - places)
      let fraction := digits.toList.drop (digits.length - places)
      String.ofList whole ++ "." ++ String.ofList fraction

end Decimal

/-- The text of a number. -/
def numberText (x : Number) : String :=
  match x.value with
  | .nan => "NaN"
  | .infinite negative => if negative then "-inf" else "inf"
  | .finite negative units =>
    let magnitude := if units = 0 then "0" else (Decimal.shortest x.bits).text
    if negative then "-" ++ magnitude else magnitude

end Jsonnet
