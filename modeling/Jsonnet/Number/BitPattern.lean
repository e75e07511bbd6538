import Jsonnet.Number.Basic

/-!
# Bit patterns of numbers

The exact text of a number is its bit pattern in sixteen hexadecimal digits. Unlike a
decimal text it also tells apart what is not a number.
-/

namespace Jsonnet

/-- The value of a hexadecimal digit. -/
def hexDigit? (c : Char) : Option Nat :=
  if '0' ≤ c && c ≤ '9' then some (c.toNat - '0'.toNat)
  else if 'a' ≤ c && c ≤ 'f' then some (c.toNat - 'a'.toNat + 10)
  else if 'A' ≤ c && c ≤ 'F' then some (c.toNat - 'A'.toNat + 10)
  else none

/-- The value of a row of hexadecimal digits that follows `high`. -/
def hexValue? (high : Nat) : List Char → Option Nat
  | [] => some high
  | c :: rest =>
    match hexDigit? c with
    | some digit => hexValue? (16 * high + digit) rest
    | none => none

/-- The number with a bit pattern given by sixteen hexadecimal digits. -/
def ofBitPattern? (text : String) : Option Number :=
  if text.length = 16 then
    (hexValue? 0 text.toList).map fun bits => ⟨bits.toUInt64⟩
  else none

/-- The bit pattern of a number in sixteen hexadecimal digits. -/
def bitPattern (x : Number) : String :=
  let digits := Nat.toDigits 16 x.bits.toNat
  String.ofList (List.replicate (16 - digits.length) '0' ++ digits)

end Jsonnet
