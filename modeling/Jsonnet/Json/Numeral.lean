import Jsonnet.Json.ReadError
import Jsonnet.Number.Basic

/-!
# JSON numbers

The digits of a number are gathered into a significand of 64 bits; digits that do not
fit any more only scale it. An integer that fits is rounded to nearest. Any other number
is its significand, rounded to nearest, times or over a power of ten that is itself
rounded, so its last bit may differ from the nearest number.
-/

namespace Jsonnet.Json

/-- What reading some characters gives: a result and the characters that follow. -/
abbrev Reading (α : Type) := Except ReadError (α × List Char)

/-- The greatest significand. -/
def maxSignificand : Nat := Nat.pow 2 64 - 1

/-- The greatest exponent that is written out. -/
def maxExponent : Nat := Nat.pow 2 31 - 1

/-- The value of a decimal digit. -/
def digitValue (c : Char) : Nat := c.toNat - '0'.toNat

/-- The characters from the first that is no digit on. -/
def skipDigits (cs : List Char) : List Char := cs.dropWhile Char.isDigit

/-- The number with a sign. -/
def signed (positive : Bool) (x : Number) : Number := if positive then x else -x

/-- A significand times a power of ten. An exponent below -308 is worked off in steps of
308, at most `steps` of them: two already lead from any significand to zero. -/
def scale (x : Number) (exponent : Int) (steps : Nat) : Option Number :=
  match exponent with
  | .ofNat e =>
    if e ≤ 308 then
      let scaled := x * .powerOfTen e
      if scaled.isInfinite then none else some scaled
    else if x.equal .zero then some x
    else none
  | .negSucc e =>
    if e + 1 ≤ 308 then some (x / .powerOfTen (e + 1))
    else
      match steps with
      | 0 => some .zero
      | steps + 1 =>
        if x.equal .zero then some x
        else scale (x / .powerOfTen 308) (exponent + 308) steps

/-- The number of a sign, a significand and an exponent, read up to `rest`. -/
def ofParts (positive : Bool) (significand : Nat) (exponent : Int) (rest : List Char) :
    Reading Number :=
  match scale (.ofNat significand) exponent 4 with
  | some x => .ok (signed positive x, rest)
  | none => .error (.before .numberOutOfRange rest)

/-- The digits of an exponent after its first one, as long as it does not grow too
large. -/
def exponentDigits (positive positiveExponent : Bool) (significand : Nat) (start : Int)
    (exponent : Nat) : List Char → Reading Number
  | [] => finish []
  | c :: rest =>
    if c.isDigit then
      let exponent' := exponent * 10 + digitValue c
      if exponent' ≤ maxExponent then
        exponentDigits positive positiveExponent significand start exponent' rest
      else if positiveExponent && significand != 0 then
        .error (.before .numberOutOfRange rest)
      else .ok (signed positive .zero, skipDigits rest)
    else finish (c :: rest)
where
  /-- The number once the exponent is complete. -/
  finish (rest : List Char) : Reading Number :=
    ofParts positive significand
      (if positiveExponent then start + exponent else start - exponent) rest

/-- The first digit of an exponent, which has to be there. -/
def exponentStart (positive positiveExponent : Bool) (significand : Nat) (start : Int) :
    List Char → Reading Number
  | [] => .error (.before .endInValue [])
  | c :: rest =>
    if c.isDigit then
      exponentDigits positive positiveExponent significand start (digitValue c) rest
    else .error (.next .invalidNumber (c :: rest))

/-- The exponent of a number, after its letter; `start` is the exponent that the digits
before it make. -/
def exponentPart (positive : Bool) (significand : Nat) (start : Int) :
    List Char → Reading Number
  | '+' :: rest => exponentStart positive true significand start rest
  | '-' :: rest => exponentStart positive false significand start rest
  | rest => exponentStart positive true significand start rest

/-- What may follow the digits of a number that is no integer: an exponent, or nothing. -/
def numberEnd (positive : Bool) (significand : Nat) (exponent : Int) :
    List Char → Reading Number
  | 'e' :: rest | 'E' :: rest => exponentPart positive significand exponent rest
  | rest => ofParts positive significand exponent rest

/-- The digits after the point, `taken` of which have gone into the significand. -/
def fractionDigits (positive : Bool) (significand : Nat) (exponent : Int) (taken : Nat) :
    List Char → Reading Number
  | [] => finish []
  | c :: rest =>
    if c.isDigit then
      let significand' := significand * 10 + digitValue c
      if significand' ≤ maxSignificand then
        fractionDigits positive significand' exponent (taken + 1) rest
      else numberEnd positive significand (exponent - taken) (skipDigits rest)
    else finish (c :: rest)
where
  /-- The number once its digits are complete; there has to be one after the point. -/
  finish (rest : List Char) : Reading Number :=
    if taken = 0 then
      if rest.isEmpty then .error (.next .endInValue rest)
      else .error (.next .invalidNumber rest)
    else numberEnd positive significand (exponent - taken) rest

/-- The digits of an integer part that no longer fit the significand. -/
def longInteger (positive : Bool) (significand : Nat) (exponent : Nat) :
    List Char → Reading Number
  | '.' :: rest => fractionDigits positive significand exponent 0 rest
  | c :: rest =>
    if c.isDigit then longInteger positive significand (exponent + 1) rest
    else numberEnd positive significand exponent (c :: rest)
  | [] => numberEnd positive significand exponent []

/-- What may follow the integer part of a number. -/
def afterInteger (positive : Bool) (significand : Nat) : List Char → Reading Number
  | '.' :: rest => fractionDigits positive significand 0 0 rest
  | 'e' :: rest | 'E' :: rest => exponentPart positive significand 0 rest
  | rest => .ok (signed positive (.ofNat significand), rest)

/-- The digits of the integer part after its first one. -/
def integerDigits (positive : Bool) (significand : Nat) : List Char → Reading Number
  | [] => afterInteger positive significand []
  | c :: rest =>
    if c.isDigit then
      let significand' := significand * 10 + digitValue c
      if significand' ≤ maxSignificand then integerDigits positive significand' rest
      else longInteger positive significand 0 (c :: rest)
    else afterInteger positive significand (c :: rest)

/-- A number after its sign. A leading zero stands alone. -/
def readNumber (positive : Bool) : List Char → Reading Number
  | [] => .error (.before .endInValue [])
  | '0' :: rest =>
    match rest with
    | c :: _ =>
      if c.isDigit then .error (.next .invalidNumber rest)
      else afterInteger positive 0 rest
    | [] => afterInteger positive 0 []
  | c :: rest =>
    if c.isDigit then integerDigits positive (digitValue c) rest
    else .error (.next .invalidNumber (c :: rest))

end Jsonnet.Json
