import Jsonnet.Json.Numeral

/-!
# JSON strings

A string ends at the first quote that is not escaped. An escape with four hexadecimal
digits is a 16-bit unit; two of them may form a surrogate pair, and a surrogate must not
stand alone.
-/

namespace Jsonnet.Json

/-- The value of a hexadecimal digit. -/
def hexValue? (c : Char) : Option Nat :=
  if c.isDigit then some (c.toNat - '0'.toNat)
  else if 'a' ≤ c && c ≤ 'f' then some (c.toNat - 'a'.toNat + 10)
  else if 'A' ≤ c && c ≤ 'F' then some (c.toNat - 'A'.toNat + 10)
  else none

/-- The value of four hexadecimal digits. -/
def unitValue? (a b c d : Char) : Option Nat := do
  return (((← hexValue? a) * 16 + (← hexValue? b)) * 16 + (← hexValue? c)) * 16 +
    (← hexValue? d)

/-- The complaint about four bytes that are no hexadecimal digits, or are not there. -/
def badUnit (rest : List Char) : ReadError :=
  if Text.byteCount rest < 4 then .before .endInString []
  else ⟨.invalidEscape, Text.byteCount rest - 4⟩

/-- Whether a unit starts a surrogate pair. -/
def isLeading (unit : Nat) : Bool := 0xD800 ≤ unit && unit ≤ 0xDBFF

/-- Whether a unit ends a surrogate pair. -/
def isTrailing (unit : Nat) : Bool := 0xDC00 ≤ unit && unit ≤ 0xDFFF

/-- The character of a surrogate pair. -/
def pairValue (leading trailing : Nat) : Char :=
  .ofNat ((leading - 0xD800) * 0x400 + (trailing - 0xDC00) + 0x10000)

/-- The character of an escape with one letter. -/
def escapeValue? : Char → Option Char
  | '"' => some '"'
  | '\\' => some '\\'
  | '/' => some '/'
  | 'b' => some '\x08'
  | 'f' => some '\x0c'
  | 'n' => some '\n'
  | 'r' => some '\r'
  | 't' => some '\t'
  | _ => none

/-- The complaint about what follows a leading surrogate and does not begin with a
backslash, a `u` and four bytes. -/
def noSecondUnit : List Char → ReadError
  | [] => .before .endInString []
  | '\\' :: [] => .before .endInString []
  | '\\' :: 'u' :: rest => badUnit rest
  | '\\' :: rest => .next .unfinishedSurrogatePair rest
  | rest => .next .unfinishedSurrogatePair rest

/-- Reads a string after its opening quote; `done` are the characters read so far, last
first. -/
def readString (done : List Char) : List Char → Reading String
  | [] => .error (.before .endInString [])
  | '"' :: rest => .ok (String.ofList done.reverse, rest)
  | '\\' :: [] => .error (.before .endInString [])
  | '\\' :: 'u' :: a :: b :: c :: d :: rest =>
    match unitValue? a b c d with
    | none => .error (badUnit (a :: b :: c :: d :: rest))
    | some unit =>
      if isTrailing unit then .error (.before .loneSurrogate rest)
      else if isLeading unit then
        match rest with
        | '\\' :: 'u' :: e :: f :: g :: h :: rest' =>
          match unitValue? e f g h with
          | none => .error (badUnit (e :: f :: g :: h :: rest'))
          | some second =>
            if isTrailing second then readString (pairValue unit second :: done) rest'
            else .error (.before .loneSurrogate rest')
        | _ => .error (noSecondUnit rest)
      else readString (.ofNat unit :: done) rest
  | '\\' :: 'u' :: rest => .error (badUnit rest)
  | '\\' :: c :: rest =>
    match escapeValue? c with
    | some value => readString (value :: done) rest
    | none => .error (.next .invalidEscape (c :: rest))
  | c :: rest =>
    if c.toNat < 0x20 then .error (.next .controlCharacter (c :: rest))
    else readString (c :: done) rest

end Jsonnet.Json
