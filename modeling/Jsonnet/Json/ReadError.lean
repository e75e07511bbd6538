import Jsonnet.Text.Bytes

/-!
# Errors in JSON texts

What can be wrong with a JSON text, the words for it, and the conversion between byte
offsets and lines and columns.
-/

namespace Jsonnet.Json

/-- What is wrong with a JSON text. -/
inductive Complaint where
  | endInList
  | endInObject
  | endInString
  | endInValue
  | expectedColon
  | expectedListCommaOrEnd
  | expectedObjectCommaOrEnd
  | expectedWord
  | expectedValue
  | invalidEscape
  | invalidNumber
  | numberOutOfRange
  | controlCharacter
  | keyNotString
  | loneSurrogate
  | unfinishedSurrogatePair
  | trailingComma
  | trailingCharacters
  | tooDeep
  deriving DecidableEq, Repr, Inhabited

/-- The words for a complaint. -/
def Complaint.message : Complaint → String
  | .endInList => "EOF while parsing a list"
  | .endInObject => "EOF while parsing an object"
  | .endInString => "EOF while parsing a string"
  | .endInValue => "EOF while parsing a value"
  | .expectedColon => "expected `:`"
  | .expectedListCommaOrEnd => "expected `,` or `]`"
  | .expectedObjectCommaOrEnd => "expected `,` or `\x7d`"
  | .expectedWord => "expected ident"
  | .expectedValue => "expected value"
  | .invalidEscape => "invalid escape"
  | .invalidNumber => "invalid number"
  | .numberOutOfRange => "number out of range"
  | .controlCharacter => "control character (\\u0000-\\u001F) found while parsing a string"
  | .keyNotString => "key must be a string"
  | .loneSurrogate => "lone leading surrogate in hex escape"
  | .unfinishedSurrogatePair => "unexpected end of hex escape"
  | .trailingComma => "trailing comma"
  | .trailingCharacters => "trailing characters"
  | .tooDeep => "recursion limit exceeded"

/-- A complaint, and how many bytes of the text lie behind the place it is about. -/
structure ReadError where
  complaint : Complaint
  left : Nat
  deriving DecidableEq, Repr, Inhabited

/-- A complaint about what has been read before `rest`. -/
def ReadError.before (complaint : Complaint) (rest : List Char) : ReadError :=
  ⟨complaint, Text.byteCount rest⟩

/-- A complaint about the next byte, or about the end of the text. -/
def ReadError.next (complaint : Complaint) (rest : List Char) : ReadError :=
  ⟨complaint, Text.byteCount rest - 1⟩

/-! ### Lines and columns -/

/-- The line break byte. -/
def lineBreak : UInt8 := 10

/-- The line of a byte offset, counted from one. -/
def lineAt (source : List UInt8) (offset : Nat) : Nat :=
  1 + (source.take offset).count lineBreak

/-- The number of bytes between a byte offset and the last line break before it. -/
def columnAt (source : List UInt8) (offset : Nat) : Nat :=
  ((source.take offset).reverse.takeWhile (· != lineBreak)).length

/-- The number of bytes of the first `count` lines, their line breaks included. -/
def linesLength : Nat → List UInt8 → Nat
  | 0, _ => 0
  | _ + 1, [] => 0
  | count + 1, byte :: rest =>
    if byte = lineBreak then 1 + linesLength count rest else 1 + linesLength (count + 1) rest

/-- The byte offset of a line and a column, both counted from one and held inside the
text. -/
def byteOffset (source : List UInt8) (line column : Nat) : Nat :=
  if line = 0 then 0
  else min (linesLength (line - 1) source + (column - 1)) source.length

end Jsonnet.Json
