import Jsonnet.Json.Document
import Jsonnet.Json.StringBody

/-!
# Reading JSON texts

A JSON text is read into a document. Containers may be nested 127 deep. The fields of an
object come out ordered by their keys, and of fields with one key the last one counts.
-/

namespace Jsonnet.Json

/-- The greatest depth of nested containers. -/
def maxDepth : Nat := 127

/-- Whether a character separates tokens. -/
def isBlank (c : Char) : Bool := c == ' ' || c == '\n' || c == '\t' || c == '\r'

/-- The characters from the first token on. -/
def skipBlanks (cs : List Char) : List Char := cs.dropWhile isBlank

/-- Reads the rest of a word. -/
def readWord (document : Document) : (word : List Char) → List Char → Reading Document
  | [], rest => .ok (document, rest)
  | _ :: _, [] => .error (.before .endInValue [])
  | expected :: word, c :: rest =>
    if c = expected then readWord document word rest
    else .error (.next .expectedWord (c :: rest))

/-- Reads the elements of an array after its bracket, or after the comma behind an
element; `done` are the elements read so far, last first, and `fuel` bounds their
number. -/
def readElements (read : List Char → Reading Document) (done : List Document) :
    (fuel : Nat) → List Char → Reading Document
  | 0, rest => .error (.before .endInList rest)
  | fuel + 1, rest =>
    match read rest with
    | .error e => .error e
    | .ok (element, rest) =>
      match skipBlanks rest with
      | [] => .error (.before .endInList [])
      | ']' :: rest => .ok (.array (element :: done).reverse, rest)
      | ',' :: rest =>
        match skipBlanks rest with
        | [] => .error (.before .endInValue [])
        | ']' :: rest => .error (.next .trailingComma (']' :: rest))
        | rest => readElements read (element :: done) fuel rest
      | rest => .error (.next .expectedListCommaOrEnd rest)

/-- Reads an array after its opening bracket. -/
def readArray (read : List Char → Reading Document) (rest : List Char) : Reading Document :=
  match skipBlanks rest with
  | [] => .error (.before .endInList [])
  | ']' :: rest => .ok (.array [], rest)
  | rest => readElements read [] rest.length rest

/-- Reads a field of an object after the quote that opens its key. -/
def readField (read : List Char → Reading Document) (rest : List Char) :
    Reading (String × Document) :=
  match readString [] rest with
  | .error e => .error e
  | .ok (key, rest) =>
    match skipBlanks rest with
    | [] => .error (.before .endInObject [])
    | ':' :: rest => (read rest).map fun (value, rest) => ((key, value), rest)
    | rest => .error (.next .expectedColon rest)

/-- Reads the fields of an object after the quote that opens the key of the next one;
`done` are the fields read so far, last first, and `fuel` bounds their number. -/
def readFields (read : List Char → Reading Document) (done : List (String × Document)) :
    (fuel : Nat) → List Char → Reading Document
  | 0, rest => .error (.before .endInObject rest)
  | fuel + 1, rest =>
    match readField read rest with
    | .error e => .error e
    | .ok (field, rest) =>
      match skipBlanks rest with
      | [] => .error (.before .endInObject [])
      | '\x7d' :: rest => .ok (.ofFields (field :: done).reverse, rest)
      | ',' :: rest =>
        match skipBlanks rest with
        | [] => .error (.before .endInValue [])
        | '"' :: rest => readFields read (field :: done) fuel rest
        | '\x7d' :: rest => .error (.next .trailingComma ('\x7d' :: rest))
        | rest => .error (.next .keyNotString rest)
      | rest => .error (.next .expectedObjectCommaOrEnd rest)

/-- Reads an object after its opening brace. -/
def readObject (read : List Char → Reading Document) (rest : List Char) :
    Reading Document :=
  match skipBlanks rest with
  | [] => .error (.before .endInObject [])
  | '\x7d' :: rest => .ok (.object [], rest)
  | '"' :: rest => readFields read [] (rest.length + 1) rest
  | rest => .error (.next .keyNotString rest)

/-- Reads a value that may hold containers nested `depth` deep. -/
def readValue (depth : Nat) (cs : List Char) : Reading Document :=
  match skipBlanks cs with
  | [] => .error (.before .endInValue [])
  | 'n' :: rest => readWord .null ['u', 'l', 'l'] rest
  | 't' :: rest => readWord (.bool true) ['r', 'u', 'e'] rest
  | 'f' :: rest => readWord (.bool false) ['a', 'l', 's', 'e'] rest
  | '-' :: rest => (readNumber false rest).map fun (x, rest) => (.number x, rest)
  | '"' :: rest => (readString [] rest).map fun (s, rest) => (.string s, rest)
  | '[' :: rest =>
    match depth with
    | 0 => .error (.next .tooDeep ('[' :: rest))
    | depth + 1 => readArray (readValue depth) rest
  | '\x7b' :: rest =>
    match depth with
    | 0 => .error (.next .tooDeep ('\x7b' :: rest))
    | depth + 1 => readObject (readValue depth) rest
  | c :: rest =>
    if c.isDigit then (readNumber true (c :: rest)).map fun (x, rest) => (.number x, rest)
    else .error (.next .expectedValue (c :: rest))

/-- Reads a whole text, which is one value with blanks around it. -/
def readDocument (source : String) : Except ReadError Document :=
  match readValue maxDepth source.toList with
  | .error e => .error e
  | .ok (document, rest) =>
    match skipBlanks rest with
    | [] => .ok document
    | rest => .error (.next .trailingCharacters rest)

end Jsonnet.Json
