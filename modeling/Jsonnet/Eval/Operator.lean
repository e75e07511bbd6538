import Jsonnet.Eval.Comparison

/-!
# Operators

What the operators compute. Arithmetic fails where its result would not be finite.
Shifts and bitwise operators work on 64-bit integers. Only `&&` and `||` may leave their
right operand uncomputed.
-/

namespace Jsonnet

open Jsonnet.Action

/-- The result of arithmetic, which has to be finite. -/
def checked (x : Number) : Action Value :=
  if x.isNaN then raiseHere .notANumber
  else if x.isInfinite then raiseHere .overflow
  else return .number x

/-- Two operands that have to be numbers, the left one first. -/
def expectNumbers (x y : Deferred) : Action (Number × Number) := do
  let a ← (← x.force).expectNumber .unknown
  let b ← (← y.force).expectNumber .unknown
  return (a, b)

/-! ### Arithmetic -/

/-- The quotient of two numbers, or another function of them that needs a divisor. -/
def divide (f : Number → Number → Number) (x y : Deferred) : Action Value := do
  let (a, b) ← expectNumbers x y
  if b.equal .zero then raiseHere .divisionByZero else checked (f a b)

/-- The sum of two numbers; strings and arrays joined; an object that extends another. A
string joined with anything else takes its text. -/
def add (x y : Deferred) : Action Value := do
  let a ← x.force
  let b ← y.force
  match a, b with
  | .number a, .number b => checked (a + b)
  | .string a, .string b => return .string (a ++ b)
  | .string a, other => return .string (a ++ (← other.displayed))
  | other, .string b => return .string ((← other.displayed) ++ b)
  | .array a, .array b => return .array (a ++ b)
  | .object a, .object b => return .object (← combine a b)
  | a, b => raiseHere (.binaryOperands "+" a.typeName b.typeName)

/-! ### Integers -/

/-- An integer function of two numbers. -/
def onWords (f : Int → Int → Int) (x y : Deferred) : Action Value := do
  let (a, b) ← expectNumbers x y
  return .number (.ofInt (f a.word b.word))

/-- A bitwise function of two 64-bit integers. -/
def bitwise (f : BitVec 64 → BitVec 64 → BitVec 64) (a b : Int) : Int :=
  (f (.ofInt 64 a) (.ofInt 64 b)).toInt

/-- The bitwise complement of a 64-bit integer. -/
def complement (a : Int) : Int := (~~~ BitVec.ofInt 64 a).toInt

/-- An integer shifted to the left; what leaves the 64 bits is lost. -/
def shiftLeft (a : Int) (places : Nat) : Int :=
  Int.bmod (a * Nat.pow 2 places) (Nat.pow 2 64)

/-- An integer shifted to the right, rounded down. -/
def shiftRight (a : Int) (places : Nat) : Int := a / Nat.pow 2 places

/-- A shift by a number of places that is not negative, taken modulo 64. -/
def shift (f : Int → Nat → Int) (x y : Deferred) : Action Value := do
  let (a, b) ← expectNumbers x y
  if b.less .zero then raiseHere .negativeShift
  else return .number (.ofInt (f a.word (b.word.toNat % 64)))

/-! ### Comparisons and logic -/

/-- Whether two operands are equal. -/
def operandsEqual (x y : Deferred) : Action Bool := do
  let a ← x.force
  let b ← y.force
  a.equal b

/-- Whether the order of two operands is accepted. -/
def ordered (operator : BinaryOp) (accept : Ordering → Bool) (x y : Deferred) :
    Action Value := do
  let a ← x.force
  let b ← y.force
  return .bool (accept (← a.order operator b))

/-- A truth value, decided by the left operand if that has the deciding value. -/
def shortCircuit (deciding : Bool) (x y : Deferred) : Action Value := do
  if (← (← x.force).expectBool .unknown) == deciding then return .bool deciding
  else return .bool (← (← y.force).expectBool .unknown)

/-- What a binary operator computes. -/
def applyBinary (op : BinaryOp) (x y : Deferred) : Action Value :=
  match op with
  | .mul => do
    let (a, b) ← expectNumbers x y
    checked (a * b)
  | .div => divide (· / ·) x y
  | .mod => divide Number.remainder x y
  | .add => add x y
  | .sub => do
    let (a, b) ← expectNumbers x y
    checked (a - b)
  | .shiftLeft => shift shiftLeft x y
  | .shiftRight => shift shiftRight x y
  | .less => ordered .less (·.isLT) x y
  | .lessEq => ordered .lessEq (·.isLE) x y
  | .greater => ordered .greater (·.isGT) x y
  | .greaterEq => ordered .greaterEq (·.isGE) x y
  | .equal => return .bool (← operandsEqual x y)
  | .notEqual => return .bool (!(← operandsEqual x y))
  | .bitAnd => onWords (bitwise (· &&& ·)) x y
  | .bitXor => onWords (bitwise (· ^^^ ·)) x y
  | .bitOr => onWords (bitwise (· ||| ·)) x y
  | .and => shortCircuit false x y
  | .or => shortCircuit true x y

/-- What a unary operator computes. -/
def applyUnary (op : UnaryOp) (x : Deferred) : Action Value := do
  match op, ← x.force with
  | .not, .bool b => return .bool (!b)
  | .bitNot, .number a => return .number (.ofInt (complement a.word))
  | .plus, .number a => return .number a
  | .neg, .number a => return .number (-a)
  | op, other => raiseHere (.unaryOperand op.symbol other.typeName)

end Jsonnet
