import Jsonnet.Value.Basic

/-!
# Objects

An object is a tree of object literals, of which the right-most one is the most derived.
The depth of a literal is the number of literals to its right. A field is looked up from
the right, from a given depth on; its visibility is decided from the left, by every
definition that does not inherit it.
-/

namespace Jsonnet

/-- The greatest count of literals; a larger one counts as this one. -/
def maxLeaves : Nat := Nat.pow 2 32 - 1

/-- The sum of two counts of literals. -/
def addLeaves (a b : Nat) : Nat := min (a + b) maxLeaves

/-- How far the check of an object's assertions has come. -/
inductive AssertionState where
  | notChecked
  /-- Going on; meanwhile the object counts as valid. -/
  | inProgress
  | passed
  deriving DecidableEq, Repr, Inhabited

/-- The word for a state. -/
def AssertionState.describe : AssertionState → String
  | .notChecked => "NotChecked"
  | .inProgress => "InProgress"
  | .passed => "Passed"

/-- The fields of a literal from all definitions in the order in which they are written;
of several definitions of one name the last one counts. -/
def fieldsOfList (fields : List (Name × Field)) : List (Name × Field) :=
  fields.foldl (fun kept field => kept.filter (fun old => old.1 != field.1) ++ [field]) []

/-- The definition of a field in a literal. -/
def Leaf.field? (leaf : Leaf) (name : Name) : Option Field := leaf.fields.lookup name

namespace Object

/-- The identity of an object. -/
def id : Object → ObjectId
  | .leaf l => l.id
  | .join id _ _ _ _ => id

/-- The number of literals. -/
def size : Object → Nat
  | .leaf _ => 1
  | .join _ size _ _ _ => size

/-- Whether any literal has assertions. -/
def hasAsserts : Object → Bool
  | .leaf l => !l.asserts.isEmpty
  | .join _ _ hasAsserts _ _ => hasAsserts

/-- The object in which `right` extends `left`. -/
def combine (id : ObjectId) (left right : Object) : Object :=
  .join id (addLeaves left.size right.size) (left.hasAsserts || right.hasAsserts) left right

/-- The literals with their depths, the most derived first; `skipped` literals stand to
the right of the object. -/
def leavesFrom (skipped : Nat) : Object → List (Leaf × Nat)
  | .leaf l => [(l, skipped)]
  | .join _ _ _ left right =>
    right.leavesFrom skipped ++ left.leavesFrom (addLeaves skipped right.size)

/-- The literals with their depths, the most derived first. -/
def leaves (object : Object) : List (Leaf × Nat) := object.leavesFrom 0

/-- The right-most literal that defines a field, of those behind the first `minDepth`,
with its depth; `skipped` literals stand to the right of the object. -/
def findFrom (name : Name) (minDepth skipped : Nat) : Object → Option (Leaf × Nat)
  | .leaf l =>
    if minDepth = 0 && (l.field? name).isSome then some (l, skipped) else none
  | .join _ _ _ left right =>
    match if minDepth < right.size then right.findFrom name minDepth skipped else none with
    | some hit => some hit
    | none => left.findFrom name (minDepth - right.size) (addLeaves skipped right.size)

/-- The right-most literal that defines a field, of those behind the first `minDepth`,
with its depth. -/
def find? (object : Object) (minDepth : Nat) (name : Name) : Option (Leaf × Nat) :=
  object.findFrom name minDepth 0

/-! ### Visibility -/

/-- Refines the visibility of a field by a definition further right. -/
def refineVisibility (name : Name) (visibility : Visibility) :
    List (Name × Visibility) → List (Name × Visibility)
  | [] => [(name, visibility)]
  | (n, v) :: rest =>
    if n = name then (n, v.refine visibility) :: rest
    else (n, v) :: refineVisibility name visibility rest

/-- The visibilities of fields, refined by the definitions of an object further right. -/
def visibilityOver (seen : List (Name × Visibility)) : Object → List (Name × Visibility)
  | .leaf l =>
    l.fields.foldl (fun seen (name, field) => refineVisibility name field.visibility seen)
      seen
  | .join _ _ _ left right => right.visibilityOver (left.visibilityOver seen)

/-- The fields of an object with their visibilities. -/
def visibility (object : Object) : List (Name × Visibility) := object.visibilityOver []

/-- The names of the fields; those of hidden ones only if asked for. -/
def fieldNames (object : Object) (includeHidden : Bool) : List Name :=
  (object.visibility.filter fun (_, v) => includeHidden || v != .hidden).map Prod.fst

/-- Whether there is a field of a name; a hidden one counts only if asked for. -/
def hasField (object : Object) (name : Name) (includeHidden : Bool) : Bool :=
  if includeHidden then (object.find? 0 name).isSome
  else
    match object.visibility.lookup name with
    | some v => v != .hidden
    | none => false

/-- Names ordered by the strings they stand for. -/
def sortNames (names : Interner) (fields : List Name) : List Name :=
  ((fields.map fun name => (names.lookup name, name)).mergeSort
    fun a b => decide (a.1 ≤ b.1)).map Prod.snd

/-- The names of the fields in the order in which they are written out. -/
def sortedFields (object : Object) (names : Interner) (includeHidden : Bool) : List Name :=
  sortNames names (object.fieldNames includeHidden)

end Object

end Jsonnet
