import Std.Data.HashMap
import Jsonnet.Name

/-!
# The interner

The interner numbers strings. It keeps sixteen shards, each a list of strings in
the order of their first appearance; the first eight bytes of a string decide its
shard. A new interner already knows the empty string, the reserved words of the
language and the names of the standard library.
-/

namespace Jsonnet

/-- A reason not to intern a string. -/
inductive InternError where
  /-- The shard has no position left. -/
  | shardFull (shard count : Nat)
  deriving DecidableEq, Repr

/-- The text of the reason. -/
def InternError.message : InternError → String
  | .shardFull shard count =>
    s!"interner shard {shard} is full: {count} strings, max is {Name.maxPosition}"

/-- Strings in the order of their first appearance, with their positions. -/
structure Shard where
  strings : Array String
  positions : Std.HashMap String Nat
  /-- The positions are those of the strings, each of which appears once. -/
  position_iff : ∀ (s : String) (i : Nat), positions[s]? = some i ↔ strings[i]? = some s
  /-- Every position fits into a name. -/
  size_le : strings.size ≤ Name.maxPosition + 1

namespace Shard

/-- The shard without strings. -/
def empty : Shard where
  strings := #[]
  positions := ∅
  position_iff := by simp
  size_le := by simp

instance : Inhabited Shard := ⟨empty⟩

/-- Appends a string that the shard does not hold yet. -/
def push (shard : Shard) (s : String) (isNew : shard.positions[s]? = none)
    (hasRoom : shard.strings.size ≤ Name.maxPosition) : Shard where
  strings := shard.strings.push s
  positions := shard.positions.insert s shard.strings.size
  position_iff := by
    intro t i
    have hfresh : ∀ j : Nat, shard.strings[j]? ≠ some s := by
      intro j hj
      rw [← shard.position_iff, isNew] at hj
      cases hj
    rw [Std.HashMap.getElem?_insert, Array.getElem?_push]
    by_cases hst : s = t
    · subst hst
      by_cases hi : i = shard.strings.size
      · simp [hi]
      · simp [hi, hfresh i, Ne.symm hi]
    · by_cases hi : i = shard.strings.size
      · subst hi
        simp [hst, shard.position_iff]
      · simp [hst, hi, shard.position_iff]
  size_le := by
    simp only [Array.size_push]
    omega

theorem getElem?_push_of_lt {shard : Shard} {s : String} {isNew hasRoom} {i : Nat}
    (h : i < shard.strings.size) :
  (shard.push s isNew hasRoom).strings[i]? = shard.strings[i]?
  := by
  rw [push, Array.getElem?_push, if_neg (Nat.ne_of_lt h)]

end Shard

/-- A numbering of strings by names. -/
structure Interner where
  shards : Vector Shard 16
  /-- How many strings have been appended to some shard. -/
  count : Nat
  /-- The empty string has the empty name. -/
  empty_eq : shards[0].strings[0]? = some ""

namespace Interner

/-- The shard number of a string: a polynomial hash of its first eight bytes. -/
def shardOf (s : String) : Fin 16 :=
  let hash := (s.toUTF8.toList.take 8).foldl
    (fun (hash : UInt32) byte => hash * 31 + byte.toUInt32) 0
  ⟨hash.toNat % 16, Nat.mod_lt _ (by decide)⟩

/-- Appends a string to a shard that does not hold it yet. -/
def append (interner : Interner) (index : Fin 16) (s : String)
    (isNew : interner.shards[index].positions[s]? = none)
    (hasRoom : interner.shards[index].strings.size ≤ Name.maxPosition) : Interner where
  shards := interner.shards.set index (interner.shards[index].push s isNew hasRoom)
  count := interner.count + 1
  empty_eq := by
    have h := interner.empty_eq
    by_cases hzero : index = 0
    · subst hzero
      have hset : (interner.shards.set (0 : Fin 16)
            (interner.shards[(0 : Fin 16)].push s isNew hasRoom))[0]
          = interner.shards[(0 : Fin 16)].push s isNew hasRoom := by
        simp
      rw [hset, Shard.getElem?_push_of_lt]
      · exact h
      · exact (Array.getElem?_eq_some_iff.mp h).1
    · have hne : index.val ≠ 0 := fun hval => hzero (Fin.ext hval)
      rw [Vector.getElem_set_ne _ _ hne]
      exact h

/-- The name of a string, with the interner that knows it; a string is appended to
its shard when it is first met. -/
def tryIntern (interner : Interner) (s : String) : Except InternError (Name × Interner) :=
  let index := shardOf s
  let shard := interner.shards[index]
  match isNew : shard.positions[s]? with
  | some position => .ok (.pack index.val.toUInt32 position.toUInt32, interner)
  | none =>
    let position := shard.strings.size
    if hasRoom : position ≤ Name.maxPosition then
      .ok (.pack index.val.toUInt32 position.toUInt32,
        interner.append index s isNew hasRoom)
    else
      .error (.shardFull index position)

/-- The name of a string, with the interner that knows it. A string that finds its
shard full gets the empty name. -/
def intern (interner : Interner) (s : String) : Name × Interner :=
  match interner.tryIntern s with
  | .ok result => result
  | .error _ => (.empty, interner)

/-- The names of several strings, in their order. -/
def internAll (interner : Interner) (strings : List String) : List Name × Interner :=
  match strings with
  | [] => ([], interner)
  | s :: rest =>
    let (name, interner) := interner.intern s
    let (names, interner) := interner.internAll rest
    (name :: names, interner)

/-- The string that a name stands for; the empty string for a name that the
interner has not given out. -/
def lookup (interner : Interner) (name : Name) : String :=
  match interner.shards[name.shard]? with
  | some shard => shard.strings[name.position]?.getD ""
  | none => ""

/-- The number of strings known, the empty string included. -/
def size (interner : Interner) : Nat := interner.count

/-- Whether nothing but the empty string is known. -/
def isEmpty (interner : Interner) : Bool := interner.size ≤ 1

/-- The reserved words of the language. -/
def reservedWords : List String :=
  ["assert", "else", "error", "false", "for", "function", "if", "import", "importstr", "in",
    "local", "null", "self", "super", "tailstrict", "then", "true"]

/-- The names that the standard library brings along. -/
def libraryNames : List String :=
  ["std", "length", "type", "toString", "codepoint", "char", "makeArray", "filter", "floor",
    "ceil", "sqrt", "pow", "exp", "log", "modulo", "primitiveEquals", "equals",
    "objectFieldsEx", "objectHasEx", "extVar"]

/-- The interner that knows the empty string alone. -/
def onlyEmpty : Interner where
  shards := (Vector.replicate 16 Shard.empty).set 0
    (Shard.empty.push "" (by simp [Shard.empty]) (by simp [Shard.empty]))
  count := 1
  empty_eq := by simp [Shard.push, Shard.empty]

/-- The interner that a program starts with. -/
def new : Interner := (onlyEmpty.internAll (reservedWords ++ libraryNames)).2

instance : Inhabited Interner := ⟨onlyEmpty⟩

end Interner

end Jsonnet
