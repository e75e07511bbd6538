/-!
# Names

A name stands for an interned string: an identifier, a field name or a string
literal. It is a single word, packed from the number of a shard and a position
inside that shard, so two names are compared by comparing two words.
-/

namespace Jsonnet

/-- An interned string. The four high bits of the word number its shard, the other
28 bits its position there. -/
structure Name where
  raw : UInt32
  deriving DecidableEq, Hashable, Repr, Inhabited

namespace Name

/-- The number of shards that names are spread over. -/
def shardCount : Nat := 16

/-- The largest position inside a shard. -/
def maxPosition : Nat := 0x0FFFFFFF

/-- The name of the empty string: the first position of the first shard. -/
def empty : Name := ⟨0⟩

/-- The name packed from a shard number and a position. -/
def pack (shard position : UInt32) : Name := ⟨(shard <<< 28) ||| position⟩

/-- The shard number that a name was packed from. -/
def shard (n : Name) : Nat := (n.raw >>> 28).toNat

/-- The position that a name was packed from. -/
def position (n : Name) : Nat := (n.raw &&& 0x0FFFFFFF).toNat

/-- Names are ordered by their words. -/
instance : Ord Name where
  compare a b := compare a.raw b.raw

/-- The text that shows a name as shard and position. -/
def describe (n : Name) : String := s!"Name({n.shard}:{n.position})"

theorem shard_lt (n : Name) : n.shard < shardCount
  := by
  have := n.raw.toNat_lt
  simp only [shard, shardCount, UInt32.toNat_shiftRight, Nat.shiftRight_eq_div_pow]
  change n.raw.toNat / 2 ^ 28 < 16
  omega

end Name

end Jsonnet
