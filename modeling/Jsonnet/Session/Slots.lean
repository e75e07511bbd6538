import Jsonnet.Value.Basic

/-!
# Slots

The bindings of a `local` expression refer to each other, so a scope holds the numbers
of slots and a table holds what is bound. Slots are reserved together, before any of
them is filled, and a slot that is not filled fails when it is read.
-/

namespace Jsonnet

/-- The greatest number of a slot; a larger number counts as this one. -/
def maxSlot : Nat := Nat.pow 2 32 - 1

/-- The slot that stands `offset` places behind another. -/
def SlotId.plus (first : SlotId) (offset : Nat) : SlotId :=
  ⟨min (first.index + offset) maxSlot⟩

/-- The bindings of all `local` expressions evaluated so far. -/
structure Slots where
  entries : Array Deferred
  deriving Inhabited

namespace Slots

/-- The table without slots. -/
def empty : Slots := ⟨#[]⟩

/-- What stands in a slot that is not filled. -/
def unfilled : Deferred := .failed (.internal "local read before it was bound")

/-- The first of `count` new slots, with the table that has them. -/
def reserve (slots : Slots) (count : Nat) : SlotId × Slots :=
  (⟨min slots.entries.size maxSlot⟩, ⟨slots.entries ++ List.replicate count unfilled⟩)

/-- Binds a slot; a slot that does not exist is left alone. -/
def fill (slots : Slots) (slot : SlotId) (deferred : Deferred) : Slots :=
  ⟨slots.entries.setIfInBounds slot.index deferred⟩

/-- Binds several slots. -/
def fillAll (slots : Slots) (bindings : List (SlotId × Deferred)) : Slots :=
  bindings.foldl (fun slots (slot, deferred) => slots.fill slot deferred) slots

/-- What a slot is bound to. -/
def get? (slots : Slots) (slot : SlotId) : Option Deferred := slots.entries[slot.index]?

/-- The number of slots. -/
def size (slots : Slots) : Nat := slots.entries.size

/-- Whether there is no slot. -/
def isEmpty (slots : Slots) : Bool := slots.entries.isEmpty

end Slots

end Jsonnet
