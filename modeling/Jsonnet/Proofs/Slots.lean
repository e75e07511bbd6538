import Mathlib.Tactic.Common
import Jsonnet.Eval.Operation

/-!
# Slots of local bindings

As long as slots have numbers of their own, the bindings of a `local` expression are
appended to the table of slots: each of them gets the number after the one before, and
the slots that were there before keep what they are bound to.
-/

namespace Jsonnet

namespace Slots

theorem size_fill (slots : Slots) (slot : SlotId) (deferred : Deferred) :
  (slots.fill slot deferred).size = slots.size
  := by
  simp [fill, size]

theorem size_fillAll (slots : Slots) (bindings : List (SlotId × Deferred)) :
  (slots.fillAll bindings).size = slots.size
  := by
  induction bindings generalizing slots with
  | nil => rfl
  | cons binding rest ih =>
    apply (ih (slots.fill binding.1 binding.2)).trans
    apply size_fill

theorem size_reserve (slots : Slots) (count : Nat) :
  (slots.reserve count).2.size = slots.size + count
  := by
  change (slots.entries ++ List.replicate count unfilled).toList.length
    = slots.entries.toList.length + count
  rw [Array.toList_appendList, List.length_append, List.length_replicate]

/-- Binding the slots at the end of a table, in their order. -/
theorem fillAll_append (bound values : List Deferred) :
  fillAll ⟨(bound ++ List.replicate values.length unfilled).toArray⟩
      (((List.range' bound.length values.length).map SlotId.mk).zip values)
    = ⟨(bound ++ values).toArray⟩
  := by
  induction values generalizing bound with
  | nil => rfl
  | cons value rest ih =>
    have hfill : fill ⟨(bound ++ List.replicate (rest.length + 1) unfilled).toArray⟩
          ⟨bound.length⟩ value
        = ⟨((bound ++ [value]) ++ List.replicate rest.length unfilled).toArray⟩ := by
      simp [fill, List.replicate_succ]
    have h := ih (bound ++ [value])
    rw [List.length_append, List.length_singleton] at h
    rw [List.length_cons, List.range'_succ, List.map_cons, List.zip_cons_cons]
    change fillAll (fill _ _ _) _ = _
    rw [hfill, h, List.append_assoc, List.singleton_append]

/-- The numbers of the slots that are reserved next, if they have numbers of their own. -/
theorem numbers_eq {slots : Slots} {count : Nat} (h : slots.size + count ≤ maxSlot + 1) :
  (List.range count).map (slots.reserve count).1.plus
    = (List.range' slots.size count).map SlotId.mk
  := by
  rw [List.range'_eq_map_range, List.map_map]
  apply List.map_congr_left
  intro offset hoffset
  have hlt := List.mem_range.mp hoffset
  have hsize : slots.entries.size = slots.size := rfl
  simp only [reserve, SlotId.plus, Function.comp_apply, SlotId.mk.injEq, hsize]
  omega

end Slots

namespace State

variable (state : State) (code : Code) (env : Env) (binds : List Bind)

/-- The thunks that hold the bindings of a `local` expression. -/
def localThunks (count : Nat) : List Deferred :=
  (List.range' state.thunks.size count).map fun index => .shared ⟨index⟩

/-- The environment of a `local` expression, if slots have numbers of their own. -/
def localEnv : Env :=
  env.withScope (env.scope.bindSlots ((binds.map Bind.name).zip
    ((List.range' state.slots.size binds.length).map SlotId.mk)))

/-- The state after a `local` expression, if slots have numbers of their own. -/
def localState : State :=
  { state with
    thunks := state.thunks ++ binds.map fun bind =>
      Cell.pending (.code (.thunk bind.name) (state.localEnv env binds)
        (code.sibling bind.body))
    slots := ⟨state.slots.entries ++ state.localThunks binds.length⟩ }

theorem size_bindLocals_slots :
  (state.bindLocals code env binds).2.slots.size = state.slots.size + binds.length
  := by
  apply (Slots.size_fillAll _ _).trans
  apply Slots.size_reserve

/-- What a `local` expression does as long as slots have numbers of their own. -/
theorem bindLocals_eq (h : state.slots.size + binds.length ≤ maxSlot + 1) :
  state.bindLocals code env binds
    = (state.localEnv env binds, state.localState code env binds)
  := by
  have hnumbers := Slots.numbers_eq h
  have hlength : (state.localThunks binds.length).length = binds.length := by
    simp [localThunks]
  have hfill : (state.slots.reserve binds.length).2.fillAll
        (((List.range' state.slots.size binds.length).map SlotId.mk).zip
          (state.localThunks binds.length))
      = ⟨state.slots.entries ++ state.localThunks binds.length⟩ := by
    have hf := Slots.fillAll_append state.slots.entries.toList
      (state.localThunks binds.length)
    rw [hlength] at hf
    have hleft : (⟨state.slots.entries ++ List.replicate binds.length Slots.unfilled⟩ : Slots)
        = ⟨(state.slots.entries.toList
            ++ List.replicate binds.length Slots.unfilled).toArray⟩ := by
      congr 1
      apply Array.ext'
      simp
    have hright : (⟨state.slots.entries ++ state.localThunks binds.length⟩ : Slots)
        = ⟨(state.slots.entries.toList ++ state.localThunks binds.length).toArray⟩ := by
      congr 1
      apply Array.ext'
      simp
    change Slots.fillAll ⟨state.slots.entries ++ List.replicate _ _⟩ _ = _
    rw [hleft, hright, ← hf]
    rfl
  simp only [bindLocals, share, hnumbers]
  simp only [localThunks] at hfill
  simp only [List.length_map, List.map_map, hfill, localEnv, localThunks, localState]
  rfl

/-- The slots that are there before stay. -/
theorem localState_slot {i : Nat} {deferred : Deferred}
    (h : state.slots.entries[i]? = some deferred) :
  (state.localState code env binds).slots.entries[i]? = some deferred
  := by
  have hlt := (Array.getElem?_eq_some_iff.mp h).choose
  rw [← Array.getElem?_toList] at h ⊢
  change (state.slots.entries ++ state.localThunks binds.length).toList[i]? = _
  rw [Array.toList_appendList, List.getElem?_append_left (by simpa using hlt), h]

/-- The new slots are bound to the new thunks. -/
theorem localState_newSlot {k : Nat} (h : k < binds.length) :
  (state.localState code env binds).slots.entries[state.slots.size + k]?
    = some (.shared ⟨state.thunks.size + k⟩)
  := by
  rw [← Array.getElem?_toList]
  change (state.slots.entries ++ state.localThunks binds.length).toList[_]? = _
  have hsize : state.slots.size = state.slots.entries.toList.length := rfl
  rw [Array.toList_appendList, hsize, List.getElem?_append_right (Nat.le_add_right _ _),
    Nat.add_sub_cancel_left, localThunks]
  simp [h]

end State

end Jsonnet
