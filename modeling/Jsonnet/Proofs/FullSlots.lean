import Jsonnet.Proofs.Growth
import Jsonnet.Proofs.Outset
import Jsonnet.Proofs.Rules

/-!
# More slots than there are numbers

The numbers of slots stay at the greatest one when there are no more of them. From then on, all
names that are bound together share one slot, and each of them is what the last of them is bound to.
Where no results are kept, a program may come to this soon: a variable that is read twice reserves
twice the slots of its expression. Where they are kept, it reserves them once.
-/

namespace Jsonnet

variable {session : Session}

/-! ### Binding without numbers -/

namespace Slots

/-- Of what is bound to one slot, the last remains. -/
theorem get?_fillAll_same {slots : Slots} {slot : SlotId} (values : List Deferred) (last : Deferred)
    (h : slot.index < slots.size) :
  (slots.fillAll ((values ++ [last]).map fun value => (slot, value))).get? slot = some last
  := by
  have hsize := size_fillAll slots (values.map fun value => (slot, value))
  rw [List.map_append, fillAll, List.foldl_append]
  apply Array.getElem?_setIfInBounds_self_of_lt
  rw [← hsize] at h
  exact h

end Slots

namespace State

variable (state : State) (code : Code) (env : Env) (binds : List Bind)

/-- The new thunks wait for the bodies of the bindings. -/
theorem localState_newThunk {k : Nat} {bind : Bind} (h : binds[k]? = some bind) :
  (state.localState code env binds).thunks[state.thunks.size + k]?
    = some (.pending (.code (.thunk bind.name) (state.localEnv env binds) (code.sibling bind.body)))
  := by
  rw [← Array.getElem?_toList, localState, Array.toList_appendList,
    List.getElem?_append_right (by simp)]
  simp [h]

/-- The environment of a `local` expression, if no slot has a number of its own any more. -/
def fullEnv : Env :=
  env.withScope (env.scope.bindSlots (binds.map fun bind => (bind.name, ⟨maxSlot⟩)))

/-- The state after a `local` expression, if no slot has a number of its own any more. -/
def fullState : State :=
  { state with
    thunks := state.thunks ++ binds.map fun bind =>
      Cell.pending (.code (.thunk bind.name) (fullEnv env binds) (code.sibling bind.body))
    slots := (state.slots.reserve binds.length).2.fillAll
      ((state.localThunks binds.length).map fun value => (⟨maxSlot⟩, value)) }

/-- What a `local` expression does once slots have no numbers of their own any more. -/
theorem bindLocals_full (full : maxSlot ≤ state.slots.size) :
  state.bindLocals code env binds = (fullEnv env binds, state.fullState code env binds)
  := by
  have numbers : (List.range binds.length).map (state.slots.reserve binds.length).1.plus
      = List.replicate binds.length ⟨maxSlot⟩ := by
    rw [List.eq_replicate_iff, List.length_map, List.length_range]
    refine ⟨rfl, fun slot hslot => ?_⟩
    obtain ⟨offset, -, rfl⟩ := List.mem_map.mp hslot
    have hsize : state.slots.entries.size = state.slots.size := rfl
    simp only [Slots.reserve, SlotId.plus, SlotId.mk.injEq, hsize]
    omega
  have names : (binds.map Bind.name).zip (List.replicate binds.length (⟨maxSlot⟩ : SlotId))
      = binds.map fun bind => (bind.name, ⟨maxSlot⟩) := by
    apply List.ext_getElem <;> simp
  have values : (List.replicate binds.length (⟨maxSlot⟩ : SlotId)).zip (state.localThunks binds.length)
      = (state.localThunks binds.length).map fun value => (⟨maxSlot⟩, value) := by
    apply List.ext_getElem <;> simp [localThunks]
  simp only [bindLocals, share, numbers, names]
  simp only [localThunks] at values
  simp only [List.length_map, values, List.map_map, fullState, localThunks]
  rfl

/-- Every name that is bound then has the slot of the greatest number. -/
theorem lookup_fullEnv {env : Env} {binds : List Bind} {bind : Bind} (h : bind ∈ binds) :
  (fullEnv env binds).scope.lookup bind.name = some (.slot ⟨maxSlot⟩)
  := by
  have found (bindings : List Bind) (h : bind ∈ bindings) :
      (bindings.map fun bind => (bind.name, Binding.slot ⟨maxSlot⟩)).lookup bind.name
        = some (.slot ⟨maxSlot⟩) := by
    induction bindings with
    | nil => cases h
    | cons other rest ih =>
      rw [List.map_cons, List.lookup_cons]
      split
      case h_1 => rfl
      case h_2 different =>
        obtain rfl | h := List.mem_cons.mp h
        · rw [beq_self_eq_true] at different
          cases different
        · exact ih h
  have hne : ¬ binds = [] := List.ne_nil_of_mem h
  have lookup := found binds.reverse (List.mem_reverse.mpr h)
  simp [fullEnv, Env.withScope, Scope.bindSlots, Scope.extend, hne, Scope.lookup, Function.comp_def,
    ← List.map_reverse, lookup]

/-- The slot of the greatest number is then that of the last name. -/
theorem fullState_slot {earlier : List Bind} {last : Bind} (full : maxSlot ≤ state.slots.size) :
  (state.fullState code env (earlier ++ [last])).slots.get? ⟨maxSlot⟩
    = some (.shared ⟨state.thunks.size + earlier.length⟩)
  := by
  have thunks : state.localThunks (earlier ++ [last]).length
      = state.localThunks earlier.length ++ [.shared ⟨state.thunks.size + earlier.length⟩] := by
    simp [localThunks, List.range'_concat]
  rw [fullState, thunks]
  apply Slots.get?_fillAll_same
  rw [Slots.size_reserve, List.length_append, List.length_singleton]
  exact Nat.lt_of_le_of_lt full (Nat.lt_add_of_pos_right (Nat.succ_pos _))

theorem fullState_thunk {earlier : List Bind} {last : Bind} :
  (state.fullState code env (earlier ++ [last])).thunks[state.thunks.size + earlier.length]?
    = some (.pending (.code (.thunk last.name) (fullEnv env (earlier ++ [last]))
      (code.sibling last.body)))
  := by
  rw [← Array.getElem?_toList, fullState, Array.toList_appendList,
    List.getElem?_append_right (by simp)]
  simp

end State

/-- Once slots have no numbers of their own any more, each of several names that are bound together
is what the last of them is bound to. -/
theorem Task.Gives.evaluate_locals_full {code : Code} {binds : Slice Bind} {body : NodeId}
    {earlier : List Bind} {last bind : Bind} {env : Env} {a : State} {d : Bool}
    (hnode : code.node = .locals binds body)
    (hbinds : code.arena.readBinds binds = earlier ++ [last]) (bound : bind ∈ earlier ++ [last])
    (hbody : (code.sibling body).node = .var bind.name)
    (hlast : (code.sibling last.body).node = .bool d) (full : maxSlot ≤ a.slots.size)
    (room : 0 < a.stack.room) :
  ∃ b, (Task.evaluate code env).Gives session a (.bool d) b
  := by
  let inner := State.fullEnv env (earlier ++ [last])
  let s := (a.counting 1).fullState code env (earlier ++ [last])
  have hbound : (a.counting 1).bindLocals code env (code.arena.readBinds binds) = (inner, s) := by
    rw [hbinds]
    exact State.bindLocals_full _ _ _ _ full
  have computed :
      (Task.force ⟨a.thunks.size + earlier.length⟩).Gives session (s.counting 1) (.bool d) _ :=
    .force_pending ((a.counting 1).fullState_thunk code env) room (.evaluate_bool hlast)
  exact ⟨_, .evaluate_locals hnode hbound (.evaluate_variable hbody (State.lookup_fullEnv bound)
    ((a.counting 1).fullState_slot code env full) (Action.Gives.request_iff.mpr computed))⟩

/-- As long as they have, the first of two names is what it is bound to itself. -/
theorem Task.Gives.evaluate_locals_numbered {code : Code} {binds : Slice Bind} {body : NodeId}
    {first second : Bind} {env : Env} {a : State} {d : Bool} (hnode : code.node = .locals binds body)
    (hbinds : code.arena.readBinds binds = [first, second]) (different : second.name ≠ first.name)
    (hbody : (code.sibling body).node = .var first.name)
    (hfirst : (code.sibling first.body).node = .bool d) (few : a.slots.size + 2 ≤ maxSlot + 1)
    (room : 0 < a.stack.room) :
  ∃ b, (Task.evaluate code env).Gives session a (.bool d) b
  := by
  let inner := (a.counting 1).localEnv env [first, second]
  let s := (a.counting 1).localState code env [first, second]
  have hbound : (a.counting 1).bindLocals code env (code.arena.readBinds binds) = (inner, s) := by
    rw [hbinds]
    exact (a.counting 1).bindLocals_eq code env _ few
  have lookup : inner.scope.lookup first.name = some (.slot ⟨a.slots.size⟩) := by
    simp [inner, State.localEnv, Env.withScope, Scope.bindSlots, Scope.extend, Scope.lookup,
      State.counting, List.lookup_cons, List.range'_succ, beq_false_of_ne different.symm]
  have filled : s.slots.get? ⟨a.slots.size⟩ = some (.shared ⟨a.thunks.size⟩) :=
    (a.counting 1).localState_newSlot code env [first, second] Nat.two_pos
  have pending := (a.counting 1).localState_newThunk code env [first, second] (k := 0) rfl
  have computed : (Task.force ⟨a.thunks.size⟩).Gives session (s.counting 1) (.bool d) _ :=
    .force_pending pending room (.evaluate_bool hfirst)
  exact ⟨_, .evaluate_locals hnode hbound (.evaluate_variable hbody lookup filled
    (Action.Gives.request_iff.mpr computed))⟩

/-! ### Doubling -/

/-- A state that comes after another one and has some more slots. Thunks that are pending stay so. -/
structure State.Spends (slots : Nat) (a b : State) : Prop where
  size : b.slots.size = a.slots.size + slots
  pending : ∀ {i : Nat} {s : Suspension}, a.thunks[i]? = some (.pending s) →
    b.thunks[i]? = some (.pending s)

/-- A `local` expression reserves a slot for each of its names. -/
theorem State.spends_localState (a : State) (code : Code) (env : Env) (binds : List Bind)
    (few : a.slots.size + binds.length ≤ maxSlot + 1) :
  a.Spends binds.length (a.localState code env binds)
  where
  size := by
    have size := a.size_bindLocals_slots code env binds
    rw [a.bindLocals_eq code env binds few] at size
    exact size
  pending {i s} h := by
    have hlt := (Array.getElem?_eq_some_iff.mp h).choose
    rw [← Array.getElem?_toList, localState, Array.toList_appendList,
      List.getElem?_append_left (by simpa using hlt), Array.getElem?_toList, h]

/-- Whether an expression evaluates to true and reserves some slots in every environment, as long
as there is room for some frames and slots have numbers of their own. -/
def Code.Reserves (session : Session) (code : Code) (frames slots : Nat) : Prop :=
  ∀ (env : Env) (a : State), frames ≤ a.stack.room → a.slots.size + slots ≤ maxSlot + 1 →
    ∃ b, (Task.evaluate code env).Gives session a (.bool true) b ∧ a.Spends slots b

namespace Code.Reserves

theorem literal {code : Code} (h : code.node = .bool true) :
  code.Reserves session 0 0
  := fun _ _ _ _ => ⟨_, .evaluate_bool h, rfl, id⟩

variable {code value : Code} {frames slots : Nat}

/-- A variable whose thunk is pending reserves what its expression reserves. The thunk is ready
afterwards if results are kept. -/
theorem use {name : Name} (hnode : code.node = .var name) (h : value.Reserves session frames slots)
    {env inner : Env} {slot : SlotId} {t : ThunkId} {context : FrameContext} {a : State}
    (bound : env.scope.lookup name = some (.slot slot)) (filled : a.slots.get? slot = some (.shared t))
    (pending : a.thunks[t.index]? = some (.pending (.code context inner value)))
    (room : frames < a.stack.room) (few : a.slots.size + slots ≤ maxSlot + 1) :
  ∃ b, (Task.evaluate code env).Gives session a (.bool true) b ∧
    b.slots.size = a.slots.size + slots ∧
    (∀ {i : Nat} {s : Suspension}, i ≠ t.index → a.thunks[i]? = some (.pending s) →
      b.thunks[i]? = some (.pending s)) ∧
    b.thunks[t.index]? = some (if session.sharing then .ready (.bool true) else
      .pending (.code context inner value))
  := by
  let counted : State := { a.counting 1 with counters := (a.counting 1).counters.count .thunk }
  obtain ⟨b, gives, spends⟩ := h inner (counted.within ⟨value.location, context⟩)
    (Nat.le_sub_one_of_lt room) few
  have computed := Task.Gives.force_pending (a := a.counting 1) pending (Nat.zero_lt_of_lt room) gives
  refine ⟨_, .evaluate_variable hnode bound filled (Action.Gives.request_iff.mpr computed), ?_⟩
  have still := spends.pending pending
  cases hsharing : session.sharing with
  | false =>
    simp only [Task.settle, hsharing, Bool.false_eq_true, if_false]
    exact ⟨spends.size, fun _ hs => spends.pending hs, still⟩
  | true =>
    simp only [Task.settle, hsharing, if_true]
    refine ⟨spends.size, fun {i s} hi hs => ?_, ?_⟩
    · rw [State.keepThunk, Array.getElem?_setIfInBounds_ne hi.symm]
      exact spends.pending hs
    · exact Array.getElem?_setIfInBounds_self_of_lt (Array.getElem?_eq_some_iff.mp still).choose

/-- A variable that is read twice reserves its own slot and what its expression reserves: once if
results are kept, and twice if not. -/
theorem twice {binds : Slice Bind} {name : Name} {body read bound : NodeId}
    (hnode : code.node = .locals binds body) (hbinds : code.arena.readBinds binds = [⟨name, bound⟩])
    (hbody : (code.sibling body).node = .conditional read read read)
    (hread : (code.sibling read).node = .var name)
    (h : (code.sibling bound).Reserves session frames slots) :
  code.Reserves session (frames + 1) (1 + slots + if session.sharing then 0 else slots)
  := by
  intro env a room few
  let inner := (a.counting 1).localEnv env [⟨name, bound⟩]
  let s := (a.counting 1).localState code env [⟨name, bound⟩]
  have own : a.slots.size + 1 ≤ maxSlot + 1 := by omega
  have hbound : (a.counting 1).bindLocals code env (code.arena.readBinds binds) = (inner, s) := by
    rw [hbinds]
    exact (a.counting 1).bindLocals_eq code env _ own
  have binding := (a.counting 1).spends_localState code env [⟨name, bound⟩] own
  have lookup : inner.scope.lookup name = some (.slot ⟨a.slots.size⟩) := by
    simp [inner, State.localEnv, Env.withScope, Scope.bindSlots, Scope.extend, Scope.lookup,
      State.counting]
  have filled : s.slots.get? ⟨a.slots.size⟩ = some (.shared ⟨a.thunks.size⟩) :=
    (a.counting 1).localState_newSlot code env [⟨name, bound⟩] Nat.one_pos
  have pending := (a.counting 1).localState_newThunk code env [⟨name, bound⟩] (k := 0) rfl
  have size : s.slots.size = a.slots.size + 1 := binding.size
  obtain ⟨b, first, size', others, thunk⟩ := use hread h lookup (a := s.counting 1) filled pending room
    (by change s.slots.size + _ ≤ _; omega)
  have size' : b.slots.size = s.slots.size + slots := size'
  have filled : b.slots.get? ⟨a.slots.size⟩ = some (.shared ⟨a.thunks.size⟩) :=
    first.grows.slot (by omega) filled
  have old {i : Nat} {t : Suspension} (ht : a.thunks[i]? = some (.pending t)) : i ≠ a.thunks.size :=
    Nat.ne_of_lt (Array.getElem?_eq_some_iff.mp ht).choose
  cases hsharing : session.sharing with
  | true =>
    -- the value is there
    rw [hsharing, if_pos rfl] at thunk
    have second :
        (Task.evaluate (code.sibling read) inner).Gives session b (.bool true) (b.counting 1) :=
      .evaluate_variable hread lookup filled (Action.Gives.request_iff.mpr (.force_ready thunk))
    refine ⟨_, .evaluate_locals hnode hbound (.evaluate_conditional hbody first second), ?_, ?_⟩
    · change b.slots.size = _
      rw [size', size, if_pos rfl]
      omega
    · exact fun ht => others (old ht) (binding.pending ht)
  | false =>
    -- the value is computed once more
    rw [hsharing, if_neg Bool.false_ne_true] at thunk
    have room : frames < b.stack.room := room.trans_eq first.room
    rw [hsharing, if_neg Bool.false_ne_true] at few
    obtain ⟨c, second, size'', others', -⟩ := use hread h lookup filled thunk room (by omega)
    refine ⟨c, .evaluate_locals hnode hbound (.evaluate_conditional hbody first second), ?_, ?_⟩
    · rw [size'', size', size, if_neg Bool.false_ne_true]
      omega
    · exact fun ht => others' (old ht) (others (old ht) (binding.pending ht))

end Code.Reserves

/-! ### A program -/

/-- The expression of a level. -/
def Node.ofLevel (level : Nat) : Node := .locals ⟨level, 1⟩ ⟨1⟩

/-- What the variable of a level is bound to. -/
def Bind.ofLevel (level : Nat) : Bind := ⟨.empty, ⟨level + 2⟩⟩

/-- A file in which variables are read twice, one inside the other: that of each level is bound to
the expression of the level before. Then two names are bound together, and the first is read. -/
def Arena.levels (count : Nat) (other : Name) : Arena where
  file := .empty
  nodes := #[.var .empty, .conditional ⟨0⟩ ⟨0⟩ ⟨0⟩, .bool true] ++
    (Array.range count).map Node.ofLevel ++
    #[.bool false, .locals ⟨count, 2⟩ ⟨0⟩, .null, .conditional ⟨count + 2⟩ ⟨count + 4⟩ ⟨count + 5⟩]
  binds := (Array.range count).map Bind.ofLevel ++ #[⟨.empty, ⟨2⟩⟩, ⟨other, ⟨count + 3⟩⟩]

section

variable {count : Nat} {other : Name}

/-- A slice of one entry. -/
theorem Slice.read_one {α : Type} {table : Array α} {i : Nat} {entry : α} (h : table[i]? = some entry) :
  (⟨i, 1⟩ : Slice α).read table = [entry]
  := by
  obtain ⟨hlt, rfl⟩ := Array.getElem?_eq_some_iff.mp h
  have hsize : i + 1 - i = 1 := by omega
  rw [read, Array.toList_extract, List.extract_eq_take_drop, hsize,
    List.take_one_drop_eq_of_lt_length (by simpa using hlt)]
  rfl

theorem Arena.levels_node {level : Nat} (h : level < count) :
  (levels count other).node ⟨level + 3⟩ = .ofLevel level
  := by
  simp [node, levels, Array.getElem?_append, h]

theorem Arena.levels_variable :
  (levels count other).node ⟨0⟩ = .var .empty
  := by
  simp [node, levels]

theorem Arena.levels_twice :
  (levels count other).node ⟨1⟩ = .conditional ⟨0⟩ ⟨0⟩ ⟨0⟩
  := by
  simp [node, levels, Array.getElem?_append]

theorem Arena.levels_innermost :
  (levels count other).node ⟨2⟩ = .bool true
  := by
  simp [node, levels, Array.getElem?_append]

variable (count other) in
/-- The expressions after those of the levels. -/
theorem Arena.levels_last :
  (levels count other).node ⟨count + 3⟩ = .bool false ∧
    (levels count other).node ⟨count + 4⟩ = .locals ⟨count, 2⟩ ⟨0⟩ ∧
    (levels count other).node ⟨count + 6⟩
      = .conditional ⟨count + 2⟩ ⟨count + 4⟩ ⟨count + 5⟩
  := by
  have hlast : ¬ count + 6 < 3 := by omega
  simp [node, levels, Array.getElem?_append, hlast]

theorem Arena.levels_bind {level : Nat} (h : level < count) :
  (levels count other).readBinds ⟨level, 1⟩ = [.ofLevel level]
  := by
  apply Slice.read_one
  rw [levels, Array.getElem?_append_left (by simpa using h)]
  simp [h]

theorem Arena.levels_lastBinds :
  (levels count other).readBinds ⟨count, 2⟩ = [⟨.empty, ⟨2⟩⟩, ⟨other, ⟨count + 3⟩⟩]
  := by
  simp [readBinds, Slice.read, levels]

theorem Arena.named_levels {P : Name → Prop} (empty : P .empty) (given : P other) :
  (levels count other).Named P
  where
  file := empty
  node node hnode := by
    simp only [levels, Array.mem_append, Array.mem_map, List.mem_toArray, List.mem_cons,
      List.not_mem_nil, or_false] at hnode
    obtain ((rfl | rfl | rfl) | ⟨level, -, rfl⟩) | rfl | rfl | rfl | rfl := hnode <;>
      first | exact empty | trivial
  bind bind hbind := by
    simp only [levels, Array.mem_append, Array.mem_map, List.mem_toArray, List.mem_cons,
      List.not_mem_nil, or_false] at hbind
    obtain ⟨level, -, rfl⟩ | rfl | rfl := hbind
    · exact empty
    · exact empty
    · exact given
  param name hname := by simp [levels] at hname

/-- From level to level one slot more is reserved, and where no results are kept, also those of the
level before once more. -/
theorem Code.levels_reserves {level : Nat} (h : level ≤ count) :
  Code.Reserves session ⟨.levels count other, ⟨level + 2⟩⟩ level
    (if session.sharing then level else 2 ^ level - 1)
  := by
  induction level with
  | zero =>
    rw [Nat.pow_zero, Nat.sub_self, ite_self]
    exact .literal Arena.levels_innermost
  | succ level ih =>
    have positive : 0 < 2 ^ level := Nat.two_pow_pos level
    have whole : Code.Reserves session ⟨.levels count other, ⟨level + 3⟩⟩ (level + 1) _ :=
      .twice (Arena.levels_node h) (Arena.levels_bind h) Arena.levels_twice Arena.levels_variable
        (ih (Nat.le_of_succ_le h))
    have heq : (1 + (if session.sharing then level else 2 ^ level - 1) +
        if session.sharing then 0 else if session.sharing then level else 2 ^ level - 1)
          = if session.sharing then level + 1 else 2 ^ (level + 1) - 1 := by
      split <;> omega
    rw [heq] at whole
    exact whole

variable (session) in
/-- After 32 levels, without results that are kept, no slot has a number of its own any more: the
first of the two names that are bound together is not what it is bound to. -/
theorem Code.levels_confuses (different : other ≠ .empty) {a : State} (slots : a.slots.size = 0)
    (room : 32 ≤ a.stack.room) :
  ∃ b, (Task.evaluate ⟨.levels 32 other, ⟨38⟩⟩ session.base).Gives session a (.bool session.sharing) b
  := by
  obtain ⟨first, second, last⟩ := Arena.levels_last 32 other
  have reserves : Code.Reserves session ⟨.levels 32 other, ⟨34⟩⟩ 32 _ := levels_reserves le_rfl
  have few : a.slots.size + (if session.sharing then 32 else 2 ^ 32 - 1) ≤ maxSlot + 1 := by
    rw [slots]
    split <;> decide
  obtain ⟨b, decides, spends⟩ := reserves session.base (a.counting 1) room few
  have size : b.slots.size = a.slots.size + _ := spends.size
  have room : 0 < b.stack.room := (Nat.lt_of_lt_of_le (by decide) room).trans_eq decides.room
  rw [slots, Nat.zero_add] at size
  cases hsharing : session.sharing with
  | true =>
    rw [hsharing, if_pos rfl] at size
    obtain ⟨c, gives⟩ : ∃ c, (Task.evaluate ⟨.levels 32 other, ⟨36⟩⟩ session.base).Gives session b
        (.bool true) c :=
      Task.Gives.evaluate_locals_numbered second Arena.levels_lastBinds different Arena.levels_variable
        Arena.levels_innermost (by rw [size]; decide) room
    exact ⟨c, .evaluate_conditional last decides gives⟩
  | false =>
    rw [hsharing, if_neg Bool.false_ne_true] at size
    have bound : (Arena.levels 32 other).readBinds ⟨32, 2⟩ = [⟨.empty, ⟨2⟩⟩] ++ [⟨other, ⟨35⟩⟩] :=
      Arena.levels_lastBinds
    obtain ⟨c, gives⟩ : ∃ c, (Task.evaluate ⟨.levels 32 other, ⟨36⟩⟩ session.base).Gives session b
        (.bool false) c :=
      Task.Gives.evaluate_locals_full second bound List.mem_cons_self Arena.levels_variable first
        size.ge room
    exact ⟨c, .evaluate_conditional last decides gives⟩

end

end Jsonnet
