import Jsonnet.Proofs.Bridges

/-!
# Bindings of recursive `local` expressions

A scope has the numbers of the bindings of a `local` expression, not the bindings, and all of them
stand in one table. As long as slots have numbers of their own, each evaluation of such an
expression has a block of slots for itself, in which its own thunks stand from then on, through
whatever the interpreter is asked for later. So what is looked up through the frame of an
evaluation is one of its own thunks, even if the same expression is evaluated again inside it.
-/

namespace Jsonnet

/-! ### Evaluations of `local` expressions -/

/-- An evaluation of a `local` expression: its bindings, and the state in which they are bound. -/
structure Locals where
  code : Code
  env : Env
  binds : List Bind
  state : State

namespace Locals

variable (e : Locals)

/-- The operation by which the bindings are bound. -/
def operation : Operation := .bindLocals e.code e.env e.binds

/-- The slot of a binding. -/
def slot (k : Nat) : SlotId := (e.state.slots.reserve e.binds.length).1.plus k

/-- The slots of the bindings. -/
def slots : List SlotId := (List.range e.binds.length).map e.slot

/-- The thunk of a binding. -/
def thunk (k : Nat) : ThunkId := ⟨e.state.thunks.size + k⟩

/-- The thunks of the bindings. -/
def thunks : List ThunkId := (List.range e.binds.length).map e.thunk

/-- The environment in which the bindings see each other. -/
def inner : Env := (e.state.bindLocals e.code e.env e.binds).1

/-- What is computed for a binding. -/
def suspension (bind : Bind) : Suspension :=
  .code (.thunk bind.name) e.inner (e.code.sibling bind.body)

/-- Whether the slots have numbers of their own. -/
def Numbered : Prop := e.state.slots.size + e.binds.length ≤ maxSlot + 1

/-- Whether the slots do not exist. -/
def AbsentIn (t : State) : Prop := ∀ k < e.binds.length, t.slots.get? (e.slot k) = none

/-- Whether the thunks stand in the slots, and each of them waits or has been computed. -/
structure HeldBy (t : State) : Prop where
  slot : ∀ k < e.binds.length, t.slots.get? (e.slot k) = some (.shared (e.thunk k))
  cell : ∀ k bind, e.binds[k]? = some bind →
    t.thunks[(e.thunk k).index]? = some (.pending (e.suspension bind)) ∨
      ∃ value, t.thunks[(e.thunk k).index]? = some (.ready value)

end Locals

/-- The evaluation of a `local` expression that an operation begins; no other expression takes
this operation. -/
def Operation.locals? (state : State) : Operation → Option Locals
  | .bindLocals code env binds => some ⟨code, env, binds, state⟩
  | _ => none

/-- The evaluations of `local` expressions among some operations. -/
def locals (taken : List (Operation × State)) : List Locals :=
  taken.filterMap fun step => step.1.locals? step.2

/-- Whether a name is looked up in a scope through a frame: nothing in front of the frame binds
it. -/
inductive Scope.Through (name : Name) (frame : Scope) : Scope → Prop where
  | frame : Through name frame frame
  | layer {bindings : List (Name × Binding)} {outer : Scope}
      (unbound : ∀ binding ∈ bindings, binding.1 ≠ name) (rest : Through name frame outer) :
    Through name frame (.layer bindings outer)

/-- Whether a variable that is looked up through the frame of an evaluation is the thunk of the
last binding of its name. -/
def Locals.FoundIn (e : Locals) (session : Session) (t : State) : Prop :=
  ∀ before bind after, e.binds = before ++ bind :: after →
    (∀ other ∈ after, other.name ≠ bind.name) →
    ∀ env : Env, env.scope.Through bind.name e.inner.scope →
      ∀ carryOut, (variableValue env bind.name session).resolve session carryOut t
        = (Deferred.force (.shared (e.thunk before.length)) session).resolve session carryOut t

/-! ### Looking up -/

theorem Scope.Through.lookup {name : Name} {frame scope : Scope} (h : scope.Through name frame) :
  scope.lookup name = frame.lookup name
  := by
  induction h with
  | frame => rfl
  | layer unbound _ ih =>
    rw [Scope.lookup, List.lookup_eq_none_iff.mpr, ih]
    intro binding hbinding
    rw [List.mem_reverse] at hbinding
    simpa using (unbound binding hbinding).symm

/-- In a list that is numbered, the last entry for a key has the number of its last place. -/
theorem lookup_reverse_zip {α β : Type} [BEq α] [LawfulBEq α] (before after : List α) {x : α}
    (last : x ∉ after) (f : Nat → β) :
  ((before ++ x :: after).zip
      ((List.range (before ++ x :: after).length).map f)).reverse.lookup x = some (f before.length)
  := by
  have indexed : (before ++ x :: after).zip ((List.range (before ++ x :: after).length).map f)
      = (before ++ x :: after).zipIdx.map fun y => (y.1, f y.2) := by
    apply List.ext_getElem <;> simp
  rw [indexed, List.zipIdx_append, List.zipIdx_cons, List.map_append, List.map_cons,
    List.reverse_append, List.reverse_cons, List.append_assoc, List.lookup_append,
    List.lookup_eq_none_iff.mpr]
  · simp
  · simp only [List.mem_reverse, List.mem_map]
    rintro _ ⟨y, hy, rfl⟩
    have mem : y.1 ∈ after := List.fst_mem_of_mem_zipIdx hy
    exact bne_iff_ne.mpr fun heq => last (heq ▸ mem)

namespace Locals

variable {e : Locals} {session : Session} {t : State}

/-- In the frame of an evaluation a name is bound to the slot of its last binding. -/
theorem lookup_inner {before after : List Bind} {bind : Bind}
    (h : e.binds = before ++ bind :: after) (last : ∀ other ∈ after, other.name ≠ bind.name) :
  e.inner.scope.lookup bind.name = some (.slot (e.slot before.length))
  := by
  have unbound : bind.name ∉ after.map Bind.name := by
    intro mem
    obtain ⟨other, hother, heq⟩ := List.mem_map.mp mem
    exact last other hother heq
  have names : e.binds.map Bind.name
      = before.map Bind.name ++ bind.name :: after.map Bind.name := by
    rw [h, List.map_append, List.map_cons]
  have found := lookup_reverse_zip (before.map Bind.name) _ unbound
    fun k => Binding.slot (e.slot k)
  rw [← names, List.length_map, List.length_map] at found
  have scope : e.inner.scope = e.env.scope.extend ((e.binds.map Bind.name).zip
      ((List.range e.binds.length).map fun k => Binding.slot (e.slot k))) := by
    change e.env.scope.bindSlots ((e.binds.map Bind.name).zip e.slots) = _
    rw [← Function.comp_def Binding.slot, ← List.map_map, ← slots, List.zip_map_right]
    rfl
  rw [scope, Scope.extend, if_neg, Scope.lookup, found]
  simp [h]

/-- Where the thunks stand in the slots, a variable that is looked up through the frame is the
thunk of the last binding of its name. -/
theorem HeldBy.foundIn (h : e.HeldBy t) (session : Session) :
  e.FoundIn session t
  := by
  intro before bind after hbinds last env through carryOut
  have bound : before.length < e.binds.length := by
    rw [hbinds, List.length_append, List.length_cons]
    omega
  have taken : Operation.apply session t (.slot (e.slot before.length))
      = (.ok (.shared (e.thunk before.length)), t) := by
    simp only [Operation.apply, h.slot _ bound]
  rw [variableValue, through.lookup, lookup_inner hbinds last]
  change Progress.resolve session carryOut (.step _ _) t = _
  rw [Progress.resolve, taken]
  rfl

end Locals

theorem Locals.HeldBy.mono {e : Locals} {a b : State} (h : e.HeldBy a) (lasts : a.LastsIn b)
    (few : b.slots.size ≤ maxSlot + 1) :
  e.HeldBy b
  where
  slot k hk := lasts.slot few (h.slot k hk)
  cell k bind hbind := by
    obtain hcell | ⟨value, hcell⟩ := h.cell k bind hbind
    · exact lasts.pending hcell
    · exact .inr (lasts.ready hcell)

/-! ### Blocks -/

section

variable {e e' : Locals} {a b c s : State} {session : Session}

theorem locals_append (taken taken' : List (Operation × State)) :
  locals (taken ++ taken') = locals taken ++ locals taken'
  := List.filterMap_append

theorem locals_cons (operation : Operation) (s : State) (taken : List (Operation × State)) :
  locals ((operation, s) :: taken) = (operation.locals? s).toList ++ locals taken
  := by
  rw [locals, List.filterMap_cons]
  cases operation.locals? s <;> rfl

theorem Operation.locals?_eq_some {operation : Operation} (h : operation.locals? s = some e) :
  operation = e.operation ∧ s = e.state
  := by
  cases operation with
  | bindLocals code env binds =>
    cases h
    exact ⟨rfl, rfl⟩
  | _ => cases h

namespace Locals

theorem slots_eq (numbered : e.Numbered) :
  e.slots = (List.range' e.state.slots.size e.binds.length).map SlotId.mk
  := Slots.numbers_eq numbered

theorem slot_eq (numbered : e.Numbered) {k : Nat} (hk : k < e.binds.length) :
  e.slot k = ⟨e.state.slots.size + k⟩
  := by
  have h : e.slots[k]? = ((List.range' e.state.slots.size e.binds.length).map SlotId.mk)[k]? := by
    rw [slots_eq numbered]
  simpa [slots, hk] using h

theorem apply_operation (numbered : e.Numbered) (session : Session) :
  (e.operation.apply session e.state).2 = e.state.localState e.code e.env e.binds
  := by
  rw [operation, Operation.apply, State.bindLocals_eq _ _ _ _ numbered]

/-- Right after the operation the thunks stand in the slots, and none of them is computed. -/
theorem heldBy_apply (numbered : e.Numbered) (session : Session) :
  e.HeldBy (e.operation.apply session e.state).2
  := by
  rw [apply_operation numbered]
  refine ⟨?_, ?_⟩
  · intro k hk
    rw [slot_eq numbered hk]
    exact e.state.localState_newSlot e.code e.env e.binds hk
  · intro k bind hbind
    have inner : e.inner = e.state.localEnv e.env e.binds := by
      rw [Locals.inner, State.bindLocals_eq _ _ _ _ numbered]
    left
    rw [suspension, inner, thunk, State.localState, ← Array.getElem?_toList,
      Array.toList_appendList, List.getElem?_append_right (by simp)]
    simp [hbind]

theorem size_thunks_apply (numbered : e.Numbered) (session : Session) :
  (e.operation.apply session e.state).2.thunks.size = e.state.thunks.size + e.binds.length
  := by
  rw [apply_operation numbered, State.localState, ← Array.length_toList, Array.toList_appendList,
    List.length_append, List.length_map, Array.length_toList]

/-- The slots do not exist before. -/
theorem absentIn (numbered : e.Numbered) {t : State} (h : t.slots.size ≤ e.state.slots.size) :
  e.AbsentIn t
  := by
  intro k hk
  rw [slot_eq numbered hk]
  exact Array.getElem?_eq_none (h.trans (Nat.le_add_right _ _))

/-- Whether the slots and the thunks of an evaluation come before those of another one. -/
structure Precedes (e e' : Locals) : Prop where
  slots : e.state.slots.size + e.binds.length ≤ e'.state.slots.size
  thunks : e.state.thunks.size + e.binds.length ≤ e'.state.thunks.size

/-- Whether two evaluations have no slot and no thunk in common. -/
def Apart (e e' : Locals) : Prop := e.slots.Disjoint e'.slots ∧ e.thunks.Disjoint e'.thunks

theorem Precedes.apart (h : e.Precedes e') (numbered : e'.Numbered) :
  e.Apart e'
  := by
  refine ⟨?_, ?_⟩
  · intro i hi hi'
    have before : e.Numbered := h.slots.trans ((Nat.le_add_right _ _).trans numbered)
    rw [slots_eq before, List.mem_map] at hi
    rw [slots_eq numbered, List.mem_map] at hi'
    obtain ⟨j, hj, rfl⟩ := hi
    obtain ⟨j', hj', heq⟩ := hi'
    cases heq
    rw [List.mem_range'_1] at hj hj'
    exact absurd (hj.2.trans_le h.slots) (Nat.not_lt_of_le hj'.1)
  · intro i hi hi'
    obtain ⟨k, hk, rfl⟩ := List.mem_map.mp hi
    obtain ⟨k', -, heq⟩ := List.mem_map.mp hi'
    rw [thunk, thunk, ThunkId.mk.injEq] at heq
    have := h.thunks
    have := List.mem_range.mp hk
    omega

end Locals

namespace Session.Bridges

variable {taken : List (Operation × State)}

/-- The slots of the evaluations on a way have numbers of their own if all that are reserved do. -/
theorem numbered (h : session.Bridges a taken b)
    (few : a.slots.size + reserved taken ≤ maxSlot + 1) :
  ∀ e ∈ locals taken, e.Numbered
  := by
  intro e he
  obtain ⟨⟨operation, s⟩, hmem, he⟩ := List.mem_filterMap.mp he
  obtain ⟨rfl, rfl⟩ := Operation.locals?_eq_some he
  obtain ⟨earlier, later, rfl⟩ := List.append_of_mem hmem
  have size := h.split.1.lastsIn.2
  have count : e.operation.reserved = e.binds.length := rfl
  rw [reserved_append, reserved_cons] at few
  rw [Locals.Numbered]
  omega

/-- The evaluations have their slots between those of the two states, in their order. -/
theorem slots_locals (h : session.Bridges a taken b) (numbered : ∀ e ∈ locals taken, e.Numbered) :
  (locals taken).flatMap Locals.slots
    = (List.range' a.slots.size (reserved taken)).map SlotId.mk
  := by
  induction h with
  | rest => rfl
  | @step a s b operation taken rests _ ih =>
    rw [locals_cons, List.forall_mem_append] at numbered
    have first : (operation.locals? s).toList.flatMap Locals.slots
        = (List.range' a.slots.size operation.reserved).map SlotId.mk := by
      rw [← rests.slots]
      cases operation with
      | bindLocals code env binds =>
        have here := numbered.1 ⟨code, env, binds, s⟩ List.mem_cons_self
        exact (List.append_nil _).trans (Locals.slots_eq here)
      | _ => rfl
    rw [locals_cons, List.flatMap_append, first, ih numbered.2, rests.size_apply, reserved_cons,
      ← List.map_append, List.range'_append_1]

/-- Each evaluation has its slots and thunks behind those of the evaluations before it. -/
theorem precedes (h : session.Bridges a taken b) (numbered : ∀ e ∈ locals taken, e.Numbered) :
  (locals taken).Pairwise Locals.Precedes ∧
    ∀ e ∈ locals taken, a.slots.size ≤ e.state.slots.size ∧ a.thunks.size ≤ e.state.thunks.size
  := by
  induction h with
  | rest => exact ⟨.nil, by simp [locals]⟩
  | @step a s b operation taken rests _ ih =>
    rw [locals_cons, List.forall_mem_append] at numbered
    have size := rests.size_apply session operation
    have lasts := rests.toLastsIn.trans (operation.grows session s).lastsIn
    obtain ⟨pairwise, behind⟩ := ih numbered.2
    have behind' : ∀ e ∈ locals taken,
        a.slots.size ≤ e.state.slots.size ∧ a.thunks.size ≤ e.state.thunks.size :=
      fun e he => (behind e he).imp lasts.slotCount.trans lasts.size_thunks.trans
    rw [locals_cons]
    cases hfirst : operation.locals? s with
    | none => exact ⟨pairwise, behind'⟩
    | some e =>
      rw [hfirst] at numbered
      have here := numbered.1 e List.mem_cons_self
      obtain ⟨rfl, rfl⟩ := Operation.locals?_eq_some hfirst
      refine ⟨List.pairwise_cons.mpr ⟨?_, pairwise⟩, ?_⟩
      · intro e' he'
        obtain ⟨slots, thunks⟩ := behind e' he'
        rw [size, ← rests.slots] at slots
        rw [Locals.size_thunks_apply here] at thunks
        exact ⟨slots, thunks⟩
      · intro e' he'
        obtain rfl | he' := List.mem_cons.mp he'
        · exact ⟨rests.slotCount, rests.size_thunks⟩
        · exact behind' e' he'

/-- The slots of an evaluation do not exist in the states before it. -/
theorem absentIn_of_earlier {earlier later : List (Operation × State)}
    (h : session.Bridges a (earlier ++ (e.operation, e.state) :: later) b)
    (numbered : e.Numbered) {step : Operation × State} (hstep : step ∈ earlier) :
  e.AbsentIn step.2
  := e.absentIn numbered (h.split.1.size_slots_le hstep)

/-- The slots of an evaluation hold its thunks in the states after it. -/
theorem heldBy_of_later {earlier later : List (Operation × State)}
    (h : session.Bridges a (earlier ++ (e.operation, e.state) :: later) b)
    (numbered : e.Numbered) (few : b.slots.size ≤ maxSlot + 1) :
  e.HeldBy b
  := (e.heldBy_apply numbered session).mono h.split.2.lastsIn.1 few

end Session.Bridges

end

/-! ### Runs -/

section

variable {session : Session} {a b : State}

/-- Over all that is asked of one interpreter, the last action of which need not come to an end,
the evaluations of `local` expressions do not mix as long as slots have numbers of their own. Each
slot is reserved by one of them, and no two have a slot or a thunk in common. The slots of an
evaluation do not exist before it; from its operation on each of them holds the thunk of its
binding, and what is looked up through the frame is the thunk of the last binding of the name. -/
theorem Session.Operates.locals_apart {taken : List (Operation × State)}
    (h : session.Operates a taken b) {α : Type} (action : Action α) (fuel : Nat) :
  let all := taken ++ action.operations session fuel b
  a.slots.size + reserved all < 2 ^ 32 →
  (locals all).flatMap Locals.slots = (List.range' a.slots.size (reserved all)).map SlotId.mk ∧
    (locals all).Pairwise Locals.Apart ∧
    ∀ earlier (e : Locals) later, all = earlier ++ (e.operation, e.state) :: later →
      (∀ step ∈ earlier, e.AbsentIn step.2) ∧ e.AbsentIn e.state ∧
      ∀ t, t = (e.operation.apply session e.state).2 ∨ t ∈ later.map Prod.snd ∨
          (∃ outcome, (action session).resolve session (Task.perform session fuel) b
            = some (outcome, t)) →
        e.HeldBy t ∧ e.FoundIn session t
  := by
  intro all few
  have few : a.slots.size + reserved all ≤ maxSlot + 1 := few.le
  obtain ⟨⟨z, rest⟩, ends⟩ := action.bridges session fuel b
  have whole : session.Bridges a all z := h.bridges.append rest
  have numbered := whole.numbered few
  obtain ⟨precedes, -⟩ := whole.precedes numbered
  refine ⟨whole.slots_locals numbered, ?_, ?_⟩
  · refine precedes.imp_of_mem ?_
    intro e e' _ he' precedes
    exact precedes.apart (numbered e' he')
  · intro earlier e later hall
    have mem : e ∈ locals all := by
      rw [hall, locals_append, locals_cons]
      exact List.mem_append_right _ List.mem_cons_self
    have numbered := numbered e mem
    have size := whole.lastsIn.2
    have held : ∀ {t}, session.Bridges a all t → e.HeldBy t := by
      intro t ended
      have size := ended.lastsIn.2
      rw [hall] at ended
      exact ended.heldBy_of_later numbered (size.le.trans few)
    rw [hall] at whole
    refine ⟨fun step => whole.absentIn_of_earlier numbered, e.absentIn numbered le_rfl, ?_⟩
    intro t ht
    have held : e.HeldBy t := by
      obtain rfl | ht | ⟨outcome, run⟩ := ht
      · exact e.heldBy_apply numbered session
      · obtain ⟨step, hstep, rfl⟩ := List.mem_map.mp ht
        have le := whole.split.2.size_slots_le hstep
        obtain ⟨between, rest, rfl⟩ := List.append_of_mem hstep
        rw [← List.cons_append, ← List.append_assoc] at whole
        exact whole.split.1.heldBy_of_later numbered (le.trans (size.le.trans few))
      · exact held (h.bridges.append (ends run))
    exact ⟨held, held.foundIn session⟩

/-- The program that binds a variable twice, and is that variable. -/
def Code.boundTwice : Code :=
  ⟨{ file := .empty
     nodes := #[.null, .bool true, .var .empty, .locals ⟨0, 2⟩ ⟨2⟩]
     binds := #[⟨.empty, ⟨0⟩⟩, ⟨.empty, ⟨1⟩⟩] }, ⟨3⟩⟩

/-- A program that is evaluated twice, each time with two slots of its own. -/
theorem Session.Operates.locals_apart_of_two_evaluations :
  let session := Session.bare
  let a := State.new .onlyEmpty 5
  let action := Code.boundTwice.evaluate .empty
  ∃ b, session.Operates a (action.operations session 4 a) b ∧
    let all := action.operations session 4 a ++ action.operations session 4 b
    a.slots.size + reserved all < 2 ^ 32 ∧
      (locals all).map (fun e => e.code.root) = [⟨3⟩, ⟨3⟩] ∧
      (locals all).flatMap Locals.slots = [⟨0⟩, ⟨1⟩, ⟨2⟩, ⟨3⟩] ∧ (locals all).Pairwise Locals.Apart
  := by
  intro session a action
  have runs : ∃ b, (action session).resolve session (Task.perform session 4) a
        = some (.ok (.bool true), b) ∧
      reserved (action.operations session 4 a ++ action.operations session 4 b) = 4 ∧
      (locals (action.operations session 4 a ++ action.operations session 4 b)).map
        (fun e => e.code.root) = [⟨3⟩, ⟨3⟩] :=
    ⟨_, rfl, by decide +kernel, by decide +kernel⟩
  obtain ⟨b, run, count, roots⟩ := runs
  have operates := Session.Operates.action action 4 .start run
  rw [List.nil_append] at operates
  have few : a.slots.size
      + reserved (action.operations session 4 a ++ action.operations session 4 b) < 2 ^ 32 := by
    rw [count]
    decide
  obtain ⟨slots, apart, -⟩ := operates.locals_apart action 4 few
  refine ⟨b, operates, few, roots, ?_, apart⟩
  rw [slots, count]
  rfl

end

end Jsonnet
