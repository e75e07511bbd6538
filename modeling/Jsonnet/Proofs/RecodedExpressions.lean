import Jsonnet.Proofs.RecodedLibrary
import Jsonnet.Proofs.Scoping

/-!
# Expressions with exchanged codes

Evaluating a code takes the same steps as evaluating the code that it is exchanged for, if that
has the same node, reads the same tables, and its children are the exchanged children.
-/

namespace Jsonnet

open Action.Recodes

/-- A code that is exchanged for one with the same node and the exchanged children. -/
structure Recoding.Keeps (ρ : Recoding) (code : Code) : Prop where
  node : (ρ code).node = code.node
  file : (ρ code).arena.file = code.arena.file
  location : ∀ id, (ρ code).arena.location id = code.arena.location id
  readList : ∀ slice, (ρ code).arena.readList slice = code.arena.readList slice
  readBinds : ∀ slice, (ρ code).arena.readBinds slice = code.arena.readBinds slice
  readParams : ∀ slice, (ρ code).arena.readParams slice = code.arena.readParams slice
  readFields : ∀ slice, (ρ code).arena.readFields slice = code.arena.readFields slice
  sibling : ∀ next ∈ code.arena.below code.root,
    ρ (code.sibling next.id) = (ρ code).sibling next.id

variable {ρ : Recoding} {session : Session}

/-! ### Variables, positions and imports -/

theorem variableValue_recodes (env : Env) (name : Name) :
  Action.Recodes ρ session (Value.recode ρ) (variableValue env name)
    (variableValue (env.recode ρ) name)
  := by
  rw [variableValue, variableValue, Env.scope_recode, Scope.lookup_recode]
  cases env.scope.lookup name with
  | none =>
    apply (textOf_recodes name).bind_id
    intro text
    exact fail
  | some binding =>
    cases binding with
    | value deferred => apply force_recodes
    | slot slot =>
      apply (take (.slot slot)).bind
      intro deferred
      apply force_recodes

theorem positionIn_recodes (size : Nat) (site : Location) (index : Value) :
  Action.Recodes ρ session id (positionIn size site index)
    (positionIn size site (index.recode ρ))
  := by
  apply (expectNumber_recodes site index).bind_id
  intro x
  split
  · exact raise
  split
  · exact raise
  · exact pure

theorem indexValue_recodes (target index : Value) (site : Location) :
  Action.Recodes ρ session (Value.recode ρ) (indexValue target index site)
    (indexValue (target.recode ρ) (index.recode ρ) site)
  := by
  cases target with
  | object object =>
    apply (expectString_recodes site index).bind_id
    intro s
    apply (intern_recodes s).bind_id
    intro name
    apply read_recodes
  | array elements =>
    simp only [Value.recode_array, indexValue, Array.size_map]
    apply (positionIn_recodes elements.size site index).bind_id
    intro position
    rw [Array.getElem?_map]
    cases elements[position]? with
    | none => exact pure
    | some element => apply force_recodes
  | string s =>
    apply (positionIn_recodes s.toList.length site index).bind_id
    intro position
    exact pure
  | _ => exact raise

theorem directoryOf_recodes {code : Code} (keeps : ρ.Keeps code) :
  Action.Recodes ρ session id (directoryOf code.arena) (directoryOf (ρ code).arena)
  := by
  rw [directoryOf, directoryOf, keeps.file]
  apply (textOf_recodes code.arena.file).bind_id
  intro file
  exact pure

/-! ### Objects -/

section

variable {code : Code} (keeps : ρ.Keeps code) (env : Env)

include keeps

theorem child_recodes {next : Spot} (hnext : next ∈ code.arena.below code.root) :
  Action.Recodes ρ session (Value.recode ρ) ((code.sibling next.id).evaluate env)
    (((ρ code).sibling next.id).evaluate (env.recode ρ))
  := by
  rw [← keeps.sibling next hnext]
  exact request (.evaluate _ env)

theorem literalFields_recodes (fields : List FieldDef)
    (below : ∀ field ∈ fields, ⟨[], false, field.name⟩ ∈ code.arena.below code.root ∧
      ⟨[], true, field.body⟩ ∈ code.arena.below code.root)
    (done : List (Name × Field)) :
  Action.Recodes ρ session (recodeFields ρ) (literalFields code env done fields)
    (literalFields (ρ code) (env.recode ρ) (recodeFields ρ done) fields)
  := by
  induction fields generalizing done with
  | nil =>
    apply pure_of_eq
    rw [recodeFields_eq, recodeFields_eq, List.map_reverse]
  | cons field rest ih =>
    obtain ⟨hname, hbody⟩ := below field List.mem_cons_self
    have ih := ih fun other hother => below other (List.mem_cons_of_mem _ hother)
    rw [literalFields, literalFields, keeps.location]
    apply (child_recodes keeps env hname).bind
    intro value
    cases value with
    | null => apply ih
    | string s =>
      apply (intern_recodes s).bind_id
      intro name
      have hany : ((recodeFields ρ done).any fun entry => entry.1 == name)
          = done.any fun entry => entry.1 == name := by
        rw [recodeFields_eq, List.any_map]
        rfl
      rw [hany]
      split
      · apply (textOf_recodes name).bind_id
        intro text
        exact raise
      · have hmember : Member.code ((ρ code).sibling field.body) field.extendsSuper
            = (Member.code (code.sibling field.body) field.extendsSuper).recode ρ := by
          rw [Member.recode, keeps.sibling _ hbody]
        rw [hmember]
        exact ih ((name, ⟨field.visibility, _⟩) :: done)
    | _ => exact raise

theorem literalObject_recodes (asserts : List NodeId)
    (members : ∀ id ∈ asserts, ⟨[], true, id⟩ ∈ code.arena.below code.root)
    (fields : List FieldDef)
    (below : ∀ field ∈ fields, ⟨[], false, field.name⟩ ∈ code.arena.below code.root ∧
      ⟨[], true, field.body⟩ ∈ code.arena.below code.root) :
  Action.Recodes ρ session (Value.recode ρ) (literalObject code env asserts fields)
    (literalObject (ρ code) (env.recode ρ) asserts fields)
  := by
  apply (literalFields_recodes keeps env fields below []).bind
  intro fields
  have hmembers : (asserts.map fun id => Member.code ((ρ code).sibling id) false)
      = recodeMembers ρ (asserts.map fun id => Member.code (code.sibling id) false) := by
    rw [recodeMembers_eq, List.map_map]
    apply List.map_congr_left
    intro id hid
    rw [← keeps.sibling _ (members id hid)]
    rfl
  dsimp only
  rw [hmembers, Env.scope_recode]
  apply (take (.literal env.scope fields _)).bind
  intro object
  exact pure

/-- The suspensions of some children. -/
theorem suspensions_recode (context : FrameContext) (ids : List NodeId)
    (below : ∀ id ∈ ids, ⟨[], false, id⟩ ∈ code.arena.below code.root) :
  (ids.map fun id => Suspension.code context (env.recode ρ) ((ρ code).sibling id))
    = (ids.map fun id => Suspension.code context env (code.sibling id)).map (Suspension.recode ρ)
  := by
  rw [List.map_map]
  apply List.map_congr_left
  intro id hid
  rw [← keeps.sibling _ (below id hid)]
  rfl

/-! ### Nodes -/

/-- A code takes the same steps as the code that it is exchanged for. -/
theorem evaluateCode_recodes :
  Action.Recodes ρ session (Value.recode ρ) (evaluateCode code env)
    (evaluateCode (ρ code) (env.recode ρ))
  := by
  unfold evaluateCode
  apply (take (.count .expression)).bind_id
  intro _
  dsimp only
  rw [keeps.node, ρ.location_eq]
  have hchild : ∀ id, ⟨[], false, id⟩ ∈ code.arena.below code.root →
      Action.Recodes ρ session (Value.recode ρ) ((code.sibling id).evaluate env)
        (((ρ code).sibling id).evaluate (env.recode ρ)) :=
    fun id hid => child_recodes keeps env hid
  rw [Code.node]
  cases hnode : code.arena.node code.root with
  | null => exact pure
  | bool b => exact pure
  | number x => exact pure
  | string s =>
    apply (textOf_recodes s).bind_id
    intro text
    exact pure
  | var name => apply variableValue_recodes
  | locals binds body =>
    have hbelow : ∀ id, id = body ∨ id ∈ (code.arena.readBinds binds).map Bind.body →
        ρ (code.sibling id) = (ρ code).sibling id := by
      intro id hid
      apply keeps.sibling ⟨(code.arena.readBinds binds).map Bind.name, false, id⟩
      rw [Arena.below, hnode]
      simpa using hid
    dsimp only
    rw [keeps.readBinds]
    apply (take (.bindLocals env fun bind hbind =>
      hbelow bind.body (.inr (List.mem_map_of_mem hbind)))).bind
    intro inner
    rw [← hbelow body (.inl rfl)]
    exact request (.evaluate _ inner)
  | function params body =>
    have hbody : ⟨code.arena.readParams params, false, body⟩ ∈ code.arena.below code.root := by
      simp [Arena.below, hnode]
    dsimp only
    rw [keeps.readParams]
    apply pure_of_eq
    rw [Value.recode, Function.recode, keeps.sibling _ hbody]
  | apply target arguments =>
    apply (hchild target (by simp [Arena.below, hnode])).bind
    intro value
    apply (expectFunction_recodes code.location value).bind
    intro f
    apply session_bind
    rw [keeps.readList, suspensions_recode keeps env _ _ fun id hid => by
      simp [Arena.below, hnode, hid]]
    apply (shareAll_recodes _).bind
    intro thunks
    apply call_recodes
  | array elements =>
    apply session_bind
    rw [keeps.readList, suspensions_recode keeps env _ _ fun id hid => by
      simp [Arena.below, hnode, hid]]
    apply (shareAll_recodes _).bind
    intro thunks
    apply pure_of_eq
    rw [Value.recode_array, List.map_toArray]
  | object asserts fields =>
    dsimp only
    rw [keeps.readList, keeps.readFields]
    apply literalObject_recodes keeps env
    · intro id hid
      simp [Arena.below, hnode, hid]
    · intro field hfield
      simp only [Arena.below, hnode, List.mem_append, List.mem_map]
      exact ⟨.inl ⟨_, ⟨field, hfield, rfl⟩, rfl⟩, .inr ⟨_, .inr ⟨field, hfield, rfl⟩, rfl⟩⟩
  | binary op left right =>
    have hright : ⟨[], false, right⟩ ∈ code.arena.below code.root := by
      simp [Arena.below, hnode]
    apply (hchild left (by simp [Arena.below, hnode])).bind
    intro x
    split
    · apply session_bind
      simp only [pure_bind]
      rw [← keeps.sibling _ hright]
      exact call_recodes (.builtin (.binary op)) [.ready x, .suspended _] code.location
    · simp only [pure_bind]
      apply (hchild right hright).bind
      intro y
      exact call_recodes (.builtin (.binary op)) [.ready x, .ready y] code.location
  | unary op operand =>
    apply (hchild operand (by simp [Arena.below, hnode])).bind
    intro x
    exact call_recodes (.builtin (.unary op)) [.ready x] code.location
  | conditional condition whenTrue whenFalse =>
    apply (hchild condition (by simp [Arena.below, hnode])).bind
    intro value
    rw [keeps.location]
    apply (expectBool_recodes _ value).bind_id
    intro decision
    cases decision with
    | true => exact hchild whenTrue (by simp [Arena.below, hnode])
    | false => exact hchild whenFalse (by simp [Arena.below, hnode])
  | index target position =>
    apply (hchild target (by simp [Arena.below, hnode])).bind
    intro x
    apply (hchild position (by simp [Arena.below, hnode])).bind
    intro i
    apply indexValue_recodes
  | superIndex position =>
    rw [Env.self?_recode, Env.superDepth_recode]
    cases env.self? with
    | none => exact raise
    | some object =>
      apply (hchild position (by simp [Arena.below, hnode])).bind
      intro value
      apply (expectString_recodes code.location value).bind_id
      intro s
      apply (intern_recodes s).bind_id
      intro name
      apply read_recodes
  | selfRef =>
    rw [Env.self?_recode]
    cases env.self? with
    | none => exact raise
    | some object => exact pure
  | error message =>
    apply (hchild message (by simp [Arena.below, hnode])).bind
    intro value
    apply (expectString_recodes code.location value).bind_id
    intro s
    exact raise
  | importCode path =>
    apply (directoryOf_recodes keeps).bind_id
    intro directory
    apply (take (.imported directory path code.location)).bind
    intro value
    apply force_recodes
  | importText path =>
    apply (directoryOf_recodes keeps).bind_id
    intro directory
    apply (textOf_recodes path).bind_id
    intro text
    apply (take (.importText directory text code.location)).bind_id
    intro file
    exact pure

end

/-! ### Programs -/

theorem parameterNames_recodes (f : Function) :
  Action.Recodes ρ session id (parameterNames f) (parameterNames (f.recode ρ))
  := by
  cases f with
  | closure env params body => exact pure
  | builtin b => exact take (.internAll b.params)

theorem matchArguments_recodes (given : List (Name × External)) (site : Location)
    (params : List Name) (done : List Deferred) :
  Action.Recodes ρ session (List.map (Deferred.recode ρ)) (matchArguments given site done params)
    (matchArguments given site (done.map (Deferred.recode ρ)) params)
  := by
  induction params generalizing done with
  | nil => exact pure_of_eq List.map_reverse.symm
  | cons param rest ih =>
    unfold matchArguments
    cases given.lookup param with
    | none =>
      apply (textOf_recodes param).bind_id
      intro text
      exact raise
    | some external =>
      apply (take (.argument param external)).bind
      intro value
      exact ih (value :: done)

theorem applyArguments_recodes (value : Value) (site : Location) :
  Action.Recodes ρ session (Value.recode ρ) (applyArguments value site)
    (applyArguments (value.recode ρ) site)
  := by
  cases value with
  | function f =>
    apply (parameterNames_recodes f).bind_id
    intro params
    apply session_bind
    dsimp only [Session.recode]
    split
    · apply (textOf_recodes _).bind_id
      intro text
      exact raise
    · apply (matchArguments_recodes session.arguments site params []).bind
      intro arguments
      apply call_recodes
  | _ => exact pure

theorem computeProgram_recodes (code : Code) :
  Action.Recodes ρ session (Value.recode ρ) (computeProgram code) (computeProgram (ρ code))
  := by
  apply session_bind
  rw [Session.base_recode, ρ.location_eq]
  apply (request (.evaluate code session.base)).bind
  intro value
  apply applyArguments_recodes

theorem computeOutput_recodes (code : Code) :
  Action.Recodes ρ session id (computeOutput code) (computeOutput (ρ code))
  := by
  apply (computeProgram_recodes code).bind
  intro value
  apply (manifest_recodes .multiLine value).bind_id
  intro text
  exact pure

theorem output_recodes (code : Code) :
  Action.Recodes ρ session id code.output (ρ code).output
  := by
  rw [Code.output, Code.output, ρ.location_eq]
  exact inFrame (.output code)

/-! ### Tasks -/

theorem computeThunk_recodes {a b : State} (states : a.Recodes ρ b) (thunk : ThunkId) :
  Action.Recodes ρ session (Value.recode ρ) (computeThunk a thunk) (computeThunk b thunk)
  := by
  rw [computeThunk, computeThunk, states.thunks, Array.getElem?_map]
  cases a.thunks[thunk.index]? with
  | none => exact fail
  | some cell =>
    cases cell with
    | pending suspension => apply run_recodes
    | ready value => exact pure

/-- Tasks that differ in their codes only are carried out by actions that do so, as long as the
code that is evaluated next is kept. -/
theorem Task.Recodes.action (session : Session) {task task' : Task} {g : task.Result → task'.Result} {a b : State}
    (h : task.Recodes ρ task' g) (states : a.Recodes ρ b)
    (keeps : ∀ code env, task = .evaluate code env → ρ.Keeps code) :
  Action.Recodes ρ session g (task.action a) (task'.action b)
  := by
  cases h with
  | evaluate code env => exact evaluateCode_recodes (keeps code env rfl) env
  | force thunk => exact computeThunk_recodes states thunk
  | call f arguments site => apply callFunction_recodes
  | builtin b arguments => apply applyBuiltin_recodes
  | check object =>
    rw [Task.action, Task.action, Object.assertions_recode]
    apply checkAssertions_recodes
  | readField object minDepth name site => apply readField_recodes
  | field object leaf depth name site => apply computeField_recodes
  | document value => apply computeDocument_recodes
  | equal x y => apply computeEqual_recodes
  | order operator x y => apply computeOrder_recodes
  | program code => apply computeProgram_recodes
  | output code => apply computeOutput_recodes

end Jsonnet
