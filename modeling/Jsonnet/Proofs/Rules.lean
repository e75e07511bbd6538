import Jsonnet.Proofs.Giving
import Jsonnet.Proofs.Literals

/-!
# Rules of evaluation

What an expression gives, by what its parts give, for the kinds of expressions that programs are put
together from here. The state that is left behind is described only as far as it is needed further on.
-/

namespace Jsonnet

/-- A state inside a frame for which there is room. -/
def State.within (a : State) (frame : Frame) : State :=
  { a with stack := ⟨frame :: a.stack.frames, a.stack.room - 1⟩ }

theorem State.enter_eq_within {a : State} (room : 0 < a.stack.room) (frame : Frame) :
  a.enter (some frame) = .ok (a.within frame)
  := by
  obtain ⟨rest, hroom⟩ := Nat.exists_eq_succ_of_ne_zero room.ne'
  simp only [enter, CallStack.push?, within, hroom, Nat.succ_eq_add_one, Nat.add_sub_cancel]

/-- A state with the names and the slots of another one. -/
structure State.Steady (a b : State) : Prop where
  names : b.names = a.names
  slots : b.slots = a.slots

theorem State.Steady.trans {a b c : State} (hab : a.Steady b) (hbc : b.Steady c) :
  a.Steady c
  := ⟨hbc.names.trans hab.names, hbc.slots.trans hab.slots⟩

/-- The same names have been given out. -/
theorem State.Steady.gives {a b : State} (h : a.Steady b) {name : Name} (given : a.names.Gives name) :
  b.names.Gives name
  := by
  rw [h.names]
  exact given

namespace Task.Gives

variable {session : Session} {code : Code} {env : Env} {a b c : State} {v : Value} {o : Object}
  {name : Name}

/-- There is the same room for frames afterwards as before. -/
theorem room {task : Task} {r : task.Result} (h : task.Gives session a r b) :
  a.stack.room = b.stack.room
  := by rw [h.grows.stack]

/-- An expression is counted before anything else. -/
theorem evaluate_counted {x : Action Value}
    (counted : evaluateCode code env = Action.count .expression >>= fun _ => x)
    (gives : x.Gives session (a.counting 1) v b) :
  (Task.evaluate code env).Gives session a v b
  := by
  apply of_action rfl
  rw [action, counted]
  exact .bind (.take rfl) gives

/-! ### Values and variables -/

theorem evaluate_bool {d : Bool} (hnode : code.node = .bool d) :
  (Task.evaluate code env).Gives session a (.bool d) (a.counting 1)
  := by
  refine evaluate_counted (by rw [evaluateCode, hnode]) ?_
  exact .pure _

theorem evaluate_string (hnode : code.node = .string name) :
  (Task.evaluate code env).Gives session a (.string (a.names.lookup name)) (a.counting 1)
  := ⟨1, perform_string hnode 0⟩

theorem evaluate_self (hnode : code.node = .selfRef) (hself : env.self? = some o) :
  (Task.evaluate code env).Gives session a (.object o) (a.counting 1)
  := by
  refine evaluate_counted (by rw [evaluateCode, hnode]) ?_
  dsimp only
  rw [hself]
  exact .pure _

/-- A variable that is bound to a slot gives what the slot holds. -/
theorem evaluate_variable (hnode : code.node = .var name) {slot : SlotId}
    (bound : env.scope.lookup name = some (.slot slot)) {deferred : Deferred}
    (filled : a.slots.get? slot = some deferred)
    (gives : deferred.force.Gives session (a.counting 1) v b) :
  (Task.evaluate code env).Gives session a v b
  := by
  refine evaluate_counted (by rw [evaluateCode, hnode]) ?_
  dsimp only
  rw [variableValue, bound]
  refine .bind (b := a.counting 1) (.take ?_) gives
  rw [Operation.apply]
  simp only [State.counting, filled]

/-- A thunk that is pending is computed inside its frame, and where results are kept its value is. -/
theorem force_pending {t : ThunkId} {context : FrameContext}
    (pending : a.thunks[t.index]? = some (.pending (.code context env code)))
    (room : 0 < a.stack.room)
    (gives : (Task.evaluate code env).Gives session
      (({ a with counters := a.counters.count .thunk } : State).within ⟨code.location, context⟩) v b) :
  (Task.force t).Gives session a v
    ((Task.force t).settle session (b.leave (some ⟨code.location, context⟩)) (.ok v))
  := by
  let counted : State := { a with counters := a.counters.count .thunk }
  have enters := State.enter_eq_within (a := counted) room ⟨code.location, context⟩
  have unknown : (Task.force t).known? session a = none := by rw [known?, pending]
  apply of_action unknown
  rw [action, computeThunk, pending]
  exact .bind (.take rfl) (.inFrame enters gives)

/-- A thunk that is ready gives its value. -/
theorem force_ready {t : ThunkId} (ready : a.thunks[t.index]? = some (.ready v)) :
  (Task.force t).Gives session a v a
  := .known (by rw [known?, ready])

/-! ### Expressions with parts -/

theorem evaluate_locals {binds : Slice Bind} {body : NodeId} (hnode : code.node = .locals binds body)
    {inner : Env}
    (bound : (a.counting 1).bindLocals code env (code.arena.readBinds binds) = (inner, b))
    (gives : (Task.evaluate (code.sibling body) inner).Gives session b v c) :
  (Task.evaluate code env).Gives session a v c
  := by
  refine evaluate_counted (by rw [evaluateCode, hnode]) ?_
  refine .bind (b := b) (.take ?_) (Action.Gives.request_iff.mpr gives)
  rw [Operation.apply, bound]

theorem evaluate_conditional {condition whenTrue whenFalse : NodeId}
    (hnode : code.node = .conditional condition whenTrue whenFalse)
    (decides : (Task.evaluate (code.sibling condition) env).Gives session (a.counting 1) (.bool true) b)
    (gives : (Task.evaluate (code.sibling whenTrue) env).Gives session b v c) :
  (Task.evaluate code env).Gives session a v c
  := by
  refine evaluate_counted (by rw [evaluateCode, hnode]) ?_
  refine .bind (Action.Gives.request_iff.mpr decides) (.bind (.pure true) ?_)
  exact Action.Gives.request_iff.mpr gives

/-- The sum of two objects is a new object in which the right one extends the left one. -/
theorem evaluate_add {left right : NodeId} {p : Object} (hnode : code.node = .binary .add left right)
    (first : (Task.evaluate (code.sibling left) env).Gives session (a.counting 1) (.object o) b)
    (second : (Task.evaluate (code.sibling right) env).Gives session b (.object p) c)
    (room : 0 < c.stack.room) :
  ∃ s, (Task.evaluate code env).Gives session a (.object (.combine ⟨c.checks.size⟩ o p)) s ∧
    c.Steady s ∧ s.checks = c.checks.push .notChecked ∧ s.fields = c.fields
  := by
  let frame : Frame := ⟨code.location, .builtin (Builtin.binary .add).name⟩
  let counted : State := { c with counters := c.counters.count .builtinCall }
  let added : State := { counted.within frame with checks := c.checks.push .notChecked }
  have enters := State.enter_eq_within (a := counted) room frame
  have sum : (Task.builtin (.binary .add) [.ready (.object o), .ready (.object p)]).Gives session
      (counted.within frame) (.object (.combine ⟨c.checks.size⟩ o p)) added :=
    .of_action rfl (Action.Gives.iff_resolve.mpr ⟨0, rfl⟩)
  have called : ((Function.builtin (.binary .add)).call [.ready (.object o), .ready (.object p)]
      code.location).Gives session c (.object (.combine ⟨c.checks.size⟩ o p))
        (added.leave (some frame)) := by
    refine Action.Gives.request_iff.mpr (.of_action rfl ?_)
    exact .bind (b := counted) (.take rfl) (.inFrame enters sum)
  refine ⟨added.leave (some frame), evaluate_counted (by rw [evaluateCode, hnode]) ?_, ⟨rfl, rfl⟩,
    rfl, rfl⟩
  refine .bind (Action.Gives.request_iff.mpr first) ?_
  exact .bind (.bind (Action.Gives.request_iff.mpr second) (.pure _)) called

/-- A field of an object, under a name that the interner has given out. -/
theorem evaluate_index {target position : NodeId} (hnode : code.node = .index target position)
    (object : (Task.evaluate (code.sibling target) env).Gives session (a.counting 1) (.object o) b)
    (hname : (code.sibling position).node = .string name) (given : b.names.Gives name)
    (read : (Task.readField o 0 name code.location).Gives session (b.counting 1) v c) :
  (Task.evaluate code env).Gives session a v c
  := by
  have interned : (b.counting 1).names.tryIntern (b.names.lookup name) = .ok (name, b.names) :=
    given.tryIntern_lookup
  refine evaluate_counted (by rw [evaluateCode, hnode]) ?_
  refine .bind (Action.Gives.request_iff.mpr object) ?_
  refine .bind (Action.Gives.request_iff.mpr (evaluate_string hname)) ?_
  refine .bind (.pure _) (.bind (r := name) (b := b.counting 1) (.take ?_)
    (Action.Gives.request_iff.mpr read))
  simp only [Operation.apply, interned]
  rfl

/-- A field of the objects further left. -/
theorem evaluate_superIndex {position : NodeId} (hnode : code.node = .superIndex position)
    (hself : env.self? = some o) (hname : (code.sibling position).node = .string name)
    (given : a.names.Gives name)
    (read : (Task.readField o (addLeaves env.superDepth 1) name code.location).Gives session
      (a.counting 2) v c) :
  (Task.evaluate code env).Gives session a v c
  := by
  have interned : (a.counting 2).names.tryIntern ((a.counting 1).names.lookup name)
      = .ok (name, a.names) := given.tryIntern_lookup
  refine evaluate_counted (by rw [evaluateCode, hnode]) ?_
  dsimp only
  rw [hself]
  refine .bind (Action.Gives.request_iff.mpr (evaluate_string hname)) ?_
  refine .bind (.pure _) (.bind (r := name) (b := a.counting 2) (.take ?_)
    (Action.Gives.request_iff.mpr read))
  change Operation.apply session (a.counting 2) (.intern _) = _
  simp only [Operation.apply, interned]
  rfl

/-! ### Fields -/

/-- A field of an object without assertions gives what its definition gives. -/
theorem readField {minDepth depth : Nat} {l : Leaf} {site : Location} (plain : o.hasAsserts = false)
    (found : o.find? minDepth name = some (l, depth))
    (gives : (Task.field o l depth name site).Gives session a v b) :
  (Task.readField o minDepth name site).Gives session a v b
  := by
  have settled : o.isSettled a = true := by
    rw [Object.isSettled, plain]
    rfl
  have checked : (Task.check o).Gives session a () a := .known (by
    rw [known?, settled]
    rfl)
  apply of_action rfl
  refine .bind (Action.Gives.request_iff.mpr checked) ?_
  rw [found]
  exact Action.Gives.request_iff.mpr gives

/-- A definition whose value is not known is evaluated inside its frame, and where results are kept
the value is. -/
theorem field {depth : Nat} {l : Leaf} {site : Location} {visibility : Visibility}
    (unknown : (Task.field o l depth name site).known? session a = none)
    (defined : l.field? name = some ⟨visibility, .code code false⟩) (room : 0 < a.stack.room)
    (gives : (Task.evaluate code (l.env o depth)).Gives session
      (a.within ⟨code.location, .field name⟩) v b) :
  ∃ s, (Task.field o l depth name site).Gives session a v s ∧ b.Steady s ∧ s.checks = b.checks ∧
    s.fields = if session.sharing then b.fields.insert (o.fieldKey name depth) v else b.fields
  := by
  have enters := State.enter_eq_within room ⟨code.location, .field name⟩
  have computed : (computeField o l depth name site).Gives session a v
      (b.leave (some ⟨code.location, .field name⟩)) := by
    rw [computeField, defined]
    exact .bind (.inFrame enters gives) (.pure _)
  refine ⟨_, of_action unknown computed, ?_⟩
  cases hsharing : session.sharing with
  | false =>
    simp only [settle, hsharing, Bool.false_eq_true, if_false]
    exact ⟨⟨rfl, rfl⟩, rfl, rfl⟩
  | true =>
    simp only [settle, hsharing, if_true]
    exact ⟨⟨rfl, rfl⟩, rfl, rfl⟩

end Task.Gives

/-- The text of a program that evaluates to a truth value. -/
theorem Code.output_gives_bool {session : Session} {code : Code} {a b : State} {d : Bool}
    (room : 0 < a.stack.room)
    (gives : (Task.evaluate code session.base).Gives session (a.within ⟨code.location, .main⟩)
      (.bool d) b) :
  code.output.Gives session a (toString d ++ "\n") (b.leave (some ⟨code.location, .main⟩))
  := by
  have program : (computeProgram code).Gives session (a.within ⟨code.location, .main⟩) (.bool d) b := by
    refine .bind (Action.Gives.iff_resolve.mpr ⟨0, rfl⟩) ?_
    exact .bind (Action.Gives.request_iff.mpr gives) (.pure _)
  have document : (Value.bool d).document.Gives session b (.bool d) b :=
    Action.Gives.request_iff.mpr (.of_action rfl (.pure _))
  have text : (computeOutput code).Gives session (a.within ⟨code.location, .main⟩)
      (toString d ++ "\n") b := by
    refine .bind program (.bind (.bind document (.pure _)) ?_)
    cases d <;> exact .pure _
  exact .inFrame (State.enter_eq_within room _) (.of_action rfl text)

end Jsonnet
