import Mathlib.Logic.Relation
import Jsonnet.Proofs.Clients

/-!
# Data at hand

The parts of data are what can be reached from them without asking a state: the elements of
arrays, the environments of functions and of what waits, the bindings in scope, and the scopes
and members of the literals of objects. At hand in a call is what a state keeps in its stores,
what tasks are given and what they come to. All of it is proper if the calls of the client and
what comes from outside are.
-/

namespace Jsonnet

/-- What stands right inside data. -/
inductive Datum.PartOf : Datum → Datum → Prop where
  | element {elements : Array Deferred} {d : Deferred} (mem : d ∈ elements.toList) :
    PartOf (.deferred d) (.value (.array elements))
  | function (f : Function) : PartOf (.function f) (.value (.function f))
  | scope {o : Object} {l : Leaf} {depth : Nat} (mem : (l, depth) ∈ o.leaves) :
    PartOf (.scope l.scope) (.value (.object o))
  | field {o : Object} {l : Leaf} {depth : Nat} (mem : (l, depth) ∈ o.leaves)
      {field : Name × Field} (defined : field ∈ l.fields) {v : Value}
      (ready : field.2.member = .ready v) :
    PartOf (.value v) (.value (.object o))
  | assertion {o : Object} {l : Leaf} {depth : Nat} (mem : (l, depth) ∈ o.leaves) {v : Value}
      (ready : .ready v ∈ l.asserts) :
    PartOf (.value v) (.value (.object o))
  | closure (e : Env) (params : List Name) (body : Code) :
    PartOf (.env e) (.function (.closure e params body))
  | ready (v : Value) : PartOf (.value v) (.deferred (.ready v))
  | suspended (s : Suspension) : PartOf (.suspension s) (.deferred (.suspended s))
  | code (context : FrameContext) (e : Env) (body : Code) :
    PartOf (.env e) (.suspension (.code context e body))
  | called (f : Function) (ds : List Deferred) (site : Location) :
    PartOf (.function f) (.suspension (.call f ds site))
  | argument {f : Function} {ds : List Deferred} {site : Location} {d : Deferred} (mem : d ∈ ds) :
    PartOf (.deferred d) (.suspension (.call f ds site))
  | bound (d : Deferred) : PartOf (.deferred d) (.binding (.value d))
  | binding {bs : List (Name × Binding)} {s : Scope} {b : Name × Binding} (mem : b ∈ bs) :
    PartOf (.binding b.2) (.scope (.layer bs s))
  | outer (bs : List (Name × Binding)) (s : Scope) : PartOf (.scope s) (.scope (.layer bs s))
  | names (e : Env) : PartOf (.scope e.scope) (.env e)
  | self {e : Env} {o : Object} (self : e.self? = some o) :
    PartOf (.value (.object o)) (.env e)

/-- What stands inside data, at any depth. -/
def Datum.Inside : Datum → Datum → Prop := Relation.ReflTransGen Datum.PartOf

/-- What a state keeps in its stores: the results of thunks and what they wait for, the bindings
of slots, the values of fields, and the code of imports and of external variables. -/
inductive State.Stores (a : State) : Datum → Prop where
  | pending {i : Nat} {s : Suspension} (cell : a.thunks[i]? = some (.pending s)) :
    Stores a (.suspension s)
  | ready {i : Nat} {v : Value} (cell : a.thunks[i]? = some (.ready v)) : Stores a (.value v)
  | slot {i : Nat} {d : Deferred} (bound : a.slots.entries[i]? = some d) : Stores a (.deferred d)
  | field {key : FieldKey} {v : Value} (kept : a.fields[key]? = some v) : Stores a (.value v)
  | imported {directory path : String} {d : Deferred}
      (kept : a.imports.code? directory path = some d) :
    Stores a (.deferred d)
  | external {name : Name} {d : Deferred} (kept : a.externals[name]? = some d) :
    Stores a (.deferred d)

section

variable {S : Standard} {session : Session} {start : Interner} {made : List Object} {a : State}

/-- What a proper state keeps is proper. -/
theorem State.Stores.proper {x : Datum} (h : a.Stores x) (proper : a.IsProper S session start made) :
  Proper S made x
  := by
  cases h with
  | pending cell => exact proper.thunk cell
  | ready cell => exact proper.thunk cell
  | slot bound => exact proper.slot bound
  | field kept => exact proper.field kept
  | imported kept => exact proper.imported kept
  | external kept => exact proper.external kept

/-- The parts of proper data are proper, and so are those of objects that have been made. -/
theorem Datum.PartOf.proper {part whole : Datum} (h : part.PartOf whole)
    (state : a.IsProper S session start made) (proper : Proper S made whole) :
  Proper S made part
  := by
  cases h with
  | element mem => cases proper with | array _ inside => exact inside _ mem
  | function f => cases proper with | function function => exact function
  | scope mem => cases proper with | object ho => exact ((state.object ho).leaf_of_mem mem).scope
  | field mem defined ready =>
    cases proper with
    | object ho =>
      have member := ((state.object ho).leaf_of_mem mem).field _ defined
      rw [ready] at member
      exact member
  | assertion mem ready =>
    cases proper with
    | object ho => exact ((state.object ho).leaf_of_mem mem).assertion _ ready
  | closure e params body => cases proper with | closure env _ => exact env
  | ready v => cases proper with | ready value => exact value
  | suspended s => cases proper with | suspended suspension => exact suspension
  | code context e body => cases proper with | code env _ => exact env
  | called f ds site => cases proper with | call function _ => exact function
  | argument mem => cases proper with | call _ arguments => exact arguments _ mem
  | bound d => cases proper with | bound deferred => exact deferred
  | binding mem => cases proper with | layer bindings _ => exact bindings _ mem
  | outer bs s => cases proper with | layer _ outer => exact outer
  | names e => cases proper with | env scope _ => exact scope
  | self self => cases proper with | env _ made => exact .object (made _ self)

/-- What stands inside proper data is proper. -/
theorem Datum.Inside.proper {part whole : Datum} (h : part.Inside whole)
    (state : a.IsProper S session start made) (proper : Proper S made whole) :
  Proper S made part
  := by
  induction h using Relation.ReflTransGen.head_induction_on with
  | refl => exact proper
  | head part _ ih => exact part.proper state ih

end

/-! ### Tasks and calls -/

/-- The data that a task is given. -/
def Task.data : Task → List Datum
  | .evaluate _ env => [.env env]
  | .call f arguments _ => .function f :: arguments.map .deferred
  | .builtin _ arguments => arguments.map .deferred
  | .check o | .readField o _ _ _ | .field o _ _ _ _ => [.value (.object o)]
  | .document v => [.value v]
  | .equal x y | .order _ x y => [.value x, .value y]
  | .force _ | .program _ | .output _ => []

/-- The data that a task comes to. -/
def Task.comesTo : (task : Task) → task.Result → List Datum
  | .evaluate .., v | .force _, v | .call .., v | .builtin .., v | .readField .., v
  | .field .., v | .program _, v => [.value v]
  | .check _, _ | .document _, _ | .equal .., _ | .order .., _ | .output _, _ => []

/-- The data at hand when a call comes to a state: the values that the client has been given,
what the state keeps, what the tasks that are going on or about to be carried out have been given,
and what a task that ends in the state comes to. The call need not come to an end. -/
inductive Call.AtHand (session : Session) (values : List Value) (call : Call) (a s : State) :
    Datum → Prop where
  | given {v : Value} (mem : v ∈ values) (visits : (call.action session).Visits session a s) :
    AtHand session values call a s (.value v)
  | kept {x : Datum} (visits : (call.action session).Visits session a s) (stores : s.Stores x) :
    AtHand session values call a s x
  | going {above : List Task} {task outer : Task} {x : Datum}
      (moment : (call.action session).Moment session a above task s)
      (mem : outer ∈ task :: above) (data : x ∈ outer.data) :
    AtHand session values call a s x
  | ended {above : List Task} {task : Task} {t : State} {fuel : Nat} {r : task.Result} {x : Datum}
      (moment : (call.action session).Moment session a above task t)
      (ends : task.run session fuel t = some (.ok r, s)) (result : x ∈ task.comesTo r) :
    AtHand session values call a s x

/-- When data are at hand in a call, the import cache has only been added to. -/
theorem Call.AtHand.imports {session : Session} {values : List Value} {call : Call} {a s : State}
    {x : Datum} (h : call.AtHand session values a s x) :
  a.imports.Extends s.imports
  := by
  cases h with
  | given _ visits => exact visits.imports
  | kept visits _ => exact visits.imports
  | going moment _ _ => exact moment.imports
  | ended moment ends _ =>
    obtain ⟨_, ends⟩ := Task.run_iff.mp ⟨_, ends⟩
    exact moment.imports.trans (Task.grows ends).imports

section

variable {S : Standard} {session : Session} {start : Interner} {imports : ImportCache Deferred}
  {made : List Object} {a s : State}

/-- What a task takes is proper if all of it is. -/
theorem Task.Takes.data {task : Task} (h : task.Takes S session made) :
  ∀ x ∈ task.data, Proper S made x
  := by
  cases task with
  | evaluate code env => exact List.forall_mem_singleton.mpr h.1
  | call f arguments site => exact List.forall_mem_cons.mpr ⟨h.1, List.forall_mem_map.mpr h.2⟩
  | builtin b arguments => exact List.forall_mem_map.mpr h
  | check o => exact List.forall_mem_singleton.mpr (.object h)
  | readField o minDepth name site => exact List.forall_mem_singleton.mpr (.object h)
  | field o l depth name site => exact List.forall_mem_singleton.mpr (.object h.1)
  | document v => exact List.forall_mem_singleton.mpr h
  | equal x y | order operator x y =>
    exact List.forall_mem_cons.mpr ⟨h.1, List.forall_mem_singleton.mpr h.2⟩
  | force t | program code | output code => exact List.forall_mem_nil _

/-- What a task comes to is proper if its result is. -/
theorem Task.Yields.comesTo {task : Task} {r : task.Result} (h : task.Yields S made r) :
  ∀ x ∈ task.comesTo r, Proper S made x
  := by
  cases task with
  | check | document | equal | order | output => exact List.forall_mem_nil _
  | _ => exact List.forall_mem_singleton.mpr h

/-- Whatever calls of a client came to, the state and the values that the client has been given
are proper, if the calls and what comes from outside meet the standard. -/
theorem Session.History.proper {names : Interner} (prepared : session.Prepared names)
    (hfields : ∀ l ∈ session.library.literals, S.fields (l.fields.map Prod.fst))
    (hle : start ≤ names) (supplies : session.Supplies S start imports) {limit : Nat}
    {calls : List (Call × State)} {values : List Value}
    (h : session.History (.new names limit) calls a values)
    (meets : ∀ c ∈ calls, c.1.Meets S)
    (modest : ∀ c ∈ calls, (c.1.action session).Modest S session c.2)
    (within : a.imports.Extends imports) :
  ∃ made, a.IsProper S session start made ∧ ∀ v ∈ values, Proper S made (.value v)
  := by
  induction h with
  | start =>
    have proper := prepared.isProper hfields hle limit
    refine ⟨_, proper, ?_⟩
    intro v hv
    cases List.mem_singleton.mp hv
    exact .object proper.library
  | names before le ih =>
    obtain ⟨made, proper, hvalues⟩ := ih meets modest within
    exact ⟨made, proper.congr le rfl rfl rfl rfl rfl rfl, hvalues⟩
  | @call calls a b values call fuel outcome before uses run ih =>
    obtain ⟨_, resolved⟩ := Action.run_iff.mp ⟨fuel, run⟩
    obtain ⟨made, proper, hvalues⟩ :=
      ih (fun c hc => meets c (List.mem_cons_of_mem _ hc))
        (fun c hc => modest c (List.mem_cons_of_mem _ hc))
        ((Progress.grows Task.grows resolved).imports.trans within)
    have makes := uses.makes_proper proper.library hvalues (meets _ List.mem_cons_self)
    obtain ⟨last, hlast, hb, hgiven, -⟩ :=
      makes.run_proper supplies proper (modest _ List.mem_cons_self) run within
    refine ⟨last, hb, ?_⟩
    intro v hv
    obtain hv | hv := List.mem_append.mp hv
    · cases outcome with
      | ok r => exact hgiven r rfl v hv
      | error failure => cases call <;> cases hv
    · exact (hvalues v hv).mono hlast

/-- What is at hand in a call of a client is proper, and so is the state that it is at hand in, if
the calls and what comes from outside meet the standard. -/
theorem Call.AtHand.proper (supplies : session.Supplies S start imports)
    (proper : a.IsProper S session start made) {values : List Value}
    (hvalues : ∀ v ∈ values, Proper S made (.value v)) {call : Call} (uses : call.Uses values)
    (meets : call.Meets S) (modest : (call.action session).Modest S session a) {x : Datum}
    (h : call.AtHand session values a s x) (within : s.imports.Extends imports) :
  ∃ more, s.IsProper S session start more ∧ Proper S more x
  := by
  have makes := uses.makes_proper proper.library hvalues meets
  cases h with
  | given mem visits =>
    obtain ⟨more, hle, hs⟩ := visits.proper supplies makes proper modest within
    exact ⟨more, hs, (hvalues _ mem).mono hle⟩
  | kept visits stores =>
    obtain ⟨more, -, hs⟩ := visits.proper supplies makes proper modest within
    exact ⟨more, hs, stores.proper hs⟩
  | going moment mem data =>
    obtain ⟨more, -, hs, htask, habove⟩ := moment.proper supplies makes proper modest within
    refine ⟨more, hs, ?_⟩
    obtain rfl | mem := List.mem_cons.mp mem
    · exact htask.data _ data
    · exact (habove _ mem).data _ data
  | ended moment ends result =>
    obtain ⟨_, ends⟩ := Task.run_iff.mp ⟨_, ends⟩
    obtain ⟨more, -, ht, htask, -⟩ :=
      moment.proper supplies makes proper modest ((Task.grows ends).imports.trans within)
    obtain ⟨last, -, hs, yields, -⟩ :=
      Task.performs supplies _ htask ht (modest.moment moment) ends within
    exact ⟨last, hs, (yields _ rfl).comesTo _ result⟩

end

end Jsonnet
