import Jsonnet.Proofs.Worlds

/-!
# Computations in lockstep

Two computations are in lockstep if they take related operations and ask for related
tasks, one after the other, as long as what they get back is related in a larger world.
Every kind of operation and every kind of task comes with the relation of its results.
-/

namespace Jsonnet

/-! ### Relations of results -/

section

variable {τ : Terms}

/-- Results that are the same. -/
def Same {α : Type} (_ : World τ) (a b : α) : Prop := a = b

/-- Values that match as results. -/
def Matching (w : World τ) (v v' : Value) : Prop := v.Matches w.toPairing v'

/-- Alike deferred values. -/
def AlikeDeferred (w : World τ) (d d' : Deferred) : Prop :=
  Alike w.toPairing (.deferred d) (.deferred d')

/-- Alike lists of deferred values. -/
def AlikeDeferreds (w : World τ) (ds ds' : List Deferred) : Prop :=
  Alike w.toPairing (.deferreds ds) (.deferreds ds')

/-- Alike environments. -/
def AlikeEnv (w : World τ) (e e' : Env) : Prop := Alike w.toPairing (.env e) (.env e')

/-- Objects that are paired. -/
def Paired (w : World τ) (o p : Object) : Prop := w.object o p

/-- Equal names that both runs know. -/
def KnownName (w : World τ) (n n' : Name) : Prop := n = n' ∧ w.name n

/-- Equal lists of names that both runs know. -/
def KnownNames (w : World τ) (ns ns' : List Name) : Prop := ns = ns' ∧ ∀ n ∈ ns, w.name n

/-- Alike environments that bind some names and whatever another one binds. -/
structure Opened (names : List Name) (outer : Env) (w : World τ) (e e' : Env) : Prop where
  env : Alike w.toPairing (.env e) (.env e')
  binds : ∀ name, name ∈ names ∨ outer.scope.Binds name → e.scope.Binds name
  self : e.self? = outer.self?

end

/-! ### Operations -/

/-- Related operations, and the relation of their results. -/
inductive Operation.Related (session : Session) {τ : Terms} (w : World τ) : (op op' : Operation) →
    (World τ → op.Result → op'.Result → Prop) → Prop where
  | count (step : Step) : Related session w (.count step) (.count step) (@Same τ Unit)
  | text {name : Name} (known : w.name name) : Related session w (.text name) (.text name) (@Same τ String)
  | intern (s : String) : Related session w (.intern s) (.intern s) KnownName
  | internAll (strings : List String) :
    Related session w (.internAll strings) (.internAll strings) KnownNames
  | sort {fields : List Name} (known : ∀ name ∈ fields, w.name name) :
    Related session w (.sort fields) (.sort fields) KnownNames
  | literal {s s' : Scope} {fields : List (Name × Field)} {asserts : List Member}
      (scope : Alike w.toPairing (.scope s) (.scope s'))
      (name : ∀ field ∈ fields, w.name field.1)
      (member : ∀ field ∈ fields, field.2.member.Fits w.toPairing s)
      (assertion : ∀ member ∈ asserts, member.Fits w.toPairing s) :
    Related session w (.literal s fields asserts) (.literal s' fields asserts) Paired
  | combine {l r l' r' : Object} (left : w.object l l') (right : w.object r r') :
    Related session w (.combine l r) (.combine l' r') Paired
  | share {ss ss' : List Suspension}
      (alike : List.Forall₂
        (fun s s' => Alike w.toPairing (.suspension s) (.suspension s')) ss ss') :
    Related session w (.share ss) (.share ss') AlikeDeferreds
  | bindLocals {code : Code} {e e' : Env} (binds : List Bind) (named : code.Named w.name)
      (env : Alike w.toPairing (.env e) (.env e'))
      (fits : ∀ bind ∈ binds, (code.sibling bind.body).Fits τ
        (fun name => name ∈ binds.map Bind.name ∨ e.scope.Binds name) e.self?.isSome) :
    Related session w (.bindLocals code e binds) (.bindLocals code e' binds)
      (Opened (binds.map Bind.name) e)
  | slot {s s' : SlotId} (slot : w.slot s s') : Related session w (.slot s) (.slot s') AlikeDeferred
  | importText (directory path : String) {site site' : Location}
      (same_site : τ.Agrees site site') :
    Related session w (.importText directory path site) (.importText directory path site')
      (@Same τ ImportedFile)
  | imported (directory : String) {path : Name} {site site' : Location}
      (same_site : τ.Agrees site site') (known : w.name path) :
    Related session w (.imported directory path site) (.imported directory path site') AlikeDeferred
  | external {name : Name} {given : External}
      (defined : session.externals.reverse.lookup name = some given) (known : w.name name) :
    Related session w (.external name given) (.external name given) AlikeDeferred
  | argument {name : Name} {given : External}
      (defined : session.arguments.lookup name = some given) (known : w.name name) :
    Related session w (.argument name given) (.argument name given) AlikeDeferred
  | raise {cause : Cause} {site site' : Location} (same_site : τ.Agrees site site')
      (allowed : τ.Allows (.runtime cause none)) :
    Related session w (.raise cause site) (.raise cause site') fun _ _ _ => False
  | fail {f f' : Failure} (fails : τ.Fails f f') :
    Related session w (.fail f) (.fail f') fun _ _ _ => False

/-! ### Tasks -/

/-- Related tasks, and the relation of their results. A check leaves an object that may be
`self`. -/
inductive Task.Related (session : Session) {τ : Terms} (w : World τ) : (task task' : Task) →
    (World τ → task.Result → task'.Result → Prop) → Prop where
  | evaluate {code : Code} {e e' : Env} (named : code.Named w.name) (fits : code.FitsIn τ e)
      (env : Alike w.toPairing (.env e) (.env e')) :
    Related session w (.evaluate code e) (.evaluate code e') Matching
  | force {t t' : ThunkId} (thunk : w.thunk t t') :
    Related session w (.force t) (.force t') Matching
  | call {f g : Function} {ds ds' : List Deferred} {site site' : Location}
      (same_site : τ.Agrees site site') (function : Alike w.toPairing (.function f) (.function g))
      (arguments : Alike w.toPairing (.deferreds ds) (.deferreds ds')) :
    Related session w (.call f ds site) (.call g ds' site') Matching
  | callBuiltin (b : Builtin) {ds ds' : List Deferred} {site site' : Location}
      (same_site : τ.Agrees site site')
      (arguments : List.Forall₂ (Deferred.Matches w.toPairing) ds ds') :
    Related session w (.call (.builtin b) ds site) (.call (.builtin b) ds' site') Matching
  | builtin (b : Builtin) {ds ds' : List Deferred} (arity : ds.length = b.arity)
      (arguments : List.Forall₂ (Deferred.Matches w.toPairing) ds ds') :
    Related session w (.builtin b ds) (.builtin b ds') Matching
  | check {o p : Object} (object : w.object o p) :
    Related session w (.check o) (.check p) fun w' _ _ => w'.self o p
  | readField {o p : Object} (minDepth : Nat) {name : Name} {site site' : Location}
      (same_site : τ.Agrees site site') (object : w.object o p) (known : w.name name) :
    Related session w (.readField o minDepth name site) (.readField p minDepth name site')
      Matching
  | field {o p : Object} {l l' : Leaf} {minDepth depth : Nat} {name : Name}
      {site site' : Location} (same_site : τ.Agrees site site') (self : w.self o p) (known : w.name name)
      (hit : o.find? minDepth name = some (l, depth))
      (hit' : p.find? minDepth name = some (l', depth)) :
    Related session w (.field o l depth name site) (.field p l' depth name site') Matching
  | document {v v' : Value} (value : v.Matches w.toPairing v') :
    Related session w (.document v) (.document v') (@Same τ Document)
  | equal {x y x' y' : Value} (left : x.Matches w.toPairing x')
      (right : y.Matches w.toPairing y') :
    Related session w (.equal x y) (.equal x' y') (@Same τ Bool)
  | order (operator : BinaryOp) {x y x' y' : Value} (left : x.Matches w.toPairing x')
      (right : y.Matches w.toPairing y') :
    Related session w (.order operator x y) (.order operator x' y')
      (@Same τ Ordering)
  | program {code : Code} (named : code.Named w.name) (fits : code.FitsIn τ session.base)
      (base : Alike w.toPairing (.env session.base) (.env session.base))
      (arguments : ∀ given ∈ session.arguments, w.name given.1) :
    Related session w (.program code) (.program code) Matching
  | output {code : Code} (named : code.Named w.name) (fits : code.FitsIn τ session.base)
      (base : Alike w.toPairing (.env session.base) (.env session.base))
      (arguments : ∀ given ∈ session.arguments, w.name given.1) :
    Related session w (.output code) (.output code) (@Same τ String)

/-! ### Computations -/

/-- Computations in lockstep, with a relation of their results. -/
inductive Progress.Related (session : Session) {τ : Terms} {α β : Type} (R : World τ → α → β → Prop) :
    World τ → Progress α → Progress β → Prop where
  | finished {w : World τ} {a : α} {b : β} (result : R w a b) :
    Related session R w (.finished a) (.finished b)
  | step {w : World τ} {op op' : Operation} {S : World τ → op.Result → op'.Result → Prop}
      {rest : op.Result → Progress α} {rest' : op'.Result → Progress β}
      (operation : op.Related session w op' S)
      (next : ∀ w', w ≤ w' → ∀ r r', S w' r r' → Related session R w' (rest r) (rest' r')) :
    Related session R w (.step op rest) (.step op' rest')
  | wait {w : World τ} {frame? frame?' : Option Frame} {t t' : Task}
      {S : World τ → t.Result → t'.Result → Prop}
      {rest : t.Result → Progress α} {rest' : t'.Result → Progress β}
      (frame : frame?.isSome = frame?'.isSome) (same_frame : τ.Agrees frame? frame?') (task : t.Related session w t' S)
      (next : ∀ w', w ≤ w' → ∀ r r', S w' r r' → Related session R w' (rest r) (rest' r')) :
    Related session R w (.wait frame? t rest) (.wait frame?' t' rest')

section

variable {session : Session} {τ : Terms} {α β γ δ : Type} {R : World τ → α → β → Prop}
  {S : World τ → γ → δ → Prop} {w : World τ}

/-- Computations that go on from results in lockstep. -/
theorem Progress.Related.bind {p : Progress α} {q : Progress β} {f : α → Progress γ}
    {g : β → Progress δ} (h : p.Related session R w q)
    (hnext : ∀ w', w ≤ w' → ∀ a b, R w' a b → (f a).Related session S w' (g b)) :
  (p.bind f).Related session S w (q.bind g)
  := by
  induction h with
  | finished result => exact hnext _ le_rfl _ _ result
  | step operation next ih =>
    apply Progress.Related.step operation
    intro w' hle r r' hr
    apply ih w' hle r r' hr
    intro w'' hle' a b
    exact hnext w'' (hle.trans hle') a b
  | wait frame same_frame task next ih =>
    apply Progress.Related.wait frame same_frame task
    intro w' hle r r' hr
    apply ih w' hle r r' hr
    intro w'' hle' a b
    exact hnext w'' (hle.trans hle') a b

/-- Results that are related in one way are so in a way that follows. -/
theorem Progress.Related.imp {R' : World τ → α → β → Prop} {p : Progress α} {q : Progress β}
    (h : p.Related session R w q) (hR : ∀ w' a b, R w' a b → R' w' a b) :
  p.Related session R' w q
  := by
  induction h with
  | finished result => exact .finished (hR _ _ _ result)
  | step operation next ih => exact .step operation ih
  | wait frame same_frame task next ih => exact .wait frame same_frame task ih

end

/-! ### Actions -/

/-- Sessions that differ in their limits only, and in whether results are kept. -/
structure Session.Agrees (session session' : Session) : Prop where
  importer : session'.importer = session.importer
  frontEnd : session'.frontEnd = session.frontEnd
  externals : session'.externals = session.externals
  arguments : session'.arguments = session.arguments
  library : session'.library = session.library
  libraryName : session'.libraryName = session.libraryName
  argumentName : session'.argumentName = session.argumentName
  elementName : session'.elementName = session.elementName
  rightOperandName : session'.rightOperandName = session.rightOperandName

theorem Session.Agrees.refl (session : Session) :
  session.Agrees session
  := ⟨rfl, rfl, rfl, rfl, rfl, rfl, rfl, rfl, rfl⟩

theorem Session.Agrees.base {session session' : Session} (h : session.Agrees session') :
  session'.base = session.base
  := by
  rw [Session.base, Session.base, h.library, h.libraryName]

/-- The environment of a file is alike wherever the library may be `self`. -/
theorem base_alike {session : Session} {τ : Terms} {u : Pairing τ}
    (h : u.self session.library session.library) :
  Alike u (.env session.base) (.env session.base)
  := .outside (.layer (.bind (.bound (.ready (.object h))) .unbound) .empty)

/-- Actions whose computations are in lockstep. -/
def Action.Related (session session' : Session) {τ : Terms} {α β : Type} (R : World τ → α → β → Prop)
    (w : World τ) (x : Action α) (y : Action β) : Prop :=
  (x session).Related session R w (y session')

namespace Action.Related

variable {session session' : Session} {τ : Terms} {α β γ δ : Type} {R : World τ → α → β → Prop}
  {S : World τ → γ → δ → Prop} {w : World τ}

theorem pure {a : α} {b : β} (h : R w a b) :
  Action.Related session session' R w (Pure.pure a) (Pure.pure b)
  := .finished h

theorem bind {x : Action α} {y : Action β} {f : α → Action γ} {g : β → Action δ}
    (h : Action.Related session session' R w x y)
    (hnext : ∀ w', w ≤ w' → ∀ a b, R w' a b → Action.Related session session' S w' (f a) (g b)) :
  Action.Related session session' S w (x >>= f) (y >>= g)
  := Progress.Related.bind h hnext

/-- Going on with the sessions. -/
theorem session_bind {f : Session → Action γ} {g : Session → Action δ}
    (h : Action.Related session session' S w (f session) (g session')) :
  Action.Related session session' S w (Action.session >>= f) (Action.session >>= g)
  := h

theorem take {op op' : Operation} {T : World τ → op.Result → op'.Result → Prop}
    (h : op.Related session w op' T) :
  Action.Related session session' T w (Action.take op) (Action.take op')
  := .step h fun _ _ _ _ hr => .finished hr

theorem fail {f f' : Failure} (h : τ.Fails f f') :
  Action.Related session session' R w (Action.fail f) (Action.fail f')
  := .step (.fail h) fun _ _ _ _ hr => hr.elim

theorem raise {cause : Cause} {site site' : Location} (same_site : τ.Agrees site site')
    (allowed : τ.Allows (.runtime cause none)) :
  Action.Related session session' R w (Action.raise cause site) (Action.raise cause site')
  := .step (.raise same_site allowed) fun _ _ _ _ hr => hr.elim

theorem raiseHere {cause : Cause} (allowed : τ.Allows (.runtime cause none)) :
  Action.Related session session' R w (Action.raiseHere cause) (Action.raiseHere cause)
  := raise Terms.agrees_rfl allowed

theorem request {task task' : Task} {T : World τ → task.Result → task'.Result → Prop}
    (h : task.Related session w task' T) :
  Action.Related session session' T w (Action.request task) (Action.request task')
  := .wait rfl Terms.agrees_rfl h fun _ _ _ _ hr => .finished hr

theorem inFrame {frame frame' : Frame} (same : τ.Agrees frame frame') {task task' : Task}
    {T : World τ → task.Result → task'.Result → Prop} (h : task.Related session w task' T) :
  Action.Related session session' T w (Action.inFrame frame task)
    (Action.inFrame frame' task')
  := .wait rfl (fun hexact => congrArg some (same hexact)) h fun _ _ _ _ hr => .finished hr

end Action.Related

end Jsonnet
