import Jsonnet.Proofs.AkinFields
import Jsonnet.Proofs.Literals

/-!
# Computations in parallel

Two computations are in parallel if they take akin operations and ask for akin tasks, one after
the other, as long as what they get back is akin under a larger bond. Every kind of operation
and every kind of task comes with the relation of its results. Which tasks a computation may ask
for is told along the way. Only the names of fields, if they are string literals, may be computed in
different orders.
-/

namespace Jsonnet

/-! ### Results -/

/-- Results that are the same. -/
def Identical {α : Type} (_ : Bond) (x y : α) : Prop := x = y

/-- Results that are akin as items of a kind. -/
def AkinAs (κ : Kinship) {α : Type} (item : α → Item) (w : Bond) (x y : α) : Prop :=
  Akin κ w (item x) (item y)

/-- Names that stand for each other. -/
def NameAs (w : Bond) (n n' : Name) : Prop := w.name n n'

/-- Lists of names that stand for each other. -/
def NamesAs (w : Bond) (ns ns' : List Name) : Prop := List.Forall₂ w.name ns ns'

namespace Partly

variable {α β : Type} {R : α → β → Prop} {ps : List Prop} {xs : List α} {ys : List β}

theorem length_eq (h : Partly R ps xs ys) :
  xs.length = ys.length
  := by
  induction h with
  | nil => rfl
  | cons _ _ ih => rw [List.length_cons, List.length_cons, ih]

theorem length_left (h : Partly R ps xs ys) :
  ps.length = xs.length
  := by
  induction h with
  | nil => rfl
  | cons _ _ ih => rw [List.length_cons, List.length_cons, ih]

theorem imp {S : α → β → Prop} (h : Partly R ps xs ys) (hRS : ∀ x y, R x y → S x y) :
  Partly S ps xs ys
  := by
  induction h with
  | nil => exact .nil
  | cons head _ ih => exact .cons (fun hp => hRS _ _ (head hp)) ih

theorem map {γ δ : Type} {f : α → γ} {g : β → δ} {S : γ → δ → Prop} (h : Partly R ps xs ys)
    (hRS : ∀ x y, R x y → S (f x) (g y)) :
  Partly S ps (xs.map f) (ys.map g)
  := by
  induction h with
  | nil => exact .nil
  | cons head _ ih => exact .cons (fun hp => hRS _ _ (head hp)) ih

/-- All things are related that are related one by one. -/
theorem of_forall₂ (h : List.Forall₂ R xs ys) (hp : ps.length = xs.length) :
  Partly R ps xs ys
  := by
  induction h generalizing ps with
  | nil =>
    rw [List.length_eq_zero_iff.mp hp]
    exact .nil
  | cons head _ ih =>
    cases ps with
    | nil => cases hp
    | cons p ps => exact .cons (fun _ => head) (ih (Nat.succ.inj hp))

/-- Things that belong to related things. -/
theorem map_of_forall₂ {γ δ : Type} {S : γ → δ → Prop} {us : List γ} {vs : List δ}
    (h : List.Forall₂ S us vs) {p : γ → Prop} {f : γ → α} {g : δ → β}
    (hRS : ∀ u v, S u v → p u → R (f u) (g v)) :
  Partly R (us.map p) (us.map f) (vs.map g)
  := by
  induction h with
  | nil => exact .nil
  | cons head _ ih => exact .cons (hRS _ _ head) ih

/-- If everything is asked for, all things are related. -/
theorem forall₂ (h : Partly R ps xs ys) (hp : ∀ p ∈ ps, p) :
  List.Forall₂ R xs ys
  := by
  induction h with
  | nil => exact .nil
  | cons head _ ih =>
    exact .cons (head (hp _ List.mem_cons_self)) (ih fun p h => hp p (List.mem_cons_of_mem _ h))

/-- Where nothing is asked for, nothing but the number matters. -/
theorem of_length (R : α → β → Prop) (h : xs.length = ys.length) :
  Partly R (xs.map fun _ => False) xs ys
  := by
  induction xs generalizing ys with
  | nil =>
    rw [List.length_eq_zero_iff.mp h.symm]
    exact .nil
  | cons x xs ih =>
    cases ys with
    | nil => cases h
    | cons y ys => exact .cons False.elim (ih (Nat.succ.inj h))

end Partly

/-! ### Sessions -/

/-- Sessions that are akin. Nothing is said about their front ends. -/
structure Session.Akin (κ : Kinship) (w : Bond) (session session' : Session) : Prop where
  sharing : session.sharing = session'.sharing
  importer : session.importer = session'.importer
  externals : List.Forall₂ (fun x y => w.name x.1 y.1 ∧ x.2 = y.2) session.externals
    session'.externals
  arguments : List.Forall₂ (fun x y => w.name x.1 y.1 ∧ x.2 = y.2) session.arguments
    session'.arguments
  library : Jsonnet.Akin κ w (.object session.library) (.object session'.library)
  libraryName : w.name session.libraryName session'.libraryName
  argumentName : w.name session.argumentName session'.argumentName
  elementName : w.name session.elementName session'.elementName
  rightOperandName : w.name session.rightOperandName session'.rightOperandName

namespace Session.Akin

variable {κ : Kinship} {u w : Bond} {session session' : Session}

theorem mono (h : session.Akin κ u session') (hle : u ≤ w) :
  session.Akin κ w session'
  where
  sharing := h.sharing
  importer := h.importer
  externals := h.externals.imp fun _ _ hx => ⟨Bond.name_mono hle hx.1, hx.2⟩
  arguments := h.arguments.imp fun _ _ hx => ⟨Bond.name_mono hle hx.1, hx.2⟩
  library := h.library.mono hle
  libraryName := Bond.name_mono hle h.libraryName
  argumentName := Bond.name_mono hle h.argumentName
  elementName := Bond.name_mono hle h.elementName
  rightOperandName := Bond.name_mono hle h.rightOperandName

/-- The environments of files are akin, whatever is live in them. -/
theorem base (h : session.Akin κ w session') (live : Name → Prop) :
  Jsonnet.Akin κ w (.env live session.base) (.env live session'.base)
  := .outside (.layer (.bind h.libraryName (.bound (.ready (.object h.library))) .unbound) .empty
    fun _ => .inr)

end Session.Akin

/-! ### Operations -/

/-- Akin operations, and the relation of their results. -/
inductive Operation.Akin (κ : Kinship) (w : Bond) : (op op' : Operation) →
    (Bond → op.Result → op'.Result → Prop) → Prop where
  | count (step : Step) : Akin κ w (.count step) (.count step) (@Identical Unit)
  | text {n n' : Name} (name : w.name n n') : Akin κ w (.text n) (.text n') (@Identical String)
  | intern (s : String) : Akin κ w (.intern s) (.intern s) NameAs
  | internAll (strings : List String) : Akin κ w (.internAll strings) (.internAll strings) NamesAs
  | sort {ns ms ns' : List Name} (names : List.Forall₂ w.name ns ms)
      (order : Reorders κ.reorders id ms ns') : Akin κ w (.sort ns) (.sort ns') NamesAs
  | literal {live : Name → Prop} {s s' : Scope} {fs gs fs' : List (Name × Field)}
      {ms ms' : List Member} (scope : Jsonnet.Akin κ w (.scope live s) (.scope live s'))
      (fields : Jsonnet.Akin κ w (.fields live fs) (.fields live gs))
      (order : Reorders κ.reorders Prod.fst gs fs')
      (asserts : Jsonnet.Akin κ w (.members live ms) (.members live ms')) :
    Akin κ w (.literal s fs ms) (.literal s' fs' ms') (@AkinAs κ Object .object)
  | combine {l r l' r' : Object} (left : Jsonnet.Akin κ w (.object l) (.object l'))
      (right : Jsonnet.Akin κ w (.object r) (.object r')) :
    Akin κ w (.combine l r) (.combine l' r') (@AkinAs κ Object .object)
  | share {live : List Prop} {ss ss' : List Suspension}
      (kin : Partly (AkinAs κ .suspension w) live ss ss') :
    Akin κ w (.share ss) (.share ss') fun w' => Partly (AkinAs κ .deferred w') live
  | bindLocals {live inner : Name → Prop} {c c' : Code} {e e' : Env} {bs bs' : List Bind}
      (env : Jsonnet.Akin κ w (.env live e) (.env live e'))
      (binds : List.Forall₂ (Bind.Akin w.name
        (fun live id id' => κ.code w.name live (c.sibling id) (c'.sibling id')) inner) bs bs')
      (outer : ∀ n, inner n → n ∈ bs.map Bind.name ∨ live n)
      (alive : ¬ κ.dead → ∀ b ∈ bs, inner b.name) :
    Akin κ w (.bindLocals c e bs) (.bindLocals c' e' bs') (@AkinAs κ Env (.env inner))
  | slot {s : SlotId} (alive : w.slot s) : Akin κ w (.slot s) (.slot s) (@AkinAs κ Deferred .deferred)
  | importText (directory path : String) {l l' : Location} (site : l.Akin w.name l') :
    Akin κ w (.importText directory path l) (.importText directory path l')
      (@Identical ImportedFile)
  | imported (directory : String) {p p' : Name} {l l' : Location} (path : w.name p p')
      (site : l.Akin w.name l') :
    Akin κ w (.imported directory p l) (.imported directory p' l') (@AkinAs κ Deferred .deferred)
  | external {n n' : Name} (name : w.name n n') (given : External) :
    Akin κ w (.external n given) (.external n' given) (@AkinAs κ Deferred .deferred)
  | argument {n n' : Name} (name : w.name n n') (given : External) :
    Akin κ w (.argument n given) (.argument n' given) (@AkinAs κ Deferred .deferred)
  | raise (cause : Cause) {l l' : Location} (site : l.Akin w.name l') :
    Akin κ w (.raise cause l) (.raise cause l') fun _ _ _ => False
  | fail {f f' : Failure} (failure : f.Akin w.name f') :
    Akin κ w (.fail f) (.fail f') fun _ _ _ => False

/-! ### Tasks -/

/-- Akin tasks, and the relation of their results. A function literal that is called at once
gives the same closure as ever, and what it is called with for a dead parameter does not
matter. -/
inductive Task.Akin (κ : Kinship) (w : Bond) : (task task' : Task) →
    (Bond → task.Result → task'.Result → Prop) → Prop where
  | evaluate {live : Name → Prop} {c c' : Code} {e e' : Env}
      (env : Jsonnet.Akin κ w (.env live e) (.env live e')) (code : κ.code w.name live c c') :
    Akin κ w (.evaluate c e) (.evaluate c' e') (@AkinAs κ Value .value)
  | literal {c c' : Code} (e e' : Env) {ps ps' : Slice Name} {b b' : NodeId}
      (literal : c.node = .function ps b) (literal' : c'.node = .function ps' b') :
    Akin κ w (.evaluate c e) (.evaluate c' e') fun _ v v' =>
      v = .function (.closure e (c.arena.readParams ps) (c.sibling b)) ∧
        v' = .function (.closure e' (c'.arena.readParams ps') (c'.sibling b'))
  | force {t : ThunkId} (alive : w.thunk t) : Akin κ w (.force t) (.force t) (@AkinAs κ Value .value)
  | call {f g : Function} {ds ds' : List Deferred} {l l' : Location}
      (function : Jsonnet.Akin κ w (.function f) (.function g))
      (arguments : Jsonnet.Akin κ w (.deferreds ds) (.deferreds ds')) (site : l.Akin w.name l') :
    Akin κ w (.call f ds l) (.call g ds' l') (@AkinAs κ Value .value)
  | callLiteral {live inner : Name → Prop} {e e' : Env} {ps ps' : List Name} {c c' : Code}
      {ds ds' : List Deferred} {l l' : Location} (env : Jsonnet.Akin κ w (.env live e) (.env live e'))
      (params : List.Forall₂ w.name ps ps') (body : κ.code w.name inner c c')
      (outer : ∀ n, inner n → n ∈ ps ∨ live n) (length : ds.length = ds'.length)
      (arguments : ds.length = ps.length → Partly (AkinAs κ .deferred w) (ps.map inner) ds ds')
      (site : l.Akin w.name l') :
    Akin κ w (.call (.closure e ps c) ds l) (.call (.closure e' ps' c') ds' l') (@AkinAs κ Value .value)
  | builtin (b : Builtin) {ds ds' : List Deferred}
      (arguments : Jsonnet.Akin κ w (.deferreds ds) (.deferreds ds')) :
    Akin κ w (.builtin b ds) (.builtin b ds') (@AkinAs κ Value .value)
  | check {o p : Object} (object : Jsonnet.Akin κ w (.object o) (.object p)) :
    Akin κ w (.check o) (.check p) (@Identical Unit)
  | readField {o p : Object} (minDepth : Nat) {n n' : Name} {l l' : Location}
      (object : Jsonnet.Akin κ w (.object o) (.object p)) (name : w.name n n')
      (site : l.Akin w.name l') :
    Akin κ w (.readField o minDepth n l) (.readField p minDepth n' l') (@AkinAs κ Value .value)
  | field {o p : Object} {f f' : Leaf} {minDepth depth : Nat} {n n' : Name} {l l' : Location}
      (object : Jsonnet.Akin κ w (.object o) (.object p)) (leaf : Jsonnet.Akin κ w (.leaf f) (.leaf f'))
      (hit : o.find? minDepth n = some (f, depth)) (name : w.name n n') (site : l.Akin w.name l') :
    Akin κ w (.field o f depth n l) (.field p f' depth n' l') (@AkinAs κ Value .value)
  | document {v v' : Value} (value : Jsonnet.Akin κ w (.value v) (.value v')) :
    Akin κ w (.document v) (.document v') (@Identical Document)
  | equal {x y x' y' : Value} (left : Jsonnet.Akin κ w (.value x) (.value x'))
      (right : Jsonnet.Akin κ w (.value y) (.value y')) :
    Akin κ w (.equal x y) (.equal x' y') (@Identical Bool)
  | order (operator : BinaryOp) {x y x' y' : Value}
      (left : Jsonnet.Akin κ w (.value x) (.value x'))
      (right : Jsonnet.Akin κ w (.value y) (.value y')) :
    Akin κ w (.order operator x y) (.order operator x' y') (@Identical Ordering)
  | program {live : Name → Prop} {c c' : Code} (code : κ.code w.name live c c') :
    Akin κ w (.program c) (.program c') (@AkinAs κ Value .value)
  | output {live : Name → Prop} {c c' : Code} (code : κ.code w.name live c c') :
    Akin κ w (.output c) (.output c') (@Identical String)

/-! ### Computations -/

/-- Computations in parallel, with a relation of their results and what they may ask for. Fields that
are named by string literals may be defined in different orders. -/
inductive Progress.Parallel (κ : Kinship) (ask : Option Frame → Task → Prop) {α β : Type}
    (R : Bond → α → β → Prop) : Bond → Progress α → Progress β → Prop where
  | finished {w : Bond} {x : α} {y : β} (result : R w x y) :
    Parallel κ ask R w (.finished x) (.finished y)
  | step {w : Bond} {op op' : Operation} {S : Bond → op.Result → op'.Result → Prop}
      {rest : op.Result → Progress α} {rest' : op'.Result → Progress β}
      (operation : op.Akin κ w op' S)
      (next : ∀ w', w ≤ w' → ∀ r r', S w' r r' → Parallel κ ask R w' (rest r) (rest' r')) :
    Parallel κ ask R w (.step op rest) (.step op' rest')
  | wait {w : Bond} {frame? frame?' : Option Frame} {t t' : Task}
      {S : Bond → t.Result → t'.Result → Prop}
      {rest : t.Result → Progress α} {rest' : t'.Result → Progress β} (asks : ask frame? t)
      (frame : Option.Rel (Frame.Akin w.name) frame? frame?') (task : t.Akin κ w t' S)
      (next : ∀ w', w ≤ w' → ∀ r r', S w' r r' → Parallel κ ask R w' (rest r) (rest' r')) :
    Parallel κ ask R w (.wait frame? t rest) (.wait frame?' t' rest')
  | labelled {w : Bond} {c c' : Code} {e e' : Env} {ds ds' : List FieldDef}
      {fs gs fs' : List (Name × Field)} {session session' : Session}
      {rest : List (Name × Field) → Progress α} {rest' : List (Name × Field) → Progress β}
      {p : Progress α} {q : Progress β} (labels : List.Forall₂ (FieldDef.Labels c) ds fs)
      (labels' : List.Forall₂ (FieldDef.Labels c') ds' fs')
      (names : List.Forall₂ (fun f g => w.name f.1 g.1) fs gs) (allowed : κ.reorders)
      (distinct : (gs.map Prod.fst).Nodup) (perm : gs.Perm fs')
      (first : p = (literalFields c e [] ds session).bind rest)
      (second : q = (literalFields c' e' [] ds' session').bind rest')
      (next : Parallel κ ask R w (rest fs) (rest' fs')) : Parallel κ ask R w p q

section

variable {κ : Kinship} {ask : Option Frame → Task → Prop} {α β γ δ : Type} {R : Bond → α → β → Prop}
  {S : Bond → γ → δ → Prop} {w : Bond}

/-- Computations that go on from results in parallel. -/
theorem Progress.Parallel.bind {p : Progress α} {q : Progress β} {f : α → Progress γ}
    {g : β → Progress δ} (h : p.Parallel κ ask R w q)
    (hnext : ∀ w', w ≤ w' → ∀ x y, R w' x y → (f x).Parallel κ ask S w' (g y)) :
  (p.bind f).Parallel κ ask S w (q.bind g)
  := by
  induction h with
  | finished result => exact hnext _ le_rfl _ _ result
  | step operation next ih =>
    apply Progress.Parallel.step operation
    intro w' hle r r' hr
    apply ih w' hle r r' hr
    intro w'' hle' x y
    exact hnext w'' (hle.trans hle') x y
  | wait asks frame task next ih =>
    apply Progress.Parallel.wait asks frame task
    intro w' hle r r' hr
    apply ih w' hle r r' hr
    intro w'' hle' x y
    exact hnext w'' (hle.trans hle') x y
  | labelled labels labels' names allowed distinct perm first second _ ih =>
    rw [first, second, Progress.bind_assoc, Progress.bind_assoc]
    exact .labelled labels labels' names allowed distinct perm rfl rfl (ih hnext)

/-- What computations in parallel ask for may have other properties that follow. -/
theorem Progress.Parallel.imp {ask' : Option Frame → Task → Prop}
    (himp : ∀ frame? task, ask frame? task → ask' frame? task) {p : Progress α} {q : Progress β}
    (h : p.Parallel κ ask R w q) :
  p.Parallel κ ask' R w q
  := by
  induction h with
  | finished result => exact .finished result
  | step operation _ ih => exact .step operation ih
  | wait asks frame task _ ih => exact .wait (himp _ _ asks) frame task ih
  | labelled labels labels' names allowed distinct perm first second _ ih =>
    exact .labelled labels labels' names allowed distinct perm first second ih

end

/-- Actions whose computations are in parallel. -/
def Action.Parallel (κ : Kinship) (session session' : Session) (ask : Option Frame → Task → Prop)
    {α β : Type} (R : Bond → α → β → Prop) (w : Bond) (x : Action α) (y : Action β) : Prop :=
  (x session).Parallel κ ask R w (y session')

namespace Action.Parallel

variable {κ : Kinship} {session session' : Session} {ask : Option Frame → Task → Prop}
  {α β γ δ : Type} {R : Bond → α → β → Prop} {S : Bond → γ → δ → Prop} {w : Bond}

theorem pure {x : α} {y : β} (h : R w x y) :
  Action.Parallel κ session session' ask R w (Pure.pure x) (Pure.pure y)
  := .finished h

theorem bind {x : Action α} {y : Action β} {f : α → Action γ} {g : β → Action δ}
    (h : Action.Parallel κ session session' ask R w x y)
    (hnext : ∀ w', w ≤ w' → ∀ a b, R w' a b →
      Action.Parallel κ session session' ask S w' (f a) (g b)) :
  Action.Parallel κ session session' ask S w (x >>= f) (y >>= g)
  := Progress.Parallel.bind h hnext

/-- Going on with the sessions. -/
theorem session_bind {f : Session → Action γ} {g : Session → Action δ}
    (h : Action.Parallel κ session session' ask S w (f session) (g session')) :
  Action.Parallel κ session session' ask S w (Action.session >>= f) (Action.session >>= g)
  := h

theorem take {op op' : Operation} {T : Bond → op.Result → op'.Result → Prop}
    (h : op.Akin κ w op' T) :
  Action.Parallel κ session session' ask T w (Action.take op) (Action.take op')
  := .step h fun _ _ _ _ hr => .finished hr

theorem fail {f f' : Failure} (h : f.Akin w.name f') :
  Action.Parallel κ session session' ask R w (Action.fail f) (Action.fail f')
  := .step (.fail h) fun _ _ _ _ hr => hr.elim

theorem raise (cause : Cause) {l l' : Location} (site : l.Akin w.name l') :
  Action.Parallel κ session session' ask R w (Action.raise cause l) (Action.raise cause l')
  := .step (.raise cause site) fun _ _ _ _ hr => hr.elim

/-- What has no known position stands at the same place. -/
theorem unknown (w : Bond) :
  Location.unknown.Akin w.name .unknown
  := ⟨w.empty, rfl⟩

theorem raiseHere (cause : Cause) :
  Action.Parallel κ session session' ask R w (Action.raiseHere cause) (Action.raiseHere cause)
  := raise cause (unknown w)

theorem request {task task' : Task} (asks : ask none task)
    {T : Bond → task.Result → task'.Result → Prop} (h : task.Akin κ w task' T) :
  Action.Parallel κ session session' ask T w (Action.request task) (Action.request task')
  := .wait asks .none h fun _ _ _ _ hr => .finished hr

theorem inFrame {frame frame' : Frame} {task task' : Task} (asks : ask (some frame) task)
    (same : frame.Akin w.name frame') {T : Bond → task.Result → task'.Result → Prop}
    (h : task.Akin κ w task' T) :
  Action.Parallel κ session session' ask T w (Action.inFrame frame task)
    (Action.inFrame frame' task')
  := .wait asks (.some same) h fun _ _ _ _ hr => .finished hr

end Action.Parallel

end Jsonnet
