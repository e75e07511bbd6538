import Jsonnet.Proofs.ParallelLibrary

/-!
# Expressions in parallel

Akin tasks are carried out by actions in parallel. Outside of frames, an expression asks for
expressions right below it and for what builtins ask for; a field asks for fields further up, and
what else a task may ask for is no expression.
-/

namespace Jsonnet

open Action.Parallel

/-- What a task may ask for while it is carried out: anything inside a frame, and otherwise only
tasks of some kinds. -/
def Task.Asks (task : Task) : Option Frame → Task → Prop
  | some _, _ => True
  | none, next =>
    match task, next with
    | .evaluate code _, .evaluate next _ =>
      ∃ place ∈ code.arena.below code.root, next = code.sibling place.id
    | .program _, .evaluate .. | .output _, .evaluate .. => True
    | .field object _ depth name _, .readField other minDepth name' _ =>
      other = object ∧ minDepth = addLeaves depth 1 ∧ name' = name
    | .readField object minDepth name _, .field other leaf depth name' _ =>
      other = object ∧ object.find? minDepth name = some (leaf, depth) ∧ name' = name
    | .force _, .call .. | .field .., .call .. | .readField .., .check _ => True
    | .evaluate .., next | .builtin .., next | .document _, next | .equal .., next
    | .order .., next | .program _, next | .output _, next =>
      match next with
      | .force _ | .call .. | .check _ | .readField .. | .document _ | .equal .. | .order .. => True
      | _ => False
    | _, _ => False

variable {κ : Kinship} {session session' : Session} {ask : Option Frame → Task → Prop} {w : Bond}

/-! ### Assertions and fields -/

theorem acceptAssertion_parallel {v v' : Value} (h : Akin κ w (.value v) (.value v'))
    {l l' : Location} (site : l.Akin w.name l') :
  Action.Parallel κ session session' ask Identical w (acceptAssertion v l) (acceptAssertion v' l')
  := by
  cases h with
  | bool b =>
    cases b with
    | true => exact pure rfl
    | false => exact raise _ site
  | _ => exact raise _ site

section

variable (frame : ∀ frame task, ask (some frame) task)

include frame

theorem checkAssertion_parallel {live : Name → Prop} {f f' : Leaf} {o p : Object}
    (scope : Akin κ w (.scope live f.scope) (.scope live f'.scope))
    (self : Akin κ w (.object o) (.object p)) (depth : Nat) {m m' : Member}
    (h : Akin κ w (.member live m) (.member live m')) :
  Action.Parallel κ session session' ask Identical w (checkAssertion o f depth m)
    (checkAssertion p f' depth m')
  := by
  cases h with
  | given value => exact acceptAssertion_parallel value (unknown w)
  | computed body extendsSuper =>
    apply (inFrame (frame _ _) ⟨κ.location body, .assertion⟩
      (Task.Akin.evaluate (.inside scope self) body)).bind
    intro w' hle v v' hv
    exact acceptAssertion_parallel hv ((κ.location body).mono hle.1)

/-- Checking the assertions of akin objects. -/
theorem checkAssertions_parallel {o p : Object} (self : Akin κ w (.object o) (.object p)) :
  Action.Parallel κ session session' ask Identical w (checkAssertions o o.assertions)
    (checkAssertions p p.assertions)
  := by
  have hasserts := self.assertions
  generalize o.assertions = xs, p.assertions = ys at hasserts
  induction xs generalizing w ys with
  | nil =>
    cases hasserts
    exact pure rfl
  | cons x xs ih =>
    obtain _ | @⟨_, y, _, ys, head, tail⟩ := hasserts
    obtain ⟨f, depth, m⟩ := x
    obtain ⟨f', depth', m'⟩ := y
    obtain ⟨hdepth, live, scope, member⟩ := head
    cases hdepth
    apply (checkAssertion_parallel frame scope self depth member).bind
    intro w' hle _ _ _
    apply ih (self.mono hle)
    apply tail.imp
    rintro a a' ⟨hdepth, live, scope, member⟩
    exact ⟨hdepth, live, scope.mono hle, member.mono hle⟩

/-- A field is computed in akin literals of akin objects; the field further up is read at the
next depth. -/
theorem computeField_parallel (call : ∀ f ds site, ask none (.call f ds site)) {o p : Object}
    {f f' : Leaf} (depth : Nat) {n n' : Name} {l l' : Location}
    (read : ask none (.readField o (addLeaves depth 1) n l))
    (self : Akin κ w (.object o) (.object p)) (leaf : Akin κ w (.leaf f) (.leaf f'))
    (name : w.name n n') (site : l.Akin w.name l') :
  Action.Parallel κ session session' ask (AkinAs κ .value) w (computeField o f depth n l)
    (computeField p f' depth n' l')
  := by
  obtain ⟨-, live, gs, scope, fields, order, -⟩ := Akin.leaf_iff.mp leaf
  have hfield := fields.lookup_fields name
  unfold computeField
  rw [Leaf.field?, Leaf.field?, ← order.lookup_eq]
  obtain ⟨hn, hn'⟩ | ⟨⟨v, m⟩, ⟨v', m'⟩, hs, hs', hv, member⟩ := optionRel_iff.mp hfield
  · rw [hn, hn']
    exact fail (.internal _)
  · rw [hs, hs']
    cases member with
    | given value => exact pure value
    | computed body extendsSuper =>
      apply (inFrame (frame _ _) ⟨κ.location body, .field name⟩
        (Task.Akin.evaluate (.inside scope self) body)).bind
      intro w₁ hle₁ v v' hv
      dsimp only
      rw [(self.mono hle₁).isSome_find? (Bond.name_mono hle₁ name)]
      split
      · apply (request read (Task.Akin.readField _ (self.mono hle₁) (Bond.name_mono hle₁ name)
          (site.mono hle₁.1))).bind
        intro w₂ hle₂ u u' hu
        exact request (call _ _ _) (Task.Akin.call (.builtin _)
          (.cons (.ready hu) (.cons (.ready (hv.mono hle₂)) .nil))
          (site.mono (hle₁.trans hle₂).1))
      · exact pure hv

end

/-- Reading a field checks the object and computes the field in the literal where it is found. -/
theorem readField_parallel {o p : Object} (minDepth : Nat) {n n' : Name} {l l' : Location}
    (check : ask none (.check o))
    (field : ∀ leaf depth, o.find? minDepth n = some (leaf, depth) →
      ask none (.field o leaf depth n l))
    (object : Akin κ w (.object o) (.object p)) (name : w.name n n') (site : l.Akin w.name l') :
  Action.Parallel κ session session' ask (AkinAs κ .value) w (readField o minDepth n l)
    (readField p minDepth n' l')
  := by
  apply (request check (Task.Akin.check object)).bind
  intro w₁ hle₁ _ _ _
  have object := object.mono hle₁
  have name := Bond.name_mono hle₁ name
  obtain ⟨ho, hp⟩ | ⟨⟨f, depth⟩, ⟨f', depth'⟩, ho, hp, leaf, hdepth⟩ :=
    optionRel_iff.mp (object.find? name minDepth)
  · rw [ho, hp]
    apply (textOf_parallel name).bind
    intro w₂ hle₂ s _ hs
    cases hs
    exact raise _ (site.mono (hle₁.trans hle₂).1)
  · cases hdepth
    rw [ho, hp]
    exact request (field f depth ho)
      (Task.Akin.field object leaf ho name (site.mono hle₁.1))

/-! ### Parts of expressions -/

section

variable (asks : AsksData ask)

include asks

theorem variableValue_parallel {live : Name → Prop} {e e' : Env}
    (env : Akin κ w (.env live e) (.env live e')) {n n' : Name} (name : w.name n n')
    (alive : live n) :
  Action.Parallel κ session session' ask (AkinAs κ .value) w (variableValue e n)
    (variableValue e' n')
  := by
  unfold variableValue
  obtain ⟨hn, hn'⟩ | ⟨b, b', hb, hb', hbinding⟩ :=
    optionRel_iff.mp ((Akin.env_iff.mp env).1.lookup name alive)
  · rw [hn, hn']
    apply (textOf_parallel name).bind
    intro w' hle s _ hs
    cases hs
    exact fail (.internal _)
  · rw [hb, hb']
    cases hbinding with
    | bound deferred => exact force_parallel asks deferred
    | slot alive =>
      apply (take (Operation.Akin.slot alive)).bind
      intro w' hle d d' hd
      exact force_parallel asks hd

theorem indexValue_parallel {t t' v v' : Value} {l l' : Location} (site : l.Akin w.name l')
    (target : Akin κ w (.value t) (.value t')) (index : Akin κ w (.value v) (.value v')) :
  Action.Parallel κ session session' ask (AkinAs κ .value) w (indexValue t v l)
    (indexValue t' v' l')
  := by
  have position : ∀ size, Action.Parallel κ session session' ask Identical w (positionIn size l v)
      (positionIn size l' v') := by
    intro size
    apply (expectNumber_parallel index site).bind
    intro w' hle x _ hx
    cases hx
    have site := site.mono hle.1
    split
    · exact raise _ site
    · split
      · exact raise _ site
      · exact pure rfl
  cases target with
  | object object =>
    apply (expectString_parallel index site).bind
    intro w₁ hle₁ s _ hs
    cases hs
    apply (intern_parallel s).bind
    intro w₂ hle₂ n n' name
    have hle := hle₁.trans hle₂
    exact read_parallel asks _ (object.mono hle) name (site.mono hle.1)
  | @array xs ys elements =>
    unfold indexValue
    dsimp only
    rw [elements.size_eq]
    apply (position _).bind
    intro w' hle i _ hi
    cases hi
    apply force_parallel asks
    rw [← Array.getElem?_toList, ← Array.getElem?_toList]
    obtain ⟨hx, hy⟩ | ⟨d, d', hx, hy, hd⟩ := optionRel_iff.mp
      (forall₂_getElem? (Akin.deferreds_iff.mp (elements.mono hle)) i)
    · rw [hx, hy]
      exact .ready .null
    · rw [hx, hy]
      exact hd
  | string s =>
    apply (position _).bind
    intro w' hle i _ hi
    cases hi
    exact pure (.string _)
  | _ => exact raise _ site

end

section

variable {live : Name → Prop} {c c' : Code} {e e' : Env}
  (env : Akin κ w (.env live e) (.env live e'))

include env

/-- The fields of an object literal. -/
theorem literalFields_parallel {done done' : List (Name × Field)}
    (hdone : Akin κ w (.fields live done) (.fields live done')) {fs fs' : List FieldDef}
    (fields : List.Forall₂ (FieldDef.Akin
      (fun live id id' => κ.code w.name live (c.sibling id) (c'.sibling id')) live) fs fs')
    (child : ∀ f ∈ fs, ask none (.evaluate (c.sibling f.name) e)) :
  Action.Parallel κ session session' ask (AkinAs κ (.fields live)) w (literalFields c e done fs)
    (literalFields c' e' done' fs')
  := by
  induction fs generalizing w done done' fs' with
  | nil =>
    cases fields
    refine pure (Akin.fields_iff.mpr ?_)
    exact List.rel_reverse (Akin.fields_iff.mp hdone)
  | cons f fs ih =>
    obtain _ | @⟨_, f', _, fs', head, tail⟩ := fields
    have htail : ∀ {w₂ : Bond}, w ≤ w₂ → List.Forall₂ (FieldDef.Akin
        (fun live id id' => κ.code w₂.name live (c.sibling id) (c'.sibling id')) live) fs fs' := by
      intro w₂ hle
      exact tail.imp fun _ _ h =>
        ⟨κ.mono h.name hle.1, h.visibility, κ.mono h.body hle.1, h.extendsSuper⟩
    have hchild : ∀ f ∈ fs, ask none (.evaluate (c.sibling f.name) e) :=
      fun other h => child other (List.mem_cons_of_mem _ h)
    have site := κ.location head.name
    apply (request (child f List.mem_cons_self) (Task.Akin.evaluate env head.name)).bind
    intro w₁ hle₁ v v' hv
    cases hv with
    | null => exact ih (env.mono hle₁) (hdone.mono hle₁) (htail hle₁) hchild
    | string s =>
      apply (intern_parallel s).bind
      intro w₂ hle₂ n n' name
      have hle := hle₁.trans hle₂
      have hdone := hdone.mono hle
      dsimp only
      rw [hdone.any_fields name]
      split
      · apply (textOf_parallel name).bind
        intro w₃ hle₃ text _ htext
        cases htext
        exact raise _ (site.mono (hle.trans hle₃).1)
      · refine ih (env.mono hle) ?_ (htail hle) hchild
        rw [head.visibility, head.extendsSuper]
        exact .field name (.computed (κ.mono head.body hle.1) _) hdone
    | _ => exact raise _ (site.mono hle₁.1)

/-- The object of an object literal, once its fields have their names. -/
theorem literalOf_parallel {xs xs' : List NodeId}
    (asserts : List.Forall₂
      (fun id id' => κ.code w.name live (c.sibling id) (c'.sibling id')) xs xs')
    {fields gs fields' : List (Name × Field)}
    (hfields : Akin κ w (.fields live fields) (.fields live gs))
    (order : Reorders κ.reorders Prod.fst gs fields') :
  Action.Parallel κ session session' ask (AkinAs κ .value) w
    (Action.literal e.scope fields (xs.map fun id => .code (c.sibling id) false) >>= fun o =>
      return .object o)
    (Action.literal e'.scope fields' (xs'.map fun id => .code (c'.sibling id) false) >>= fun o =>
      return .object o)
  := by
  have hasserts : Akin κ w (.members live (xs.map fun id => Member.code (c.sibling id) false))
      (.members live (xs'.map fun id => Member.code (c'.sibling id) false)) := by
    rw [Akin.members_iff, List.forall₂_map_left_iff, List.forall₂_map_right_iff]
    exact asserts.imp fun _ _ h => .computed h false
  apply (take (Operation.Akin.literal (Akin.env_iff.mp env).1 hfields order hasserts)).bind
  intro w' hle o p object
  exact pure (.object object)

theorem literalObject_parallel {xs xs' : List NodeId}
    (asserts : List.Forall₂
      (fun id id' => κ.code w.name live (c.sibling id) (c'.sibling id')) xs xs')
    {fs fs' : List FieldDef}
    (fields : List.Forall₂ (FieldDef.Akin
      (fun live id id' => κ.code w.name live (c.sibling id) (c'.sibling id')) live) fs fs')
    (child : ∀ f ∈ fs, ask none (.evaluate (c.sibling f.name) e)) :
  Action.Parallel κ session session' ask (AkinAs κ .value) w (literalObject c e xs fs)
    (literalObject c' e' xs' fs')
  := by
  apply (literalFields_parallel env .fieldless fields child).bind
  intro w' hle fields fields' hfields
  exact literalOf_parallel (env.mono hle) (asserts.imp fun _ _ h => κ.mono h hle.1) hfields
    (.refl _ _ _)

omit env in
/-- Where definitions of fields are akin and string literals are their names, the fields are akin. -/
theorem exists_labels {fs gs : List FieldDef} {names : List Name}
    (fields : List.Forall₂ (FieldDef.Akin
      (fun live id id' => κ.code w.name live (c.sibling id) (c'.sibling id')) live) fs gs)
    (labels : List.Forall₂ (fun f name => c.arena.node f.name = .string name) fs names) :
  ∃ hs hs', List.Forall₂ (FieldDef.Labels c) fs hs ∧ List.Forall₂ (FieldDef.Labels c') gs hs' ∧
    Akin κ w (.fields live hs) (.fields live hs') ∧ hs.map Prod.fst = names
  := by
  induction labels generalizing gs with
  | nil =>
    cases fields
    exact ⟨[], [], .nil, .nil, .fieldless, rfl⟩
  | @cons f name fs names label labels ih =>
    obtain _ | @⟨_, g, _, gs, head, tail⟩ := fields
    obtain ⟨hs, hs', labels, labels', fields, hnames⟩ := ih tail
    have node := κ.node head.name
    have hnode : (c.sibling f.name).node = .string name := label
    generalize hnode' : (c'.sibling g.name).node = node' at node
    rw [hnode] at node
    cases node with
    | @string _ name' value =>
      refine ⟨(name, ⟨f.visibility, .code (c.sibling f.body) f.extendsSuper⟩) :: hs,
        (name', ⟨g.visibility, .code (c'.sibling g.body) g.extendsSuper⟩) :: hs',
        .cons ⟨hnode, rfl⟩ labels, .cons ⟨hnode', rfl⟩ labels', ?_, congrArg (name :: ·) hnames⟩
      rw [← head.visibility, ← head.extendsSuper]
      exact .field value (.computed head.body _) fields

/-- An object literal whose fields are reordered. -/
theorem literalObject_reordered (allowed : κ.reorders) {xs xs' : List NodeId}
    (asserts : List.Forall₂
      (fun id id' => κ.code w.name live (c.sibling id) (c'.sibling id')) xs xs')
    {fs gs fs' : List FieldDef} {names : List Name}
    (fields : List.Forall₂ (FieldDef.Akin
      (fun live id id' => κ.code w.name live (c.sibling id) (c'.sibling id')) live) fs gs)
    (perm : gs.Perm fs')
    (labels : List.Forall₂ (fun f name => c.arena.node f.name = .string name) fs names)
    (distinct : names.Nodup) :
  Action.Parallel κ session session' ask (AkinAs κ .value) w (literalObject c e xs fs)
    (literalObject c' e' xs' fs')
  := by
  obtain ⟨hs, hs', here, there, hfields, rfl⟩ := exists_labels fields labels
  obtain ⟨ks, there, hperm⟩ := List.perm_comp_forall₂ perm.symm there
  have hnames : List.Forall₂ (fun f g => w.name f.1 g.1) hs hs' :=
    (Akin.fields_iff.mp hfields).imp fun _ _ h => h.1
  have distinct : (hs'.map Prod.fst).Nodup :=
    (Bond.nodup_iff (List.forall₂_map_left_iff.mpr (List.forall₂_map_right_iff.mpr hnames))).mp distinct
  exact .labelled here there hnames allowed distinct hperm.symm rfl rfl
    (literalOf_parallel env asserts hfields (.inr ⟨allowed, distinct, hperm.symm⟩))

/-- Expressions of akin codes are suspended in akin environments. -/
theorem suspension_akin {context context' : FrameContext} (same : context.Akin w.name context')
    {id id' : NodeId} (h : κ.code w.name live (c.sibling id) (c'.sibling id')) :
  AkinAs κ .suspension w (.code context e (c.sibling id)) (.code context' e' (c'.sibling id'))
  := .code same env h

theorem suspensions_akin {context context' : FrameContext} (same : context.Akin w.name context')
    {ids ids' : List NodeId}
    (h : List.Forall₂ (fun id id' => κ.code w.name live (c.sibling id) (c'.sibling id')) ids ids') :
  List.Forall₂ (AkinAs κ .suspension w)
    (ids.map fun id => .code context e (c.sibling id))
    (ids'.map fun id => .code context' e' (c'.sibling id))
  := by
  rw [List.forall₂_map_left_iff, List.forall₂_map_right_iff]
  exact h.imp fun _ _ h => suspension_akin env same h

end

theorem directoryOf_parallel {a a' : Arena} (file : w.name a.file a'.file) :
  Action.Parallel κ session session' ask Identical w (directoryOf a) (directoryOf a')
  := by
  apply (textOf_parallel file).bind
  intro w' hle s _ hs
  cases hs
  exact pure rfl

/-! ### Expressions -/

theorem evaluateCode_parallel (asks : AsksData ask) (sessions : session.Akin κ w session')
    {live : Name → Prop} {c c' : Code} {e e' : Env} (env : Akin κ w (.env live e) (.env live e'))
    (code : κ.code w.name live c c')
    (child : ∀ place ∈ c.arena.below c.root, ∀ env,
      ask none (.evaluate (c.sibling place.id) env)) :
  Action.Parallel κ session session' ask (AkinAs κ .value) w (evaluateCode c e)
    (evaluateCode c' e')
  := by
  unfold evaluateCode
  apply (take (.count .expression)).bind
  intro w₁ hle₁ _ _ _
  have env := env.mono hle₁
  have code := κ.mono code hle₁.1
  have sessions := sessions.mono hle₁
  have site := κ.location code
  have node := κ.node code
  have hchild : ∀ {w₂ : Bond}, w₁ ≤ w₂ → ∀ {id id' : NodeId},
      ⟨[], false, id⟩ ∈ c.arena.below c.root → κ.code w₁.name live (c.sibling id) (c'.sibling id') →
      Action.Parallel κ session session' ask (AkinAs κ .value) w₂ ((c.sibling id).evaluate e)
        ((c'.sibling id').evaluate e') := by
    intro w₂ hle id id' hid h
    exact request (child _ hid e) (Task.Akin.evaluate (env.mono hle) (κ.mono h hle.1))
  dsimp only
  rw [Code.node, Code.node] at node ⊢
  generalize hnode : c.arena.node c.root = n, c'.arena.node c'.root = n' at node ⊢
  cases node with
  | null => exact pure .null
  | bool b => exact pure (.bool b)
  | number x => exact pure (.number x)
  | string value =>
    apply (textOf_parallel value).bind
    intro w₂ hle₂ text _ htext
    cases htext
    exact pure (.string _)
  | var name alive => exact variableValue_parallel asks env name alive
  | @locals _ bs _ b _ binds body outer alive =>
    apply (take (Operation.Akin.bindLocals env binds outer alive)).bind
    intro w₂ hle₂ e₂ e₂' henv
    have hbody : ⟨(c.arena.readBinds bs).map Bind.name, false, b⟩ ∈ c.arena.below c.root := by
      simp [Arena.below, hnode]
    exact request (child _ hbody _) (Task.Akin.evaluate henv (κ.mono body hle₂.1))
  | function params body outer => exact pure (.function (.closure env params body outer))
  | apply target arguments =>
    apply (hchild le_rfl (by simp [Arena.below, hnode]) target).bind
    intro w₂ hle₂ v v' hv
    apply (expectFunction_parallel hv (site.mono hle₂.1)).bind
    intro w₃ hle₃ f g hf
    apply session_bind
    have hle := hle₂.trans hle₃
    apply (shareAll_parallel (suspensions_akin (env.mono hle)
      (.thunk (sessions.mono hle).argumentName) (arguments.imp fun _ _ h => κ.mono h hle.1))).bind
    intro w₄ hle₄ ds ds' hds
    exact request (asks.call _ _ _)
      (Task.Akin.call (hf.mono hle₄) hds (site.mono (hle.trans hle₄).1))
  | @applyLiteral inner f f' _ _ xs xs' ps ps' literal literal' params body outer length
      arguments =>
    have htarget : ⟨[], false, f⟩ ∈ c.arena.below c.root := by simp [Arena.below, hnode]
    apply (request (child _ htarget e) (@Task.Akin.literal κ w₁ (c.sibling f) (c'.sibling f')
      e e' ps ps' _ _ literal literal')).bind
    rintro w₂ hle₂ _ _ ⟨rfl, rfl⟩
    have env := env.mono hle₂
    apply session_bind
    -- if the numbers of arguments and parameters differ, no argument matters
    obtain ⟨needed, hneeded, harguments⟩ : ∃ needed : List Prop,
        ((c.arena.readList xs).length = (c.arena.readParams ps).length →
          needed = (c.arena.readParams ps).map inner) ∧
        Partly (fun id id' => κ.code w₁.name live (c.sibling id) (c'.sibling id')) needed
          (c.arena.readList xs) (c'.arena.readList xs') := by
      by_cases hlength : (c.arena.readList xs).length = (c.arena.readParams ps).length
      · exact ⟨_, fun _ => rfl, arguments hlength⟩
      · exact ⟨_, fun h => absurd h hlength, Partly.of_length _ length⟩
    have hshare := harguments.map fun _ _ h => suspension_akin env
      (.thunk (sessions.mono hle₂).argumentName) (κ.mono h hle₂.1)
    apply (take (Operation.Akin.share hshare)).bind
    intro w₃ hle₃ ds ds' hds
    have hle := hle₂.trans hle₃
    refine request (asks.call _ _ _) (Task.Akin.callLiteral (env.mono hle₃)
      (Bond.names_mono hle params) (κ.mono body hle.1) outer hds.length_eq ?_ (site.mono hle.1))
    intro hlength
    rw [← hneeded (harguments.length_left.symm.trans (hds.length_left.trans hlength))]
    exact hds
  | array elements =>
    apply session_bind
    apply (shareAll_parallel (suspensions_akin env (.thunk sessions.elementName) elements)).bind
    intro w₂ hle₂ ds ds' hds
    exact pure (.array (by rwa [List.toList_toArray]))
  | object asserts fields =>
    apply literalObject_parallel env asserts fields
    intro f hf
    refine child ⟨[], false, f.name⟩ ?_ e
    simp only [Arena.below, hnode, List.mem_append, List.mem_map]
    exact .inl ⟨_, ⟨f, hf, rfl⟩, rfl⟩
  | reordered allowed asserts fields perm labels distinct =>
    exact literalObject_reordered env allowed asserts fields perm labels distinct
  | @binary op x _ y _ left right =>
    have hright : ⟨[], false, y⟩ ∈ c.arena.below c.root := by simp [Arena.below, hnode]
    apply (hchild le_rfl (by simp [Arena.below, hnode]) left).bind
    intro w₂ hle₂ v v' hv
    split
    · apply session_bind
      exact request (asks.call _ _ _) (Task.Akin.call (.builtin _)
        (.cons (.ready hv) (.cons (.suspended (.code (.thunk (sessions.mono hle₂).rightOperandName)
          (env.mono hle₂) (κ.mono right hle₂.1))) .nil)) (site.mono hle₂.1))
    · simp only [pure_bind]
      apply (hchild hle₂ hright right).bind
      intro w₃ hle₃ u u' hu
      exact request (asks.call _ _ _) (Task.Akin.call (.builtin _)
        (.cons (.ready (hv.mono hle₃)) (.cons (.ready hu) .nil)) (site.mono (hle₂.trans hle₃).1))
  | unary op operand =>
    apply (hchild le_rfl (by simp [Arena.below, hnode]) operand).bind
    intro w₂ hle₂ v v' hv
    exact request (asks.call _ _ _) (Task.Akin.call (.builtin _) (.cons (.ready hv) .nil)
      (site.mono hle₂.1))
  | conditional condition whenTrue whenFalse =>
    apply (hchild le_rfl (by simp [Arena.below, hnode]) condition).bind
    intro w₂ hle₂ v v' hv
    apply (expectBool_parallel hv ((κ.location condition).mono hle₂.1)).bind
    intro w₃ hle₃ decision _ hdecision
    cases hdecision
    cases decision with
    | true => exact hchild (hle₂.trans hle₃) (by simp [Arena.below, hnode]) whenTrue
    | false => exact hchild (hle₂.trans hle₃) (by simp [Arena.below, hnode]) whenFalse
  | index target position =>
    apply (hchild le_rfl (by simp [Arena.below, hnode]) target).bind
    intro w₂ hle₂ t t' ht
    apply (hchild hle₂ (by simp [Arena.below, hnode]) position).bind
    intro w₃ hle₃ v v' hv
    exact indexValue_parallel asks (site.mono (hle₂.trans hle₃).1) (ht.mono hle₃) hv
  | superIndex position =>
    obtain ⟨-, hself, hdepth⟩ := Akin.env_iff.mp env
    rw [hdepth]
    obtain ⟨ho, hp⟩ | ⟨o, p, ho, hp, self⟩ := optionRel_iff.mp hself
    · rw [ho, hp]
      exact raise _ site
    · rw [ho, hp]
      apply (hchild le_rfl (by simp [Arena.below, hnode]) position).bind
      intro w₂ hle₂ v v' hv
      apply (expectString_parallel hv (site.mono hle₂.1)).bind
      intro w₃ hle₃ s _ hs
      cases hs
      apply (intern_parallel s).bind
      intro w₄ hle₄ name name' hname
      have hle := (hle₂.trans hle₃).trans hle₄
      exact read_parallel asks _ (self.mono hle) hname (site.mono hle.1)
  | selfRef =>
    obtain ⟨-, hself, -⟩ := Akin.env_iff.mp env
    obtain ⟨ho, hp⟩ | ⟨o, p, ho, hp, self⟩ := optionRel_iff.mp hself
    · rw [ho, hp]
      exact raise _ site
    · rw [ho, hp]
      exact pure (.object self)
  | error message =>
    apply (hchild le_rfl (by simp [Arena.below, hnode]) message).bind
    intro w₂ hle₂ v v' hv
    apply (expectString_parallel hv (site.mono hle₂.1)).bind
    intro w₃ hle₃ s _ hs
    cases hs
    exact raise _ (site.mono (hle₂.trans hle₃).1)
  | importCode path =>
    apply (directoryOf_parallel site.file).bind
    intro w₂ hle₂ directory _ hdirectory
    cases hdirectory
    apply (take (Operation.Akin.imported _ (Bond.name_mono hle₂ path) (site.mono hle₂.1))).bind
    intro w₃ hle₃ d d' hd
    exact force_parallel asks hd
  | importText path =>
    apply (directoryOf_parallel site.file).bind
    intro w₂ hle₂ directory _ hdirectory
    cases hdirectory
    apply (textOf_parallel (Bond.name_mono hle₂ path)).bind
    intro w₃ hle₃ text _ htext
    cases htext
    apply (take (Operation.Akin.importText _ _ (site.mono (hle₂.trans hle₃).1))).bind
    intro w₄ hle₄ file _ hfile
    cases hfile
    exact pure (.string _)

/-! ### Programs -/

theorem parameterNames_parallel {f g : Function} (h : Akin κ w (.function f) (.function g)) :
  Action.Parallel κ session session' ask NamesAs w (parameterNames f) (parameterNames g)
  := by
  cases h with
  | closure env params body outer => exact pure params
  | builtin b => exact take (.internAll b.params)

theorem matchArguments_parallel {xs ys : List (Name × External)}
    (given : List.Forall₂ (fun x y => w.name x.1 y.1 ∧ x.2 = y.2) xs ys) {l l' : Location}
    (site : l.Akin w.name l') {done done' : List Deferred}
    (hdone : Akin κ w (.deferreds done) (.deferreds done')) {params params' : List Name}
    (names : List.Forall₂ w.name params params') :
  Action.Parallel κ session session' ask (AkinAs κ .deferreds) w
    (matchArguments xs l done params) (matchArguments ys l' done' params')
  := by
  induction params generalizing w done done' params' with
  | nil =>
    cases names
    refine pure (Akin.deferreds_iff.mpr ?_)
    exact List.rel_reverse (Akin.deferreds_iff.mp hdone)
  | cons n params ih =>
    obtain _ | @⟨_, n', _, params', name, names⟩ := names
    unfold matchArguments
    rw [lookup_given name given]
    split
    · apply (textOf_parallel name).bind
      intro w' hle s _ hs
      cases hs
      exact raise _ (site.mono hle.1)
    · rename_i external hexternal
      apply (take (Operation.Akin.argument name external)).bind
      intro w' hle d d' hd
      exact ih (given.imp fun _ _ h => ⟨Bond.name_mono hle h.1, h.2⟩) (site.mono hle.1)
        (.cons hd (hdone.mono hle)) (Bond.names_mono hle names)

/-- What is looked for by names is found at the same place. -/
theorem find_given {xs ys : List (Name × External)}
    (given : List.Forall₂ (fun x y => w.name x.1 y.1 ∧ x.2 = y.2) xs ys)
    {p q : Name × External → Bool} (h : ∀ x y, w.name x.1 y.1 → p x = q y) :
  Option.Rel (fun x y => w.name x.1 y.1) (xs.find? p) (ys.find? q)
  := by
  induction given with
  | nil => exact .none
  | @cons x y xs ys head tail ih =>
    rw [List.find?_cons, List.find?_cons, ← h x y head.1]
    split
    · exact .some head.1
    · exact ih

section

variable (asks : AsksData ask) (sessions : session.Akin κ w session')

include asks sessions

theorem applyArguments_parallel {v v' : Value} (h : Akin κ w (.value v) (.value v'))
    {l l' : Location} (site : l.Akin w.name l') :
  Action.Parallel κ session session' ask (AkinAs κ .value) w (applyArguments v l)
    (applyArguments v' l')
  := by
  cases h with
  | function function =>
    apply (parameterNames_parallel function).bind
    intro w₁ hle₁ params params' names
    apply session_bind
    have sessions := sessions.mono hle₁
    have hcontains : ∀ x y : Name × External, w₁.name x.1 y.1 →
        (!params.contains x.1) = !params'.contains y.1 := by
      intro x y name
      rw [Bool.eq_iff_iff]
      simp [Bond.mem_iff name names]
    obtain ⟨hn, hn'⟩ | ⟨x, y, hx, hy, name⟩ :=
      optionRel_iff.mp (find_given sessions.arguments hcontains)
    · dsimp only
      rw [hn, hn']
      apply (matchArguments_parallel sessions.arguments (site.mono hle₁.1) .nil names).bind
      intro w₂ hle₂ ds ds' hds
      exact request (asks.call _ _ _)
        (Task.Akin.call ((function.mono hle₁).mono hle₂) hds (site.mono (hle₁.trans hle₂).1))
    · dsimp only
      rw [hx, hy]
      apply (textOf_parallel name).bind
      intro w₂ hle₂ s _ hs
      cases hs
      exact raise _ (site.mono (hle₁.trans hle₂).1)
  | null => exact pure .null
  | bool b => exact pure (.bool b)
  | number x => exact pure (.number x)
  | string s => exact pure (.string s)
  | array elements => exact pure (.array elements)
  | object object => exact pure (.object object)

variable (evaluates : ∀ code env, ask none (.evaluate code env)) {live : Name → Prop} {c c' : Code}
  (code : κ.code w.name live c c')

include evaluates code

theorem computeProgram_parallel :
  Action.Parallel κ session session' ask (AkinAs κ .value) w (computeProgram c) (computeProgram c')
  := by
  apply session_bind
  apply (request (evaluates _ _) (Task.Akin.evaluate (sessions.base live) code)).bind
  intro w' hle v v' hv
  exact applyArguments_parallel asks (sessions.mono hle) hv ((κ.location code).mono hle.1)

theorem computeOutput_parallel :
  Action.Parallel κ session session' ask Identical w (computeOutput c) (computeOutput c')
  := by
  apply (computeProgram_parallel asks sessions evaluates code).bind
  intro w₁ hle₁ v v' hv
  apply (manifest_parallel asks .multiLine hv).bind
  intro w₂ hle₂ text _ htext
  cases htext
  exact pure rfl

end

/-! ### Tasks -/

/-- Akin cells of thunks. -/
inductive Cell.Akin (κ : Kinship) (w : Bond) : Cell → Cell → Prop where
  | pending {s s' : Suspension} (suspension : Jsonnet.Akin κ w (.suspension s) (.suspension s')) :
    Akin κ w (.pending s) (.pending s')
  | ready {v v' : Value} (value : Jsonnet.Akin κ w (.value v) (.value v')) :
    Akin κ w (.ready v) (.ready v')

theorem Cell.Akin.mono {u : Bond} {x y : Cell} (h : x.Akin κ u y) (hle : u ≤ w) :
  x.Akin κ w y
  := by
  cases h with
  | pending suspension => exact .pending (suspension.mono hle)
  | ready value => exact .ready (value.mono hle)

theorem computeThunk_parallel (asks : AsksCalls ask) {a b : State} {t : ThunkId}
    (cells : Option.Rel (Cell.Akin κ w) a.thunks[t.index]? b.thunks[t.index]?) :
  Action.Parallel κ session session' ask (AkinAs κ .value) w (computeThunk a t) (computeThunk b t)
  := by
  unfold computeThunk
  obtain ⟨ha, hb⟩ | ⟨x, y, ha, hb, cell⟩ := optionRel_iff.mp cells
  · rw [ha, hb]
    exact fail (.internal _)
  · rw [ha, hb]
    cases cell with
    | pending suspension => exact run_parallel asks suspension
    | ready value => exact pure value

/-- The tasks that may ask for everything that builtins ask for. -/
def Task.isGeneral : Task → Bool
  | .evaluate .. | .builtin .. | .document _ | .equal .. | .order .. | .program _ | .output _ => true
  | _ => false

theorem Task.asksData (task : Task) (h : task.isGeneral = true) :
  AsksData task.Asks
  := by
  cases task <;> first
    | exact ⟨⟨fun _ _ => trivial, fun _ _ _ => trivial⟩, fun _ => trivial, fun _ => trivial,
        fun _ _ _ _ => trivial, fun _ => trivial, fun _ _ => trivial, fun _ _ _ => trivial⟩
    | cases h

/-- A function literal asks for nothing, and gives a closure in its environment. -/
theorem evaluateLiteral_parallel {c c' : Code} (e e' : Env) {ps ps' : Slice Name} {b b' : NodeId}
    (literal : c.node = .function ps b) (literal' : c'.node = .function ps' b') :
  Action.Parallel κ session session' ask
    (fun _ v v' => v = .function (.closure e (c.arena.readParams ps) (c.sibling b)) ∧
      v' = .function (.closure e' (c'.arena.readParams ps') (c'.sibling b')))
    w (evaluateCode c e) (evaluateCode c' e')
  := by
  unfold evaluateCode
  apply (take (.count .expression)).bind
  intro w' hle _ _ _
  dsimp only
  rw [literal, literal']
  exact pure ⟨rfl, rfl⟩

/-- Akin tasks are carried out in parallel, in states whose live cells are akin. -/
theorem Task.Akin.action (sessions : session.Akin κ w session') {task task' : Task}
    {S : Bond → task.Result → task'.Result → Prop} (h : task.Akin κ w task' S) {a b : State}
    (cells : ∀ t, w.thunk t →
      Option.Rel (Cell.Akin κ w) a.thunks[t.index]? b.thunks[t.index]?) :
  Action.Parallel κ session session' task.Asks S w (task.action a) (task'.action b)
  := by
  cases h with
  | evaluate env code =>
    exact evaluateCode_parallel (Task.asksData _ rfl) sessions env code fun place h _ =>
      ⟨place, h, rfl⟩
  | literal e e' literal literal' => exact evaluateLiteral_parallel e e' literal literal'
  | force alive =>
    exact computeThunk_parallel ⟨fun _ _ => trivial, fun _ _ _ => trivial⟩ (cells _ alive)
  | call function arguments site =>
    exact callFunction_parallel (fun _ _ => trivial) site function arguments
  | callLiteral env params body outer length arguments site =>
    exact callClosure_parallel (fun _ _ => trivial) site env params body outer length arguments
  | builtin b arguments => exact applyBuiltin_parallel (Task.asksData _ rfl) sessions b arguments
  | check object => exact checkAssertions_parallel (fun _ _ => trivial) object
  | readField minDepth object name site =>
    exact readField_parallel minDepth trivial (fun _ _ h => ⟨rfl, h, rfl⟩) object name site
  | field object leaf hit name site =>
    exact computeField_parallel (fun _ _ => trivial) (fun _ _ _ => trivial) _ ⟨rfl, rfl, rfl⟩
      object leaf name site
  | document value => exact computeDocument_parallel (Task.asksData _ rfl) value
  | equal left right => exact computeEqual_parallel (Task.asksData _ rfl) left right
  | order operator left right => exact computeOrder_parallel (Task.asksData _ rfl) operator left right
  | program code =>
    exact computeProgram_parallel (Task.asksData (.program _) rfl) sessions (fun _ _ => trivial) code
  | output code =>
    exact computeOutput_parallel (Task.asksData (.output _) rfl) sessions (fun _ _ => trivial) code

end Jsonnet
