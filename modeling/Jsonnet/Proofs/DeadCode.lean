import Jsonnet.Proofs.Itself

/-!
# Dead code

What a `local` binds to a name that neither its body nor its other bindings use is never
evaluated, and neither is what a function literal is called with for a parameter that its body
does not use. So any other expression may stand there: a program comes to the same text, or to
the same failure with the same backtrace.
-/

namespace Jsonnet

/-! ### Codes that differ where nothing is used -/

/-- Whether a name is not free in a code. -/
def Code.Omits (code : Code) (x : Name) : Prop := code.Bound fun name => name ≠ x

/-- Whether an expression has no parts. -/
def Node.isLeaf : Node → Bool
  | .null | .bool _ | .number _ | .string _ | .var _ | .selfRef | .importCode _ | .importText _ =>
    true
  | _ => false

/-- Nodes of two arenas that are the same, up to parts that stand for each other and parts that
are not used: what is bound to a name that no other part of a `local` uses, and what is passed
for a parameter that the body of a function literal does not use. -/
inductive Node.UsedAlike (R : NodeId → NodeId → Prop) (a a' : Arena) : Node → Node → Prop where
  | leaf (node : Node) (hleaf : node.isLeaf = true) : UsedAlike R a a' node node
  | locals {bs bs' : Slice Bind} {b b' : NodeId}
      (binds : List.Forall₂ (fun l l' => l.name = l'.name ∧ R l.body l'.body) (a.readBinds bs)
        (a'.readBinds bs'))
      (body : R b b') : UsedAlike R a a' (.locals bs b) (.locals bs' b')
  | unusedBind {bs bs' : Slice Bind} {b b' : NodeId} (x : Name)
      (binds : List.Forall₂ (fun l l' => l.name = l'.name ∧ (l.name ≠ x →
        R l.body l'.body ∧ Code.Omits ⟨a, l.body⟩ x ∧ Code.Omits ⟨a', l'.body⟩ x))
        (a.readBinds bs) (a'.readBinds bs'))
      (body : R b b') (omits : Code.Omits ⟨a, b⟩ x) (omits' : Code.Omits ⟨a', b'⟩ x) :
    UsedAlike R a a' (.locals bs b) (.locals bs' b')
  | function {ps ps' : Slice Name} {b b' : NodeId} (params : a.readParams ps = a'.readParams ps')
      (body : R b b') : UsedAlike R a a' (.function ps b) (.function ps' b')
  | apply {f f' : NodeId} {xs xs' : Slice NodeId} (target : R f f')
      (arguments : List.Forall₂ R (a.readList xs) (a'.readList xs')) :
    UsedAlike R a a' (.apply f xs) (.apply f' xs')
  | unusedArgument {f f' b b' : NodeId} {xs xs' : Slice NodeId} {ps ps' : Slice Name} (x : Name)
      (literal : a.node f = .function ps b) (literal' : a'.node f' = .function ps' b')
      (params : a.readParams ps = a'.readParams ps') (body : R b b')
      (omits : Code.Omits ⟨a, b⟩ x) (omits' : Code.Omits ⟨a', b'⟩ x)
      (length : (a.readList xs).length = (a'.readList xs').length)
      (arguments : ∀ (k : Nat) e e', (a.readList xs)[k]? = some e → (a'.readList xs')[k]? = some e' →
        (a.readParams ps)[k]? ≠ some x → R e e') :
    UsedAlike R a a' (.apply f xs) (.apply f' xs')
  | array {xs xs' : Slice NodeId}
      (elements : List.Forall₂ R (a.readList xs) (a'.readList xs')) :
    UsedAlike R a a' (.array xs) (.array xs')
  | object {xs xs' : Slice NodeId} {fs fs' : Slice FieldDef}
      (asserts : List.Forall₂ R (a.readList xs) (a'.readList xs'))
      (fields : List.Forall₂ (fun f f' => R f.name f'.name ∧ f.visibility = f'.visibility ∧
        R f.body f'.body ∧ f.extendsSuper = f'.extendsSuper) (a.readFields fs)
        (a'.readFields fs')) : UsedAlike R a a' (.object xs fs) (.object xs' fs')
  | binary (op : BinaryOp) {x x' y y' : NodeId} (left : R x x') (right : R y y') :
    UsedAlike R a a' (.binary op x y) (.binary op x' y')
  | unary (op : UnaryOp) {x x' : NodeId} (operand : R x x') :
    UsedAlike R a a' (.unary op x) (.unary op x')
  | conditional {c c' x x' y y' : NodeId} (condition : R c c') (whenTrue : R x x')
      (whenFalse : R y y') : UsedAlike R a a' (.conditional c x y) (.conditional c' x' y')
  | index {x x' i i' : NodeId} (target : R x x') (position : R i i') :
    UsedAlike R a a' (.index x i) (.index x' i')
  | superIndex {i i' : NodeId} (position : R i i') :
    UsedAlike R a a' (.superIndex i) (.superIndex i')
  | error {x x' : NodeId} (message : R x x') : UsedAlike R a a' (.error x) (.error x')

/-- Whether two codes stand at the same places and are the same, up to parts that are not used:
there are pairs of expressions, the codes among them, that all have alike nodes. -/
def Code.UsedAlike (c c' : Code) : Prop :=
  ∃ R : NodeId → NodeId → Prop, R c.root c'.root ∧ ∀ i i', R i i' →
    c.arena.location i = c'.arena.location i' ∧
      (c.arena.node i).UsedAlike R c.arena c'.arena (c'.arena.node i')

/-- A code is the same as itself. -/
theorem Node.UsedAlike.refl (a : Arena) (node : Node) :
  node.UsedAlike Eq a a node
  := by
  have same : ∀ {α : Type} {P : α → α → Prop} (xs : List α), (∀ x, P x x) → List.Forall₂ P xs xs :=
    fun xs h => List.forall₂_same.mpr fun x _ => h x
  cases node with
  | locals bs b => exact .locals (same _ fun _ => ⟨rfl, rfl⟩) rfl
  | function ps b => exact .function rfl rfl
  | apply f xs => exact .apply rfl (same _ fun _ => rfl)
  | array xs => exact .array (same _ fun _ => rfl)
  | object xs fs => exact .object (same _ fun _ => rfl) (same _ fun _ => ⟨rfl, rfl, rfl, rfl⟩)
  | binary op x y => exact .binary op rfl rfl
  | unary op x => exact .unary op rfl
  | conditional c x y => exact .conditional rfl rfl rfl
  | index x i => exact .index rfl rfl
  | superIndex i => exact .superIndex rfl
  | error x => exact .error rfl
  | _ => exact .leaf _ rfl

theorem Code.UsedAlike.refl (c : Code) :
  c.UsedAlike c
  := by
  refine ⟨Eq, rfl, ?_⟩
  rintro i _ rfl
  exact ⟨rfl, .refl _ _⟩

theorem Node.UsedAlike.symm {R : NodeId → NodeId → Prop} {a a' : Arena} {n n' : Node}
    (h : n.UsedAlike R a a' n') :
  n'.UsedAlike (flip R) a' a n
  := by
  cases h with
  | leaf _ hleaf => exact .leaf _ hleaf
  | locals binds body =>
    exact .locals (binds.flip.imp fun _ _ h => ⟨h.1.symm, h.2⟩) body
  | unusedBind x binds body omits omits' =>
    refine .unusedBind x (binds.flip.imp ?_) body omits' omits
    rintro l' l ⟨name, h⟩
    refine ⟨name.symm, fun hne => ?_⟩
    obtain ⟨hbody, homits, homits'⟩ := h (name ▸ hne)
    exact ⟨hbody, homits', homits⟩
  | function params body => exact .function params.symm body
  | apply target arguments => exact .apply target arguments.flip
  | unusedArgument x literal literal' params body omits omits' length arguments =>
    refine .unusedArgument x literal' literal params.symm body omits' omits length.symm ?_
    intro k e' e he' he hne
    exact arguments k e e' he he' (params ▸ hne)
  | array elements => exact .array elements.flip
  | object asserts fields =>
    refine .object asserts.flip (fields.flip.imp ?_)
    exact fun _ _ h => ⟨h.1, h.2.1.symm, h.2.2.1, h.2.2.2.symm⟩
  | binary op left right => exact .binary op left right
  | unary op operand => exact .unary op operand
  | conditional condition whenTrue whenFalse => exact .conditional condition whenTrue whenFalse
  | index target position => exact .index target position
  | superIndex position => exact .superIndex position
  | error message => exact .error message

theorem Code.UsedAlike.symm {c c' : Code} (h : c.UsedAlike c') :
  c'.UsedAlike c
  := by
  obtain ⟨R, root, hR⟩ := h
  refine ⟨flip R, root, ?_⟩
  intro i' i hi
  obtain ⟨location, node⟩ := hR i i' hi
  exact ⟨location.symm, node.symm⟩

/-! ### Their kind -/

/-- A name may have two properties wherever it may have each of them. -/
theorem Code.Bound.and {code : Code} {P Q : Name → Prop} (hP : code.Bound P) (hQ : code.Bound Q) :
  code.Bound fun name => P name ∧ Q name
  := by
  intro place path name hname
  obtain h | hp := hP place path name hname
  · exact .inl h
  · exact (hQ place path name hname).imp_right fun hq => ⟨hp, hq⟩

/-- The parts of a `local` see what it binds. -/
theorem Code.Bound.locals {code : Code} {P : Name → Prop} (h : code.Bound P) {bs : Slice Bind}
    {b : NodeId} (hnode : code.node = .locals bs b) :
  let inner := fun name => name ∈ (code.arena.readBinds bs).map Bind.name ∨ P name
  (code.sibling b).Bound inner ∧
    ∀ bind ∈ code.arena.readBinds bs, (code.sibling bind.body).Bound inner
  := by
  intro inner
  have hbelow : ∀ i, i = b ∨ i ∈ (code.arena.readBinds bs).map Bind.body →
      (code.sibling i).Bound inner := by
    intro i hi
    have hplace : ⟨(code.arena.readBinds bs).map Bind.name, false, i⟩
        ∈ code.arena.below code.root := by
      rw [node] at hnode
      rw [Arena.below, hnode]
      simpa using hi
    exact h.below hplace
  exact ⟨hbelow b (.inl rfl), fun bind hbind => hbelow _ (.inr (List.mem_map_of_mem hbind))⟩

/-- The body of a function sees its parameters. -/
theorem Code.Bound.function {code : Code} {P : Name → Prop} (h : code.Bound P) {ps : Slice Name}
    {b : NodeId} (hnode : code.node = .function ps b) :
  (code.sibling b).Bound fun name => name ∈ code.arena.readParams ps ∨ P name
  := by
  have hplace : ⟨code.arena.readParams ps, false, b⟩ ∈ code.arena.below code.root := by
    rw [node] at hnode
    simp [Arena.below, hnode]
  exact h.below hplace

/-- The parts of any other expression see what it sees. -/
theorem Code.Bound.child {code : Code} {P : Name → Prop} (h : code.Bound P) (inMember : Bool)
    {i : NodeId} (hi : ⟨[], inMember, i⟩ ∈ code.arena.below code.root) :
  (code.sibling i).Bound P
  := (h.below hi).mono fun _ hname => hname.resolve_left List.not_mem_nil

/-- The nodes of codes that are alike in what is used are akin, as long as everything is live that
the first of them refers to. -/
theorem Node.UsedAlike.akin {ν : Name → Name → Prop} (hν : ∀ n, ν n n) {live : Name → Prop}
    {c : Code} {a' : Arena} (bound : c.Bound live) {R : NodeId → NodeId → Prop} {n' : Node}
    (h : c.node.UsedAlike R c.arena a' n') {sub : (Name → Prop) → NodeId → NodeId → Prop}
    (hsub : ∀ {live i i'}, (c.sibling i).Bound live → R i i' → sub live i i') :
  Node.Akin ν sub True False live c.arena a' c.node n'
  := by
  have names : ∀ {xs ys : List Name}, xs = ys → List.Forall₂ ν xs ys := by
    rintro xs _ rfl
    exact List.forall₂_same.mpr fun x _ => hν x
  have children : ∀ (inMember : Bool) {xs ys : List NodeId},
      (∀ i ∈ xs, ⟨[], inMember, i⟩ ∈ c.arena.below c.root) → List.Forall₂ R xs ys →
      List.Forall₂ (sub live) xs ys := by
    intro inMember xs ys hxs hR
    refine ((List.forall₂_and_left _ _).mpr ⟨fun i hi => bound.child inMember (hxs i hi), hR⟩).imp ?_
    exact fun _ _ h => hsub h.1 h.2
  have child : ∀ {i i'}, ⟨[], false, i⟩ ∈ c.arena.below c.root → R i i' → sub live i i' :=
    fun hi => hsub (bound.child false hi)
  generalize hn : c.node = n at h ⊢
  have hnode : c.arena.node c.root = n := hn
  cases h with
  | leaf _ hleaf =>
    cases n' with
    | null => exact .null
    | bool b => exact .bool b
    | number x => exact .number x
    | string s => exact .string (hν s)
    | var name => exact .var (hν name) (bound.root hnode)
    | selfRef => exact .selfRef
    | importCode p => exact .importCode (hν p)
    | importText p => exact .importText (hν p)
    | _ => cases hleaf
  | locals binds body =>
    obtain ⟨hbody, hbinds⟩ := bound.locals hn
    refine .locals ?_ (hsub hbody body) (fun _ h => h) fun h => absurd trivial h
    refine ((List.forall₂_and_left _ _).mpr ⟨hbinds, binds⟩).imp ?_
    rintro l l' ⟨hbound, name, hR⟩
    exact ⟨name ▸ hν _, fun _ => hsub hbound hR⟩
  | unusedBind x binds body omits omits' =>
    obtain ⟨hbody, hbinds⟩ := bound.locals hn
    refine .locals ?_ (hsub (hbody.and omits) body) (fun _ h => h.1) fun h => absurd trivial h
    refine ((List.forall₂_and_left _ _).mpr ⟨hbinds, binds⟩).imp ?_
    rintro l l' ⟨hbound, name, h⟩
    refine ⟨name ▸ hν _, fun alive => ?_⟩
    obtain ⟨hR, homits, -⟩ := h alive.2
    exact hsub (hbound.and homits) hR
  | function params body => exact .function (names params) (hsub (bound.function hn) body) fun _ h => h
  | apply target arguments =>
    exact .apply (child (by simp [Arena.below, hnode]) target)
      (children false (fun i hi => by simp [Arena.below, hnode, hi]) arguments)
  | @unusedArgument f f' b b' xs xs' ps ps' x literal literal' params body omits omits' length
      arguments =>
    have htarget := bound.child false (i := f) (by simp [Arena.below, hnode])
    have hbody := (htarget.function literal).and omits
    refine .applyLiteral literal literal' (names params) (hsub hbody body) (fun _ h => h.1) length ?_
    intro hcount
    apply Partly.of_get
    · rw [List.length_map, hcount]
    · exact length
    · intro k p i i' hk hp hi hi'
      rw [List.getElem?_map, Option.map_eq_some_iff] at hk
      obtain ⟨name, hname, rfl⟩ := hk
      have hmem : i ∈ c.arena.readList xs := List.mem_of_getElem? hi
      refine child (by simp [Arena.below, hnode, hmem]) (arguments k i i' hi hi' ?_)
      rw [hname]
      intro heq
      exact hp.2 (Option.some.inj heq)
  | array elements =>
    exact .array (children false (fun i hi => by simp [Arena.below, hnode, hi]) elements)
  | @object xs xs' fs fs' asserts fields =>
    have hbound : ∀ f ∈ c.arena.readFields fs,
        (c.sibling f.name).Bound live ∧ (c.sibling f.body).Bound live := by
      intro f hf
      constructor
      · refine bound.child false ?_
        simp only [Arena.below, hnode, List.mem_append, List.mem_map]
        exact .inl ⟨_, ⟨f, hf, rfl⟩, rfl⟩
      · refine bound.child true ?_
        simp only [Arena.below, hnode, List.mem_append, List.mem_map]
        exact .inr ⟨_, .inr ⟨f, hf, rfl⟩, rfl⟩
    refine .object (children true (fun i hi => ?_) asserts) ?_
    · simp [Arena.below, hnode, hi]
    · refine ((List.forall₂_and_left _ _).mpr ⟨hbound, fields⟩).imp ?_
      rintro f f' ⟨⟨hname, hbody⟩, name, visibility, body, extendsSuper⟩
      exact ⟨hsub hname name, visibility, hsub hbody body, extendsSuper⟩
  | binary op left right =>
    exact .binary op (child (by simp [Arena.below, hnode]) left)
      (child (by simp [Arena.below, hnode]) right)
  | unary op operand => exact .unary op (child (by simp [Arena.below, hnode]) operand)
  | conditional condition whenTrue whenFalse =>
    exact .conditional (child (by simp [Arena.below, hnode]) condition)
      (child (by simp [Arena.below, hnode]) whenTrue)
      (child (by simp [Arena.below, hnode]) whenFalse)
  | index target position =>
    exact .index (child (by simp [Arena.below, hnode]) target)
      (child (by simp [Arena.below, hnode]) position)
  | superIndex position => exact .superIndex (child (by simp [Arena.below, hnode]) position)
  | error message => exact .error (child (by simp [Arena.below, hnode]) message)

/-- Codes that are alike in what is used, as long as everything is live that the first of them
refers to. -/
def Kinship.used : Kinship where
  code ν live c c' := (∀ n, ν n n) ∧ c.Bound live ∧ c.UsedAlike c'
  dead := True
  reorders := False
  mono h hνμ := ⟨fun n => hνμ n n (h.1 n), h.2⟩
  location := by
    rintro ν live c c' ⟨hν, -, R, root, hR⟩
    have hlocation := (hR _ _ root).1
    refine ⟨?_, congrArg Location.span hlocation⟩
    rw [Code.location, Code.location, hlocation]
    exact hν _
  node := by
    rintro ν live c c' ⟨hν, bound, R, root, hR⟩
    exact (hR _ _ root).2.akin hν bound fun h hi => ⟨hν, h, R, hi, hR⟩

/-- Every code is alike to itself in what is used. -/
theorem Kinship.used_selves (code : Code) :
  Kinship.used.Selves code
  := fun _ hν => ⟨hν, fun _ _ _ _ => .inr trivial, .refl code⟩

/-! ### Their results -/

/-- Two runs with one interner whose codes are alike in what is used. -/
def Accord.used (frontEnd : FrontEnd) : Accord .used frontEnd frontEnd :=
  .itself .used id fun _ _ _ code _ => Kinship.used_selves code

section

variable {setup : Setup} {names : Interner} {programs : List Code} {a : State}

/-- What an evaluation comes to with one code, it comes to with any other that is alike in what is
used. -/
theorem Code.UsedAlike.run {session session' : Session} (hfirst : session.frontEnd = setup.frontEnd)
    (hsecond : session'.frontEnd = setup.frontEnd) {w : Bond} {b : State}
    (sessions : session.Akin .used w session') (meets : (Accord.used setup.frontEnd).Meets w a b)
    {c c' : Code} (h : c.UsedAlike c') {fuel : Nat} {x : Outcome String}
    (hx : c.output.run session fuel a = some x) (hasSlots : x.2.HasSlots) :
  ∃ fuel' b', c'.output.run session' fuel' b = some (x.1, b') ∧ b'.HasSlots
  := by
  have code : Kinship.used.code w.name (fun _ => True) c c' :=
    ⟨fun n => (meets.holds.2 n n).mpr rfl, fun _ _ _ _ => .inr trivial, h⟩
  obtain ⟨fuel', y, hy, hends⟩ := (Accord.used setup.frontEnd).output hfirst hsecond sessions meets
    code hx ⟨trivial, fun _ => hasSlots⟩
  obtain ⟨_, -, meets'⟩ := hends.state
  have heq : x.1 = y.1 := by
    cases hends with
    | ok _ _ result => exact congrArg Except.ok result
    | error _ meets failure =>
      exact congrArg Except.error (failure.eq fun n n' => (meets.holds.2 n n').mp)
  refine ⟨fuel', y.2, by rw [hy, heq], ?_⟩
  have hsize : x.2.slots.size = y.2.slots.size := meets'.akin.slots.size_eq
  rw [State.HasSlots, ← hsize]
  exact hasSlots

end

end Jsonnet
