import Jsonnet.Proofs.Kept
import Jsonnet.Proofs.Literals

/-!
# Fields that extend each other

A field that extends the one further left is added to it, so the definitions of a field up to the
first one that extends nothing are summed up: of the bodies `v₀`, `v₁`, …, `vₖ`, from the right,
the value is `((vₖ + …) + v₁) + v₀`. Each of the sums is kept under the depth of its last summand,
and no definition further left is evaluated.
-/

namespace Jsonnet

/-! ### The definitions of a field -/

/-- Whether a member extends the definition further left. -/
def Member.extendsSuper : Member → Bool
  | .code _ extendsSuper => extendsSuper
  | .ready _ => false

/-- A definition of a field in a literal of an object, with the position of the literal. -/
structure Definition where
  leaf : Leaf
  position : Nat
  member : Member

/-- What a definition evaluates to: its body, with the object as `self` and the position of its
literal as depth. -/
def Definition.value (d : Definition) (o : Object) (name : Name) : Action Value :=
  match d.member with
  | .code body _ => body.evaluateIn (.field name) ⟨d.leaf.scope, some o, d.position⟩
  | .ready value => return value

/-- The definitions of a field in a row of literals with their positions. -/
def definitionsIn (name : Name) : List (Leaf × Nat) → List Definition
  | [] => []
  | (l, position) :: rest =>
    match l.field? name with
    | some field => ⟨l, position, field.member⟩ :: definitionsIn name rest
    | none => definitionsIn name rest

/-- The definitions of a field behind the first literals of an object, from the right. -/
def Object.definitionsFrom (o : Object) (minDepth : Nat) (name : Name) : List Definition :=
  definitionsIn name (o.literals.zipIdx.drop minDepth)

/-- Some definitions up to the first one that does not extend the one further left. -/
def upToPlain : List Definition → List Definition
  | [] => []
  | d :: rest => d :: if d.member.extendsSuper then upToPlain rest else []

section

variable {name : Name} {d : Definition} {rest : List Definition}

/-- A literal that is looked up is that of the first definition. -/
theorem find?_eq_head? (literals : List (Leaf × Nat)) :
  (literals.find? fun (l, _) => (l.field? name).isSome)
    = (definitionsIn name literals).head?.map fun d => (d.leaf, d.position)
  := by
  induction literals with
  | nil => rfl
  | cons literal literals ih =>
    obtain ⟨l, position⟩ := literal
    rw [definitionsIn, List.find?_cons]
    cases hl : l.field? name with
    | none => simpa [hl] using ih
    | some field => simp [hl]

/-- The definitions behind the first one, in a row of literals. -/
theorem definitionsIn_after {xs : List Leaf} {start minDepth : Nat}
    (h : definitionsIn name ((xs.zipIdx start).drop minDepth) = d :: rest) :
  (∃ visibility, d.leaf.field? name = some ⟨visibility, d.member⟩) ∧
    start + minDepth ≤ d.position ∧ d.position < start + xs.length ∧
    definitionsIn name ((xs.zipIdx start).drop (d.position - start)) = d :: rest ∧
    definitionsIn name ((xs.zipIdx start).drop (d.position + 1 - start)) = rest
  := by
  induction xs generalizing start minDepth with
  | nil => cases minDepth <;> cases h
  | cons l xs ih =>
    -- Behind the first literal the positions begin one further.
    have behind : ∀ minDepth : Nat,
        definitionsIn name ((xs.zipIdx (start + 1)).drop minDepth) = d :: rest →
        (∃ visibility, d.leaf.field? name = some ⟨visibility, d.member⟩) ∧
          start + (minDepth + 1) ≤ d.position ∧ d.position < start + (l :: xs).length ∧
          definitionsIn name (((l :: xs).zipIdx start).drop (d.position - start)) = d :: rest ∧
          definitionsIn name (((l :: xs).zipIdx start).drop (d.position + 1 - start)) = rest := by
      intro minDepth h
      obtain ⟨field, hle, hlt, here, after⟩ := ih h
      have hhere : d.position - start = d.position - (start + 1) + 1 := by omega
      have hafter : d.position + 1 - start = d.position + 1 - (start + 1) + 1 := by omega
      rw [List.zipIdx_cons, hhere, hafter, List.drop_succ_cons, List.drop_succ_cons]
      rw [List.length_cons]
      exact ⟨field, by omega, by omega, here, after⟩
    cases minDepth with
    | succ minDepth =>
      rw [List.zipIdx_cons, List.drop_succ_cons] at h
      exact behind minDepth h
    | zero =>
      rw [List.drop_zero, List.zipIdx_cons, definitionsIn] at h
      cases hl : l.field? name with
      | none =>
        rw [hl] at h
        obtain ⟨field, hle, rest⟩ := behind 0 h
        exact ⟨field, by omega, rest⟩
      | some field =>
        rw [hl] at h
        obtain ⟨rfl, rfl⟩ := List.cons.inj h
        obtain ⟨visibility, member⟩ := field
        refine ⟨⟨visibility, hl⟩, le_rfl, by simp, ?_, ?_⟩
        · rw [Nat.sub_self, List.drop_zero, List.zipIdx_cons, definitionsIn, hl]
        · rw [Nat.add_sub_cancel_left, List.zipIdx_cons, List.drop_one, List.tail_cons]

variable {o : Object}

/-- The definitions from the first one on and behind it. -/
theorem Object.definitionsFrom_after {minDepth : Nat} (h : o.definitionsFrom minDepth name = d :: rest) :
  (∃ visibility, d.leaf.field? name = some ⟨visibility, d.member⟩) ∧
    d.position < o.literals.length ∧ o.definitionsFrom d.position name = d :: rest ∧
    o.definitionsFrom (d.position + 1) name = rest
  := by
  obtain ⟨field, -, hlt, here, after⟩ := definitionsIn_after h
  exact ⟨field, by omega, here, after⟩

/-- A field is found where its first definition is. -/
theorem Object.Composed.find?_eq (h : o.Composed) (few : o.literals.length < 2 ^ 32) (minDepth : Nat)
    (name : Name) :
  o.find? minDepth name = (o.definitionsFrom minDepth name).head?.map fun d => (d.leaf, d.position)
  := by
  have few : 0 + o.literals.length ≤ maxLeaves := by
    rw [Nat.zero_add]
    exact Nat.le_sub_one_of_lt few
  exact (h.findFrom_eq name few minDepth).trans (find?_eq_head? _)

/-- A literal that defines a field is that of the first definition from its position on. -/
theorem Object.definitionsFrom_of_mem {l : Leaf} {position : Nat}
    (mem : (l, position) ∈ o.literals.zipIdx) {field : Field} (hfield : l.field? name = some field) :
  o.definitionsFrom position name
    = ⟨l, position, field.member⟩ :: o.definitionsFrom (position + 1) name
  := by
  have hget := List.mem_zipIdx_iff_getElem?.mp mem
  obtain ⟨hlt, hget⟩ := List.getElem?_eq_some_iff.mp hget
  have hlt' : position < o.literals.zipIdx.length := by simpa using hlt
  rw [definitionsFrom, List.drop_eq_getElem_cons hlt', List.getElem_zipIdx, Nat.zero_add, hget,
    definitionsIn, hfield]
  rfl

end

/-! ### Sums -/

/-- What the definitions `d₀`, `d₁`, …, `dₖ` of a field of an object come to, with the values of
their bodies. The bodies are evaluated in this order, and before a further one is, the object is
checked again. Then the sums are formed, with the value of a definition as right operand, and kept.
What was kept before was formed at a moment at which the same field was about to be computed. -/
inductive Object.Sums (session : Session) (begun : Task → State → Prop) (o : Object) (name : Name) :
    Location → List Definition → State → List Value → Except Failure Value → State → Prop where
  | kept {site site' : Location} {d : Definition} {rest : List Definition} {a s t : State}
      {values : List Value} {v : Value} (known : a.fields[o.fieldKey name d.position]? = some v)
      (moment : begun (.field o d.leaf d.position name site') s)
      (formed : Sums session begun o name site' (d :: rest) s values (.ok v) t) :
    Sums session begun o name site (d :: rest) a values (.ok v) a
  | broken {site : Location} {d : Definition} {rest : List Definition} {a b : State}
      {failure : Failure} (fresh : a.fields[o.fieldKey name d.position]? = none)
      (body : (d.value o name).Ends session a (.error failure) b) :
    Sums session begun o name site (d :: rest) a [] (.error failure) b
  | last {site : Location} {d : Definition} {a b : State} {v : Value}
      (fresh : a.fields[o.fieldKey name d.position]? = none)
      (body : (d.value o name).Ends session a (.ok v) b) :
    Sums session begun o name site [d] a [v] (.ok v) (b.keepField (o.fieldKey name d.position) v)
  | stopped {site : Location} {d : Definition} {rest : List Definition} {a b c e : State}
      {v : Value} {values : List Value} {failure : Failure}
      (fresh : a.fields[o.fieldKey name d.position]? = none)
      (body : (d.value o name).Ends session a (.ok v) b) (checked : o.check.Ends session b (.ok ()) c)
      (others : Sums session begun o name site rest c values (.error failure) e) :
    Sums session begun o name site (d :: rest) a (v :: values) (.error failure) e
  | failed {site : Location} {d : Definition} {rest : List Definition} {a b c s e : State}
      {v w : Value} {values : List Value} {failure : Failure}
      (fresh : a.fields[o.fieldKey name d.position]? = none)
      (body : (d.value o name).Ends session a (.ok v) b) (checked : o.check.Ends session b (.ok ()) c)
      (others : Sums session begun o name site rest c values (.ok w) s)
      (plus : ((Function.builtin (.binary .add)).call [.ready w, .ready v] site).Ends session s
        (.error failure) e) :
    Sums session begun o name site (d :: rest) a (v :: values) (.error failure) e
  | sum {site : Location} {d : Definition} {rest : List Definition} {a b c s e : State}
      {v w r : Value} {values : List Value}
      (fresh : a.fields[o.fieldKey name d.position]? = none)
      (body : (d.value o name).Ends session a (.ok v) b) (checked : o.check.Ends session b (.ok ()) c)
      (others : Sums session begun o name site rest c values (.ok w) s)
      (plus : ((Function.builtin (.binary .add)).call [.ready w, .ready v] site).Ends session s
        (.ok r) e) :
    Sums session begun o name site (d :: rest) a (v :: values) (.ok r)
      (e.keepField (o.fieldKey name d.position) r)

/-! ### What is computed -/

section

variable {o : Object} (composed : o.Composed) (few : o.literals.length < 2 ^ 32) {name : Name}
  {d : Definition} {rest : List Definition} {minDepth : Nat}
  (hdefinitions : o.definitionsFrom minDepth name = d :: rest) (site : Location)

include composed few hdefinitions

/-- A field that is defined is computed from its first definition. -/
theorem readField_eq :
  readField o minDepth name site
    = o.check >>= fun _ => Action.request (.field o d.leaf d.position name site)
  := by
  rw [readField, composed.find?_eq few, hdefinitions]
  rfl

/-- A definition that extends one further left is added to what the field is there. -/
theorem computeField_eq :
  computeField o d.leaf d.position name site
    = d.value o name >>= fun v =>
      if d.member.extendsSuper && !rest.isEmpty then do
        let w ← o.read (d.position + 1) name site
        (Function.builtin (.binary .add)).call [.ready w, .ready v] site
      else return v
  := by
  obtain ⟨⟨visibility, hfield⟩, hlt, -, hrest⟩ := Object.definitionsFrom_after hdefinitions
  have depth : addLeaves d.position 1 = d.position + 1 := min_eq_left (by
    have hmax : maxLeaves = 2 ^ 32 - 1 := rfl
    omega)
  have further : (o.find? (d.position + 1) name).isSome = !rest.isEmpty := by
    rw [composed.find?_eq few, hrest]
    cases rest <;> rfl
  rw [computeField, hfield]
  obtain ⟨leaf, position, member⟩ := d
  cases member with
  | ready value => rfl
  | code body extendsSuper =>
    dsimp only [Definition.value, Member.extendsSuper] at *
    rw [depth, further]
    rfl

end

/-! ### What is kept -/

/-- Whether every value of a field that is kept was formed as the sum of its definitions. -/
def State.KeepsSums (session : Session) (begun : Task → State → Prop) (made : List Object)
    (a : State) : Prop :=
  ∀ (key : FieldKey) (v : Value), a.fields[key]? = some v →
    ∃ o : Object, o.MadeIn made ∧ o.id = key.object ∧ (o.literals.length < 2 ^ 32 →
      ∃ d rest, o.definitionsFrom key.depth key.name = d :: rest ∧ d.position = key.depth ∧
        ∃ site s values t, begun (.field o d.leaf d.position key.name site) s ∧
          o.Sums session begun key.name site (upToPlain (d :: rest)) s values (.ok v) t)

/-- What is asked of every moment: the task is given genuine data, and has been begun. -/
def Watched (session : Session) (begun : Task → State → Prop) (made : List Object) (task : Task)
    (s : State) : Prop :=
  task.Takes .any session made ∧ begun task s

section

variable {session : Session} {begun : Task → State → Prop} {made : List Object} {a b : State}

theorem State.KeepsSums.congr (h : a.KeepsSums session begun made) (fields : b.fields = a.fields) :
  b.KeepsSums session begun made
  := by
  intro key v hv
  rw [fields] at hv
  exact h key v hv

theorem State.KeepsSums.mono (h : a.KeepsSums session begun made) {more : List Object}
    (hle : made <+: more) :
  a.KeepsSums session begun more
  := by
  intro key v hv
  obtain ⟨o, ho, rest⟩ := h key v hv
  exact ⟨o, ho.mono hle, rest⟩

theorem State.fields_of_enter {frame? : Option Frame} (h : a.enter frame? = .ok b) :
  b.fields = a.fields
  := by
  obtain ⟨stack, rfl, -⟩ := enter_eq (c := a) h
  rfl

theorem State.leave_fields (a : State) (frame? : Option Frame) :
  (a.leave frame?).fields = a.fields
  := by
  cases frame? <;> rfl

/-- What has to be shown of tasks. -/
def Task.KeepSums (session : Session) (begun : Task → State → Prop) (made : List Object)
    (fuel : Nat) : Prop :=
  ∀ ⦃task : Task⦄ ⦃a b : State⦄ ⦃x : Except Failure task.Result⦄,
    task.Always session (Watched session begun made) a → a.KeepsSums session begun made →
    task.perform session fuel a = some (x, b) → b.KeepsSums session begun made

/-- A computation keeps nothing but sums if the tasks do that it asks for. -/
theorem Progress.keepsSums_of_resolve {fuel : Nat} (tasks : Task.KeepSums session begun made fuel)
    {α : Type} {p : Progress α} {x : Except Failure α}
    (always : p.Always session (Watched session begun made) a) (keeps : a.KeepsSums session begun made)
    (run : p.resolve session (Task.perform session fuel) a = some (x, b)) :
  b.KeepsSums session begun made
  := by
  induction p generalizing a with
  | finished r =>
    cases run
    exact keeps
  | step operation next ih =>
    have hfields := operation.fields_apply session a
    rw [resolve] at run
    split at run
    case h_1 r c taken =>
      rw [taken] at hfields
      exact ih r (always.step taken) (keeps.congr hfields) run
    case h_2 failure c taken =>
      cases run
      rw [taken] at hfields
      exact keeps.congr hfields
  | wait frame? task next ih =>
    rw [resolve] at run
    split at run
    case h_1 =>
      cases run
      exact keeps
    case h_2 c enters =>
      have inside := always.moment (.asked enters)
      have keeps := keeps.congr (State.fields_of_enter enters)
      split at run
      case h_1 => cases run
      case h_2 r e ends =>
        exact ih r (always.later enters ends)
          ((tasks inside keeps ends).congr (e.leave_fields frame?)) run
      case h_3 failure e ends =>
        cases run
        exact (tasks inside keeps ends).congr (e.leave_fields frame?)

section

variable {o : Object} (composed : o.Composed) (few : o.literals.length < 2 ^ 32) {name : Name}
  {site : Location} {d : Definition} {rest : List Definition} {minDepth fuel : Nat}
  (hdefinitions : o.definitionsFrom minDepth name = d :: rest) {x : Except Failure Value}

include composed few hdefinitions

/-- A task that reads a field checks the object and computes the field. -/
theorem readField_of_perform
    (run : (Task.readField o minDepth name site).perform session fuel a = some (x, b)) :
  ∃ less < fuel, (∃ failure, x = .error failure ∧
      (Task.check o).perform session less a = some (.error failure, b)) ∨
    ∃ c, (Task.check o).perform session less a = some (.ok (), c) ∧
      (Task.field o d.leaf d.position name site).perform session less c = some (x, b)
  := by
  cases fuel with
  | zero => cases run
  | succ fuel =>
    use fuel, Nat.lt_succ_self fuel
    rw [Task.perform_unknown rfl, Task.action, readField_eq composed few hdefinitions,
      Action.bind_apply] at run
    obtain ⟨⟨outcome, c⟩, resolved, heq⟩ := Option.map_eq_some_iff.mp run
    cases heq
    rw [Progress.resolve_bind_eq, Object.check, Progress.resolve_request_eq] at resolved
    obtain ⟨⟨checked, e⟩, check, resolved⟩ := Option.bind_eq_some_iff.mp resolved
    cases checked with
    | error failure =>
      cases resolved
      exact .inl ⟨failure, rfl, check⟩
    | ok r =>
      dsimp only at resolved
      rw [Progress.resolve_request_eq] at resolved
      exact .inr ⟨e, check, resolved⟩

/-- The parts of computing a field: its first definition is evaluated, and if it extends one further
left, the field is read there and the value is added. -/
theorem computeField_of_resolve
    (run : (computeField o d.leaf d.position name site session).resolve session
      (Task.perform session fuel) a = some (x, b)) :
  (∃ failure, x = .error failure ∧ ((d.value o name session).resolve session
      (Task.perform session fuel) a = some (.error failure, b))) ∨
    ∃ v c, (d.value o name session).resolve session (Task.perform session fuel) a
        = some (.ok v, c) ∧
      (((if d.member.extendsSuper then upToPlain rest else []) = [] ∧ x = .ok v ∧ b = c) ∨
        d.member.extendsSuper = true ∧ rest ≠ [] ∧ ∃ y s, (Task.readField o (d.position + 1) name site).perform
            session fuel c = some (y, s) ∧
          ((∃ failure, y = .error failure ∧ x = .error failure ∧ b = s) ∨
            ∃ w, y = .ok w ∧ (((Function.builtin (.binary .add)).call [.ready w, .ready v] site)
              session).resolve session (Task.perform session fuel) s = some (x, b)))
  := by
  rw [computeField_eq composed few hdefinitions, Action.bind_apply, Progress.resolve_bind_eq] at run
  obtain ⟨⟨outcome, c⟩, body, run⟩ := Option.bind_eq_some_iff.mp run
  cases outcome with
  | error failure =>
    cases run
    exact .inl ⟨failure, rfl, body⟩
  | ok v =>
    refine .inr ⟨v, c, body, ?_⟩
    dsimp only at run
    split at run
    case isFalse plain =>
      cases run
      refine .inl ⟨?_, rfl, rfl⟩
      cases rest with
      | nil => exact ite_self _
      | cons e rest => rw [if_neg (by simpa using plain)]
    case isTrue extends_ =>
      rw [Action.bind_apply, Progress.resolve_bind_eq, Object.read, Progress.resolve_request_eq] at run
      obtain ⟨⟨y, s⟩, read, run⟩ := Option.bind_eq_some_iff.mp run
      obtain ⟨extends_, further⟩ := Bool.and_eq_true_iff.mp extends_
      refine .inr ⟨extends_, by simpa using further, y, s, read, ?_⟩
      cases y with
      | error failure =>
        cases run
        exact .inl ⟨failure, rfl, rfl, rfl⟩
      | ok w => exact .inr ⟨w, rfl, run⟩

end

/-- What has to be shown of a first definition, with given definitions behind it: what the field is
computed to is the sum of its definitions, if the object counts as valid or a value comes out. -/
def Object.SumsUp (session : Session) (begun : Task → State → Prop) (made : List Object) (o : Object)
    (name : Name) (site : Location) (rest : List Definition) : Prop :=
  ∀ ⦃d : Definition⦄ ⦃minDepth fuel : Nat⦄ ⦃a b : State⦄ ⦃x : Except Failure Value⦄,
    (∀ less < fuel, Task.KeepSums session begun made less) →
    o.definitionsFrom minDepth name = d :: rest →
    (Task.field o d.leaf d.position name site).Always session (Watched session begun made) a →
    a.KeepsSums session begun made → (x.isOk = true ∨ o.isSettled a = true) →
    (Task.field o d.leaf d.position name site).perform session fuel a = some (x, b) →
    ∃ values, o.Sums session begun name site (upToPlain (d :: rest)) a values x b

section

variable (sharing : session.sharing = true) {o : Object} (composed : o.Composed)
  (few : o.literals.length < 2 ^ 32) {name : Name} {site : Location} {rest : List Definition}

include composed few

/-- Reading a field that is defined sums its definitions up, if computing it does. -/
theorem Object.SumsUp.read {e : Definition} (h : SumsUp session begun made o name site rest)
    {minDepth fuel : Nat} {x : Except Failure Value}
    (tasks : ∀ less < fuel, Task.KeepSums session begun made less)
    (hdefinitions : o.definitionsFrom minDepth name = e :: rest)
    (always : (Task.readField o minDepth name site).Always session (Watched session begun made) a)
    (keeps : a.KeepsSums session begun made)
    (valid : x.isOk = true ∨ ∃ c, o.check.Ends session a (.ok ()) c ∧ o.isSettled c = true)
    (run : (Task.readField o minDepth name site).perform session fuel a = some (x, b)) :
  ∃ c values, o.check.Ends session a (.ok ()) c ∧
    o.Sums session begun name site (upToPlain (e :: rest)) c values x b
  := by
  have always : (Jsonnet.readField o minDepth name site session).Always session _ a :=
    always.action rfl
  rw [readField_eq composed few hdefinitions, Action.bind_apply] at always
  obtain ⟨less, hless, ⟨failure, rfl, check⟩ | ⟨c, check, field⟩⟩ :=
    readField_of_perform composed few hdefinitions run
  · exfalso
    obtain ok | ⟨c, passes, -⟩ := valid
    · cases ok
    · have check := Task.ends_iff_perform.mpr ⟨less, check⟩
      cases (passes.unique (Action.Ends.request_iff.mpr check)).1
  · have resolved : (o.check session).resolve session (Task.perform session less) a
        = some (.ok (), c) := (Progress.resolve_request_eq _ _ _).trans check
    have passed := Action.Ends.iff_resolve.mpr ⟨less, resolved⟩
    have valid : x.isOk = true ∨ o.isSettled c = true := by
      refine valid.imp_right ?_
      rintro ⟨c', passes, settled⟩
      rwa [← (passes.unique passed).2]
    obtain ⟨values, sums⟩ := h (fun fewer hfewer => tasks fewer (hfewer.trans hless)) hdefinitions
      (always.second resolved) (tasks less hless always.first keeps check) valid field
    exact ⟨c, values, passed, sums⟩

include sharing

/-- A first definition sums up with those behind it, if the next one does. -/
theorem Object.sumsUp_of_rest
    (next : ∀ e others, rest = e :: others → SumsUp session begun made o name site others) :
  SumsUp session begun made o name site rest
  := by
  intro d minDepth fuel a b x tasks hdefinitions always keeps valid run
  obtain ⟨-, -, here, after⟩ := definitionsFrom_after hdefinitions
  cases fuel with
  | zero => cases run
  | succ fuel =>
  cases hkey : a.fields[o.fieldKey name d.position]? with
  | some v =>
    have known : (Task.field o d.leaf d.position name site).known? session a = some v := by
      rw [Task.known?, if_pos sharing, hkey]
    rw [Task.perform, known] at run
    cases run
    obtain ⟨p, hp, hid, sums⟩ := keeps _ v hkey
    cases hp.unique always.now.1.1 hid
    obtain ⟨d', rest', hdefinitions', -, site', s, values, t, moment, formed⟩ := sums few
    cases here.symm.trans hdefinitions'
    exact ⟨values, .kept hkey moment formed⟩
  | none =>
    have unknown : (Task.field o d.leaf d.position name site).known? session a = none := by
      rw [Task.known?, if_pos sharing, hkey]
    have settle : ∀ v s, (Task.field o d.leaf d.position name site).settle session s (.ok v)
        = s.keepField (o.fieldKey name d.position) v := fun v s => by rw [Task.settle, if_pos sharing]
    rw [Task.perform_unknown unknown] at run
    obtain ⟨⟨outcome, c⟩, resolved, heq⟩ := Option.map_eq_some_iff.mp run
    cases heq
    have always := always.action unknown
    rw [Task.action, computeField_eq composed few hdefinitions, Action.bind_apply] at always
    obtain ⟨failure, rfl, body⟩ | ⟨v, b₁, body, parts⟩ :=
      computeField_of_resolve composed few hdefinitions resolved
    · exact ⟨[], .broken hkey (Action.Ends.iff_resolve.mpr ⟨fuel, body⟩)⟩
    · have keeps₁ := Progress.keepsSums_of_resolve (tasks fuel (Nat.lt_succ_self fuel)) always.first
        keeps body
      have valid₁ : outcome.isOk = true ∨ ∃ c, o.check.Ends session b₁ (.ok ()) c ∧
          o.isSettled c = true := by
        refine valid.imp_right fun settled => ?_
        have settled := isSettled_of_grows (Progress.grows Task.grows body) settled
        refine ⟨b₁, Action.Ends.request_iff.mpr ((Task.Ends.known_iff ?_).mpr ⟨rfl, rfl⟩), settled⟩
        rw [Task.known?, if_pos settled]
      have always₁ := always.second body
      have body := Action.Ends.iff_resolve.mpr ⟨fuel, body⟩
      obtain ⟨plain, rfl, rfl⟩ | ⟨extends_, further, y, s, read, parts⟩ := parts
      · use [v]
        rw [upToPlain, plain, settle]
        exact .last hkey body
      · obtain ⟨e, others, rfl⟩ := List.exists_cons_of_ne_nil further
        rw [if_pos (by rw [extends_]; rfl), Action.bind_apply] at always₁
        rw [upToPlain, if_pos extends_]
        have tasks := fun less (hless : less < fuel) => tasks less (hless.trans (Nat.lt_succ_self fuel))
        obtain ⟨failure, rfl, rfl, rfl⟩ | ⟨w, rfl, plus⟩ := parts
        · obtain ⟨c, values, checked, sums⟩ := (next e others rfl).read composed few tasks after
            always₁.first keeps₁ valid₁ read
          exact ⟨v :: values, .stopped hkey body checked sums⟩
        · obtain ⟨c, values, checked, sums⟩ := (next e others rfl).read composed few tasks after
            always₁.first keeps₁ (.inl rfl) read
          have plus := Action.Ends.iff_resolve.mpr ⟨fuel, plus⟩
          use v :: values
          cases outcome with
          | error failure => exact .failed hkey body checked sums plus
          | ok r =>
            rw [settle]
            exact .sum hkey body checked sums plus

/-- What a field is computed to is the sum of its definitions. -/
theorem Object.sumsUp (rest : List Definition) :
  SumsUp session begun made o name site rest
  := by
  induction rest with
  | nil =>
    apply sumsUp_of_rest sharing composed few
    rintro _ _ ⟨⟩
  | cons e rest ih =>
    apply sumsUp_of_rest sharing composed few
    rintro _ _ ⟨⟩
    exact ih

end

/-- Nothing but sums is kept when a task has been carried out. -/
theorem Task.keepSums (sharing : session.sharing = true)
    (composed : ∀ o : Object, o.MadeIn made → o.Composed) (fuel : Nat) :
  Task.KeepSums session begun made fuel
  := by
  induction fuel using Nat.strongRecOn with
  | ind fuel ih =>
  intro task a b x always keeps run
  cases fuel with
  | zero => cases run
  | succ fuel =>
  cases hknown : task.known? session a with
  | some r =>
    rw [perform, hknown] at run
    cases run
    exact keeps
  | none =>
    have performed := run
    rw [perform_unknown hknown] at run
    obtain ⟨⟨outcome, c⟩, resolved, heq⟩ := Option.map_eq_some_iff.mp run
    cases heq
    have begun : (task.begin a).fields = a.fields := by cases task <;> rfl
    have keeps₁ := Progress.keepsSums_of_resolve (ih fuel (Nat.lt_succ_self fuel))
      (always.action hknown) (keeps.congr begun) resolved
    cases task with
    | check o => exact keeps₁.congr rfl
    | force t =>
      apply keeps₁.congr
      cases outcome with
      | error failure => rfl
      | ok v =>
        rw [settle]
        split <;> rfl
    | field o l depth name site =>
      cases outcome with
      | error failure => exact keeps₁
      | ok v =>
        obtain ⟨⟨ho, hleaf⟩, -⟩ := always.now
        dsimp only
        rw [settle, if_pos sharing]
        intro key w hw
        rw [State.keepField, Std.HashMap.getElem?_insert] at hw
        split at hw
        case isFalse => exact keeps₁ key w hw
        case isTrue heq =>
          cases eq_of_beq heq
          cases hw
          refine ⟨o, ho, rfl, fun few => ?_⟩
          rw [((composed o ho).lookup_eq_scan few).1] at hleaf
          cases hfield : l.field? name with
          | none =>
            rw [action, computeField, hfield] at resolved
            cases resolved
          | some field =>
            have hdefinitions := Object.definitionsFrom_of_mem hleaf hfield
            obtain ⟨values, sums⟩ := Object.sumsUp sharing (composed o ho) few _ ih hdefinitions
              always keeps (.inl rfl) performed
            exact ⟨_, _, hdefinitions, rfl, site, a, values, _, always.now.2, sums⟩
    | _ => exact keeps₁

/-! ### Sums are what is computed -/

theorem Object.Sums.ne_nil {o : Object} {name : Name} {site : Location} {ds : List Definition}
    {values : List Value} {x : Except Failure Value}
    (h : o.Sums session begun name site ds a values x b) :
  ds ≠ []
  := by
  cases h <;> exact List.cons_ne_nil _ _

/-- Further definitions are summed up only if there are some and the first one extends them. -/
theorem Object.Sums.further {o : Object} {name : Name} {site : Location} {d : Definition}
    {rest : List Definition} {values : List Value} {x : Except Failure Value}
    (h : o.Sums session begun name site (if d.member.extendsSuper then upToPlain rest else []) a values
      x b) :
  d.member.extendsSuper = true ∧ ∃ e others, rest = e :: others
  := by
  have some := h.ne_nil
  split at some
  case isFalse => contradiction
  case isTrue extends_ =>
    refine ⟨extends_, ?_⟩
    cases rest with
    | nil => contradiction
    | cons e others => exact ⟨e, others, rfl⟩

/-- Reading a field that is defined comes to what its first definition comes to, once the object
has been checked. -/
theorem readField_ends {o : Object} (composed : o.Composed) (few : o.literals.length < 2 ^ 32)
    {name : Name} {site : Location} {d : Definition} {rest : List Definition} {minDepth : Nat}
    (hdefinitions : o.definitionsFrom minDepth name = d :: rest) {c : State}
    {x : Except Failure Value} (checked : o.check.Ends session a (.ok ()) c)
    (field : (Task.field o d.leaf d.position name site).Ends session c x b) :
  (Task.readField o minDepth name site).Ends session a x b
  := by
  rw [Task.Ends.unknown_iff rfl, Task.action, readField_eq composed few hdefinitions]
  refine ⟨b, Action.Ends.bind_iff.mpr (.inr ⟨(), c, checked, ?_⟩), rfl⟩
  exact Action.Ends.request_iff.mpr field

section

variable (sharing : session.sharing = true) {o : Object} (composed : o.Composed)
  (few : o.literals.length < 2 ^ 32) {name : Name} {site : Location} {d : Definition}

include sharing composed few

/-- A field that is not kept, whose first definition has been evaluated, comes to what is made of
the value. -/
theorem field_ends_of_body {rest : List Definition} {minDepth : Nat}
    (hdefinitions : o.definitionsFrom minDepth name = d :: rest)
    (hkey : a.fields[o.fieldKey name d.position]? = none) {v : Value} {c : State}
    (body : (d.value o name).Ends session a (.ok v) b) {x : Except Failure Value}
    (made : (if d.member.extendsSuper && !rest.isEmpty then do
        let w ← o.read (d.position + 1) name site
        (Function.builtin (.binary .add)).call [.ready w, .ready v] site
      else return v).Ends session b x c) :
  (Task.field o d.leaf d.position name site).Ends session a x
    ((Task.field o d.leaf d.position name site).settle session c x)
  := by
  rw [Task.Ends.unknown_iff (by rw [Task.known?, if_pos sharing, hkey]), Task.action,
    computeField_eq composed few hdefinitions]
  exact ⟨c, Action.Ends.bind_iff.mpr (.inr ⟨v, b, body, made⟩), rfl⟩

/-- A field that is not kept, whose first definition extends the next one, comes to what the next one
fails with, or to what adding the two comes to. -/
theorem field_ends_of_further {e : Definition} {others : List Definition} {minDepth : Nat}
    (hdefinitions : o.definitionsFrom minDepth name = d :: e :: others)
    (extends_ : d.member.extendsSuper = true)
    (hkey : a.fields[o.fieldKey name d.position]? = none) {v : Value} {c s t : State}
    (body : (d.value o name).Ends session a (.ok v) b) (checked : o.check.Ends session b (.ok ()) c)
    {y x : Except Failure Value} (field : (Task.field o e.leaf e.position name site).Ends session c y s)
    (made : (∃ failure, x = .error failure ∧ y = .error failure ∧ s = t) ∨ ∃ w, y = .ok w ∧
      ((Function.builtin (.binary .add)).call [.ready w, .ready v] site).Ends session s x t) :
  (Task.field o d.leaf d.position name site).Ends session a x
    ((Task.field o d.leaf d.position name site).settle session t x)
  := by
  have read : (o.read (d.position + 1) name site).Ends session b y s := Action.Ends.request_iff.mpr
    (readField_ends composed few (Object.definitionsFrom_after hdefinitions).2.2.2 checked field)
  apply field_ends_of_body sharing composed few hdefinitions hkey body
  rw [if_pos (by rw [extends_]; rfl), Action.Ends.bind_iff]
  obtain ⟨failure, rfl, rfl, rfl⟩ | ⟨w, rfl, plus⟩ := made
  · exact .inl ⟨failure, rfl, read⟩
  · exact .inr ⟨w, s, read, plus⟩

/-- A field is computed to the sum of its definitions. -/
theorem Object.Sums.field_ends {ds : List Definition} {values : List Value}
    {x : Except Failure Value} (h : o.Sums session begun name site ds a values x b)
    {rest : List Definition} {minDepth : Nat}
    (hdefinitions : o.definitionsFrom minDepth name = d :: rest) (hds : ds = upToPlain (d :: rest)) :
  (Task.field o d.leaf d.position name site).Ends session a x b
  := by
  have settle : ∀ (site : Location) {d : Definition} {v : Value} {s : State},
      (Task.field o d.leaf d.position name site).settle session s (.ok v)
        = s.keepField (o.fieldKey name d.position) v := by
    intro site d v s
    rw [Task.settle, if_pos sharing]
  induction h generalizing d rest minDepth with
  | kept hkey _ _ =>
    cases hds
    apply (Task.Ends.known_iff _).mpr ⟨rfl, rfl⟩
    rw [Task.known?, if_pos sharing, hkey]
  | broken hkey body =>
    cases hds
    rw [Task.Ends.unknown_iff (by rw [Task.known?, if_pos sharing, hkey]), Task.action,
      computeField_eq composed few hdefinitions]
    exact ⟨_, Action.Ends.bind_iff.mpr (.inl ⟨_, rfl, body⟩), rfl⟩
  | last hkey body =>
    obtain ⟨rfl, plain⟩ := List.cons.inj hds
    rw [← settle site]
    apply field_ends_of_body sharing composed few hdefinitions hkey body
    rw [if_neg, Action.Ends.pure_iff]
    · exact ⟨rfl, rfl⟩
    · intro extends_
      obtain ⟨extends_, more⟩ := Bool.and_eq_true_iff.mp extends_
      rw [if_pos extends_] at plain
      cases rest with
      | nil => cases more
      | cons e others => cases plain
  | stopped hkey body checked others ih =>
    obtain ⟨rfl, rfl⟩ := List.cons.inj hds
    obtain ⟨extends_, e, more, rfl⟩ := others.further
    have next := ih (definitionsFrom_after hdefinitions).2.2.2 (if_pos extends_)
    exact field_ends_of_further sharing composed few hdefinitions extends_ hkey body checked next
      (.inl ⟨_, rfl, rfl, rfl⟩)
  | failed hkey body checked others plus ih =>
    obtain ⟨rfl, rfl⟩ := List.cons.inj hds
    obtain ⟨extends_, e, more, rfl⟩ := others.further
    have next := ih (definitionsFrom_after hdefinitions).2.2.2 (if_pos extends_)
    exact field_ends_of_further sharing composed few hdefinitions extends_ hkey body checked next
      (.inr ⟨_, rfl, plus⟩)
  | sum hkey body checked others plus ih =>
    obtain ⟨rfl, rfl⟩ := List.cons.inj hds
    obtain ⟨extends_, e, more, rfl⟩ := others.further
    have next := ih (definitionsFrom_after hdefinitions).2.2.2 (if_pos extends_)
    rw [← settle site]
    exact field_ends_of_further sharing composed few hdefinitions extends_ hkey body checked next
      (.inr ⟨_, rfl, plus⟩)

end

end

/-! ### Moments -/

section

variable {session : Session} {begun : Task → State → Prop} {made last : List Object} {a b : State}

/-- What is begun at upright moments is given genuine data. -/
theorem Progress.Always.watched {α : Type} {p : Progress α}
    (all : p.Always session begun a) (upright : p.Upright .any session .onlyEmpty made last a) :
  p.Always session (Watched session begun last) a
  := by
  intro above task s moment
  obtain ⟨more, -, hlast, -, takes, -⟩ := upright above task s moment
  exact ⟨takes.mono hlast, all above task s moment⟩

theorem State.IsGenuine.composed (genuine : a.IsGenuine session made) :
  ∀ o : Object, o.MadeIn made → o.Composed
  := fun _ ho => (genuine.object ho).composed

section

variable (sharing : session.sharing = true)

include sharing

/-- A genuine task leaves nothing but sums kept, and at its moments it is given genuine data. -/
theorem Task.Takes.keepsSums {task : Task} (takes : task.Takes .any session made)
    (genuine : a.IsGenuine session made) (keeps : a.KeepsSums session begun made)
    (all : task.Always session begun a) {fuel : Nat} {x : Except Failure task.Result}
    (run : task.perform session fuel a = some (x, b)) :
  ∃ more, made <+: more ∧ b.IsGenuine session more ∧ (∀ r, x = .ok r → task.Yields .any more r) ∧
    b.KeepsSums session begun more ∧ task.Always session (Watched session begun more) a
  := by
  have request : (Progress.wait none task Progress.finished).Makes .any session
      (fun made => task.Yields .any made) made := .wait takes fun _ _ _ hr => .finished hr
  have resolved : (Progress.wait none task Progress.finished).resolve session
      (Task.perform session fuel) a = some (x, b) :=
    (Progress.resolve_request_eq (Task.perform session fuel) task a).trans run
  obtain ⟨more, hle, hb, yields, upright⟩ := request.run_of_performs
    (Standard.any_lax.supplies session b.imports)
    (Task.performs (Standard.any_lax.supplies session b.imports) fuel) (State.isProper_any.mpr genuine)
    (.of_lax Standard.any_lax _ _) resolved (.refl _)
  have hb := State.isProper_any.mp hb
  have watched : task.Always session (Watched session begun more) a := all.watched upright
  exact ⟨more, hle, hb, yields, Task.keepSums sharing hb.composed fuel watched (keeps.mono hle) run,
    watched⟩

/-- At a moment of what makes genuine data nothing but sums is kept. -/
theorem Progress.Moment.keepsSums {α : Type} {R : List Object → α → Prop} {p : Progress α}
    {s : State} {above : List Task} {task : Task} (moment : p.Moment session a above task s)
    (makes : p.Makes .any session R made) (genuine : a.IsGenuine session made)
    (keeps : a.KeepsSums session begun made) (all : p.Always session begun a) :
  ∃ more, s.IsGenuine session more ∧ task.Takes .any session more ∧ s.KeepsSums session begun more
  := by
  have supplies := Standard.any_lax.supplies session s.imports
  induction moment generalizing made with
  | @step α operation next a b s r above task taken later ih =>
    obtain ⟨more, hle, hb, makes⟩ :=
      makes.after_step supplies (State.isProper_any.mpr genuine) taken later.imports
    have hfields := operation.fields_apply session a
    rw [taken] at hfields
    exact ih makes (State.isProper_any.mp hb) ((keeps.mono hle).congr hfields) (all.step taken) supplies
  | asked enters =>
    cases makes with
    | wait takes =>
      have inside := State.isProper_any.mp ((State.isProper_any.mpr genuine).enter enters)
      exact ⟨made, inside, takes, keeps.congr (State.fields_of_enter enters)⟩
  | @inside α frame? outer task next a b s above enters unknown _ ih =>
    cases makes with
    | wait takes =>
      have inside := (State.isProper_any.mpr genuine).enter enters
      have begins : (outer.begin b).fields = b.fields := by cases outer <;> rfl
      exact ih (takes.makes inside) (State.isProper_any.mp (inside.begin _))
        ((keeps.congr (State.fields_of_enter enters)).congr begins)
        ((all.moment (.asked enters)).action unknown) supplies
  | @later α frame? first task next a b c s r above fuel enters ends rest ih =>
    cases makes with
    | wait takes goes =>
      have inside := State.isProper_any.mp ((State.isProper_any.mpr genuine).enter enters)
      obtain ⟨more, hle, hc, yields, keeps, -⟩ := takes.keepsSums sharing inside
        (keeps.congr (State.fields_of_enter enters)) (all.moment (.asked enters)) ends
      exact ih (goes more hle r (yields r rfl))
        (State.isProper_any.mp ((State.isProper_any.mpr hc).leave _))
        (keeps.congr (c.leave_fields frame?)) (all.later enters ends) supplies

/-- When control is back at a client nothing but sums is kept. -/
theorem Session.History.keepsSums {names : Interner} (prepared : session.Prepared names) {limit : Nat}
    {calls : List (Call × State)} {values : List Value}
    (h : session.History (.new names limit) calls a values)
    (all : ∀ call ∈ calls, (call.1.action session).Always session begun call.2) :
  ∃ made, a.IsGenuine session made ∧ (∀ v ∈ values, Genuine made (.value v)) ∧
    a.KeepsSums session begun made
  := by
  induction h with
  | start =>
    have genuine := prepared.isGenuine limit
    refine ⟨_, genuine, ?_, ?_⟩
    · intro v hv
      cases List.mem_singleton.mp hv
      exact .object genuine.library
    · intro key v hv
      simp [State.new] at hv
  | names before le ih =>
    obtain ⟨made, genuine, hvalues, keeps⟩ := ih all
    exact ⟨made, genuine.congr rfl rfl rfl rfl rfl rfl, hvalues, keeps⟩
  | @call calls a b values call fuel outcome before uses run ih =>
    obtain ⟨made, genuine, hvalues, keeps⟩ := ih fun call h => all call (List.mem_cons_of_mem _ h)
    obtain ⟨last, hle, hb, hgiven, upright⟩ := (uses.makes genuine hvalues).run genuine run
    obtain ⟨fuel, run⟩ := Action.run_iff.mp ⟨fuel, run⟩
    refine ⟨last, hb, ?_, ?_⟩
    · intro v hv
      obtain hv | hv := List.mem_append.mp hv
      · cases outcome with
        | ok r => exact hgiven r rfl v hv
        | error failure => cases call <;> cases hv
      · exact (hvalues v hv).mono hle
    · exact Progress.keepsSums_of_resolve (Task.keepSums sharing hb.composed fuel)
        (Progress.Always.watched (all _ List.mem_cons_self) upright) (keeps.mono hle) run

end

end

/-! ### Whole runs -/

/-- Whether a task is begun in some calls of a client, in a state. -/
def Session.Begun (session : Session) (calls : List (Call × State)) (task : Task) (s : State) : Prop :=
  ∃ call ∈ calls, ∃ above, (call.1.action session).Moment session call.2 above task s

/-- A chain of definitions that extend each other is summed up from the left. Whenever, in any call
of a client, a field is about to be read that is defined from a depth on, and the object passes its
check, reading comes to exactly what the definitions up to the first plain one are summed up to. -/
theorem Session.History.field_sums {session : Session} {names : Interner}
    (prepared : session.Prepared names) (sharing : session.sharing = true) {limit : Nat}
    {calls : List (Call × State)} {a : State} {values : List Value}
    (h : session.History (.new names limit) calls a values) {call : Call} (uses : call.Uses values)
    {above : List Task} {o : Object} {minDepth : Nat} {name : Name} {site : Location} {s t : State}
    (moment : (call.action session).Moment session a above (.readField o minDepth name site) s)
    (few : o.literals.length < 2 ^ 32) (passes : o.check.Ends session s (.ok ()) t)
    (defined : o.definitionsFrom minDepth name ≠ []) (outcome : Except Failure Value) (b : State) :
  (Task.readField o minDepth name site).Ends session s outcome b
    ↔ ∃ vs, o.Sums session (session.Begun ((call, a) :: calls)) name site
        (upToPlain (o.definitionsFrom minDepth name)) t vs outcome b
  := by
  have before : ∀ earlier ∈ calls,
      (earlier.1.action session).Always session (session.Begun ((call, a) :: calls)) earlier.2 :=
    fun earlier mem above task s moment => ⟨earlier, List.mem_cons_of_mem _ mem, above, moment⟩
  obtain ⟨made, genuine, hvalues, keeps⟩ := h.keepsSums sharing prepared before
  have all : (call.action session).Always session (session.Begun ((call, a) :: calls)) a :=
    fun above task s moment => ⟨_, List.mem_cons_self, above, moment⟩
  obtain ⟨more, hs, takes, keeps⟩ :=
    moment.keepsSums sharing (uses.makes genuine hvalues) genuine keeps all
  obtain ⟨d, rest, hdefinitions⟩ := List.exists_cons_of_ne_nil defined
  have composed := hs.composed o takes
  rw [hdefinitions]
  constructor
  · intro ends
    obtain ⟨fuel, run⟩ := Task.ends_iff_perform.mp ends
    obtain ⟨last, hle, hb, -, -, watched⟩ := takes.keepsSums sharing hs keeps (all.moment moment) run
    have settled := Object.settled_of_check (hs.index_lt takes) passes
    obtain ⟨c, vs, passed, sums⟩ := (Object.sumsUp sharing composed few rest).read composed few
      (fun less _ => Task.keepSums sharing hb.composed less) hdefinitions watched (keeps.mono hle)
      (.inr ⟨t, passes, settled⟩) run
    rw [(passes.unique passed).2]
    exact ⟨vs, sums⟩
  · rintro ⟨vs, sums⟩
    exact readField_ends composed few hdefinitions passes
      (sums.field_ends sharing composed few hdefinitions rfl)

/-- The program that extends an object with the field `[null]` by one that adds `[null, null]` to
it. -/
def Code.addedArrays : Code :=
  ⟨{ file := .empty
     nodes := #[.string .empty, .null, .array ⟨0, 1⟩, .array ⟨0, 2⟩, .object .empty ⟨0, 1⟩,
       .object .empty ⟨1, 1⟩, .binary .add ⟨4⟩ ⟨5⟩]
     lists := #[⟨1⟩, ⟨1⟩]
     fields := #[⟨⟨0⟩, .inherit, ⟨2⟩, false⟩, ⟨⟨0⟩, .inherit, ⟨3⟩, true⟩] }, ⟨6⟩⟩

/-- The object of one of its literals. -/
def Object.ofArray (session : Session) (id : Nat) (body : Nat) (extendsSuper : Bool) : Object :=
  .leaf ⟨⟨id⟩, session.base.scope,
    [(.empty, ⟨.inherit, .code (Code.addedArrays.sibling ⟨body⟩) extendsSuper⟩)], []⟩

/-- The object that the program evaluates to. -/
def Object.addedArrays (session : Session) : Object :=
  .combine ⟨3⟩ (.ofArray session 1 2 false) (.ofArray session 2 3 true)

theorem Code.addedArrays_gives (session : Session) (names : Interner) :
  ∃ counters checks, Code.addedArrays.value.Gives session (.new names 500)
    (.object (.addedArrays session)) { State.new names 500 with counters, checks }
  := by
  let inside (counters : Counters) (checks : Array AssertionState) : State :=
    { State.new names 500 with
      stack := ⟨[⟨Code.addedArrays.location, .main⟩], 499⟩, counters, checks }
  have literal {asserts : Slice NodeId} {definitions : Slice FieldDef} (i body : Nat)
      (extendsSuper : Bool)
      (hnode : (Code.addedArrays.sibling ⟨i⟩).node = .object asserts definitions)
      (labels : List.Forall₂ (FieldDef.Labels (Code.addedArrays.sibling ⟨i⟩))
        (Code.addedArrays.arena.readFields definitions)
        [(.empty, ⟨.inherit, .code (Code.addedArrays.sibling ⟨body⟩) extendsSuper⟩)])
      (counters : Counters) (checks : Array AssertionState) :=
    have gives : (Task.evaluate (Code.addedArrays.sibling ⟨i⟩) session.base).Gives session
        (inside counters checks) _ _ :=
      .evaluate_object hnode labels (fun f hf => List.mem_singleton.mp hf ▸ names.gives_empty)
        (List.nodup_singleton _)
    Action.Gives.request_iff.mpr gives
  let counted (n : Nat) : Counters := ((State.new names 500).counting n).counters
  have left := literal 4 2 false rfl (.cons ⟨rfl, rfl⟩ .nil) (counted 1) #[.notChecked]
  have right := literal 5 3 true rfl (.cons ⟨rfl, rfl⟩ .nil) (counted 3) #[.notChecked, .notChecked]
  have added : ((Function.builtin (.binary .add)).call
      [.ready (.object (.ofArray session 1 2 false)), .ready (.object (.ofArray session 2 3 true))]
      Code.addedArrays.location).Gives session
        (inside (counted 5) #[.notChecked, .notChecked, .notChecked]) (.object (.addedArrays session))
        (inside ((counted 5).count .builtinCall) #[.notChecked, .notChecked, .notChecked, .notChecked]) :=
    Action.Gives.iff_resolve.mpr ⟨2, rfl⟩
  have evaluated : (Task.evaluate Code.addedArrays session.base).Gives session
      (inside .zero #[.notChecked]) (.object (.addedArrays session)) _ :=
    .of_action rfl (.bind (.take rfl) (.bind left (.bind (.bind right (.pure _)) added)))
  have whole : (Task.program Code.addedArrays).Gives session (inside .zero #[.notChecked])
      (.object (.addedArrays session)) _ :=
    .of_action rfl (.bind (Action.Gives.iff_resolve.mpr ⟨0, rfl⟩)
      (.bind (Action.Gives.request_iff.mpr evaluated) (.pure _)))
  exact ⟨(counted 5).count .builtinCall, #[.notChecked, .notChecked, .notChecked, .notChecked],
    .inFrame rfl whole⟩

/-- A field that extends another one, read from the object that a program evaluates to: what it
gives has the elements of both arrays. -/
theorem Session.History.field_sums_of_arrays :
  let session := (Setup.bare.start .onlyEmpty).1
  let start := State.new (Setup.bare.start .onlyEmpty).2.names 500
  ∃ (o : Object) (a b : State) (elements : Array Deferred),
    session.History start [(.evaluateValue .addedArrays, start)] a
      [.object o, .object session.library] ∧
    (upToPlain (o.definitionsFrom 0 .empty)).length = 2 ∧
    (Task.readField o 0 .empty .unknown).Ends session a (.ok (.array elements)) b ∧
    elements.size = 3
  := by
  intro session start
  obtain ⟨counters, checks, fuel, run⟩ :=
    Code.addedArrays_gives session (Setup.bare.start .onlyEmpty).2.names
  let o : Object := .addedArrays session
  let a : State := { start with counters, checks }
  have h : session.History start [(.evaluateValue .addedArrays, start)] a
      [.object o, .object session.library] := by
    have uses : Call.Uses [.object session.library] (.evaluateValue .addedArrays) := trivial
    exact .call .start uses run
  have passes (s : State) : o.check.Ends session s (.ok ()) s :=
    Action.Ends.request_iff.mpr ((Task.Ends.known_iff rfl).mpr ⟨rfl, rfl⟩)
  -- the bodies, from the right, and the sum of what they come to
  have bodies : ∃ d₀ d₁, o.definitionsFrom 0 .empty = [d₀, d₁] ∧
      upToPlain [d₀, d₁] = [d₀, d₁] ∧
      ∃ b₀ b₁ b₂, (d₀.value o .empty).Ends session a (.ok (.array #[.shared ⟨0⟩, .shared ⟨1⟩])) b₀ ∧
        b₀.fields = ∅ ∧ (d₁.value o .empty).Ends session b₀ (.ok (.array #[.shared ⟨2⟩])) b₁ ∧
        ((Function.builtin (.binary .add)).call
          [.ready (.array #[.shared ⟨2⟩]), .ready (.array #[.shared ⟨0⟩, .shared ⟨1⟩])] .unknown).Ends
          session (b₁.keepField (o.fieldKey .empty d₁.position) (.array #[.shared ⟨2⟩]))
          (.ok (.array #[.shared ⟨2⟩, .shared ⟨0⟩, .shared ⟨1⟩])) b₂ :=
    ⟨_, _, rfl, rfl, _, _, _, Action.Ends.iff_resolve.mpr ⟨2, rfl⟩, rfl,
      Action.Ends.iff_resolve.mpr ⟨2, rfl⟩, Action.Ends.iff_resolve.mpr ⟨2, rfl⟩⟩
  obtain ⟨d₀, d₁, hdefinitions, extended, b₀, b₁, b₂, first, unkept, second, plus⟩ := bodies
  have fresh : b₀.fields[o.fieldKey .empty d₁.position]? = none := by
    rw [unkept]
    exact Std.HashMap.getElem?_empty
  have sums : ∃ b vs, o.Sums session (session.Begun [(.index o 0 .empty .unknown, a),
      (.evaluateValue .addedArrays, start)]) .empty .unknown (upToPlain (o.definitionsFrom 0 .empty)) a
      vs (.ok (.array #[.shared ⟨2⟩, .shared ⟨0⟩, .shared ⟨1⟩])) b := by
    rw [hdefinitions, extended]
    exact ⟨_, _, .sum Std.HashMap.getElem?_empty first (passes b₀) (.last fresh second) plus⟩
  obtain ⟨b, sums⟩ := sums
  have uses : Call.Uses [.object o, .object session.library] (.index o 0 .empty .unknown) :=
    .given List.mem_cons_self
  have reads := h.field_sums (Setup.start_prepared .bare .onlyEmpty)
    (Setup.bare.start_sharing .onlyEmpty) uses (.asked rfl) (by decide) (passes a) (by
      rw [hdefinitions]
      exact List.cons_ne_nil _ _)
  refine ⟨o, a, b, _, h, ?_, (reads _ _).mpr sums, rfl⟩
  rw [hdefinitions, extended]
  rfl

end Jsonnet
