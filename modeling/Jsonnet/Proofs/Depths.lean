import Jsonnet.Proofs.Outset
import Jsonnet.Proofs.Rules
import Jsonnet.Proofs.Saturation

/-!
# Definitions at the same depth

The depth of a literal stays at the greatest count of literals when there are more literals to the
right of it. Two definitions of a field that are so far to the left have one depth, so their values
would be kept under one key: whichever is computed first stands for both.
-/

namespace Jsonnet

/-! ### Searches -/

namespace Object.Composed

variable {o : Object} (h : o.Composed) {l m : Leaf} {i j : ObjectId} {name : Name}

include h

/-- A field that no literal defines is not found. -/
theorem findFrom_eq_none (undefined : ∀ l ∈ o.literals, l.field? name = none) (minDepth skipped : Nat) :
  o.findFrom name minDepth skipped = none
  := by
  induction h generalizing minDepth skipped with
  | leaf l => simp [findFrom, undefined l (List.mem_singleton_self l)]
  | @combine id left right hleft hright ihleft ihright =>
    rw [Object.combine, literals] at undefined
    have left := ihleft fun l hl => undefined l (List.mem_append_right _ hl)
    have right := ihright fun l hl => undefined l (List.mem_append_left _ hl)
    rw [Object.combine, findFrom_join, left, right, ite_self, Option.none_or]

/-- A field that the right-most literal defines is found there. -/
theorem find?_head {rest : List Leaf} (heq : o.literals = l :: rest) (defined : (l.field? name).isSome) :
  o.find? 0 name = some (l, 0)
  := by
  have landing : o.landing name 0 = some 0 := by
    rw [h.landing_eq name (by decide), heq]
    simp [List.findIdx?_cons, defined]
  rw [h.find?_eq_landing, landing, heq]
  rfl

variable (many : maxLeaves ≤ o.literals.length)

include many

theorem size_behind :
  (Object.combine j (.leaf m) o).size = maxLeaves
  := by
  have size := h.size_eq
  change min (1 + o.size) maxLeaves = _
  omega

/-- Of two literals to the left of as many literals as can be counted, the right one is found at the
greatest depth. -/
theorem find?_near (undefined : ∀ l ∈ o.literals, l.field? name = none)
    (defined : (m.field? name).isSome) :
  (Object.combine i (.leaf l) (.combine j (.leaf m) o)).find? 0 name = some (m, maxLeaves)
  := by
  have size : o.size = maxLeaves := h.size_eq.trans (min_eq_right many)
  have here : (Object.leaf m).findFrom name (0 - maxLeaves) (addLeaves 0 maxLeaves)
      = some (m, maxLeaves) := by simp [findFrom, defined, addLeaves]
  have counted : 0 < maxLeaves := by decide
  rw [find?, Object.combine, findFrom_join, h.size_behind many, if_pos counted, Object.combine,
    findFrom_join, h.findFrom_eq_none undefined, ite_self, Option.none_or, size, here, Option.some_or]

/-- The left one is found behind it, at the same depth. -/
theorem find?_far (defined : (l.field? name).isSome) :
  (Object.combine i (.leaf l) (.combine j (.leaf m) o)).find? (addLeaves maxLeaves 1) name
    = some (l, maxLeaves)
  := by
  have top : addLeaves maxLeaves 1 = maxLeaves := rfl
  have there : (Object.leaf l).findFrom name (maxLeaves - maxLeaves) (addLeaves 0 maxLeaves)
      = some (l, maxLeaves) := by simp [findFrom, defined, addLeaves]
  rw [find?, Object.combine, findFrom_join, h.size_behind many, top, if_neg (lt_irrefl _),
    Option.none_or, there]

end Object.Composed

/-! ### Doubling -/

/-- Whether an object consists of one literal, a number of times. -/
structure Object.Repeats (l : Leaf) (count : Nat) (o : Object) : Prop where
  composed : o.Composed
  literals : o.literals = List.replicate count l

theorem Object.Repeats.combine {l : Leaf} {m n : Nat} {o p : Object} (ho : o.Repeats l m)
    (hp : p.Repeats l n) (id : ObjectId) :
  (Object.combine id o p).Repeats l (n + m)
  where
  composed := ho.composed.combine id hp.composed
  literals := by
    rw [Object.combine, Object.literals, hp.literals, ho.literals, List.replicate_append_replicate]

theorem Object.Repeats.plain {l : Leaf} {count : Nat} {o : Object} (h : o.Repeats l count)
    (hl : l.asserts = []) :
  o.hasAsserts = false
  := by
  rw [h.composed.hasAsserts_eq, h.literals, List.any_eq_false]
  intro m hm
  simp [List.eq_of_mem_replicate hm, hl]

/-- A state in which an object is newer than every object with a field whose value is kept. -/
structure State.Makes (a : State) (o : Object) (b : State) : Prop where
  steady : a.Steady b
  made : o.id.index < b.checks.size
  fresh : ∀ {key : FieldKey} {v : Value}, b.fields[key]? = some v → key.object.index < o.id.index

section

variable {session : Session} {code : Code} {env : Env} {a b c : State} {o p : Object}

variable (session env a) in
/-- An object literal without assertions, with what there is of the state that it leaves behind. -/
theorem Task.Gives.makes_literal {definitions : Slice FieldDef} {fields : List (Name × Field)}
    (hnode : code.node = .object .empty definitions)
    (labels : List.Forall₂ (FieldDef.Labels code) (code.arena.readFields definitions) fields)
    (given : ∀ f ∈ fields, a.names.Gives f.1) (distinct : (fields.map Prod.fst).Nodup) :
  ∃ s, (Task.evaluate code env).Gives session a
      (.object (.leaf ⟨⟨a.checks.size⟩, env.scope, fields, []⟩)) s ∧
    a.Steady s ∧ s.checks = a.checks.push .notChecked ∧ s.fields = a.fields
  := by
  have none : code.arena.readList .empty = [] := by simp [Arena.readList, Slice.read, Slice.empty]
  have gives : (Task.evaluate code env).Gives session a (.object _) _ :=
    evaluate_object hnode labels given distinct
  obtain ⟨counters, heq⟩ := a.counting_eq (fields.length + 1)
  rw [none, heq] at gives
  exact ⟨_, gives, ⟨rfl, rfl⟩, rfl, rfl⟩

/-- No value of a field of the newest object is kept. -/
theorem State.Makes.unkept (h : a.Makes o b) (name : Name) (depth : Nat) :
  b.fields[o.fieldKey name depth]? = none
  := by
  rw [Option.eq_none_iff_forall_ne_some]
  intro v hv
  exact lt_irrefl _ (h.fresh hv)

/-- If no value of a field is kept, none is known. -/
theorem Task.field_unknown {l : Leaf} {depth : Nat} {name : Name} {site : Location}
    (unkept : a.fields[o.fieldKey name depth]? = none) :
  (Task.field o l depth name site).known? session a = none
  := by
  rw [known?, unkept, ite_self]

/-- The sum of two objects, of which the right one is the newest, is newer. -/
theorem Task.Gives.makes_add {left right : NodeId} (hnode : code.node = .binary .add left right)
    (first : (Task.evaluate (code.sibling left) env).Gives session (a.counting 1) (.object o) b)
    (second : (Task.evaluate (code.sibling right) env).Gives session b (.object p) c)
    (makes : a.Makes p c) (room : 0 < c.stack.room) :
  ∃ id s, (Task.evaluate code env).Gives session a (.object (.combine id o p)) s ∧
    a.Makes (.combine id o p) s
  := by
  obtain ⟨s, gives, steady, checks, fields⟩ := evaluate_add hnode first second room
  refine ⟨⟨c.checks.size⟩, s, gives, makes.steady.trans steady, ?_, ?_⟩
  · rw [checks, Array.size_push]
    exact Nat.lt_succ_self _
  · intro key v hv
    rw [fields] at hv
    exact (makes.fresh hv).trans makes.made

/-- A field that adds the object to itself doubles the object. -/
theorem Task.Gives.makes_double {target position self : NodeId} {sum : Code} {l : Leaf}
    {name : Name} {visibility : Visibility} {count : Nat}
    (hnode : code.node = .index target position)
    (hname : (code.sibling position).node = .string name) (given : a.names.Gives name)
    (defined : l.field? name = some ⟨visibility, .code sum false⟩)
    (hsum : sum.node = .binary .add self self) (hself : (sum.sibling self).node = .selfRef)
    (gives : (Task.evaluate (code.sibling target) env).Gives session (a.counting 1) (.object o) b)
    (makes : a.Makes o b) (repeats : o.Repeats l count) (positive : 0 < count) (plain : l.asserts = [])
    (room : 1 < b.stack.room) :
  ∃ id s, (Task.evaluate code env).Gives session a (.object (.combine id o o)) s ∧
    a.Makes (.combine id o o) s
  := by
  obtain ⟨count, rfl⟩ := Nat.exists_eq_succ_of_ne_zero positive.ne'
  have found : o.find? 0 name = some (l, 0) :=
    repeats.composed.find?_head repeats.literals (by rw [defined]; rfl)
  let inside := (b.counting 1).within ⟨sum.location, .field name⟩
  have first : (Task.evaluate (sum.sibling self) (l.env o 0)).Gives session (inside.counting 1)
      (.object o) (inside.counting 2) := evaluate_self hself rfl
  have second : (Task.evaluate (sum.sibling self) (l.env o 0)).Gives session (inside.counting 2)
      (.object o) (inside.counting 3) := evaluate_self hself rfl
  obtain ⟨c, added, steady, checks, fields⟩ := evaluate_add hsum first second (Nat.sub_pos_of_lt room)
  have unknown : (Task.field o l 0 name code.location).known? session (b.counting 1) = none :=
    field_unknown (makes.unkept name 0)
  obtain ⟨s, computed, steady', checks', fields'⟩ := field unknown defined (Nat.zero_lt_of_lt room) added
  have given : b.names.Gives name := makes.steady.gives given
  refine ⟨⟨b.checks.size⟩, s, evaluate_index hnode gives hname given
    (readField (repeats.plain plain) found computed), ?_, ?_, ?_⟩
  · have before : b.Steady (inside.counting 3) := ⟨rfl, rfl⟩
    exact makes.steady.trans (before.trans (steady.trans steady'))
  · rw [checks', checks, Array.size_push]
    exact Nat.lt_succ_self _
  · intro key v hv
    rw [fields', fields] at hv
    change key.object.index < b.checks.size
    split at hv
    case isFalse => exact (makes.fresh hv).trans makes.made
    case isTrue =>
      rw [Std.HashMap.getElem?_insert] at hv
      split at hv
      case isTrue same =>
        rw [← beq_iff_eq.mp same]
        exact makes.made
      case isFalse => exact (makes.fresh hv).trans makes.made

/-- A flag that is false, after a flag of the same name was found to be true at the same depth: where
results are kept it is true as well. -/
theorem Task.Gives.field_again {l : Leaf} {depth : Nat} {name : Name} {no : Code}
    {visibility : Visibility} (defined : l.field? name = some ⟨visibility, .code no false⟩)
    (hno : no.node = .bool false) (room : 0 < a.stack.room)
    (kept : session.sharing = true → a.fields[o.fieldKey name depth]? = some (.bool true))
    (site : Location) :
  ∃ b, (Task.field o l depth name site).Gives session a (.bool session.sharing) b ∧ a.Steady b
  := by
  cases hsharing : session.sharing with
  | true =>
    refine ⟨a, .known ?_, rfl, rfl⟩
    rw [known?, if_pos hsharing]
    exact kept hsharing
  | false =>
    have unknown : (Task.field o l depth name site).known? session a = none := by
      rw [known?, if_neg (by rw [hsharing]; exact Bool.false_ne_true)]
    obtain ⟨b, computed, steady, -⟩ := field unknown defined room (evaluate_bool hno)
    exact ⟨b, computed, steady.names, steady.slots⟩

variable (session) in
/-- A definition looks at a flag of its object, which is true, and then asks for the flag further
left, which is false but found at the same depth. -/
theorem Task.Gives.reads_flags (site : Location) {l m : Leaf} {depth : Nat} {flag other : Name}
    {look yes no : Code} {read ask never self position : NodeId} {u v w : Visibility}
    (plain : o.hasAsserts = false) (found : o.find? 0 other = some (m, depth))
    (near : o.find? 0 flag = some (m, depth)) (far : o.find? (addLeaves depth 1) flag = some (l, depth))
    (hother : m.field? other = some ⟨u, .code look false⟩)
    (hnear : m.field? flag = some ⟨v, .code yes false⟩)
    (hfar : l.field? flag = some ⟨w, .code no false⟩) (hyes : yes.node = .bool true)
    (hno : no.node = .bool false) (hlook : look.node = .conditional read ask never)
    (hread : (look.sibling read).node = .index self position)
    (hself : (look.sibling self).node = .selfRef)
    (hask : (look.sibling ask).node = .superIndex position)
    (hposition : (look.sibling position).node = .string flag) (given : a.names.Gives flag)
    (unkept : ∀ name depth, a.fields[o.fieldKey name depth]? = none) (room : 1 < a.stack.room) :
  ∃ b, (Task.readField o 0 other site).Gives session a (.bool session.sharing) b ∧ a.Steady b
  := by
  let s := a.within ⟨look.location, .field other⟩
  have inside : 0 < s.stack.room := Nat.sub_pos_of_lt room
  have unknown : (Task.field o m depth other site).known? session a = none :=
    field_unknown (unkept other depth)
  have unknown' : (Task.field o m depth flag (look.sibling read).location).known? session (s.counting 4)
      = none := field_unknown (unkept flag depth)
  obtain ⟨b, first, steady, -, fields⟩ := field unknown' hnear inside (evaluate_bool hyes)
  have condition : (Task.evaluate (look.sibling read) (m.env o depth)).Gives session (s.counting 1)
      (.bool true) b :=
    evaluate_index hread (evaluate_self (a := s.counting 2) hself rfl) hposition given
      (readField plain near first)
  have room' : 0 < (b.counting 2).stack.room := inside.trans_eq condition.room
  have kept (sharing : session.sharing = true) :
      (b.counting 2).fields[o.fieldKey flag depth]? = some (.bool true) := by
    change b.fields[_]? = _
    rw [fields, if_pos sharing, Std.HashMap.getElem?_insert_self]
  obtain ⟨c, second, steady'⟩ := field_again hfar hno room' kept (look.sibling ask).location
  have given : b.names.Gives flag := steady.gives given
  have whole := evaluate_conditional (a := s) hlook condition
    (evaluate_superIndex hask rfl hposition given (readField plain far second))
  obtain ⟨e, computed, last, -⟩ := field unknown hother (Nat.zero_lt_of_lt room) whole
  have steady : a.Steady b := ⟨steady.names, steady.slots⟩
  have steady' : b.Steady c := ⟨steady'.names, steady'.slots⟩
  exact ⟨e, readField plain found computed, steady.trans (steady'.trans last)⟩

end

/-! ### A program -/

/-- The expression of a level. -/
def Node.ofDoubling (level : Nat) : Node := .index ⟨level + 11⟩ ⟨0⟩

/-- The expressions before those of the levels. The last of them is an object with a field that adds
it to itself. -/
def Node.beforeDoublings (flag other : Name) : Array Node :=
  #[.string .empty, .string flag, .string other, .selfRef, .binary .add ⟨3⟩ ⟨3⟩, .bool true,
    .bool false, .index ⟨3⟩ ⟨1⟩, .superIndex ⟨1⟩, .null, .conditional ⟨7⟩ ⟨8⟩ ⟨9⟩,
    .object .empty ⟨0, 1⟩]

/-- The expressions after those of the levels. -/
def Node.afterDoublings (count : Nat) : Array Node :=
  #[.object .empty ⟨1, 2⟩, .object .empty ⟨3, 1⟩, .binary .add ⟨count + 12⟩ ⟨count + 11⟩,
    .binary .add ⟨count + 13⟩ ⟨count + 14⟩, .index ⟨count + 15⟩ ⟨2⟩]

/-- A file with an object that is added to itself again and again. Two more literals are put to the
left of it, both with a flag: it is true in the right one and false in the left one. The right one
has another field besides, which looks at its own flag before it asks for the one further left. -/
def Arena.doublings (count : Nat) (flag other : Name) : Arena where
  file := .empty
  nodes := Node.beforeDoublings flag other ++ (Array.range count).map Node.ofDoubling ++
    Node.afterDoublings count
  fields := #[⟨⟨0⟩, .inherit, ⟨4⟩, false⟩, ⟨⟨1⟩, .inherit, ⟨5⟩, false⟩, ⟨⟨2⟩, .inherit, ⟨10⟩, false⟩,
    ⟨⟨1⟩, .inherit, ⟨6⟩, false⟩]

section

variable {session : Session} {count : Nat} {flag other : Name}

theorem Arena.doublings_node {level : Nat} (h : level < count) :
  (doublings count flag other).node ⟨level + 12⟩ = .ofDoubling level
  := by
  simp [node, doublings, Array.getElem?_append, Node.beforeDoublings, h]

theorem Arena.doublings_before (i : Nat) {expression : Node}
    (h : (Node.beforeDoublings flag other)[i]? = some expression) :
  (doublings count flag other).node ⟨i⟩ = expression
  := by
  have hlt := (Array.getElem?_eq_some_iff.mp h).choose
  rw [node, doublings, Array.append_assoc, Array.getElem?_append_left hlt, h, Option.getD_some]

theorem Arena.doublings_after (i : Nat) {expression : Node}
    (h : (Node.afterDoublings count)[i]? = some expression) :
  (doublings count flag other).node ⟨count + 12 + i⟩ = expression
  := by
  have size : (Node.beforeDoublings flag other ++ (Array.range count).map Node.ofDoubling).size
      = count + 12 := by simp [Node.beforeDoublings, Nat.add_comm]
  rw [node, doublings, Array.getElem?_append_right (size.trans_le (Nat.le_add_right _ _)), size,
    Nat.add_sub_cancel_left, h, Option.getD_some]

theorem Arena.named_doublings {P : Name → Prop} (empty : P .empty) (given : P flag) (given' : P other) :
  (doublings count flag other).Named P
  where
  file := empty
  node node hnode := by
    simp only [doublings, Node.beforeDoublings, Node.afterDoublings, Array.mem_append, Array.mem_map,
      List.mem_toArray, List.mem_cons, List.not_mem_nil, or_false] at hnode
    obtain (before | ⟨level, -, rfl⟩) | after := hnode
    · obtain rfl | rfl | rfl | rfl | rfl | rfl | rfl | rfl | rfl | rfl | rfl | rfl := before <;>
        first | assumption | trivial
    · trivial
    · obtain rfl | rfl | rfl | rfl | rfl := after <;> trivial
  bind bind hbind := by simp [doublings] at hbind
  param name hname := by simp [doublings] at hname

section

variable (count : Nat) (flag other : Name) (scope : Scope) (id : Nat)

/-- The literal that is doubled. -/
def Leaf.doubling : Leaf :=
  ⟨⟨id⟩, scope, [(.empty, ⟨.inherit, .code ⟨.doublings count flag other, ⟨4⟩⟩ false⟩)], []⟩

/-- The literal to the left of it. -/
def Leaf.nearFlag : Leaf :=
  ⟨⟨id⟩, scope, [(flag, ⟨.inherit, .code ⟨.doublings count flag other, ⟨5⟩⟩ false⟩),
    (other, ⟨.inherit, .code ⟨.doublings count flag other, ⟨10⟩⟩ false⟩)], []⟩

theorem Leaf.nearFlag_other {flag other : Name} (different : flag ≠ other) :
  (nearFlag count flag other scope id).field? other
    = some ⟨.inherit, .code ⟨.doublings count flag other, ⟨10⟩⟩ false⟩
  := by
  simp [field?, nearFlag, List.lookup_cons, beq_false_of_ne different.symm]

/-- The left-most literal. -/
def Leaf.farFlag : Leaf :=
  ⟨⟨id⟩, scope, [(flag, ⟨.inherit, .code ⟨.doublings count flag other, ⟨6⟩⟩ false⟩)], []⟩

end

/-- The object is doubled from level to level. -/
theorem Code.doublings_makes {env : Env} {level : Nat} (h : level ≤ count) {a : State}
    (unkept : ∀ key : FieldKey, a.fields[key]? = none) (room : 1 < a.stack.room) :
  ∃ o b, (Task.evaluate ⟨.doublings count flag other, ⟨level + 11⟩⟩ env).Gives session a (.object o) b ∧
    a.Makes o b ∧ o.Repeats (.doubling count flag other env.scope a.checks.size) (2 ^ level)
  := by
  induction level generalizing a with
  | zero =>
    let code : Code := ⟨.doublings count flag other, ⟨11⟩⟩
    have hnode : code.node = .object .empty ⟨0, 1⟩ := Arena.doublings_before 11 rfl
    have label : FieldDef.Labels code ⟨⟨0⟩, .inherit, ⟨4⟩, false⟩
        (.empty, ⟨.inherit, .code (code.sibling ⟨4⟩) false⟩) :=
      ⟨Arena.doublings_before 0 rfl, rfl⟩
    obtain ⟨s, gives, steady, checks, fields⟩ := Task.Gives.makes_literal session env a hnode
      (.cons label .nil) (fun f hf => List.mem_singleton.mp hf ▸ a.names.gives_empty)
      (List.nodup_singleton _)
    refine ⟨_, s, gives, ⟨steady, ?_, ?_⟩, .leaf _, rfl⟩
    · rw [checks, Array.size_push]
      exact Nat.lt_succ_self _
    · intro key v hv
      rw [fields, unkept] at hv
      cases hv
  | succ level ih =>
    obtain ⟨o, b, gives, makes, repeats⟩ := ih (Nat.le_of_succ_le h) (a := a.counting 1) unkept room
    have positive : 0 < 2 ^ level := Nat.two_pow_pos level
    have room : 1 < b.stack.room := room.trans_eq gives.room
    let code : Code := ⟨.doublings count flag other, ⟨level + 12⟩⟩
    have hnode : code.node = .index ⟨level + 11⟩ ⟨0⟩ := Arena.doublings_node h
    have hname : (code.sibling ⟨0⟩).node = .string .empty := Arena.doublings_before 0 rfl
    have hsum : (code.sibling ⟨4⟩).node = .binary .add ⟨3⟩ ⟨3⟩ := Arena.doublings_before 4 rfl
    have hself : (code.sibling ⟨3⟩).node = .selfRef := Arena.doublings_before 3 rfl
    obtain ⟨id, s, doubled, makes⟩ := Task.Gives.makes_double hnode hname a.names.gives_empty rfl hsum
      hself gives ⟨⟨makes.steady.names, makes.steady.slots⟩, makes.made, makes.fresh⟩ repeats
      positive rfl room
    refine ⟨_, s, doubled, makes, ?_⟩
    rw [Nat.pow_succ, Nat.mul_two]
    exact repeats.combine repeats id

variable (session count) in
/-- The object that results, with the two literals to the left of it. -/
theorem Code.doublings_gives (env : Env) {a : State} (different : flag ≠ other)
    (given : a.names.Gives flag) (given' : a.names.Gives other)
    (unkept : ∀ key : FieldKey, a.fields[key]? = none) (room : 1 < a.stack.room) :
  ∃ (l m n : Nat) (i j : ObjectId) (whole o : Object) (b : State),
    (Task.evaluate ⟨.doublings count flag other, ⟨count + 15⟩⟩ env).Gives session a (.object whole) b ∧
      a.Makes whole b ∧ o.Repeats (.doubling count flag other env.scope n) (2 ^ count) ∧
      whole = .combine i (.leaf (.farFlag count flag other env.scope l))
        (.combine j (.leaf (.nearFlag count flag other env.scope m)) o)
  := by
  let code (i : Nat) : Code := ⟨.doublings count flag other, ⟨i⟩⟩
  have nodeFlag : (code 1).node = .string flag := Arena.doublings_before 1 rfl
  have nodeOther : (code 2).node = .string other := Arena.doublings_before 2 rfl
  have nodeRight : (code (count + 12)).node = .object .empty ⟨1, 2⟩ := Arena.doublings_after 0 rfl
  have nodeLeft : (code (count + 13)).node = .object .empty ⟨3, 1⟩ := Arena.doublings_after 1 rfl
  have nodeInner : (code (count + 14)).node = .binary .add ⟨count + 12⟩ ⟨count + 11⟩ :=
    Arena.doublings_after 2 rfl
  have nodeOuter : (code (count + 15)).node = .binary .add ⟨count + 13⟩ ⟨count + 14⟩ :=
    Arena.doublings_after 3 rfl
  have ofFlag (i body : Nat) : FieldDef.Labels (code i) ⟨⟨1⟩, .inherit, ⟨body⟩, false⟩
      (flag, ⟨.inherit, .code (code body) false⟩) := ⟨nodeFlag, rfl⟩
  have ofOther (i : Nat) : FieldDef.Labels (code i) ⟨⟨2⟩, .inherit, ⟨10⟩, false⟩
      (other, ⟨.inherit, .code (code 10) false⟩) := ⟨nodeOther, rfl⟩
  obtain ⟨b, left, steady, -, fields⟩ := Task.Gives.makes_literal session env (a.counting 1) nodeLeft
    (.cons (ofFlag _ 6) .nil)
    (fun f hf => List.mem_singleton.mp hf ▸ given) (List.nodup_singleton _)
  have hb : a.Steady b := ⟨steady.names, steady.slots⟩
  have known : ∀ f ∈ [(flag, (⟨.inherit, .code (code 5) false⟩ : Field)),
      (other, ⟨.inherit, .code (code 10) false⟩)], (b.counting 1).names.Gives f.1 := by
    simp [State.counting, hb.names, given, given']
  obtain ⟨c, right, steady, -, fields'⟩ := Task.Gives.makes_literal session env (b.counting 1) nodeRight
    (.cons (ofFlag _ 5) (.cons (ofOther _) .nil)) known (by simp [different])
  have hc : b.Steady c := ⟨steady.names, steady.slots⟩
  have unkept (key : FieldKey) : c.fields[key]? = none := by
    rw [fields']
    change b.fields[key]? = _
    rw [fields]
    exact unkept key
  have room' : 1 < c.stack.room := room.trans_eq (left.room.trans right.room)
  obtain ⟨o, s, doubled, makes, repeats⟩ : ∃ o s,
      (Task.evaluate (code (count + 11)) env).Gives session c (.object o) s ∧ c.Makes o s ∧
        o.Repeats (.doubling count flag other env.scope c.checks.size) (2 ^ count) :=
    doublings_makes le_rfl unkept room'
  obtain ⟨j, t, inner, makes⟩ := Task.Gives.makes_add (a := b) nodeInner right doubled
    ⟨hc.trans makes.steady, makes.made, makes.fresh⟩
      (Nat.zero_lt_of_lt (room'.trans_eq doubled.room))
  obtain ⟨i, u, outer, makes⟩ := Task.Gives.makes_add (a := a) nodeOuter left inner
    ⟨hb.trans makes.steady, makes.made, makes.fresh⟩
      (Nat.zero_lt_of_lt (room.trans_eq (left.room.trans inner.room)))
  exact ⟨_, _, _, i, j, _, o, u, outer, makes, repeats, rfl⟩

variable (session) in
/-- After 32 doublings both flags are found at the same depth. Where results are kept, the program
takes the one that is false for the one that is true. -/
theorem Code.doublings_confuses (env : Env) {a : State} (hflag : flag ≠ .empty) (hother : other ≠ .empty)
    (different : flag ≠ other) (given : a.names.Gives flag) (given' : a.names.Gives other)
    (unkept : ∀ key : FieldKey, a.fields[key]? = none) (room : 1 < a.stack.room) :
  ∃ b, (Task.evaluate ⟨.doublings 32 flag other, ⟨48⟩⟩ env).Gives session a (.bool session.sharing) b ∧
    a.Steady b
  := by
  obtain ⟨x, y, z, i, j, _, o, b, gives, makes, repeats, rfl⟩ := doublings_gives session 32 env
    (a := a.counting 1) different given given' unkept room
  let l : Leaf := .farFlag 32 flag other env.scope x
  let m : Leaf := .nearFlag 32 flag other env.scope y
  have ofLeft : l.field? flag = some _ := List.lookup_cons_self
  have ofRight : m.field? flag = some _ := List.lookup_cons_self
  have ofRight' := Leaf.nearFlag_other 32 env.scope y different
  have many : maxLeaves ≤ o.literals.length := by
    rw [repeats.literals, List.length_replicate]
    decide
  have undefined {name : Name} (hname : name ≠ .empty) : ∀ l ∈ o.literals, l.field? name = none := by
    intro l hl
    rw [repeats.literals] at hl
    rw [List.eq_of_mem_replicate hl, Leaf.field?, Leaf.doubling, List.lookup_cons,
      beq_false_of_ne hname]
    rfl
  have plain : (Object.combine i (.leaf l) (.combine j (.leaf m) o)).hasAsserts = false := by
    change (false || (false || o.hasAsserts)) = false
    rw [repeats.plain rfl]
    rfl
  have found := repeats.composed.find?_near (l := l) (i := i) (j := j) many (undefined hother)
    (Option.isSome_of_eq_some ofRight')
  have near := repeats.composed.find?_near (l := l) (i := i) (j := j) many (undefined hflag)
    (Option.isSome_of_eq_some ofRight)
  have far := repeats.composed.find?_far (m := m) (i := i) (j := j) many
    (Option.isSome_of_eq_some ofLeft)
  let code (i : Nat) : Code := ⟨.doublings 32 flag other, ⟨i⟩⟩
  have nodeFlag : (code 1).node = .string flag := Arena.doublings_before 1 rfl
  have nodeOther : (code 2).node = .string other := Arena.doublings_before 2 rfl
  have nodeWhole : (code 48).node = .index ⟨47⟩ ⟨2⟩ := Arena.doublings_after 4 rfl
  have steady : a.Steady b := ⟨makes.steady.names, makes.steady.slots⟩
  obtain ⟨c, reads, steady'⟩ := Task.Gives.reads_flags session (code 48).location (a := b.counting 1)
    plain found near far ofRight' ofRight ofLeft
    (Arena.doublings_before 5 rfl) (Arena.doublings_before 6 rfl) (Arena.doublings_before 10 rfl)
    (Arena.doublings_before 7 rfl) (Arena.doublings_before 3 rfl) (Arena.doublings_before 8 rfl)
    nodeFlag (steady.gives given) makes.unkept (room.trans_eq gives.room)
  exact ⟨c, .evaluate_index nodeWhole gives nodeOther (steady.gives given') reads,
    steady.trans ⟨steady'.names, steady'.slots⟩⟩

end

end Jsonnet
