import Jsonnet.Proofs.Storing
import Jsonnet.Proofs.Termination

/-!
# Building arenas

An arena is built by steps that make nodes and append lists of children. Nodes are numbered in the
order in which they are made, and what has been made stays: a node keeps its kind, its location and
its children, whatever is appended to the tables that hold the lists. A step can only be given what
earlier steps have given back, so an expression stands behind all its parts, and what stands below
it is a finite tree.
-/

namespace Jsonnet

/-! ### Steps -/

/-- A step of building an arena. It makes a node whose lists of children are there already, which
literals, operators and imports do not have, or appends a list of children, or makes a node together
with its lists, or with a name below it. -/
inductive Construction where
  | alloc (node : Node) (span : Span)
  | pushList (entries : List NodeId)
  | pushBinds (entries : List Bind)
  | pushParams (entries : List Name)
  | pushFields (entries : List FieldDef)
  | locals (binds : List Bind) (body : NodeId) (span : Span)
  | function (params : List Name) (body : NodeId) (span : Span)
  | apply (target : NodeId) (arguments : List NodeId) (span : Span)
  | array (elements : List NodeId) (span : Span)
  | object (asserts : List NodeId) (fields : List FieldDef) (span : Span)
  | field (name : Name) (visibility : Visibility) (body : NodeId)
  | indexField (target : NodeId) (name : Name)
  | superField (name : Name)

/-- The expressions of a field. -/
def FieldDef.ids (field : FieldDef) : List NodeId := [field.name, field.body]

/-- The expressions that a node refers to by their numbers, not through a slice. -/
def Node.parts : Node → List NodeId
  | .locals _ body | .function _ body => [body]
  | .apply target _ => [target]
  | .binary _ left right => [left, right]
  | .unary _ operand => [operand]
  | .conditional condition whenTrue whenFalse => [condition, whenTrue, whenFalse]
  | .index target position => [target, position]
  | .superIndex position => [position]
  | .error message => [message]
  | _ => []

/-- Whether the slices of a node can be read. -/
def Node.Fits (arena : Arena) : Node → Prop
  | .locals binds _ => binds.Fits arena.binds
  | .function params _ => params.Fits arena.params
  | .apply _ entries | .array entries => entries.Fits arena.lists
  | .object asserts fields => asserts.Fits arena.lists ∧ fields.Fits arena.fields
  | _ => True

namespace Construction

/-- What a step gives back. -/
@[reducible] def Out : Construction → Type
  | .pushList _ => Slice NodeId
  | .pushBinds _ => Slice Bind
  | .pushParams _ => Slice Name
  | .pushFields _ => Slice FieldDef
  | .field .. => FieldDef
  | _ => NodeId

/-- The step itself. -/
def build : (step : Construction) → Build step.Out
  | .alloc node span => Build.alloc node span
  | .pushList entries => Build.pushList entries
  | .pushBinds entries => Build.pushBinds entries
  | .pushParams entries => Build.pushParams entries
  | .pushFields entries => Build.pushFields entries
  | .locals binds body span => Build.locals binds body span
  | .function params body span => Build.function params body span
  | .apply target arguments span => Build.apply target arguments span
  | .array elements span => Build.array elements span
  | .object asserts fields span => Build.object asserts fields span
  | .field name visibility body => Build.field name visibility body
  | .indexField target name => Build.indexField target name
  | .superField name => Build.superField name

/-- The expressions that a step is given, also in bindings and in fields. -/
def given : Construction → List NodeId
  | .alloc node _ => node.parts
  | .pushList entries => entries
  | .pushBinds entries => entries.map Bind.body
  | .pushParams _ => []
  | .pushFields entries => entries.flatMap FieldDef.ids
  | .locals binds body _ => body :: binds.map Bind.body
  | .function _ body _ => [body]
  | .apply target arguments _ => target :: arguments
  | .array elements _ => elements
  | .object asserts fields _ => asserts ++ fields.flatMap FieldDef.ids
  | .field _ _ body => [body]
  | .indexField target _ => [target]
  | .superField _ => []

/-- The expressions in what a step gives back. -/
def returned : (step : Construction) → step.Out → List NodeId
  | .alloc .., id | .locals .., id | .function .., id | .apply .., id | .array .., id
  | .object .., id | .indexField .., id | .superField _, id => [id]
  | .field .., definition => definition.ids
  | .pushList _, _ | .pushBinds _, _ | .pushParams _, _ | .pushFields _, _ => []

/-- The expressions that a step makes, in their order. A literal name is an expression of its own,
which is made first. -/
def made : (step : Construction) → step.Out → List NodeId
  | .alloc .., id | .locals .., id | .function .., id | .apply .., id | .array .., id
  | .object .., id => [id]
  | .indexField .., id | .superField _, id => [⟨id.index - 1⟩, id]
  | .field .., definition => [definition.name]
  | .pushList _, _ | .pushBinds _, _ | .pushParams _, _ | .pushFields _, _ => []

/-- A stage of a construction: a step, and the arena that it found. -/
structure Stage where
  step : Construction
  before : Arena

/-- What a step gave back. -/
def Stage.result (stage : Stage) : stage.step.Out := (stage.step.build.run stage.before).1

/-- The arena that a step left behind. -/
def Stage.after (stage : Stage) : Arena := (stage.step.build.run stage.before).2

/-- Whether an arena may be given a step after some stages: every expression has been given back by
one of them, and slices that come with a node can be read. -/
structure Supplied (step : Construction) (stages : List Stage) (arena : Arena) : Prop where
  given : ∀ id ∈ step.given, ∃ stage ∈ stages, id ∈ stage.step.returned stage.result
  slices : ∀ node span, step = .alloc node span → node.Fits arena

end Construction

/-- A literal name, and behind it a node that it belongs to: an index. -/
def Build.behindName (name : Name) (node : NodeId → Node) : Build NodeId := do
  Build.alloc (node (← Build.alloc (.string name) .none)) .none

/-! ### What stands in an arena -/

/-- The lists that the slices of a node cover. -/
structure Children where
  expressions : List NodeId := []
  binds : List Bind := []
  params : List Name := []
  fields : List FieldDef := []

/-- Whether a slice of a table covers some entries. -/
def Slice.Covers {α : Type} (slice : Slice α) (table : Array α) (entries : List α) : Prop :=
  slice.Fits table ∧ slice.read table = entries

namespace Arena

/-- The lists of children of a node, read through its slices. -/
def children (arena : Arena) : Node → Children
  | .locals binds _ => { binds := arena.readBinds binds }
  | .function params _ => { params := arena.readParams params }
  | .apply _ entries | .array entries => { expressions := arena.readList entries }
  | .object asserts fields =>
    { expressions := arena.readList asserts, fields := arena.readFields fields }
  | _ => {}

/-- Whether an expression is a node with a span. -/
def Has (arena : Arena) (id : NodeId) (node : Node) (span : Span) : Prop :=
  arena.nodes[id.index]? = some node ∧ arena.spans[id.index]? = some span

/-- An arena of the same file to which something may have been appended. -/
structure Continues (old new : Arena) : Prop extends old.Extends new where
  file : new.file = old.file
  spans : Appended old.spans new.spans
  binds : Appended old.binds new.binds
  params : Appended old.params new.params

end Arena

/-- Whether what a step has made stands in an arena: nodes have the kinds, the spans and the lists
of children that the step was given, and lists are covered by the slices that were given back. -/
def Construction.Stands (before arena : Arena) : (step : Construction) → step.Out → Prop
  | .alloc node span, id =>
    arena.Has id node span ∧ node.Fits arena ∧ arena.children node = before.children node
  | .pushList entries, slice => slice.Covers arena.lists entries
  | .pushBinds entries, slice => slice.Covers arena.binds entries
  | .pushParams entries, slice => slice.Covers arena.params entries
  | .pushFields entries, slice => slice.Covers arena.fields entries
  | .locals binds body span, id => ∃ slice, arena.Has id (.locals slice body) span ∧
      slice.Covers arena.binds binds
  | .function params body span, id => ∃ slice, arena.Has id (.function slice body) span ∧
      slice.Covers arena.params params
  | .apply target arguments span, id => ∃ slice, arena.Has id (.apply target slice) span ∧
      slice.Covers arena.lists arguments
  | .array elements span, id => ∃ slice, arena.Has id (.array slice) span ∧
      slice.Covers arena.lists elements
  | .object asserts fields span, id => ∃ slice slice', arena.Has id (.object slice slice') span ∧
      slice.Covers arena.lists asserts ∧ slice'.Covers arena.fields fields
  | .field name visibility body, definition =>
    definition = ⟨definition.name, visibility, body, false⟩ ∧
      arena.Has definition.name (.string name) .none
  | .indexField target name, id => arena.Has id (.index target ⟨id.index - 1⟩) .none ∧
      arena.Has ⟨id.index - 1⟩ (.string name) .none
  | .superField name, id => arena.Has id (.superIndex ⟨id.index - 1⟩) .none ∧
      arena.Has ⟨id.index - 1⟩ (.string name) .none

/-- The arenas of a file that can be built, with the stages of their construction. -/
inductive Arena.Built (file : Name) : List Construction.Stage → Arena → Prop where
  | new : Built file [] (.new file)
  | step {stages : List Construction.Stage} {arena : Arena} (built : Built file stages arena)
      (step : Construction) (supplied : step.Supplied stages arena) :
    Built file (stages ++ [⟨step, arena⟩]) (Construction.Stage.mk step arena).after

/-! ### Appending to tables -/

section

variable {α : Type} {old new : Array α} {slice : Slice α} {entries : List α}

theorem Slice.Covers.mono (h : slice.Covers old entries) (appended : Appended old new) :
  slice.Covers new entries
  := ⟨h.1.mono appended, (Slice.read_eq h.1 appended).trans h.2⟩

end

namespace Arena

theorem Continues.trans {a b c : Arena} (hab : a.Continues b) (hbc : b.Continues c) :
  a.Continues c
  where
  toExtends := hab.toExtends.trans hbc.toExtends
  file := hbc.file.trans hab.file
  spans i span h := hbc.spans i span (hab.spans i span h)
  binds i bind h := hbc.binds i bind (hab.binds i bind h)
  params i name h := hbc.params i name (hab.params i name h)

section

variable (arena : Arena)

theorem continues_alloc (node : Node) (span : Span) :
  arena.Continues ((Build.alloc node span).run arena).2
  := ⟨⟨appended_push _ _, .refl _, .refl _⟩, rfl, appended_push _ _, .refl _, .refl _⟩

theorem continues_pushList (entries : List NodeId) :
  arena.Continues ((Build.pushList entries).run arena).2
  := ⟨⟨.refl _, appended_append _ _, .refl _⟩, rfl, .refl _, .refl _, .refl _⟩

theorem continues_pushBinds (entries : List Bind) :
  arena.Continues ((Build.pushBinds entries).run arena).2
  := ⟨⟨.refl _, .refl _, .refl _⟩, rfl, .refl _, appended_append _ _, .refl _⟩

theorem continues_pushParams (entries : List Name) :
  arena.Continues ((Build.pushParams entries).run arena).2
  := ⟨⟨.refl _, .refl _, .refl _⟩, rfl, .refl _, .refl _, appended_append _ _⟩

theorem continues_pushFields (entries : List FieldDef) :
  arena.Continues ((Build.pushFields entries).run arena).2
  := ⟨⟨.refl _, .refl _, appended_append _ _⟩, rfl, .refl _, .refl _, .refl _⟩

theorem size_alloc (node : Node) (span : Span) :
  ((Build.alloc node span).run arena).2.size = arena.size + 1
  := Array.size_push ..

/-- With a node its span is made, so both are found under the number of the node. -/
theorem spans_alloc (spans : arena.spans.size = arena.size) (node : Node) (span : Span) :
  ((Build.alloc node span).run arena).2.spans.size = ((Build.alloc node span).run arena).2.size
  := by
  rw [size_alloc, ← spans]
  exact Array.size_push ..

theorem has_alloc (spans : arena.spans.size = arena.size) (node : Node) (span : Span) :
  ((Build.alloc node span).run arena).2.Has ⟨arena.size⟩ node span
  := by
  constructor
  · exact Array.getElem?_push_size
  · rw [← spans]
    exact Array.getElem?_push_size

/-- A literal name is numbered right before the node that it belongs to. -/
theorem behindName_result (name : Name) (node : NodeId → Node) :
  ((Build.behindName name node).run arena).1 = ⟨arena.size + 1⟩
  := congrArg NodeId.mk (arena.size_alloc (.string name) .none)

theorem size_behindName (name : Name) (node : NodeId → Node) :
  ((Build.behindName name node).run arena).2.size = arena.size + 2
  := (size_alloc ..).trans (congrArg (· + 1) (arena.size_alloc (.string name) .none))

theorem continues_behindName (name : Name) (node : NodeId → Node) :
  arena.Continues ((Build.behindName name node).run arena).2
  := (arena.continues_alloc (.string name) .none).trans (continues_alloc _ _ .none)

/-- Every step only appends. -/
theorem continues_build (step : Construction) :
  arena.Continues (step.build.run arena).2
  := by
  cases step with
  | alloc node span => exact arena.continues_alloc node span
  | pushList entries => exact arena.continues_pushList entries
  | pushBinds entries => exact arena.continues_pushBinds entries
  | pushParams entries => exact arena.continues_pushParams entries
  | pushFields entries => exact arena.continues_pushFields entries
  | locals binds body span =>
    exact (arena.continues_pushBinds binds).trans (continues_alloc _ _ span)
  | function params body span =>
    exact (arena.continues_pushParams params).trans (continues_alloc _ _ span)
  | apply target arguments span =>
    exact (arena.continues_pushList arguments).trans (continues_alloc _ _ span)
  | array elements span =>
    exact (arena.continues_pushList elements).trans (continues_alloc _ _ span)
  | object asserts fields span =>
    exact ((arena.continues_pushList asserts).trans (continues_pushFields _ fields)).trans
      (continues_alloc _ _ span)
  | field name visibility body => exact arena.continues_alloc (.string name) .none
  | indexField target name => exact arena.continues_behindName name (.index target)
  | superField name => exact arena.continues_behindName name .superIndex

end

end Arena

/-! ### Reading what stays -/

section

variable {old new : Arena}

theorem Node.Fits.mono {node : Node} (fits : node.Fits old)
    (h : old.Continues new) :
  node.Fits new
  := by
  cases node with
  | locals slice body => exact Slice.Fits.mono fits h.binds
  | function slice body => exact Slice.Fits.mono fits h.params
  | apply target slice => exact Slice.Fits.mono fits h.lists
  | array slice => exact Slice.Fits.mono fits h.lists
  | object asserts fields => exact ⟨fits.1.mono h.lists, fits.2.mono h.fields⟩
  | _ => trivial

namespace Arena

/-- The children of a node stay the same. -/
theorem Continues.children_eq (h : old.Continues new) {node : Node} (fits : node.Fits old) :
  new.children node = old.children node
  := by
  cases node with
  | locals slice body => simp only [children, readBinds, Slice.read_eq fits h.binds]
  | function slice body => simp only [children, readParams, Slice.read_eq fits h.params]
  | apply target slice => simp only [children, readList, Slice.read_eq fits h.lists]
  | array slice => simp only [children, readList, Slice.read_eq fits h.lists]
  | object asserts fields =>
    simp only [children, readList, readFields, Slice.read_eq fits.1 h.lists,
      Slice.read_eq fits.2 h.fields]
  | _ => rfl

theorem Continues.has (h : old.Continues new) {id : NodeId} {node : Node} {span : Span}
    (has : old.Has id node span) :
  new.Has id node span
  := ⟨h.nodes _ _ has.1, h.spans _ _ has.2⟩

/-- Both the literal name and the node that it belongs to stand where they have been made. -/
theorem has_behindName (arena : Arena) (spans : arena.spans.size = arena.size) (name : Name)
    (node : NodeId → Node) :
  let next := (Build.behindName name node).run arena
  next.2.Has next.1 (node ⟨next.1.index - 1⟩) .none ∧
    next.2.Has ⟨next.1.index - 1⟩ (.string name) .none
  := by
  intro next
  have result : next.1 = ⟨arena.size + 1⟩ := arena.behindName_result name node
  have spans' := arena.spans_alloc spans (.string name) .none
  have behind := has_alloc _ spans' (node ⟨arena.size⟩) .none
  rw [size_alloc] at behind
  rw [result]
  exact ⟨behind, (continues_alloc _ _ .none).has (arena.has_alloc spans (.string name) .none)⟩

theorem Has.node_eq {arena : Arena} {id : NodeId} {node : Node} {span : Span}
    (has : arena.Has id node span) :
  arena.node id = node
  := by
  rw [Arena.node, has.1]
  rfl

/-- What stands below an expression is determined by its node and the children of the node. -/
theorem below_eq {id : NodeId} (same : new.node id = old.node id)
    (children : new.children (old.node id) = old.children (old.node id)) :
  new.below id = old.below id
  := by
  rw [below, below, same]
  cases node : old.node id <;> rw [node] at children <;>
    simp only [Arena.children, Children.mk.injEq, true_and, and_true] at children <;>
    simp only [children]

/-- An expression that an arena does not have is null there. -/
theorem node_of_le {arena : Arena} {id : NodeId} (missing : arena.size ≤ id.index) :
  arena.node id = .null
  := by
  rw [node, Array.getElem?_eq_none missing]
  rfl

theorem Continues.node_eq (h : old.Continues new) {id : NodeId} (present : id.index < old.size) :
  new.node id = old.node id
  := by
  have here := Array.getElem?_eq_getElem present
  rw [node, node, h.nodes _ _ here, here]

end Arena

end

/-! ### Expressions behind their parts -/

namespace Arena

/-- The expressions in the tables of an arena. -/
def listed (arena : Arena) : List NodeId :=
  arena.lists.toList ++ arena.binds.toList.map Bind.body ++
    arena.fields.toList.flatMap FieldDef.ids

section

variable {arena : Arena} {id : NodeId}

theorem listed_of_list {slice : Slice NodeId} (h : id ∈ arena.readList slice) :
  id ∈ arena.listed
  := by
  have entry := Array.mem_toList_iff.mpr (Slice.mem_of_mem_read h)
  exact List.mem_append_left _ (List.mem_append_left _ entry)

theorem listed_of_bind {slice : Slice Bind} {bind : Bind} (h : bind ∈ arena.readBinds slice) :
  bind.body ∈ arena.listed
  := by
  have entry := Array.mem_toList_iff.mpr (Slice.mem_of_mem_read h)
  exact List.mem_append_left _ (List.mem_append_right _ (List.mem_map_of_mem entry))

theorem listed_of_field {slice : Slice FieldDef} {field : FieldDef}
    (h : field ∈ arena.readFields slice) (hid : id ∈ field.ids) :
  id ∈ arena.listed
  := by
  have entry := Array.mem_toList_iff.mpr (Slice.mem_of_mem_read h)
  exact List.mem_append_right _ (List.mem_flatMap.mpr ⟨field, entry, hid⟩)

/-- What stands right below an expression is a part of its node or in a table. -/
theorem part_or_listed {place : Spot} (h : place ∈ arena.below id) :
  place.id ∈ (arena.node id).parts ∨ place.id ∈ arena.listed
  := by
  rw [below] at h
  cases node : arena.node id with
  | locals binds body =>
    simp only [node, List.mem_map, List.mem_cons] at h
    obtain ⟨_, rfl | ⟨bind, hbind, rfl⟩, rfl⟩ := h
    · exact .inl (List.mem_singleton_self _)
    · exact .inr (listed_of_bind hbind)
  | apply target arguments =>
    simp only [node, List.mem_map, List.mem_cons] at h
    obtain ⟨_, rfl | harg, rfl⟩ := h
    · exact .inl (List.mem_singleton_self _)
    · exact .inr (listed_of_list harg)
  | array elements =>
    simp only [node, List.mem_map] at h
    obtain ⟨_, helement, rfl⟩ := h
    exact .inr (listed_of_list helement)
  | object asserts fields =>
    simp only [node, List.mem_append, List.mem_map] at h
    obtain ⟨_, ⟨field, hfield, rfl⟩, rfl⟩ | ⟨_, hassert | ⟨field, hfield, rfl⟩, rfl⟩ := h
    · exact .inr (listed_of_field hfield List.mem_cons_self)
    · exact .inr (listed_of_list hassert)
    · exact .inr (listed_of_field hfield (List.mem_cons_of_mem _ (List.mem_singleton_self _)))
  | function params body =>
    simp only [node, List.mem_singleton] at h
    exact .inl (by simp [h, Node.parts])
  | unary op operand | superIndex operand | error operand =>
    simp only [node, List.mem_singleton] at h
    exact .inl (by simp [h, Node.parts])
  | binary op left right | index left right =>
    simp only [node, List.mem_cons, List.not_mem_nil, or_false] at h
    obtain rfl | rfl := h <;> simp [Node.parts]
  | conditional condition whenTrue whenFalse =>
    simp only [node, List.mem_cons, List.not_mem_nil, or_false] at h
    obtain rfl | rfl | rfl := h <;> simp [Node.parts]
  | _ =>
    rw [node] at h
    cases h

end

/-- What the construction of an arena keeps up: the slices of all nodes can be read, and no
expression is in a table or below another one before it has been made. -/
structure Sound (arena : Arena) : Prop where
  spans : arena.spans.size = arena.size
  fits : ∀ id, (arena.node id).Fits arena
  listed : ∀ id ∈ arena.listed, id.index < arena.size
  ordered : arena.Ordered

theorem sound_new (file : Name) :
  (Arena.new file).Sound
  where
  spans := rfl
  fits _ := trivial
  listed _ h := by cases h
  ordered _ _ h := by cases h

namespace Sound

variable {arena : Arena} (h : arena.Sound)

include h

/-- A node whose parts are there comes behind all of them. -/
theorem alloc (node : Node) (span : Span) (parts : ∀ id ∈ node.parts, id.index < arena.size)
    (fits : node.Fits arena) :
  ((Build.alloc node span).run arena).2.Sound
  := by
  have continues := arena.continues_alloc node span
  set next := ((Build.alloc node span).run arena).2
  have size : next.size = arena.size + 1 := arena.size_alloc node span
  have last : ∀ {id : NodeId}, id.index = arena.size → next.node id = node := by
    rintro ⟨_⟩ rfl
    exact (arena.has_alloc h.spans node span).node_eq
  constructor
  case spans => exact arena.spans_alloc h.spans node span
  case fits =>
    intro id
    obtain old | new | missing := Nat.lt_trichotomy id.index arena.size
    · rw [continues.node_eq old]
      exact (h.fits id).mono continues
    · rw [last new]
      exact fits.mono continues
    · rw [node_of_le (by omega)]
      trivial
  case listed =>
    intro id listed
    exact (h.listed id listed).trans (by omega)
  case ordered =>
    intro id place below
    obtain old | new | missing := Nat.lt_trichotomy id.index arena.size
    · rw [below_eq (continues.node_eq old) (continues.children_eq (h.fits id))] at below
      exact h.ordered id place below
    · obtain part | listed := part_or_listed below
      · rw [last new] at part
        rw [new]
        exact parts place.id part
      · rw [new]
        exact h.listed place.id listed
    · rw [Arena.below, node_of_le (by omega)] at below
      cases below

/-- A list of expressions that are there may be appended. -/
theorem push {next : Arena} (continues : arena.Continues next) (nodes : next.nodes = arena.nodes)
    (spans : next.spans = arena.spans)
    (listed : ∀ id ∈ next.listed, id ∈ arena.listed ∨ id.index < arena.size) :
  next.Sound
  := by
  have size : next.size = arena.size := congrArg Array.size nodes
  have node : ∀ id, next.node id = arena.node id := by
    intro id
    rw [Arena.node, Arena.node, nodes]
  constructor
  case spans => rw [spans, h.spans, size]
  case fits =>
    intro id
    rw [node]
    exact (h.fits id).mono continues
  case listed =>
    intro id hid
    rw [size]
    obtain old | new := listed id hid
    · exact h.listed id old
    · exact new
  case ordered =>
    intro id place below
    rw [below_eq (node id) (continues.children_eq (h.fits id))] at below
    exact h.ordered id place below

theorem pushList {entries : List NodeId} (there : ∀ id ∈ entries, id.index < arena.size) :
  ((Build.pushList entries).run arena).2.Sound
  := by
  apply h.push (arena.continues_pushList entries) rfl rfl
  intro id hid
  have tables : id ∈ (arena.lists ++ entries).toList ++ arena.binds.toList.map Bind.body ++
    arena.fields.toList.flatMap FieldDef.ids := hid
  rw [Array.toList_appendList] at tables
  simp only [Arena.listed, List.mem_append] at tables ⊢
  obtain ((old | new) | bind) | field := tables
  · exact .inl (.inl (.inl old))
  · exact .inr (there id new)
  · exact .inl (.inl (.inr bind))
  · exact .inl (.inr field)

theorem pushBinds {entries : List Bind}
    (there : ∀ id ∈ entries.map Bind.body, id.index < arena.size) :
  ((Build.pushBinds entries).run arena).2.Sound
  := by
  apply h.push (arena.continues_pushBinds entries) rfl rfl
  intro id hid
  have tables : id ∈ arena.lists.toList ++ (arena.binds ++ entries).toList.map Bind.body ++
    arena.fields.toList.flatMap FieldDef.ids := hid
  rw [Array.toList_appendList, List.map_append] at tables
  simp only [Arena.listed, List.mem_append] at tables ⊢
  obtain (list | old | new) | field := tables
  · exact .inl (.inl (.inl list))
  · exact .inl (.inl (.inr old))
  · exact .inr (there id new)
  · exact .inl (.inr field)

theorem pushParams (entries : List Name) :
  ((Build.pushParams entries).run arena).2.Sound
  := h.push (arena.continues_pushParams entries) rfl rfl fun _ => .inl

theorem pushFields {entries : List FieldDef}
    (there : ∀ id ∈ entries.flatMap FieldDef.ids, id.index < arena.size) :
  ((Build.pushFields entries).run arena).2.Sound
  := by
  apply h.push (arena.continues_pushFields entries) rfl rfl
  intro id hid
  have tables : id ∈ arena.lists.toList ++ arena.binds.toList.map Bind.body ++
    (arena.fields ++ entries).toList.flatMap FieldDef.ids := hid
  rw [Array.toList_appendList, List.flatMap_append] at tables
  simp only [Arena.listed, List.mem_append] at tables ⊢
  obtain (list | bind) | old | new := tables
  · exact .inl (.inl (.inl list))
  · exact .inl (.inl (.inr bind))
  · exact .inl (.inr old)
  · exact .inr (there id new)

/-- A node whose parts are there, but for the literal name that is made with it. -/
theorem behindName (name : Name) (node : NodeId → Node)
    (parts : ∀ id ∈ (node ⟨arena.size⟩).parts, id.index < arena.size ∨ id.index = arena.size)
    (fits : ∀ later, (node ⟨arena.size⟩).Fits later) :
  ((Build.behindName name node).run arena).2.Sound
  := by
  have named := h.alloc (.string name) .none (List.forall_mem_nil _) trivial
  refine named.alloc _ .none ?_ (fits _)
  intro id part
  rw [size_alloc]
  obtain old | new := parts id part
  · exact old.trans (Nat.lt_succ_self _)
  · exact new.trans_lt (Nat.lt_succ_self _)

/-- A step that is given expressions that are there, and slices that can be read. -/
theorem build {step : Construction} (given : ∀ id ∈ step.given, id.index < arena.size)
    (slices : ∀ node span, step = .alloc node span → node.Fits arena) :
  (step.build.run arena).2.Sound
  := by
  cases step with
  | alloc node span => exact h.alloc node span given (slices node span rfl)
  | pushList entries => exact h.pushList given
  | pushBinds entries => exact h.pushBinds given
  | pushParams entries => exact h.pushParams entries
  | pushFields entries => exact h.pushFields given
  | locals binds body span =>
    obtain ⟨hbody, hbinds⟩ := List.forall_mem_cons.mp given
    refine (h.pushBinds hbinds).alloc _ span ?_ ?_
    · exact List.forall_mem_singleton.mpr hbody
    · exact (read_sliceOf _ _).1
  | function params body span =>
    refine (h.pushParams params).alloc _ span ?_ ?_
    · exact given
    · exact (read_sliceOf _ _).1
  | apply target arguments span =>
    obtain ⟨htarget, harguments⟩ := List.forall_mem_cons.mp given
    refine (h.pushList harguments).alloc _ span ?_ ?_
    · exact List.forall_mem_singleton.mpr htarget
    · exact (read_sliceOf _ _).1
  | array elements span =>
    refine (h.pushList given).alloc _ span ?_ ?_
    · exact List.forall_mem_nil _
    · exact (read_sliceOf _ _).1
  | object asserts fields span =>
    obtain ⟨hasserts, hfields⟩ := List.forall_mem_append.mp given
    refine ((h.pushList hasserts).pushFields hfields).alloc _ span ?_ ?_
    · exact List.forall_mem_nil _
    · exact ⟨(read_sliceOf _ _).1, (read_sliceOf _ _).1⟩
  | field name visibility body => exact h.alloc (.string name) .none (List.forall_mem_nil _) trivial
  | indexField target name =>
    refine h.behindName name (.index target) ?_ fun _ => trivial
    intro id part
    obtain rfl | rfl := List.mem_pair.mp part
    · exact .inl (given _ (List.mem_singleton_self _))
    · exact .inr rfl
  | superField name =>
    refine h.behindName name .superIndex ?_ fun _ => trivial
    intro id part
    exact .inr (congrArg NodeId.index (List.mem_singleton.mp part))

end Sound

end Arena

/-! ### Single steps -/

namespace Construction

variable (step : Construction) (arena : Arena)

/-- A step numbers what it makes from the number of nodes that are there. -/
theorem made_build :
  ∃ count, (step.build.run arena).2.size = arena.size + count ∧
    step.made (step.build.run arena).1 = (List.range' arena.size count).map NodeId.mk
  := by
  cases step with
  | pushList entries | pushBinds entries | pushParams entries | pushFields entries =>
    exact ⟨0, rfl, rfl⟩
  | indexField target name =>
    refine ⟨2, arena.size_behindName name (.index target), ?_⟩
    exact congrArg (fun id : NodeId => [⟨id.index - 1⟩, id]) (arena.behindName_result name _)
  | superField name =>
    refine ⟨2, arena.size_behindName name .superIndex, ?_⟩
    exact congrArg (fun id : NodeId => [⟨id.index - 1⟩, id]) (arena.behindName_result name _)
  | _ => exact ⟨1, Arena.size_alloc .., rfl⟩

/-- What a step gives back is made of what it has made and of what it was given. -/
theorem returned_build {id : NodeId} (h : id ∈ step.returned (step.build.run arena).1) :
  id ∈ step.made (step.build.run arena).1 ∨ id ∈ step.given
  := by
  cases step with
  | pushList entries | pushBinds entries | pushParams entries | pushFields entries => cases h
  | indexField target name | superField name => exact .inl (List.mem_cons_of_mem _ h)
  | field name visibility body =>
    obtain made | body := List.mem_cons.mp h
    · exact .inl (List.mem_singleton.mpr made)
    · exact .inr body
  | _ => exact .inl h

variable {step} {arena}

/-- What a step has made stands in the arena that it leaves behind. -/
theorem stands_build (spans : arena.spans.size = arena.size)
    (slices : ∀ node span, step = .alloc node span → node.Fits arena) :
  step.Stands arena (step.build.run arena).2 (step.build.run arena).1
  := by
  cases step with
  | alloc node span => exact ⟨arena.has_alloc spans node span, slices node span rfl, rfl⟩
  | pushList entries | pushBinds entries | pushParams entries | pushFields entries =>
    exact read_sliceOf _ _
  | locals binds body span => exact ⟨_, Arena.has_alloc _ spans _ span, read_sliceOf _ _⟩
  | function params body span => exact ⟨_, Arena.has_alloc _ spans _ span, read_sliceOf _ _⟩
  | apply target arguments span => exact ⟨_, Arena.has_alloc _ spans _ span, read_sliceOf _ _⟩
  | array elements span => exact ⟨_, Arena.has_alloc _ spans _ span, read_sliceOf _ _⟩
  | object asserts fields span =>
    exact ⟨_, _, Arena.has_alloc _ spans _ span, read_sliceOf _ _, read_sliceOf _ _⟩
  | field name visibility body => exact ⟨rfl, arena.has_alloc spans (.string name) .none⟩
  | indexField target name => exact arena.has_behindName spans name (.index target)
  | superField name => exact arena.has_behindName spans name .superIndex

/-- What stands in an arena still does when something is appended. -/
theorem Stands.mono {before later : Arena} {result : step.Out}
    (stands : step.Stands before arena result) (h : arena.Continues later) :
  step.Stands before later result
  := by
  cases step with
  | alloc node span =>
    obtain ⟨has, fits, same⟩ := stands
    exact ⟨h.has has, fits.mono h, (h.children_eq fits).trans same⟩
  | pushList entries => exact Slice.Covers.mono stands h.lists
  | pushBinds entries => exact Slice.Covers.mono stands h.binds
  | pushParams entries => exact Slice.Covers.mono stands h.params
  | pushFields entries => exact Slice.Covers.mono stands h.fields
  | locals binds body span =>
    obtain ⟨slice, has, covers⟩ := stands
    exact ⟨slice, h.has has, covers.mono h.binds⟩
  | function params body span =>
    obtain ⟨slice, has, covers⟩ := stands
    exact ⟨slice, h.has has, covers.mono h.params⟩
  | apply target arguments span =>
    obtain ⟨slice, has, covers⟩ := stands
    exact ⟨slice, h.has has, covers.mono h.lists⟩
  | array elements span =>
    obtain ⟨slice, has, covers⟩ := stands
    exact ⟨slice, h.has has, covers.mono h.lists⟩
  | object asserts fields span =>
    obtain ⟨slice, slice', has, covers, covers'⟩ := stands
    exact ⟨slice, slice', h.has has, covers.mono h.lists, covers'.mono h.fields⟩
  | field name visibility body => exact ⟨stands.1, h.has stands.2⟩
  | indexField target name => exact ⟨h.has stands.1, h.has stands.2⟩
  | superField name => exact ⟨h.has stands.1, h.has stands.2⟩

end Construction

/-! ### Trees -/

namespace Arena

namespace Ordered

variable {arena : Arena} (h : arena.Ordered)

include h

end Ordered

end Arena

/-! ### Constructions -/

namespace Arena.Built

variable {file : Name} {stages : List Construction.Stage} {arena : Arena}

/-- What a construction keeps up, and everything that its steps have given back is there. -/
theorem sound (h : Built file stages arena) :
  arena.Sound ∧
    ∀ stage ∈ stages, ∀ id ∈ stage.step.returned stage.result, id.index < arena.size
  := by
  induction h with
  | new => exact ⟨sound_new file, fun _ h => by cases h⟩
  | @step stages arena built step supplied ih =>
    obtain ⟨sound, returned⟩ := ih
    have given : ∀ id ∈ step.given, id.index < arena.size := by
      intro id hid
      obtain ⟨stage, hstage, hid⟩ := supplied.given id hid
      exact returned stage hstage id hid
    obtain ⟨count, size, made⟩ := step.made_build arena
    refine ⟨sound.build given supplied.slices, ?_⟩
    intro stage hstage id hid
    rw [Construction.Stage.after, size]
    obtain earlier | rfl := List.mem_append.mp hstage |>.imp_right List.mem_singleton.mp
    · exact (returned stage earlier id hid).trans_le (Nat.le_add_right _ _)
    · obtain new | old := step.returned_build arena hid
      · rw [made, List.mem_map] at new
        obtain ⟨i, hi, rfl⟩ := new
        exact (List.mem_range'_1.mp hi).2
      · exact (given id old).trans_le (Nat.le_add_right _ _)

/-- What a step has made stands from then on, and what was there before it is kept. -/
theorem stands (h : Built file stages arena) :
  ∀ stage ∈ stages, stage.before.Sound ∧ stage.before.Continues arena ∧
    stage.step.Stands stage.before arena stage.result
  := by
  induction h with
  | new => exact fun _ h => by cases h
  | @step stages arena built step supplied ih =>
    intro stage hstage
    have continues := arena.continues_build step
    obtain earlier | rfl := List.mem_append.mp hstage |>.imp_right List.mem_singleton.mp
    · obtain ⟨sound, kept, stands⟩ := ih stage earlier
      exact ⟨sound, kept.trans continues, stands.mono continues⟩
    · have sound := built.sound.1
      exact ⟨sound, continues, Construction.stands_build sound.spans supplied.slices⟩

end Arena.Built

end Jsonnet
