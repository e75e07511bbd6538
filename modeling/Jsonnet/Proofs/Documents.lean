import Jsonnet.Proofs.Outset
import Jsonnet.Proofs.Rereading
import Jsonnet.Proofs.Shelving

/-!
# Programs that are documents

A program that is a document evaluates to that document: it is evaluated lazily, one frame inside
the outermost one is enough for all its parts, and what is written out is what was read.
-/

namespace Jsonnet

open Jsonnet.Action (Delivers)

variable {session : Session} {names : Interner} {shelf : Shelf} {a : State}

/-! ### Evaluating -/

theorem Code.node_eq {code : Code} {node : Node}
    (h : code.arena.nodes[code.root.index]? = some node) :
  code.node = node
  := by
  rw [Code.node, Arena.node, h]
  rfl

/-- A string literal evaluates to its string. -/
theorem evaluate_string_delivers (fits : shelf.Fits names a) {code : Code} {s : String}
    (holds : code.arena.HoldsString names code.root s) (env : Env) :
  (Task.evaluate code env).Delivers session names shelf a fun _ v => v = .string s
  := by
  obtain ⟨name, hnode, hnumbers⟩ := holds
  refine .of_action rfl rfl ?_ fun _ _ _ _ fits _ => fits
  rw [Task.action, evaluateCode, Code.node_eq hnode]
  apply (fits.count .expression).bind
  intro _ b larger _ _ fits _
  apply (fits.text hnumbers).bind
  rintro _ c largest _ _ fits rfl
  exact .pure fits rfl

/-- The fields of an object literal get their names. -/
theorem literalFields_delivers (fits : shelf.Fits names a) {code : Code} (env : Env)
    {fields : List (String × Document)} {definitions : List FieldDef}
    (holds : code.arena.HoldsFields names definitions fields)
    (collapsed : Document.HaveCollapsed fields) (ordered : Document.OrderedKeys fields)
    {done : List (Name × Field)}
    (before : ∀ member ∈ done, ∃ key, names.Numbers key member.1 ∧ ∀ field ∈ fields, key ≠ field.1) :
  (literalFields code env done definitions).Delivers session names shelf a fun _ r =>
    ∃ members, r = done.reverse ++ members ∧ List.Forall₂ (IsField names) fields members
  := by
  induction fields generalizing definitions done shelf a with
  | nil =>
    cases holds
    exact .pure fits ⟨[], by rw [List.append_nil], .nil⟩
  | cons field fields ih =>
    obtain ⟨key, document⟩ := field
    obtain ⟨name, body, rest, rfl, hname, hbody, hrest⟩ := holds
    obtain ⟨hkey, ordered⟩ := List.pairwise_cons.mp ordered
    rw [literalFields]
    have holdsName : (code.sibling name).arena.HoldsString names (code.sibling name).root key := hname
    apply (Delivers.request (evaluate_string_delivers fits holdsName env)).bind
    rintro _ b larger _ _ fits rfl
    obtain ⟨_, hnode, hnumbers⟩ := hname
    apply (fits.intern hnumbers).bind
    rintro id c largest _ _ fits rfl
    have hnew : done.any (·.1 == id) = false := by
      rw [List.any_eq_false]
      intro member hmember heq
      obtain ⟨key', hnumbers', hne⟩ := before member hmember
      rw [beq_iff_eq.mp heq] at hnumbers'
      exact hne (key, document) List.mem_cons_self (Option.some.inj
        (hnumbers'.string.symm.trans hnumbers.string))
    rw [hnew, if_neg Bool.false_ne_true]
    refine (ih fits hrest collapsed.2 ordered ?_).imp ?_
    · intro member hmember
      obtain rfl | hmember := List.mem_cons.mp hmember
      · exact ⟨key, hnumbers, fun field hfield => ne_of_lt (hkey field hfield)⟩
      · obtain ⟨key', hnumbers', hne⟩ := before member hmember
        exact ⟨key', hnumbers', fun field hfield => hne field (List.mem_cons_of_mem _ hfield)⟩
    · rintro _ _ _ ⟨members, rfl, hmembers⟩
      refine ⟨(id, ⟨.inherit, .code (code.sibling body) false⟩) :: members, by simp, ?_⟩
      exact .cons ⟨hnumbers, _, rfl, hbody, collapsed.1⟩ hmembers

theorem Code.holds_elements {code : Code} {elements : List Document} {ids : List NodeId}
    (holds : code.arena.HoldsElements names ids elements)
    (collapsed : Document.AreCollapsed elements) :
  List.Forall₂ (fun id document => (code.sibling id).Holds names document) ids elements
  := by
  induction elements generalizing ids with
  | nil =>
    cases holds
    exact .nil
  | cons element others ih =>
    obtain ⟨id, rest, rfl, helement, hothers⟩ := holds
    exact .cons ⟨helement, collapsed.1⟩ (ih hothers collapsed.2)

/-- The expression of a document evaluates to a value that stands for the document. -/
theorem evaluate_delivers (fits : shelf.Fits names a) {code : Code} {document : Document}
    (holds : code.Holds names document) (env : Env) :
  (Task.evaluate code env).Delivers session names shelf a
    fun larger v => v.Shows names larger document
  := by
  obtain ⟨arena, collapsed⟩ := holds
  refine .of_action rfl rfl ?_ fun _ _ _ _ fits _ => fits
  rw [Task.action, evaluateCode]
  apply (fits.count .expression).bind
  intro _ b larger _ _ fits _
  cases document with
  | null =>
    rw [Code.node_eq arena]
    exact .pure fits .null
  | bool b =>
    rw [Code.node_eq arena]
    exact .pure fits (.bool b)
  | number x =>
    rw [Code.node_eq arena]
    exact .pure fits (.number x)
  | string s =>
    obtain ⟨name, hnode, hnumbers⟩ := arena
    rw [Code.node_eq hnode]
    apply (fits.text hnumbers).bind
    rintro _ c largest _ _ fits rfl
    exact .pure fits (.string _)
  | array elements =>
    obtain ⟨slice, hnode, -, helements⟩ := arena
    rw [Code.node_eq hnode]
    apply (Delivers.theSession fits).bind
    rintro _ c larger _ _ fits rfl
    apply (fits.shareAll (List.forall₂_map_left_iff.mpr ((Code.holds_elements helements
      collapsed).imp fun _ _ h => .pending h))).bind
    intro thunks d largest _ _ fits shown
    exact .pure fits (.array shown)
  | object fields =>
    obtain ⟨slice, hnode, -, hfields⟩ := arena
    rw [Code.node_eq hnode]
    have hasserts : code.arena.readList .empty = [] := by
      simp [Arena.readList, Slice.read, Slice.empty]
    dsimp only
    rw [hasserts, literalObject]
    apply (literalFields_delivers fits env hfields collapsed.2 collapsed.1 (by simp)).bind
    rintro _ c largest _ _ fits ⟨members, rfl, hmembers⟩
    apply (fits.literal collapsed.1 hmembers).bind
    intro o d widest _ _ fits shown
    exact .pure fits shown

/-! ### Computing parts -/

/-- A thunk is computed inside one frame. -/
theorem force_delivers (fits : shelf.Fits names a) (room : 0 < a.stack.room) {i : Nat}
    {document : Document} (known : shelf.thunks[i]? = some document) :
  (Task.force ⟨i⟩).Delivers session names shelf a fun larger v => v.Shows names larger document
  := by
  obtain ⟨cell, hcell, shown⟩ := exists_of_forall₂ fits.thunks known
  rw [Array.getElem?_toList] at hcell
  cases shown with
  | ready shown => exact .known (by rw [Task.known?, hcell]) fits shown
  | pending holds =>
    refine .of_action (by rw [Task.known?, hcell]) rfl ?_ ?_
    · rw [Task.action, computeThunk, hcell]
      apply (fits.count .thunk).bind
      intro _ b larger hstack hle fits _
      rw [← hstack] at room
      exact .inFrame fits room fun c _ fits => evaluate_delivers fits holds _
    · intro v b larger hle fits shown
      rw [Task.settle]
      split
      case isFalse => exact fits
      case isTrue =>
        apply fits.keepThunk
        intro document' hdocument'
        cases (Shelf.thunk_mono hle known).symm.trans hdocument'
        exact shown

/-- A field is found under its name. -/
theorem exists_member {fields : List (String × Document)} {members : List (Name × Field)}
    (shown : List.Forall₂ (IsField names) fields members) (ordered : Document.OrderedKeys fields)
    {s : String} {document : Document} (hmem : (s, document) ∈ fields) {name : Name}
    (hname : names.Numbers s name) :
  ∃ code, members.lookup name = some ⟨.inherit, .code code false⟩ ∧ code.Holds names document
  := by
  induction shown with
  | nil => cases hmem
  | @cons field member fields members hmember _ ih =>
    obtain ⟨name', _⟩ := member
    obtain ⟨hnumbers, code, rfl, hcode⟩ := hmember
    obtain ⟨hfirst, ordered⟩ := List.pairwise_cons.mp ordered
    obtain rfl | hmem := List.mem_cons.mp hmem
    · cases hname.unique hnumbers
      exact ⟨code, List.lookup_cons_self, hcode⟩
    · have hne : (name == name') = false := by
        apply beq_false_of_ne
        rintro rfl
        have heq : s = field.1 := Option.some.inj (hname.string.symm.trans hnumbers.string)
        exact ne_of_lt (hfirst _ hmem) heq.symm
      rw [List.lookup_cons, hne]
      exact ih ordered hmem

/-- An object without assertions is valid. -/
theorem check_delivers (fits : shelf.Fits names a) (id : ObjectId) (scope : Scope)
    (members : List (Name × Field)) :
  (Object.leaf ⟨id, scope, members, []⟩).check.Delivers session names shelf a fun _ _ => True
  := .request (.known rfl fits trivial)

/-- A field of a literal is computed inside one frame. -/
theorem field_delivers (fits : shelf.Fits names a) (room : 0 < a.stack.room) {l : Leaf} {code : Code}
    {fields : List (String × Document)} (known : shelf.objects[l.id.index]? = some fields)
    (ordered : Document.OrderedKeys fields) {s : String} {document : Document}
    (hmem : (s, document) ∈ fields) {name : Name} (hname : names.Numbers s name)
    (hlookup : l.field? name = some ⟨.inherit, .code code false⟩)
    (hcode : code.Holds names document) (site : Location) :
  (Task.field (.leaf l) l 0 name site).Delivers session names shelf a
    fun larger v => v.Shows names larger document
  := by
  -- The other fields of the object have other names.
  have only : ∀ {larger : Shelf} {v : Value}, v.Shows names larger document →
      ∀ s' document', names.Numbers s' name → (s', document') ∈ fields →
        v.Shows names larger document' := by
    intro larger v shown s' document' hname' hmem'
    cases hname.string.symm.trans hname'.string
    cases ordered.unique hmem hmem'
    exact shown
  cases hknown : (Task.field (.leaf l) l 0 name site).known? session a with
  | some v =>
    refine .known hknown fits ?_
    rw [Task.known?] at hknown
    split at hknown
    case isFalse => cases hknown
    case isTrue =>
      obtain ⟨fields', hfields', shown⟩ := fits.kept hknown
      cases known.symm.trans hfields'
      exact shown s document hname hmem
  | none =>
    refine .of_action hknown rfl ?_ ?_
    · rw [Task.action, computeField, hlookup]
      apply (Delivers.inFrame fits room fun c _ fits => evaluate_delivers fits hcode _).bind
      intro v c larger _ _ fits shown
      exact .pure fits shown
    · intro v c larger hle fits shown
      rw [Task.settle]
      split
      case isFalse => exact fits
      case isTrue => exact fits.keepField (Shelf.object_mono hle known) (only shown)

/-- A field of an object is read inside one frame. -/
theorem read_delivers (fits : shelf.Fits names a) (room : 0 < a.stack.room) {o : Object}
    {fields : List (String × Document)} (shown : (Value.object o).Shows names shelf (.object fields))
    {s : String} {document : Document} (hmem : (s, document) ∈ fields) {name : Name}
    (hname : names.Numbers s name) (site : Location) :
  (o.read 0 name site).Delivers session names shelf a
    fun larger v => v.Shows names larger document
  := by
  cases shown with
  | @object id scope members _ known ordered shown =>
  obtain ⟨code, hlookup, hcode⟩ := exists_member shown ordered hmem hname
  have hfield : (⟨id, scope, members, []⟩ : Leaf).field? name
      = some ⟨.inherit, .code code false⟩ := hlookup
  apply Delivers.request
  refine .of_action rfl rfl ?_ fun _ _ _ _ fits _ => fits
  rw [Task.action, readField]
  apply (check_delivers fits id scope members).bind
  intro _ b larger hstack hle fits _
  have hfind : (Object.leaf ⟨id, scope, members, []⟩).find? 0 name
      = some (⟨id, scope, members, []⟩, 0) := by
    simp [Object.find?, Object.findFrom, hfield]
  rw [hfind]
  rw [← hstack] at room
  exact .request (field_delivers fits room (Shelf.object_mono hle known) ordered hmem hname hfield
    hcode site)

/-! ### Writing out -/

theorem refineVisibility_of_not_mem {name : Name} {visibility : Visibility}
    {seen : List (Name × Visibility)} (h : name ∉ seen.map Prod.fst) :
  Object.refineVisibility name visibility seen = seen ++ [(name, visibility)]
  := by
  induction seen with
  | nil => rfl
  | cons first rest ih =>
    rw [List.map_cons, List.mem_cons, not_or] at h
    rw [Object.refineVisibility, if_neg (Ne.symm h.1), ih h.2, List.cons_append]

/-- A literal that defines each field once has the fields in the order of their definitions. -/
theorem foldl_refineVisibility (members : List (Name × Field)) (seen : List (Name × Visibility))
    (h : (seen.map Prod.fst ++ members.map Prod.fst).Nodup) :
  members.foldl (fun seen (name, field) => Object.refineVisibility name field.visibility seen) seen
    = seen ++ members.map fun member => (member.1, member.2.visibility)
  := by
  induction members generalizing seen with
  | nil => simp
  | cons member members ih =>
    obtain ⟨name, field⟩ := member
    rw [List.map_cons, List.nodup_append] at h
    obtain ⟨-, -, hdisjoint⟩ := id h
    have hname : name ∉ seen.map Prod.fst :=
      fun hmem => hdisjoint name hmem name List.mem_cons_self rfl
    simp only [List.foldl_cons]
    rw [refineVisibility_of_not_mem hname, ih]
    · simp
    · rw [← List.nodup_append] at h
      simpa using h

section

variable {fields : List (String × Document)} {members : List (Name × Field)}

/-- The names of ordered fields are ordered by their strings. -/
theorem pairwise_lookup (shown : List.Forall₂ (IsField names) fields members)
    (ordered : Document.OrderedKeys fields) :
  (members.map Prod.fst).Pairwise fun n m => names.lookup n < names.lookup m
  := by
  have hkeys : members.map (fun member => names.lookup member.1) = fields.map Prod.fst := by
    induction shown with
    | nil => rfl
    | cons hmember _ ih =>
      rw [List.map_cons, List.map_cons, ih (List.pairwise_cons.mp ordered).2, Interner.lookup_eq,
        hmember.1.string, Option.getD_some]
  rw [Document.OrderedKeys, ← List.pairwise_map, ← hkeys, List.pairwise_map] at ordered
  exact List.pairwise_map.mpr ordered

/-- The fields of a literal are written out in the order of their keys. -/
theorem sortNames_fieldNames (id : ObjectId) (scope : Scope)
    (shown : List.Forall₂ (IsField names) fields members) (ordered : Document.OrderedKeys fields) :
  Object.sortNames names ((Object.leaf ⟨id, scope, members, []⟩).fieldNames false)
    = members.map Prod.fst
  := by
  have pairwise := pairwise_lookup shown ordered
  have hinherit : ∀ member ∈ members, member.2.visibility = .inherit := by
    clear pairwise ordered
    induction shown with
    | nil => simp
    | cons hmember _ ih =>
      obtain ⟨-, code, hfield, -⟩ := hmember
      exact List.forall_mem_cons.mpr ⟨by rw [hfield], ih⟩
  have hnames : (Object.leaf ⟨id, scope, members, []⟩).fieldNames false = members.map Prod.fst := by
    rw [Object.fieldNames, Object.visibility, Object.visibilityOver, foldl_refineVisibility]
    · rw [List.nil_append, List.filter_eq_self.mpr, List.map_map]
      · rfl
      · intro entry hentry
        obtain ⟨member, hmember, rfl⟩ := List.mem_map.mp hentry
        simp [hinherit member hmember]
    · simp only [List.map_nil, List.nil_append]
      exact pairwise.imp fun h heq => ne_of_lt h (congrArg _ heq)
  rw [hnames, Object.sortNames, List.mergeSort_of_pairwise, List.map_map]
  · simp
  · rw [List.pairwise_map]
    exact pairwise.imp fun h => decide_eq_true (le_of_lt h)

end

mutual

/-- Writing out a value that stands for a document gives the document. -/
theorem document_delivers : ∀ {document : Document} {shelf : Shelf} {a : State} {value : Value},
    shelf.Fits names a → 0 < a.stack.room → value.Shows names shelf document →
  (Task.document value).Delivers session names shelf a fun _ r => r = document
  | .null, _, _, _, fits, _, .null => .of_action rfl rfl (.pure fits rfl) fun _ _ _ _ fits _ => fits
  | .bool _, _, _, _, fits, _, .bool _ =>
    .of_action rfl rfl (.pure fits rfl) fun _ _ _ _ fits _ => fits
  | .number _, _, _, _, fits, _, .number _ =>
    .of_action rfl rfl (.pure fits rfl) fun _ _ _ _ fits _ => fits
  | .string _, _, _, _, fits, _, .string _ =>
    .of_action rfl rfl (.pure fits rfl) fun _ _ _ _ fits _ => fits
  | .array _, _, _, _, fits, room, .array shown => by
    refine .of_action rfl rfl ?_ fun _ _ _ _ fits _ => fits
    rw [Task.action, computeDocument]
    apply (elementDocuments_delivers fits room shown []).bind
    rintro _ b larger _ _ fits rfl
    exact .pure fits rfl
  | .object fields, _, _, _, fits, room, @Value.Shows.object _ _ id scope members _ known ordered shown => by
    refine .of_action rfl rfl ?_ fun _ _ _ _ fits _ => fits
    rw [Task.action, computeDocument]
    apply (check_delivers fits id scope members).bind
    intro _ b larger hstack hle fits _
    have sorted : (sortedFields (.leaf ⟨id, scope, members, []⟩) false).Delivers session names larger b
        fun _ r => r = members.map Prod.fst := by
      refine .take rfl le_rfl fits ?_
      rw [fits.names_eq, sortNames_fieldNames id scope shown ordered]
    apply sorted.bind
    rintro _ c largest hstack' hle' fits rfl
    rw [← hstack, ← hstack'] at room
    have shown' : (Value.object (.leaf ⟨id, scope, members, []⟩)).Shows names largest
        (.object fields) :=
      .object (Shelf.object_mono (hle.trans hle') known) ordered shown
    apply (fieldDocuments_delivers fits room shown' (List.Sublist.refl fields).subset
      (shown.imp fun _ _ h => h.1) []).bind
    rintro _ d widest _ _ fits rfl
    exact .pure fits rfl

/-- Writing out values that stand for documents gives the documents. -/
theorem elementDocuments_delivers : ∀ {documents : List Document} {shelf : Shelf} {a : State}
    {elements : List Deferred}, shelf.Fits names a → 0 < a.stack.room →
    List.Forall₂ (Deferred.Shows shelf) elements documents → ∀ done : List Document,
  (elementDocuments done elements).Delivers session names shelf a
    fun _ r => r = done.reverse ++ documents
  | [], _, _, _, fits, _, .nil, done => .pure fits (by rw [List.append_nil])
  | document :: documents, _, _, _, fits, room, .cons shown others, done => by
    obtain ⟨i, rfl, hi⟩ := shown
    rw [elementDocuments]
    apply (Delivers.request (force_delivers fits room hi)).bind
    intro v b larger hstack hle fits shown
    rw [← hstack] at room
    apply (Delivers.request (document_delivers fits room shown)).bind
    rintro _ c largest hstack' hle' fits rfl
    rw [← hstack'] at room
    have others' := others.imp fun _ _ h => Deferred.Shows.mono h (hle.trans hle')
    refine (elementDocuments_delivers fits room others' _).imp ?_
    rintro _ _ _ rfl
    rw [List.reverse_cons, List.append_assoc, List.singleton_append]

/-- Writing out fields gives their keys and the documents that they stand for. -/
theorem fieldDocuments_delivers : ∀ {fields : List (String × Document)} {shelf : Shelf} {a : State}
    {o : Object} {all : List (String × Document)} {members : List (Name × Field)},
    shelf.Fits names a → 0 < a.stack.room → (Value.object o).Shows names shelf (.object all) →
    fields ⊆ all →
    List.Forall₂ (fun field member => names.Numbers field.1 member.1) fields members →
    ∀ done : List (String × Document),
  (fieldDocuments o done (members.map Prod.fst)).Delivers session names shelf a
    fun _ r => r = done.reverse ++ fields
  | [], _, _, _, _, _, fits, _, _, _, .nil, done => .pure fits (by rw [List.append_nil])
  | (key, document) :: fields, _, _, _, _, _, fits, room, shown, subset, .cons hname hnames, done => by
    rw [List.map_cons, fieldDocuments]
    apply (fits.text hname).bind
    rintro _ b larger hstack hle fits rfl
    rw [← hstack] at room
    have shown₁ := shown.mono hle
    apply (read_delivers fits room shown₁ (subset List.mem_cons_self) hname _).bind
    intro v c larger₂ hstack₂ hle₂ fits shown₂
    rw [← hstack₂] at room
    apply (Delivers.request (document_delivers fits room shown₂)).bind
    rintro _ d larger₃ hstack₃ hle₃ fits rfl
    rw [← hstack₃] at room
    refine (fieldDocuments_delivers fits room (shown₁.mono (hle₂.trans hle₃))
      (List.subset_of_cons_subset subset) hnames _).imp ?_
    rintro _ _ _ rfl
    rw [List.reverse_cons, List.append_assoc, List.singleton_append]

end

/-! ### Programs -/

/-- The shelf of a new session: no thunk, and the library as the only object. -/
def Shelf.new : Shelf := ⟨[], [[]]⟩

/-- Compiling and evaluating a text under a file name gives a text. -/
def Setup.Evaluates (setup : Setup) (names : Interner) (file source text : String) : Prop :=
  ∃ fuel later, setup.evaluateSnippet names fuel file source = some (.ok text, later)

/-- The setup whose front end is that for JSON, with room for two frames. -/
def Setup.jsonOnly : Setup := { Setup.bare with
  settings := { maxStack := 2 }
  frontEnd := Json.frontEnd }

end Jsonnet
