import Mathlib.Tactic.Common
import Jsonnet.FrontEnd
import Jsonnet.Proofs.Codes

/-!
# Documents in arenas

Storing a document appends the expression of the document to an arena. What an arena holds it
still holds when more is appended, so a document is found in the arena as it was stored.
-/

namespace Jsonnet

/-! ### Room for names -/

namespace Interner

/-- Whether every shard has room for those of some strings that belong to it. -/
def HasRoom (names : Interner) (strings : List String) : Prop :=
  ∀ index : Fin 16, (names.shards.get index).strings.size + strings.countP (shardOf · = index)
    ≤ Name.maxPosition + 1

variable {names : Interner}

/-- A string for which there is room gets a name of its own. -/
theorem HasRoom.intern {s : String} {rest : List String} (h : names.HasRoom (s :: rest)) :
  (names.intern s).2.HasRoom rest ∧ (names.intern s).2.Numbers s (names.intern s).1
  := by
  have hrest : names.HasRoom rest := by
    intro index
    have hindex := h index
    rw [List.countP_cons] at hindex
    omega
  cases hintern : names.tryIntern s with
  | ok result =>
    obtain ⟨name, later⟩ := result
    have hnumbers := (tryIntern_ok hintern).2
    simp only [Interner.intern, hintern]
    refine ⟨?_, hnumbers⟩
    rw [tryIntern] at hintern
    split at hintern
    case h_1 =>
      cases hintern
      exact hrest
    case h_2 isNew =>
      dsimp only at hintern
      split at hintern
      case isFalse => cases hintern
      case isTrue hasRoom =>
        cases hintern
        intro index
        have hindex := h index
        rw [List.countP_cons] at hindex
        by_cases heq : shardOf s = index
        · subst heq
          simp only [append, Shard.push, Vector.get_eq_getElem, Vector.getElem_set_self, Fin.getElem_fin,
            Array.size_push, decide_true, if_true] at hindex ⊢
          omega
        · have hne : (shardOf s).val ≠ index.val := fun hval => heq (Fin.ext hval)
          simp only [append, Vector.get_eq_getElem, Vector.getElem_set_ne _ _ hne] at hindex ⊢
          omega
  | error e =>
    rw [tryIntern] at hintern
    split at hintern
    case h_1 => cases hintern
    case h_2 =>
      dsimp only at hintern
      split at hintern
      case isTrue => cases hintern
      case isFalse hfull =>
        have hindex := h (shardOf s)
        rw [List.countP_cons, Vector.get_eq_getElem] at hindex
        simp only [Fin.getElem_fin, decide_true, if_true] at hfull hindex
        omega

/-- Interning a string makes no shard longer than by one. -/
theorem size_intern_le (names : Interner) (s : String) (index : Fin 16) :
  ((names.intern s).2.shards.get index).strings.size ≤ (names.shards.get index).strings.size + 1
  := by
  cases hintern : names.tryIntern s with
  | error e => simp only [Interner.intern, hintern, Nat.le_succ]
  | ok result =>
    simp only [Interner.intern, hintern]
    rw [tryIntern] at hintern
    split at hintern
    case h_1 =>
      cases hintern
      exact Nat.le_succ _
    case h_2 =>
      dsimp only at hintern
      split at hintern
      case isFalse => cases hintern
      case isTrue =>
        cases hintern
        by_cases heq : shardOf s = index
        · subst heq
          simp [append, Shard.push, Vector.get_eq_getElem]
        · have hne : (shardOf s).val ≠ index.val := fun hval => heq (Fin.ext hval)
          simp only [append, Vector.get_eq_getElem, Vector.getElem_set_ne _ _ hne, Nat.le_succ]

theorem size_internAll_le (names : Interner) (strings : List String) (index : Fin 16) :
  ((names.internAll strings).2.shards.get index).strings.size
    ≤ (names.shards.get index).strings.size + strings.length
  := by
  induction strings generalizing names with
  | nil => exact Nat.le_refl _
  | cons s rest ih =>
    have hfirst := names.size_intern_le s index
    have hrest := ih (names.intern s).2
    rw [internAll_cons, List.length_cons, Nat.add_comm rest.length, ← Nat.add_assoc]
    exact Nat.le_trans hrest (Nat.add_le_add_right hfirst _)

theorem size_onlyEmpty_le :
  ∀ index : Fin 16, (onlyEmpty.shards.get index).strings.size ≤ 1
  := by decide +kernel

/-- The interner that a program starts with has short shards. -/
theorem size_new_le (index : Fin 16) :
  (Interner.new.shards.get index).strings.size ≤ 38
  := by
  have hempty := size_onlyEmpty_le index
  have hnew := size_internAll_le onlyEmpty (reservedWords ++ libraryNames) index
  have hlength : (reservedWords ++ libraryNames).length = 37 := rfl
  rw [Interner.new]
  omega

/-- The interner that a program starts with has room for many strings. -/
theorem hasRoom_new {strings : List String} (h : strings.length ≤ Name.maxPosition - 40) :
  Interner.new.HasRoom strings
  := by
  intro index
  have hnew := size_new_le index
  have hcount := List.countP_le_length (p := (shardOf · = index)) (l := strings)
  rw [Name.maxPosition] at h ⊢
  omega

end Interner

/-! ### Strings of documents -/

namespace Document

mutual

/-- The strings of a document, in the order in which they are given names. -/
def strings : Document → List String
  | .string s => [s]
  | .array elements => stringsOfElements elements
  | .object fields => stringsOfFields fields
  | _ => []

/-- The strings of some elements. -/
def stringsOfElements : List Document → List String
  | [] => []
  | element :: others => element.strings ++ stringsOfElements others

/-- The strings of some fields, with their keys. -/
def stringsOfFields : List (String × Document) → List String
  | [] => []
  | (key, value) :: others => value.strings ++ key :: stringsOfFields others

end

end Document

/-! ### Appending -/

/-- Whether a table comes from another one by appending entries. -/
def Appended {α : Type} (old new : Array α) : Prop :=
  ∀ (i : Nat) (entry : α), old[i]? = some entry → new[i]? = some entry

section

variable {α : Type} {old new : Array α}

theorem Appended.refl (table : Array α) :
  Appended table table
  := fun _ _ h => h

theorem Appended.size_le (h : Appended old new) :
  old.size ≤ new.size
  := by
  by_contra hlt
  have hlast : new.size < old.size := Nat.lt_of_not_le hlt
  have hnew := h new.size _ (Array.getElem?_eq_getElem hlast)
  have := (Array.getElem?_eq_some_iff.mp hnew).choose
  omega

theorem appended_push (table : Array α) (entry : α) :
  Appended table (table.push entry)
  := by
  intro i other h
  rw [Array.getElem?_push_lt (Array.getElem?_eq_some_iff.mp h).choose]
  exact congrArg some (Array.getElem?_eq_some_iff.mp h).choose_spec

theorem appended_append (table : Array α) (entries : List α) :
  Appended table (table ++ entries)
  := by
  intro i other h
  rw [← Array.getElem?_toList] at h ⊢
  rw [Array.toList_appendList]
  exact List.getElem?_append_left (List.getElem?_eq_some_iff.mp h).choose ▸ h

/-- Whether a slice covers entries of a table. -/
def Slice.Fits (slice : Slice α) (table : Array α) : Prop :=
  slice.start + slice.size ≤ table.size

theorem Slice.Fits.mono {slice : Slice α} (fits : slice.Fits old) (h : Appended old new) :
  slice.Fits new
  := Nat.le_trans fits h.size_le

theorem Slice.read_eq {slice : Slice α} (fits : slice.Fits old) (h : Appended old new) :
  slice.read new = slice.read old
  := by
  have fits' := fits.mono h
  rw [Fits] at fits fits'
  apply List.ext_getElem?
  intro i
  simp only [Slice.read, Array.getElem?_toList, Array.getElem?_extract]
  have hold : min (slice.start + slice.size) old.size - slice.start = slice.size := by omega
  have hnew : min (slice.start + slice.size) new.size - slice.start = slice.size := by omega
  rw [hold, hnew]
  split
  case isFalse => rfl
  case isTrue hi =>
    have hlt : slice.start + i < old.size := by omega
    rw [Array.getElem?_eq_getElem hlt]
    exact h _ _ (Array.getElem?_eq_getElem hlt)

/-- Entries that are appended are covered by the slice that is made for them. -/
theorem read_sliceOf (table : Array α) (entries : List α) :
  (Build.sliceOf table.size entries.length).Fits (table ++ entries) ∧
    (Build.sliceOf table.size entries.length).read (table ++ entries) = entries
  := by
  rw [Build.sliceOf]
  split
  case isTrue h =>
    rw [List.length_eq_zero_iff] at h
    subst h
    exact ⟨Nat.zero_le _, by simp [Slice.read, Slice.empty]⟩
  case isFalse =>
    have hsize : (table ++ entries).size = table.size + entries.length := by
      rw [← Array.length_toList, Array.toList_appendList, List.length_append, Array.length_toList]
    refine ⟨Nat.le_of_eq hsize.symm, ?_⟩
    rw [Slice.read, Array.toList_extract, Array.toList_appendList]
    simp

end

namespace Arena

/-- An arena to which something may have been appended. -/
structure Extends (old new : Arena) : Prop where
  nodes : Appended old.nodes new.nodes
  lists : Appended old.lists new.lists
  fields : Appended old.fields new.fields

theorem Extends.refl (arena : Arena) :
  arena.Extends arena
  := ⟨.refl _, .refl _, .refl _⟩

theorem Extends.trans {a b c : Arena} (hab : a.Extends b) (hbc : b.Extends c) :
  a.Extends c
  where
  nodes i node h := hbc.nodes i node (hab.nodes i node h)
  lists i id h := hbc.lists i id (hab.lists i id h)
  fields i field h := hbc.fields i field (hab.fields i field h)

/-! ### Documents in an arena -/

/-- The expression is the string literal of a string. -/
def HoldsString (names : Interner) (arena : Arena) (id : NodeId) (s : String) : Prop :=
  ∃ name, arena.nodes[id.index]? = some (.string name) ∧ names.Numbers s name

mutual

/-- The expression is that of a document. -/
def Holds (names : Interner) (arena : Arena) (id : NodeId) : Document → Prop
  | .null => arena.nodes[id.index]? = some .null
  | .bool b => arena.nodes[id.index]? = some (.bool b)
  | .number x => arena.nodes[id.index]? = some (.number x)
  | .string s => arena.HoldsString names id s
  | .array elements => ∃ slice, arena.nodes[id.index]? = some (.array slice) ∧
      slice.Fits arena.lists ∧ HoldsElements names arena (arena.readList slice) elements
  | .object fields => ∃ slice, arena.nodes[id.index]? = some (.object .empty slice) ∧
      slice.Fits arena.fields ∧ HoldsFields names arena (arena.readFields slice) fields

/-- The expressions are those of some elements. -/
def HoldsElements (names : Interner) (arena : Arena) : List NodeId → List Document → Prop
  | ids, [] => ids = []
  | ids, element :: others => ∃ id rest, ids = id :: rest ∧ Holds names arena id element ∧
      HoldsElements names arena rest others

/-- The definitions are those of some fields. -/
def HoldsFields (names : Interner) (arena : Arena) :
    List FieldDef → List (String × Document) → Prop
  | definitions, [] => definitions = []
  | definitions, (key, value) :: others => ∃ name body rest,
      definitions = ⟨name, .inherit, body, false⟩ :: rest ∧ arena.HoldsString names name key ∧
        Holds names arena body value ∧ HoldsFields names arena rest others

end

section

variable {names later : Interner} {arena larger : Arena}

theorem HoldsString.mono (hnames : names ≤ later) (h : arena.Extends larger) {id : NodeId}
    {s : String} (holds : arena.HoldsString names id s) :
  larger.HoldsString later id s
  := by
  obtain ⟨name, hnode, hnumbers⟩ := holds
  exact ⟨name, h.nodes _ _ hnode, hnumbers.mono hnames⟩

mutual

theorem Holds.mono (hnames : names ≤ later) (h : arena.Extends larger) :
    ∀ {document : Document} {id : NodeId}, Holds names arena id document →
  Holds later larger id document
  | .null, _, holds | .bool _, _, holds | .number _, _, holds => h.nodes _ _ holds
  | .string _, _, holds => HoldsString.mono hnames h holds
  | .array _, _, holds => by
    obtain ⟨slice, hnode, fits, helements⟩ := holds
    refine ⟨slice, h.nodes _ _ hnode, fits.mono h.lists, ?_⟩
    rw [readList, Slice.read_eq fits h.lists]
    exact HoldsElements.mono hnames h helements
  | .object _, _, holds => by
    obtain ⟨slice, hnode, fits, hfields⟩ := holds
    refine ⟨slice, h.nodes _ _ hnode, fits.mono h.fields, ?_⟩
    rw [readFields, Slice.read_eq fits h.fields]
    exact HoldsFields.mono hnames h hfields

theorem HoldsElements.mono (hnames : names ≤ later) (h : arena.Extends larger) :
    ∀ {elements : List Document} {ids : List NodeId}, HoldsElements names arena ids elements →
  HoldsElements later larger ids elements
  | [], _, holds => holds
  | _ :: _, _, holds => by
    obtain ⟨id, rest, rfl, helement, hothers⟩ := holds
    exact ⟨id, rest, rfl, Holds.mono hnames h helement, HoldsElements.mono hnames h hothers⟩

theorem HoldsFields.mono (hnames : names ≤ later) (h : arena.Extends larger) :
    ∀ {fields : List (String × Document)} {definitions : List FieldDef},
    HoldsFields names arena definitions fields →
  HoldsFields later larger definitions fields
  | [], _, holds => holds
  | (_, _) :: _, _, holds => by
    obtain ⟨name, body, rest, rfl, hname, hbody, hothers⟩ := holds
    exact ⟨name, body, rest, rfl, hname.mono hnames h, Holds.mono hnames h hbody,
      HoldsFields.mono hnames h hothers⟩

end

end

end Arena

/-! ### Storing -/

/-- Whether storing something, with room for names, appends what has a property, and leaves room
for some further strings. -/
structure Stores {α : Type} (step : Term.Storing α) (names : Interner) (arena : Arena)
    (more : List String) (P : Interner → Arena → α → Prop) : Prop where
  grows : names ≤ (step.run (names, arena)).2.1
  room : (step.run (names, arena)).2.1.HasRoom more
  appends : arena.Extends (step.run (names, arena)).2.2
  holds : P (step.run (names, arena)).2.1 (step.run (names, arena)).2.2 (step.run (names, arena)).1

namespace Stores

open Term (Storing building naming)

variable {α β : Type} {names : Interner} {arena : Arena} {more : List String}

theorem pure {P : Interner → Arena → α → Prop} (room : names.HasRoom more) {result : α}
    (holds : P names arena result) :
  Stores (Pure.pure result) names arena more P
  := ⟨le_rfl, room, .refl arena, holds⟩

theorem bind {x : Storing α} {next : α → Storing β} {between : List String}
    {P : Interner → Arena → α → Prop} {Q : Interner → Arena → β → Prop}
    (hx : Stores x names arena between P)
    (hnext : ∀ later larger result, names ≤ later → arena.Extends larger → later.HasRoom between →
      P later larger result → Stores (next result) later larger more Q) :
  Stores (x >>= next) names arena more Q
  := by
  have h := hnext _ _ _ hx.grows hx.appends hx.room hx.holds
  exact ⟨hx.grows.trans h.grows, h.room, hx.appends.trans h.appends, h.holds⟩

/-- A node that is appended is there. -/
theorem alloc (room : names.HasRoom more) (node : Node) (span : Span) :
  Stores (building (Build.alloc node span)) names arena more
    fun _ arena id => arena.nodes[id.index]? = some node
  where
  grows := le_rfl
  room := room
  appends := ⟨appended_push _ _, .refl _, .refl _⟩
  holds := Array.getElem?_push_size

/-- A name is that of its string. -/
theorem naming {s : String} (room : names.HasRoom (s :: more)) :
  Stores (Term.naming s) names arena more fun names _ name => names.Numbers s name
  where
  grows := names.le_intern s
  room := room.intern.1
  appends := .refl arena
  holds := room.intern.2

/-- Whether something has a weaker property may be seen from all that is there afterwards. -/
theorem imp {x : Storing α} {P Q : Interner → Arena → α → Prop} (h : Stores x names arena more P)
    (hPQ : ∀ later larger result, names ≤ later → arena.Extends larger → P later larger result →
      Q later larger result) :
  Stores x names arena more Q
  := ⟨h.grows, h.room, h.appends, hPQ _ _ _ h.grows h.appends h.holds⟩

/-- An array is appended with the list of its elements. -/
theorem array (room : names.HasRoom more) (elements : List NodeId) (span : Span) :
  Stores (building (Build.array elements span)) names arena more
    fun _ arena id => ∃ slice, arena.nodes[id.index]? = some (.array slice) ∧
      slice.Fits arena.lists ∧ arena.readList slice = elements
  where
  grows := le_rfl
  room := room
  appends := ⟨appended_push _ _, appended_append _ _, .refl _⟩
  holds := ⟨_, Array.getElem?_push_size, read_sliceOf _ _⟩

/-- An object without assertions is appended with the list of its fields. -/
theorem object (room : names.HasRoom more) (fields : List FieldDef) (span : Span) :
  Stores (building (Build.object [] fields span)) names arena more
    fun _ arena id => ∃ slice, arena.nodes[id.index]? = some (.object .empty slice) ∧
      slice.Fits arena.fields ∧ arena.readFields slice = fields
  where
  grows := le_rfl
  room := room
  appends := ⟨appended_push _ _, appended_append _ _, appended_append _ _⟩
  holds := ⟨_, Array.getElem?_push_size, read_sliceOf _ _⟩

/-- A field is appended with its name. -/
theorem field (room : names.HasRoom more) (name : Name) (body : NodeId) :
  Stores (building (Build.field name .inherit body)) names arena more
    fun _ arena definition => ∃ id, definition = ⟨id, .inherit, body, false⟩ ∧
      arena.nodes[id.index]? = some (.string name)
  where
  grows := le_rfl
  room := room
  appends := ⟨appended_push _ _, .refl _, .refl _⟩
  holds := ⟨_, rfl, Array.getElem?_push_size⟩

end Stores

namespace Document

mutual

/-- A document that is stored is in the arena. -/
theorem stores_store : ∀ (document : Document) {names : Interner} {arena : Arena}
    {more : List String}, names.HasRoom (document.strings ++ more) →
  Stores document.store names arena more fun names arena id => arena.Holds names id document
  | .null, _, _, _, room => .alloc room _ _
  | .bool _, _, _, _, room => .alloc room _ _
  | .number _, _, _, _, room => .alloc room _ _
  | .string s, _, _, _, room => by
    apply (Stores.naming room).bind
    intro later larger name _ _ room hname
    apply (Stores.alloc room _ _).imp
    intro later' larger' id hnames _ hnode
    exact ⟨name, hnode, hname.mono hnames⟩
  | .array elements, _, _, _, room => by
    apply (stores_storeElements elements room).bind
    intro later larger ids _ _ room helements
    apply (Stores.array room ids _).imp
    rintro later' larger' id hnames harena ⟨slice, hnode, fits, rfl⟩
    exact ⟨slice, hnode, fits, helements.mono hnames harena⟩
  | .object fields, _, _, _, room => by
    apply (stores_storeFields fields room).bind
    intro later larger definitions _ _ room hfields
    apply (Stores.object room definitions _).imp
    rintro later' larger' id hnames harena ⟨slice, hnode, fits, rfl⟩
    exact ⟨slice, hnode, fits, hfields.mono hnames harena⟩

theorem stores_storeElements : ∀ (elements : List Document) {names : Interner} {arena : Arena}
    {more : List String}, names.HasRoom (stringsOfElements elements ++ more) →
  Stores (storeElements elements) names arena more
    fun names arena ids => arena.HoldsElements names ids elements
  | [], _, _, _, room => .pure room rfl
  | element :: others, _, _, _, room => by
    rw [stringsOfElements, List.append_assoc] at room
    apply (stores_store element room).bind
    intro later larger id _ _ room helement
    apply (stores_storeElements others room).bind
    intro later' larger' ids hnames harena room hothers
    exact .pure room ⟨id, ids, rfl, helement.mono hnames harena, hothers⟩

theorem stores_storeFields : ∀ (fields : List (String × Document)) {names : Interner}
    {arena : Arena} {more : List String}, names.HasRoom (stringsOfFields fields ++ more) →
  Stores (storeFields fields) names arena more
    fun names arena definitions => arena.HoldsFields names definitions fields
  | [], _, _, _, room => .pure room rfl
  | (key, value) :: others, _, _, _, room => by
    rw [stringsOfFields, List.append_assoc, List.cons_append] at room
    apply (stores_store value room).bind
    intro later₁ larger₁ body _ _ room hbody
    apply (Stores.naming room).bind
    intro later₂ larger₂ name hnames₂ harena₂ room hname
    apply (Stores.field room name body).bind
    rintro later₃ larger₃ _ hnames₃ harena₃ room ⟨id, rfl, hnode⟩
    apply (stores_storeFields others room).bind
    intro later₄ larger₄ rest hnames₄ harena₄ room hothers
    have holdsName : larger₃.HoldsString later₃ id key := ⟨name, hnode, hname.mono hnames₃⟩
    have holdsBody := (hbody.mono hnames₂ harena₂).mono hnames₃ harena₃
    exact .pure room ⟨id, body, rest, rfl, holdsName.mono hnames₄ harena₄,
      holdsBody.mono hnames₄ harena₄, hothers⟩

end

end Document

end Jsonnet
