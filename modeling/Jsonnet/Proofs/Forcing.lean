import Jsonnet.Proofs.Fields
import Jsonnet.Proofs.Knowing
import Jsonnet.Proofs.Rendering

/-!
# Writing a value out

What a value is written out with is what forcing it leads to, all the way down: the
elements of arrays in their order, and of every object exactly the fields that are not
hidden, each under a key of its own. The text is JSON and stands for exactly that, in both
layouts.
-/

namespace Jsonnet

/-! ### Forcing all the way down -/

mutual

/-- Forcing a value and everything that is in it, from one state to another. -/
inductive Forces (session : Session) : State → Value → Document → State → Prop where
  | null {a : State} : Forces session a .null .null a
  | bool {a : State} (b : Bool) : Forces session a (.bool b) (.bool b) a
  | number {a : State} (x : Number) : Forces session a (.number x) (.number x) a
  | string {a : State} (s : String) : Forces session a (.string s) (.string s) a
  | array {a b : State} {elements : Array Deferred} {documents : List Document}
      (inside : ForcesElements session a elements.toList documents b) :
    Forces session a (.array elements) (.array documents) b
  | object {a a' b : State} {o : Object} {names : List Name} {fields : List (String × Document)}
      (checked : o.check.Gives session a () a') (shown : ∀ name, name ∈ names ↔ o.Shows name)
      (once : names.Nodup) (inside : ForcesFields session o a' names fields b) :
    Forces session a (.object o) (.object fields) b

/-- Forcing the elements of an array, one after the other. -/
inductive ForcesElements (session : Session) :
    State → List Deferred → List Document → State → Prop where
  | nil {a : State} : ForcesElements session a [] [] a
  | cons {a a' a'' b : State} {element : Deferred} {elements : List Deferred} {value : Value}
      {document : Document} {documents : List Document}
      (forced : element.force.Gives session a value a') (inside : Forces session a' value document a'')
      (others : ForcesElements session a'' elements documents b) :
    ForcesElements session a (element :: elements) (document :: documents) b

/-- Forcing some fields of an object, one after the other; the key of a field is the text of
its name. -/
inductive ForcesFields (session : Session) :
    Object → State → List Name → List (String × Document) → State → Prop where
  | nil {o : Object} {a : State} : ForcesFields session o a [] [] a
  | cons {o : Object} {a a' a'' b : State} {name : Name} {names : List Name} {value : Value}
      {document : Document} {fields : List (String × Document)}
      (read : (o.read 0 name .unknown).Gives session a value a')
      (inside : Forces session a' value document a'')
      (others : ForcesFields session o a'' names fields b) :
    ForcesFields session o a (name :: names) ((a.names.lookup name, document) :: fields) b

end

/-! ### What is written out is what is forced -/

section

variable {session : Session} {fuel : Nat}

theorem Action.gives_of_resolve {α : Type} {x : Action α} {a b : State} {r : α}
    (h : (x session).resolve session (Task.perform session fuel) a = some (.ok r, b)) :
  x.Gives session a r b
  := Action.run_iff.mpr ⟨fuel, h⟩

section

variable (documents : ∀ {a b : State} {v : Value} {d : Document},
  (Task.document v).perform session fuel a = some (.ok d, b) → Forces session a v d b)

include documents

theorem forcesElements_of_elementDocuments {elements : List Deferred} {a b : State}
    {done result : List Document}
    (h : (elementDocuments done elements session).resolve session (Task.perform session fuel) a
      = some (.ok result, b)) :
  ∃ rest, result = done.reverse ++ rest ∧ ForcesElements session a elements rest b
  := by
  induction elements generalizing a done with
  | nil =>
    cases h
    exact ⟨[], (List.append_nil _).symm, .nil⟩
  | cons element elements ih =>
    obtain ⟨value, a₁, hvalue, h⟩ := Progress.resolve_bind_ok h
    obtain ⟨document, a₂, hdocument, h⟩ := Progress.resolve_bind_ok h
    obtain ⟨rest, rfl, others⟩ := ih h
    refine ⟨document :: rest, by simp, .cons (Action.gives_of_resolve hvalue) ?_ others⟩
    exact documents (Progress.resolve_request hdocument)

theorem forcesFields_of_fieldDocuments {o : Object} {names : List Name} {a b : State}
    {done result : List (String × Document)}
    (h : (fieldDocuments o done names session).resolve session (Task.perform session fuel) a
      = some (.ok result, b)) :
  ∃ rest, result = done.reverse ++ rest ∧ ForcesFields session o a names rest b
  := by
  induction names generalizing a done with
  | nil =>
    cases h
    exact ⟨[], (List.append_nil _).symm, .nil⟩
  | cons name names ih =>
    obtain ⟨key, a₀, hkey, h⟩ := Progress.resolve_bind_ok h
    cases hkey
    obtain ⟨value, a₁, hvalue, h⟩ := Progress.resolve_bind_ok h
    obtain ⟨document, a₂, hdocument, h⟩ := Progress.resolve_bind_ok h
    obtain ⟨rest, rfl, others⟩ := ih h
    refine ⟨(_, document) :: rest, by simp, .cons (Action.gives_of_resolve hvalue) ?_ others⟩
    exact documents (Progress.resolve_request hdocument)

end

/-- What a value is written out with is what forcing it leads to. -/
theorem forces_of_document {v : Value} {d : Document} {a b : State}
    (h : (Task.document v).perform session fuel a = some (.ok d, b)) :
  Forces session a v d b
  := by
  induction fuel generalizing a b v d with
  | zero => cases h
  | succ fuel ih =>
    rw [Task.perform_unknown rfl] at h
    obtain ⟨⟨outcome, b'⟩, hrun, heq⟩ := Option.map_eq_some_iff.mp h
    cases heq
    cases v with
    | null => cases hrun; exact .null
    | bool b => cases hrun; exact .bool b
    | number x => cases hrun; exact .number x
    | string s => cases hrun; exact .string s
    | function function => cases hrun
    | array elements =>
      obtain ⟨documents, b', hdocuments, hrun⟩ := Progress.resolve_bind_ok hrun
      cases hrun
      obtain ⟨_, rfl, inside⟩ := forcesElements_of_elementDocuments ih hdocuments
      exact .array inside
    | object o =>
      obtain ⟨_, a₁, hcheck, hrun⟩ := Progress.resolve_bind_ok hrun
      obtain ⟨names, a₂, hsort, hrun⟩ := Progress.resolve_bind_ok hrun
      cases hsort
      obtain ⟨fields, b', hfields, hrun⟩ := Progress.resolve_bind_ok hrun
      cases hrun
      obtain ⟨_, rfl, inside⟩ := forcesFields_of_fieldDocuments ih hfields
      have perm := Object.perm_sortNames a₁.names (o.fieldNames false)
      refine .object (Action.gives_of_resolve hcheck) ?_ ?_ inside
      · intro name
        rw [perm.mem_iff, Object.mem_fieldNames]
      · exact perm.nodup_iff.mpr (o.nodup_fieldNames false)

end

/-! ### Keys -/

namespace Document

mutual

/-- Whether no two fields of one object have the same key, in the document or anything in it. -/
def Distinct : Document → Prop
  | .array elements => DistinctElements elements
  | .object fields => (fields.map Prod.fst).Nodup ∧ DistinctFields fields
  | _ => True

/-- Whether no two fields of one object have the same key in the elements of an array. -/
def DistinctElements : List Document → Prop
  | [] => True
  | element :: others => element.Distinct ∧ DistinctElements others

/-- Whether no two fields of one object have the same key in the fields of an object. -/
def DistinctFields : List (String × Document) → Prop
  | [] => True
  | (_, field) :: others => field.Distinct ∧ DistinctFields others

end

end Document

namespace Twins

variable {session : Session} {start : Interner}

/-- The names of fields that are written out are known. -/
theorem name_of_shows {τ : Terms} {w : LevelWorld τ} {o : Object} (object : w.val.object o o)
    {name : Name} (h : o.Shows name) :
  w.val.name name
  := by
  obtain ⟨field, hfield, rfl⟩ := List.mem_map.mp ((o.mem_fieldNames name).mpr h)
  exact (w.val.alike object).known field (List.mem_of_mem_filter hfield)

section

variable (interns : session.frontEnd.Interns)

include interns

mutual

/-- Where the names are known, keys are distinct, and the names are known afterwards. -/
theorem Inv.distinct : ∀ {w : LevelWorld .knowing} {a b : State} {v : Value} {d : Document},
    Inv session start w a a → v.Matches w.val.toPairing v → Forces session a v d b →
  d.Distinct ∧ a.names ≤ b.names ∧ ∃ w', w ≤ w' ∧ Inv session start w' b b
  | w, _, _, _, _, inv, _, .null => ⟨trivial, le_rfl, w, le_rfl, inv⟩
  | w, _, _, _, _, inv, _, .bool _ => ⟨trivial, le_rfl, w, le_rfl, inv⟩
  | w, _, _, _, _, inv, _, .number _ => ⟨trivial, le_rfl, w, le_rfl, inv⟩
  | w, _, _, _, _, inv, _, .string _ => ⟨trivial, le_rfl, w, le_rfl, inv⟩
  | _, _, _, _, _, inv, .array elements, .array inside => inv.distinctElements elements inside
  | _, _, b, _, _, inv, .object object, .object checked shown once inside => by
    obtain ⟨_, checked⟩ := checked
    obtain ⟨w₁, hle₁, inv₁, hnames₁, -⟩ := inv.step interns (check_related object) checked
    have object := Pairing.object_mono hle₁ object
    obtain ⟨keys, distinct, hnames, w', hle, inv'⟩ := inv₁.distinctFields object
      (fun name hname => name_of_shows object ((shown name).mp hname)) inside
    refine ⟨⟨?_, distinct⟩, hnames₁.trans hnames, w', hle₁.trans hle, inv'⟩
    rw [keys]
    refine List.Nodup.map_on ?_ once
    intro n hn m hm heq
    have hn := (inv₁.known trivial n (name_of_shows object ((shown n).mp hn))).mono hnames
    have hm := (inv₁.known trivial m (name_of_shows object ((shown m).mp hm))).mono hnames
    exact hn.unique hm heq

theorem Inv.distinctElements : ∀ {w : LevelWorld .knowing} {a b : State} {elements : List Deferred}
    {documents : List Document}, Inv session start w a a →
    Alike w.val.toPairing (.deferreds elements) (.deferreds elements) →
    ForcesElements session a elements documents b →
  Document.DistinctElements documents ∧ a.names ≤ b.names ∧
    ∃ w', w ≤ w' ∧ Inv session start w' b b
  | w, _, _, _, _, inv, _, .nil => ⟨trivial, le_rfl, w, le_rfl, inv⟩
  | _, _, _, _, _, inv, .cons head tail, .cons forced inside others => by
    obtain ⟨_, forced⟩ := forced
    obtain ⟨w₁, hle₁, inv₁, hnames₁, hmatch⟩ :=
      inv.step interns (force_related (.alike head)) forced
    obtain ⟨first, hnames₂, w₂, hle₂, inv₂⟩ := inv₁.distinct (hmatch _ rfl) inside
    have hle := hle₁.trans hle₂
    obtain ⟨rest, hnames₃, w', hle₃, inv'⟩ := inv₂.distinctElements (tail.mono hle) others
    exact ⟨⟨first, rest⟩, hnames₁.trans (hnames₂.trans hnames₃), w', hle.trans hle₃, inv'⟩

theorem Inv.distinctFields : ∀ {w : LevelWorld .knowing} {a b : State} {o : Object} {names : List Name}
    {fields : List (String × Document)}, Inv session start w a a → w.val.object o o →
    (∀ name ∈ names, w.val.name name) → ForcesFields session o a names fields b →
  fields.map Prod.fst = names.map b.names.lookup ∧ Document.DistinctFields fields ∧
    a.names ≤ b.names ∧ ∃ w', w ≤ w' ∧ Inv session start w' b b
  | w, _, _, _, _, _, inv, _, _, .nil => ⟨rfl, trivial, le_rfl, w, le_rfl, inv⟩
  | _, _, _, _, name :: _, _ :: _, inv, object, known, .cons read inside others => by
    have hname := known name List.mem_cons_self
    obtain ⟨_, read⟩ := read
    obtain ⟨w₁, hle₁, inv₁, hnames₁, hmatch⟩ :=
      inv.step interns (read_related Terms.agrees_rfl 0 object hname) read
    obtain ⟨first, hnames₂, w₂, hle₂, inv₂⟩ := inv₁.distinct (hmatch _ rfl) inside
    have hle := hle₁.trans hle₂
    obtain ⟨keys, rest, hnames₃, w', hle₃, inv'⟩ := inv₂.distinctFields (Pairing.object_mono hle object)
      (fun other hother => Pairing.name_mono hle (known other (List.mem_cons_of_mem _ hother))) others
    have hnames := hnames₁.trans (hnames₂.trans hnames₃)
    refine ⟨?_, ⟨first, rest⟩, hnames, w', hle.trans hle₃, inv'⟩
    rw [List.map_cons, List.map_cons, keys, (inv.known trivial name hname).knows.lookup_eq hnames]

end

end

end Twins

/-! ### Texts -/

/-- A value is written out as a JSON text that stands for exactly what forcing the value leads
to, in either layout, if the texts of its numbers are JSON numbers that stand for them. The keys
of an object are distinct as long as its names come from the interner. -/
theorem Value.manifest_faithful {session : Session} {a b : State} {v : Value} {layout : Layout}
    {fuel : Nat} {s : String} (run : (v.manifest layout).run session fuel a = some (.ok s, b)) :
  ∃ graph, Forces session a v graph b ∧
    (∀ number : List Char → Number, (∀ x ∈ graph.numbers, Grammar.Denotes number x) →
      ∀ document, Grammar.Text number s document ↔ document = graph) ∧
    (session.frontEnd.Interns → session.Knows a [v] → graph.Distinct)
  := by
  obtain ⟨fuel, run⟩ := Action.run_iff.mp ⟨fuel, run⟩
  obtain ⟨graph, b', hdocument, hrender⟩ := Progress.resolve_bind_ok run
  cases hrender
  have forces := forces_of_document (Progress.resolve_request hdocument)
  refine ⟨graph, forces, ?_, ?_⟩
  · intro number hnumbers document
    have text : Grammar.Text number (graph.render layout) graph := graph.text_render hnumbers
    constructor
    · intro text'
      exact text'.unique text
    · rintro rfl
      exact text
  · rintro interns ⟨w, inv, h⟩
    exact (inv.distinct interns (h v List.mem_cons_self) forces).1

/-- An array of null and of an object with one field is written out so. -/
theorem Value.manifest_faithful_of_array :
  let object : Object := .leaf ⟨⟨0⟩, .empty, [(.empty, ⟨.inherit, .ready (.bool true)⟩)], []⟩
  let v : Value := .array #[.ready .null, .ready (.object object)]
  let session := { Session.bare with sharing := false }
  let text := "[null, \x7b\"\": true\x7d]"
  ∃ fuel b, (v.manifest .singleLine).run session fuel (.new .onlyEmpty 5) = some (.ok text, b) ∧
    ∃ graph, Forces session (.new .onlyEmpty 5) v graph b ∧
      (∀ number : List Char → Number, (∀ x ∈ graph.numbers, Grammar.Denotes number x) →
        ∀ document, Grammar.Text number text document ↔ document = graph) ∧
      (session.frontEnd.Interns → session.Knows (.new .onlyEmpty 5) [v] → graph.Distinct)
  := by
  intro object v session text
  have hends : ((v.manifest .singleLine session).resolve session (Task.perform session 9)
      (.new .onlyEmpty 5)).map (·.1.toOption) = some (some text) := by decide +kernel
  obtain ⟨⟨outcome, b⟩, hrun, houtcome⟩ := Option.map_eq_some_iff.mp hends
  cases outcome with
  | error failure => cases houtcome
  | ok s =>
    cases houtcome
    obtain ⟨fuel, run⟩ := Action.run_iff.mpr ⟨9, hrun⟩
    exact ⟨fuel, b, run, Value.manifest_faithful run⟩

end Jsonnet
