import Jsonnet.Proofs.Assertions
import Jsonnet.Proofs.Giving

/-!
# What has been written out is kept

Where results are kept, writing a value out leaves behind everything that was computed for it:
the values of elements and of fields, and the checks of objects. It stays there.
-/

namespace Jsonnet

/-! ### What a state holds -/

/-- Whether a state holds the value of a deferred value. -/
def Deferred.Known (a : State) : Deferred → Value → Prop
  | .ready v, w => v = w
  | .shared t, w => a.thunks[t.index]? = some (.ready w)
  | .suspended _, _ | .failed _, _ => False

/-- Whether a state holds the value of a field of an object that counts as valid in it. -/
structure Object.HoldsField (a : State) (o : Object) (name : Name) (v : Value) : Prop where
  settled : o.isSettled a = true
  kept : ∃ l depth, o.find? 0 name = some (l, depth) ∧
    a.fields[o.fieldKey name depth]? = some v

mutual

/-- Whether a state holds everything that a value is written out with, as a document. -/
inductive Kept (a : State) : Value → Document → Prop where
  | null : Kept a .null .null
  | bool (b : Bool) : Kept a (.bool b) (.bool b)
  | number (x : Number) : Kept a (.number x) (.number x)
  | string (s : String) : Kept a (.string s) (.string s)
  | array {elements : Array Deferred} {documents : List Document}
      (inside : KeptElements a elements.toList documents) :
    Kept a (.array elements) (.array documents)
  | object {o : Object} {fields : List (String × Document)}
      (named : ∀ name ∈ o.fieldNames false, a.names.Gives name)
      (inside : KeptFields a o (o.sortedFields a.names false) fields) :
    Kept a (.object o) (.object fields)

/-- Whether a state holds the elements of an array, with the documents of their values. -/
inductive KeptElements (a : State) : List Deferred → List Document → Prop where
  | nil : KeptElements a [] []
  | cons {element : Deferred} {v : Value} {d : Document} {elements : List Deferred}
      {documents : List Document} (known : element.Known a v) (inside : Kept a v d)
      (others : KeptElements a elements documents) :
    KeptElements a (element :: elements) (d :: documents)

/-- Whether a state holds some fields of an object, with the documents of their values. -/
inductive KeptFields (a : State) : Object → List Name → List (String × Document) → Prop where
  | nil {o : Object} : KeptFields a o [] []
  | cons {o : Object} {name : Name} {v : Value} {d : Document} {names : List Name}
      {fields : List (String × Document)} (known : o.HoldsField a name v) (inside : Kept a v d)
      (others : KeptFields a o names fields) :
    KeptFields a o (name :: names) ((a.names.lookup name, d) :: fields)

end

/-! ### Nothing is lost -/

section

variable {session : Session} {a b : State}

theorem Object.isSettled_of_grows {o : Object} (h : a.Grows session b)
    (settled : o.isSettled a = true) :
  o.isSettled b = true
  := by
  rw [isSettled_iff] at settled ⊢
  apply settled.imp_right
  rintro (ha | ha) <;> obtain ⟨new, hnew, becomes⟩ := h.check ha <;> cases becomes
  · exact .inl hnew
  · exact .inr hnew

/-- A state that holds everything that another one holds. The frames do not matter. -/
structure State.Retains (a b : State) : Prop where
  names : a.names ≤ b.names
  ready : ∀ {i : Nat} {v : Value}, a.thunks[i]? = some (.ready v) → b.thunks[i]? = some (.ready v)
  settled : ∀ {o : Object}, o.isSettled a = true → o.isSettled b = true
  field : ∀ {key : FieldKey} {v : Value}, a.fields[key]? = some v → b.fields[key]? = some v

theorem State.Grows.retains (h : a.Grows session b) (names : a.names ≤ b.names) :
  a.Retains b
  where
  names := names
  ready := h.ready
  settled := Object.isSettled_of_grows h
  field := h.field

theorem State.Retains.trans {c : State} (hab : a.Retains b) (hbc : b.Retains c) :
  a.Retains c
  where
  names := hab.names.trans hbc.names
  ready h := hbc.ready (hab.ready h)
  settled h := hbc.settled (hab.settled h)
  field h := hbc.field (hab.field h)

theorem Deferred.Known.mono {element : Deferred} {v : Value} (h : element.Known a v)
    (retains : a.Retains b) :
  element.Known b v
  := by
  cases element with
  | ready w => exact h
  | shared t => exact retains.ready h
  | suspended s => exact h
  | failed f => exact h

theorem Object.HoldsField.mono {o : Object} {name : Name} {v : Value} (h : o.HoldsField a name v)
    (retains : a.Retains b) :
  o.HoldsField b name v
  where
  settled := retains.settled h.settled
  kept := by
    obtain ⟨l, depth, found, kept⟩ := h.kept
    exact ⟨l, depth, found, retains.field kept⟩

/-- The order of known names does not depend on what else is known. -/
theorem Object.sortNames_eq {names later : Interner} (hle : names ≤ later) {fields : List Name}
    (known : ∀ name ∈ fields, names.Gives name) :
  sortNames later fields = sortNames names fields
  := by
  have heq : fields.map (fun name => (later.lookup name, name))
      = fields.map fun name => (names.lookup name, name) := by
    apply List.map_congr_left
    intro name hname
    rw [(known name hname).knows.lookup_eq hle]
  rw [sortNames, sortNames, heq]

mutual

/-- What is kept stays so in later states. -/
theorem Kept.mono (h : a.Retains b) :
    ∀ {v : Value} {d : Document}, Kept a v d →
  Kept b v d
  | _, _, .null => .null
  | _, _, .bool b => .bool b
  | _, _, .number x => .number x
  | _, _, .string s => .string s
  | _, _, .array inside => .array (inside.mono h)
  | _, _, .object (o := o) named inside => by
    have sorted := Object.sortNames_eq h.names named
    apply Kept.object fun name hname => (named name hname).mono h.names
    rw [Object.sortedFields, sorted]
    refine inside.mono h ?_
    intro name hname
    exact named name ((Object.perm_sortNames a.names (o.fieldNames false)).mem_iff.mp hname)

theorem KeptElements.mono (h : a.Retains b) :
    ∀ {elements : List Deferred} {documents : List Document}, KeptElements a elements documents →
  KeptElements b elements documents
  | _, _, .nil => .nil
  | _, _, .cons known inside others =>
    .cons (known.mono h) (inside.mono h) (others.mono h)

theorem KeptFields.mono (h : a.Retains b) :
    ∀ {o : Object} {fields : List Name} {documents : List (String × Document)},
    KeptFields a o fields documents → (∀ name ∈ fields, a.names.Gives name) →
  KeptFields b o fields documents
  | _, _, _, .nil, _ => .nil
  | _, _, _, .cons known inside others, named => by
    rw [← (named _ List.mem_cons_self).knows.lookup_eq h.names]
    exact .cons (known.mono h) (inside.mono h)
      (others.mono h fun name hname => named name (List.mem_cons_of_mem _ hname))

end

end

/-! ### What computing leaves behind -/

section

variable {session : Session} (sharing : session.sharing = true) {a b : State}

include sharing

/-- A thunk that has been forced is ready. -/
theorem Task.ready_of_force {t : ThunkId} {v : Value} (h : (Task.force t).Gives session a v b) :
  b.thunks[t.index]? = some (.ready v)
  := by
  obtain ⟨known, rfl⟩ | ⟨unknown, c, ends, rfl⟩ := h.cases_known
  · simp only [known?] at known
    split at known
    case h_1 v' hv' =>
      cases known
      exact hv'
    case h_2 => cases known
  · have hlt : t.index < c.thunks.size := by
      have ends : (computeThunk a t).Gives session a v c := ends
      rw [computeThunk] at ends
      split at ends
      case h_1 suspension hcell =>
        obtain hc | ⟨_, hc⟩ := ends.grows.pending hcell <;>
          exact (Array.getElem?_eq_some_iff.mp hc).choose
      case h_2 w hcell => exact (Array.getElem?_eq_some_iff.mp (ends.grows.ready hcell)).choose
      case h_3 =>
        obtain ⟨fuel, ends⟩ := Action.Gives.iff_resolve.mp ends
        cases ends
    simp only [settle, sharing, if_true, State.keepThunk]
    simp [hlt]

/-- The value of an element is known when it has been forced, if it is computed at most once. -/
theorem Deferred.known_of_force {element : Deferred} (memoised : element.Memoised) {v : Value}
    (h : element.force.Gives session a v b) :
  element.Known b v
  := by
  cases element with
  | ready w =>
    obtain ⟨fuel, h⟩ := Action.Gives.iff_resolve.mp h
    cases h
    rfl
  | shared t => exact Task.ready_of_force sharing (Action.Gives.request_iff.mp h)
  | suspended s => exact memoised.elim
  | failed f => exact memoised.elim

omit sharing in
/-- An object counts as valid when it has been checked. -/
theorem Object.settled_of_check {o : Object} (hlt : o.id.index < a.checks.size)
    (h : o.check.Gives session a () b) :
  o.isSettled b = true
  := by
  have check := Action.Gives.request_iff.mp h
  have grows := check.grows
  obtain ⟨fuel, check⟩ := check
  rw [isSettled_iff]
  by_cases hasAsserts : o.hasAsserts = true
  · obtain passed | going := Task.passed_of_check check hasAsserts hlt
    · exact .inr (.inr (checkOf_eq_passed passed))
    · exact .inr (.inl (grows.inProgress_iff.mpr going))
  · exact .inl (Bool.not_eq_true _ ▸ hasAsserts)

/-- A field that has been read is held. -/
theorem Object.holdsField_of_read {o : Object} (hlt : o.id.index < a.checks.size) {name : Name}
    {site : Location} {v : Value} (h : (o.read 0 name site).Gives session a v b) :
  o.HoldsField b name v
  := by
  obtain ⟨known, -⟩ | ⟨-, c, ends, rfl⟩ := (Action.Gives.request_iff.mp h).cases_known
  · cases known
  · obtain ⟨_, a₁, check, rest⟩ := Action.Gives.of_bind ends
    have settled := settled_of_check hlt check
    split at rest
    case h_1 =>
      obtain ⟨fuel, rest⟩ := Action.Gives.iff_resolve.mp rest
      cases rest
    case h_2 l depth found =>
      have grows := rest.grows
      refine ⟨isSettled_of_grows grows settled, l, depth, found, ?_⟩
      obtain ⟨known, heq⟩ | ⟨-, c', -, heq⟩ := (Action.Gives.request_iff.mp rest).cases_known
      · rw [Task.known?, if_pos sharing] at known
        rw [heq]
        exact known
      · rw [heq, Task.settle, if_pos sharing]
        simp only [State.keepField]
        exact Std.HashMap.getElem?_insert_self

end

/-! ### Writing out -/

/-- A state in which the objects that have been made are known, and so are the names. -/
structure Session.Knowing (session : Session) (start : Interner) (made : List Object)
    (w : LevelWorld .knowing) (a : State) : Prop where
  genuine : a.IsGenuine session made
  inv : Twins.Inv session start w a a

/-- A value of which the objects and the names are known. -/
structure Value.Known (made : List Object) (w : LevelWorld .knowing) (v : Value) : Prop where
  genuine : Genuine made (.value v)
  matching : v.Matches w.val.toPairing v

section

variable {session : Session} {start : Interner} {made : List Object} {w : LevelWorld .knowing}
  {a b : State}

/-- An action that makes genuine data and is in lockstep with itself keeps everything known. -/
theorem Session.Knowing.step (h : session.Knowing start made w a)
    (interns : session.frontEnd.Interns) {α : Type} {x : Action α} {R : List Object → α → Prop}
    {S : World .knowing → α → α → Prop} (makes : x.Makes .any session R made)
    (related : Action.Related session session S w.val x x) {r : α} (gives : x.Gives session a r b) :
  ∃ made' w', made <+: made' ∧ w ≤ w' ∧ session.Knowing start made' w' b ∧ a.names ≤ b.names ∧
    R made' r ∧ S w'.val r r
  := by
  obtain ⟨fuel, run⟩ := gives
  obtain ⟨made', hmade, genuine, result, -⟩ := makes.run h.genuine run
  obtain ⟨w', hw, inv, names, result'⟩ := h.inv.step interns related run
  exact ⟨made', w', hmade, hw, ⟨genuine, inv⟩, names, result r rfl, result' r rfl⟩

section

variable (sharing : session.sharing = true) (interns : session.frontEnd.Interns) {fuel : Nat}
  (documents : ∀ {made : List Object} {w : LevelWorld .knowing} {a b : State} {v : Value}
    {d : Document}, session.Knowing start made w a → v.Known made w →
    (Task.document v).perform session fuel a = some (.ok d, b) → Kept b v d)

include sharing interns documents

theorem keptElements_of_elementDocuments {elements : List Deferred} {done result : List Document}
    (h : session.Knowing start made w a) (memoised : ∀ d ∈ elements, d.Memoised)
    (genuine : ∀ d ∈ elements, Genuine made (.deferred d))
    (alike : ∀ d ∈ elements, Alike w.val.toPairing (.deferred d) (.deferred d))
    (run : (elementDocuments done elements session).resolve session (Task.perform session fuel) a
      = some (.ok result, b)) :
  ∃ rest, result = done.reverse ++ rest ∧ KeptElements b elements rest ∧ a.names ≤ b.names
  := by
  induction elements generalizing a done made w with
  | nil =>
    cases run
    exact ⟨[], (List.append_nil _).symm, .nil, le_rfl⟩
  | cons element elements ih =>
    obtain ⟨value, a₁, hvalue, run⟩ := Progress.resolve_bind_ok run
    obtain ⟨document, a₂, hdocument, run⟩ := Progress.resolve_bind_ok run
    have forced := Action.gives_of_resolve hvalue
    obtain ⟨made₁, w₁, hmade₁, hw₁, h₁, names₁, proper₁, matching₁⟩ := h.step interns
      (force_makes (proper_any.mpr (genuine _ List.mem_cons_self)))
      (force_related (.alike (alike _ List.mem_cons_self))) forced
    have value₁ : value.Known made₁ w₁ := ⟨proper_any.mp proper₁, matching₁⟩
    obtain ⟨made₂, w₂, hmade₂, hw₂, h₂, names₂, -⟩ := h₁.step interns
      (.request (.document value) proper₁) (document_related matching₁)
      (Action.gives_of_resolve hdocument)
    have hmade := hmade₁.trans hmade₂
    have hw := hw₁.trans hw₂
    obtain ⟨rest, rfl, others, names₃⟩ := ih h₂
      (fun d hd => memoised d (List.mem_cons_of_mem _ hd))
      (fun d hd => (genuine d (List.mem_cons_of_mem _ hd)).mono hmade)
      (fun d hd => (alike d (List.mem_cons_of_mem _ hd)).mono hw) run
    have grows₂ := Progress.grows Task.grows hdocument
    have grows₃ := Progress.grows Task.grows run
    have known := Deferred.known_of_force sharing (memoised _ List.mem_cons_self) forced
    have inside := documents h₁ value₁ (Progress.resolve_request hdocument)
    refine ⟨document :: rest, by simp, ?_, names₁.trans (names₂.trans names₃)⟩
    have retains₃ := grows₃.retains names₃
    exact .cons (known.mono ((grows₂.retains names₂).trans retains₃)) (inside.mono retains₃) others

theorem keptFields_of_fieldDocuments {o : Object} {fields : List Name}
    {done result : List (String × Document)} (h : session.Knowing start made w a)
    (madeIn : o.MadeIn made) (object : w.val.object o o)
    (named : ∀ name ∈ fields, w.val.name name)
    (run : (fieldDocuments o done fields session).resolve session (Task.perform session fuel) a
      = some (.ok result, b)) :
  ∃ rest, result = done.reverse ++ rest ∧ KeptFields b o fields rest ∧ a.names ≤ b.names
  := by
  induction fields generalizing a done made w with
  | nil =>
    cases run
    exact ⟨[], (List.append_nil _).symm, .nil, le_rfl⟩
  | cons name fields ih =>
    have hname := named name List.mem_cons_self
    obtain ⟨key, a₀, hkey, run⟩ := Progress.resolve_bind_ok run
    cases hkey
    obtain ⟨value, a₁, hvalue, run⟩ := Progress.resolve_bind_ok run
    obtain ⟨document, a₂, hdocument, run⟩ := Progress.resolve_bind_ok run
    have read := Action.gives_of_resolve hvalue
    obtain ⟨made₁, w₁, hmade₁, hw₁, h₁, names₁, proper₁, matching₁⟩ := h.step interns
      (.request (.readField o 0 name .unknown) madeIn) (read_related Terms.agrees_rfl 0 object hname)
      read
    have value₁ : value.Known made₁ w₁ := ⟨proper_any.mp proper₁, matching₁⟩
    obtain ⟨made₂, w₂, hmade₂, hw₂, h₂, names₂, -⟩ := h₁.step interns
      (.request (.document value) proper₁) (document_related matching₁)
      (Action.gives_of_resolve hdocument)
    have hmade := hmade₁.trans hmade₂
    have hw := hw₁.trans hw₂
    obtain ⟨rest, rfl, others, names₃⟩ := ih h₂ (madeIn.mono hmade) (Pairing.object_mono hw object)
      (fun other hother => Pairing.name_mono hw (named other (List.mem_cons_of_mem _ hother))) run
    have grows₂ := Progress.grows Task.grows hdocument
    have grows₃ := Progress.grows Task.grows run
    have known := Object.holdsField_of_read sharing (h.genuine.index_lt madeIn) read
    have inside := documents h₁ value₁ (Progress.resolve_request hdocument)
    have names := names₁.trans (names₂.trans names₃)
    refine ⟨(a.names.lookup name, document) :: rest, by simp, ?_, names⟩
    rw [← (h.inv.known trivial name hname).knows.lookup_eq names]
    have retains₃ := grows₃.retains names₃
    exact .cons (known.mono ((grows₂.retains names₂).trans retains₃)) (inside.mono retains₃) others

end

/-- What a value has been written out with is kept, where results are. -/
theorem kept_of_document (sharing : session.sharing = true) (interns : session.frontEnd.Interns)
    {fuel : Nat} {v : Value} {d : Document} (h : session.Knowing start made w a)
    (known : v.Known made w) (run : (Task.document v).perform session fuel a = some (.ok d, b)) :
  Kept b v d
  := by
  induction fuel generalizing made w a b v d with
  | zero => cases run
  | succ fuel ih =>
    rw [Task.perform_unknown rfl] at run
    obtain ⟨⟨outcome, b'⟩, ends, heq⟩ := Option.map_eq_some_iff.mp run
    cases heq
    cases v with
    | null => cases ends; exact .null
    | bool b => cases ends; exact .bool b
    | number x => cases ends; exact .number x
    | string s => cases ends; exact .string s
    | function function => cases ends
    | array elements =>
      obtain ⟨documents, b', hdocuments, ends⟩ := Progress.resolve_bind_ok ends
      cases ends
      cases known.genuine with
      | array memoised genuine =>
        cases known.matching with
        | array alike =>
          obtain ⟨_, rfl, inside, -⟩ := keptElements_of_elementDocuments sharing interns ih h
            memoised genuine (List.forall₂_same.mp (alike_deferreds_iff.mp alike)) hdocuments
          exact .array inside
    | object o =>
      obtain ⟨_, a₁, hcheck, ends⟩ := Progress.resolve_bind_ok ends
      obtain ⟨names, a₂, hsort, ends⟩ := Progress.resolve_bind_ok ends
      cases hsort
      obtain ⟨fields, b', hfields, ends⟩ := Progress.resolve_bind_ok ends
      cases ends
      cases known.genuine with
      | object madeIn =>
        cases known.matching with
        | object object =>
          obtain ⟨made₁, w₁, hmade₁, hw₁, h₁, names₁, -⟩ := h.step interns
            (.request (.check o) madeIn) (check_related object) (Action.gives_of_resolve hcheck)
          have object := Pairing.object_mono hw₁ object
          have perm := Object.perm_sortNames a₁.names (o.fieldNames false)
          have named : ∀ name ∈ o.fieldNames false, w₁.val.name name := fun name hname =>
            Twins.name_of_shows object ((o.mem_fieldNames name).mp hname)
          obtain ⟨_, rfl, inside, names₂⟩ := keptFields_of_fieldDocuments sharing interns ih h₁
            (madeIn.mono hmade₁) object (fun name hname => named name (perm.mem_iff.mp hname)) hfields
          have gives : ∀ name ∈ o.fieldNames false, a₁.names.Gives name :=
            fun name hname => h₁.inv.known trivial name (named name hname)
          apply Kept.object fun name hname => (gives name hname).mono names₂
          rw [Object.sortedFields, Object.sortNames_eq names₂ gives]
          exact inside

end

end Jsonnet
