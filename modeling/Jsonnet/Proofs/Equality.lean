import Jsonnet.Proofs.Kept
import Jsonnet.Proofs.Legibility

/-!
# Equality is equality of output

Values that have been written out are equal exactly if their texts are, as long as what they
hold is kept: comparing them forces nothing that was not forced when they were written out, so
it cannot fail and leaves the state alone.
-/

namespace Jsonnet

variable {session : Session} {c : State}

/-! ### Reading what is held -/

/-- Forcing a deferred value whose value is known changes nothing. -/
theorem Deferred.Known.force {element : Deferred} {v : Value} (h : element.Known c v) :
  element.force.Gives session c v c
  := by
  cases element with
  | ready w =>
    cases h
    exact .pure v
  | shared t =>
    apply Action.Gives.request_iff.mpr
    apply Task.Gives.known
    have h : c.thunks[t.index]? = some (.ready v) := h
    rw [Task.known?, h]
  | suspended s => exact h.elim
  | failed f => exact h.elim

/-- Reading a field that is held changes nothing. -/
theorem Object.HoldsField.read {o : Object} {name : Name} {v : Value} (h : o.HoldsField c name v)
    (sharing : session.sharing = true) (site : Location) :
  (o.read 0 name site).Gives session c v c
  := by
  obtain ⟨l, depth, found, kept⟩ := h.kept
  apply Action.Gives.request_iff.mpr
  refine Task.Gives.of_action (b := c) rfl ?_
  have check : o.check.Gives session c () c := by
    apply Action.Gives.request_iff.mpr
    apply Task.Gives.known
    rw [Task.known?, if_pos h.settled]
  refine check.bind ?_
  rw [found]
  apply Action.Gives.request_iff.mpr
  apply Task.Gives.known
  rw [Task.known?, if_pos sharing]
  exact kept

/-! ### Kept documents -/

theorem KeptElements.length_eq {elements : List Deferred} {documents : List Document}
    (h : KeptElements c elements documents) :
  elements.length = documents.length
  := by
  induction elements generalizing documents with
  | nil =>
    cases h
    rfl
  | cons element elements ih =>
    cases h with
    | cons _ _ others => exact congrArg (· + 1) (ih others)

theorem KeptFields.keys_eq {o : Object} {names : List Name} {fields : List (String × Document)}
    (h : KeptFields c o names fields) :
  fields.map Prod.fst = names.map c.names.lookup
  := by
  induction names generalizing fields with
  | nil =>
    cases h
    rfl
  | cons name names ih =>
    cases h with
    | cons _ _ others => rw [List.map_cons, List.map_cons, ih others]

/-- Names that are given out can be told from their texts. -/
theorem Interner.map_lookup_inj {names : Interner} {ns ms : List Name}
    (hns : ∀ n ∈ ns, names.Gives n) (hms : ∀ m ∈ ms, names.Gives m)
    (h : ns.map names.lookup = ms.map names.lookup) :
  ns = ms
  := by
  induction ns generalizing ms with
  | nil => exact (List.map_eq_nil_iff.mp h.symm).symm
  | cons n ns ih =>
    cases ms with
    | nil => cases h
    | cons m ms =>
      obtain ⟨hn, hns'⟩ := List.forall_mem_cons.mp hns
      obtain ⟨hm, hms'⟩ := List.forall_mem_cons.mp hms
      obtain ⟨hnm, hrest⟩ := List.cons.inj h
      rw [hn.unique hm hnm, ih hns' hms' hrest]

/-! ### Equality -/

/-- What comparing two values comes to, it comes to by the comparison of values of their kinds. -/
theorem Value.equal_of_compute {x y : Value} {r : Bool} (h : (computeEqual x y).Gives session c r c) :
  (x.equal y).Gives session c r c
  := Action.Gives.request_iff.mpr (Task.Gives.of_action rfl h)

/-- Numbers that are equal to nothing but themselves. -/
def Number.Plain (x : Number) : Prop := x.isNaN = false ∧ x ≠ -.zero

instance : DecidablePred Number.Plain := fun x =>
  inferInstanceAs (Decidable (x.isNaN = false ∧ x ≠ -.zero))

section

variable {P : Number → Prop}

mutual

/-- Values that are kept are equal exactly if their documents are. -/
theorem Kept.equal (sharing : session.sharing = true) (plain : ∀ n, P n → n.Plain) :
    ∀ {x y : Value} {d e : Document}, Kept c x d → Kept c y e →
    (∀ n ∈ d.numbers, P n) → (∀ n ∈ e.numbers, P n) →
  ∃ r, (x.equal y).Gives session c r c ∧ (r = true ↔ d = e)
  | x, y, d, e, hx, hy, hd, he => by
    have unequal : ∀ {x y : Value} {d e : Document}, computeEqual x y = (return false) → d ≠ e →
        ∃ r, (x.equal y).Gives session c r c ∧ (r = true ↔ d = e) := by
      intro x y d e h hne
      refine ⟨false, Value.equal_of_compute ?_, by simp [hne]⟩
      rw [h]
      exact .pure false
    cases hx with
    | null =>
      cases hy with
      | null => exact ⟨true, Value.equal_of_compute (.pure true), by simp⟩
      | _ => exact unequal rfl nofun
    | bool p =>
      cases hy with
      | bool q => exact ⟨p == q, Value.equal_of_compute (.pure _), by simp⟩
      | _ => exact unequal rfl nofun
    | number m =>
      cases hy with
      | number n =>
        refine ⟨m.equal n, Value.equal_of_compute (.pure _), ?_⟩
        rw [Number.equal_eq_decide (plain m (hd m List.mem_cons_self))
          (plain n (he n List.mem_cons_self))]
        simp
      | _ => exact unequal rfl nofun
    | string s =>
      cases hy with
      | string t => exact ⟨s == t, Value.equal_of_compute (.pure _), by simp⟩
      | _ => exact unequal rfl nofun
    | @array xs ds inside =>
      cases hy with
      | @array ys es inside' =>
        by_cases hsize : xs.size = ys.size
        · obtain ⟨r, gives, hr⟩ := inside.equal sharing plain inside' hd he (by simpa using hsize)
          refine ⟨r, Value.equal_of_compute ?_, by simp [hr]⟩
          rw [computeEqual, if_neg (by simp [hsize])]
          exact gives
        · apply unequal
          · rw [computeEqual, if_pos (by simp [hsize])]
          · rintro ⟨⟩
            apply hsize
            rw [← Array.length_toList, ← Array.length_toList, inside.length_eq, inside'.length_eq]
      | _ => exact unequal rfl nofun
    | @object o fs named inside =>
      cases hy with
      | @object p gs named' inside' =>
        have sorted : ∀ q : Object, (sortedFields q false).Gives session c (q.sortedFields c.names false) c :=
          fun q => .take rfl
        by_cases hnames : o.sortedFields c.names false = p.sortedFields c.names false
        · rw [← hnames] at inside'
          obtain ⟨r, gives, hr⟩ := inside.equal sharing plain inside' hd he
          refine ⟨r, Value.equal_of_compute ((sorted o).bind ((sorted p).bind ?_)), by simp [hr]⟩
          rw [if_neg (by simp [hnames])]
          exact gives
        · refine ⟨false, Value.equal_of_compute ((sorted o).bind ((sorted p).bind ?_)), ?_⟩
          · rw [if_pos (by simp [hnames])]
            exact .pure false
          · -- The texts of different names differ, and so do the keys.
            simp only [Bool.false_eq_true, false_iff]
            rintro ⟨⟩
            have gives : ∀ {q : Object}, (∀ name ∈ q.fieldNames false, c.names.Gives name) →
                ∀ name ∈ q.sortedFields c.names false, c.names.Gives name :=
              fun {q} h name hname => h name ((Object.perm_sortNames _ (q.fieldNames false)).mem_iff.mp hname)
            exact hnames (Interner.map_lookup_inj (gives named) (gives named')
              (inside.keys_eq.symm.trans inside'.keys_eq))
      | _ => exact unequal rfl nofun

theorem KeptElements.equal (sharing : session.sharing = true) (plain : ∀ n, P n → n.Plain) :
    ∀ {xs ys : List Deferred} {ds es : List Document},
    KeptElements c xs ds → KeptElements c ys es →
    (∀ n ∈ Document.numbersOfElements ds, P n) → (∀ n ∈ Document.numbersOfElements es, P n) →
    xs.length = ys.length →
  ∃ r, (elementsEqual xs ys).Gives session c r c ∧ (r = true ↔ ds = es)
  | _, _, _, _, .nil, .nil, _, _, _ => ⟨true, .pure true, by simp⟩
  | _, _, _, _, .cons known inside others, .cons known' inside' others', hd, he, hlength => by
    obtain ⟨first, gives, hfirst⟩ := inside.equal sharing plain inside'
      (fun n hn => hd n (List.mem_append_left _ hn)) (fun n hn => he n (List.mem_append_left _ hn))
    obtain ⟨rest, gives', hrest⟩ := others.equal sharing plain others'
      (fun n hn => hd n (List.mem_append_right _ hn)) (fun n hn => he n (List.mem_append_right _ hn))
      (Nat.succ.inj hlength)
    refine ⟨first && rest, known.force.bind (known'.force.bind (gives.bind ?_)), ?_⟩
    · cases first with
      | true => exact gives'
      | false => exact .pure false
    · rw [Bool.and_eq_true, hfirst, hrest, List.cons.injEq]

theorem KeptFields.equal (sharing : session.sharing = true) (plain : ∀ n, P n → n.Plain) :
    ∀ {o p : Object} {names : List Name} {fs gs : List (String × Document)},
    KeptFields c o names fs → KeptFields c p names gs →
    (∀ n ∈ Document.numbersOfFields fs, P n) → (∀ n ∈ Document.numbersOfFields gs, P n) →
  ∃ r, (fieldsEqual o p names).Gives session c r c ∧ (r = true ↔ fs = gs)
  | _, _, _, _, _, .nil, .nil, _, _ => ⟨true, .pure true, by simp⟩
  | _, _, _, _, _, .cons known inside others, .cons known' inside' others', hd, he => by
    obtain ⟨first, gives, hfirst⟩ := inside.equal sharing plain inside'
      (fun n hn => hd n (List.mem_append_left _ hn)) (fun n hn => he n (List.mem_append_left _ hn))
    obtain ⟨rest, gives', hrest⟩ := others.equal sharing plain others'
      (fun n hn => hd n (List.mem_append_right _ hn)) (fun n hn => he n (List.mem_append_right _ hn))
    refine ⟨first && rest, (known.read sharing _).bind ((known'.read sharing _).bind (gives.bind ?_)),
      ?_⟩
    · cases first with
      | true => exact gives'
      | false => exact .pure false
    · rw [Bool.and_eq_true, hfirst, hrest, List.cons.injEq, Prod.mk.injEq, eq_self_iff_true, true_and]

end

end

/-! ### Equality of output -/

/-- Whether an interpreter can have given a value by the time it is in a state: the objects in it
are among those that have been made, the elements of its arrays are computed at most once, and
its names are known. -/
structure Session.Offers (session : Session) (a : State) (v : Value) : Prop where
  vouches : session.Vouches a [v]
  knows : session.Knows a [v]

/-- A value that has been written out is kept in all later states. -/
theorem Session.Offers.kept {a b : State} {v : Value} (h : session.Offers a v)
    (sharing : session.sharing = true) (interns : session.frontEnd.Interns) {d : Document}
    (gives : v.document.Gives session a d b) (later : b.Grows session c) :
  Kept c v d
  := by
  obtain ⟨made, genuine, hvalues⟩ := h.vouches
  obtain ⟨w, inv, matching⟩ := h.knows
  obtain ⟨fuel, run⟩ := Action.Gives.request_iff.mp gives
  have kept := kept_of_document sharing interns ⟨genuine, inv⟩
    ⟨hvalues v List.mem_cons_self, matching v List.mem_cons_self⟩ run
  exact kept.mono (later.retains (later.names interns.appends))

/-- A state in which one more call of a builtin has been counted. -/
def State.countBuiltin (a : State) : State := { a with counters := a.counters.count .builtinCall }

/-- A builtin that changes no state, in a frame for which there is room. -/
theorem Builtin.gives_call {b : Builtin} {arguments : List Deferred} {r : Value}
    (arity : arguments.length = b.arity) (room : 0 < c.stack.room)
    (h : ∀ stack, (applyBuiltin b arguments).Gives session { c.countBuiltin with stack } r
      { c.countBuiltin with stack }) (site : Location) :
  ((Function.builtin b).call arguments site).Gives session c r c.countBuiltin
  := by
  have frame : ∃ stack, c.countBuiltin.enter (some ⟨site, .builtin b.name⟩)
      = .ok { c.countBuiltin with stack } ∧ stack.pop = c.stack := by
    obtain ⟨left, hleft⟩ := Nat.exists_eq_add_one_of_ne_zero room.ne'
    refine ⟨⟨⟨site, .builtin b.name⟩ :: c.stack.frames, left⟩, ?_, ?_⟩
    · simp only [State.enter, State.countBuiltin, CallStack.push?, hleft]
    · rw [CallStack.pop, ← hleft]
  obtain ⟨stack, enters, pops⟩ := frame
  have inner : (Task.builtin b arguments).Gives session { c.countBuiltin with stack } r
      { c.countBuiltin with stack } := Task.Gives.of_action rfl (h stack)
  have framed := Action.Gives.inFrame enters inner
  simp only [State.leave, pops] at framed
  apply Action.Gives.request_iff.mpr
  refine Task.Gives.of_action rfl ?_
  have counted : (Action.count .builtinCall).Gives session c () c.countBuiltin := .take rfl
  rw [Task.action, callFunction, if_neg (by simp [arity])]
  exact counted.bind framed

end Jsonnet
