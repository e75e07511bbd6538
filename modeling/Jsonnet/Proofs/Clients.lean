import Jsonnet.Proofs.MakingRuns

/-!
# Clients

A client calls an interpreter as often as it likes, with what it has been given before and
with values of its own, and whatever the calls come to. All that it can get hold of is genuine.
-/

namespace Jsonnet

/-- What a client can make of the values that it has been given. -/
inductive Held (given : List Value) : Datum → Prop where
  | given {v : Value} (mem : v ∈ given) : Held given (.value v)
  | null : Held given (.value .null)
  | bool (b : Bool) : Held given (.value (.bool b))
  | number (x : Number) : Held given (.value (.number x))
  | string (s : String) : Held given (.value (.string s))
  | array {elements : Array Deferred} (inside : ∀ d ∈ elements.toList, Held given (.deferred d)) :
    Held given (.value (.array elements))
  | ready {v : Value} (value : Held given (.value v)) : Held given (.deferred (.ready v))
  | element {elements : Array Deferred} (array : Held given (.value (.array elements)))
      {d : Deferred} (mem : d ∈ elements.toList) : Held given (.deferred d)

/-- A call of an interpreter from outside. -/
inductive Call where
  | evaluate (code : Code)
  | evaluateValue (code : Code)
  | force (deferred : Deferred)
  | index (object : Object) (minDepth : Nat) (name : Name) (site : Location)
  | function (function : Function) (arguments : List Deferred) (site : Location)
  | manifest (value : Value) (layout : Layout)

namespace Call

/-- The type of a call's result. -/
@[reducible] def Result : Call → Type
  | .evaluate _ | .manifest .. => String
  | .evaluateValue _ | .force _ | .index .. | .function .. => Value

/-- The action that a call runs. -/
def action : (call : Call) → Action call.Result
  | .evaluate code => code.output
  | .evaluateValue code => code.value
  | .force d => d.force
  | .index o minDepth name site => o.read minDepth name site
  | .function f arguments site => f.call arguments site
  | .manifest v layout => v.manifest layout

/-- The values that a client is given by the outcome of a call. -/
def given : (call : Call) → Except Failure call.Result → List Value
  | .evaluate _, _ | .manifest .., _ => []
  | .evaluateValue _, outcome | .force _, outcome | .index .., outcome | .function .., outcome =>
    outcome.toOption.toList

/-- Whether a call takes only what a client can make of the values that it has been given. -/
def Uses (values : List Value) : Call → Prop
  | .evaluate _ | .evaluateValue _ => True
  | .force d => Held values (.deferred d)
  | .index o .. => Held values (.value (.object o))
  | .function f arguments _ =>
    Held values (.value (.function f)) ∧ ∀ d ∈ arguments, Held values (.deferred d)
  | .manifest v _ => Held values (.value v)

end Call

/-- The calls of a client, the last one first and each with the state before it, the state that
they lead to and the values that the client has been given. A client has the library from the
beginning; names may be added between the calls. -/
inductive Session.History (session : Session) (start : State) :
    List (Call × State) → State → List Value → Prop where
  | start : History session start [] start [.object session.library]
  | names {calls : List (Call × State)} {a : State} {values : List Value} {names : Interner}
      (before : History session start calls a values) (le : a.names ≤ names) :
    History session start calls { a with names } values
  | call {calls : List (Call × State)} {a b : State} {values : List Value} {call : Call}
      {fuel : Nat} {outcome : Except Failure call.Result}
      (before : History session start calls a values) (uses : call.Uses values)
      (run : call.action.run session fuel a = some (outcome, b)) :
    History session start ((call, a) :: calls) b (call.given outcome ++ values)

/-! ### What clients give -/

/-- Whether data are or have in plain sight a number: as an element of an array that needs no
evaluation. -/
inductive Datum.Shows (x : Number) : Datum → Prop where
  | number : Shows x (.value (.number x))
  | ready {v : Value} (value : Shows x (.value v)) : Shows x (.deferred (.ready v))
  | element {elements : Array Deferred} {d : Deferred} (mem : d ∈ elements.toList)
      (element : Shows x (.deferred d)) :
    Shows x (.value (.array elements))

/-- Whether the code that a call runs meets a standard, and so do the numbers that it is given in
plain sight. -/
def Call.Meets (S : Standard) : Call → Prop
  | .evaluate code | .evaluateValue code => S.code code
  | .force d => ∀ x, Datum.Shows x (.deferred d) → S.number x
  | .index .. => True
  | .function _ arguments _ => ∀ d ∈ arguments, ∀ x, Datum.Shows x (.deferred d) → S.number x
  | .manifest v _ => ∀ x, Datum.Shows x (.value v) → S.number x

/-- Nothing is asked of a call if any code and any numbers meet the standard. -/
theorem Standard.Lax.meets {S : Standard} (lax : S.Lax) (call : Call) :
  call.Meets S
  := by
  cases call with
  | evaluate code | evaluateValue code => exact lax.code code
  | function f arguments site => exact fun _ _ x _ => lax.number x
  | force | manifest => exact fun x _ => lax.number x
  | index => trivial

section

variable {S : Standard} {session : Session} {made : List Object} {values : List Value}

/-- What a client makes of proper values, with numbers that meet the standard, is proper and
computed at most once. -/
theorem Held.proper (hvalues : ∀ v ∈ values, Proper S made (.value v)) {x : Datum}
    (h : Held values x) (numbers : ∀ n, Datum.Shows n x → S.number n) :
  Proper S made x ∧ ∀ d, x = .deferred d → d.Memoised
  := by
  -- An element may be asked for without the rest of its array, whose numbers are then not known.
  suffices stronger : ((∀ n, Datum.Shows n x → S.number n) →
      Proper S made x ∧ ∀ d, x = .deferred d → d.Memoised) ∧
      ∀ elements, x = .value (.array elements) → ∀ d ∈ elements.toList,
        (∀ n, Datum.Shows n (.deferred d) → S.number n) →
        Proper S made (.deferred d) ∧ d.Memoised from stronger.1 numbers
  clear numbers
  induction h with
  | given mem =>
    refine ⟨fun _ => ⟨hvalues _ mem, nofun⟩, ?_⟩
    rintro elements ⟨⟩ d hd -
    cases hvalues _ mem with
    | array memoised inside => exact ⟨inside d hd, memoised d hd⟩
  | null => exact ⟨fun _ => ⟨.null, nofun⟩, nofun⟩
  | bool b => exact ⟨fun _ => ⟨.bool b, nofun⟩, nofun⟩
  | number x => exact ⟨fun numbers => ⟨.number (numbers x .number), nofun⟩, nofun⟩
  | string s => exact ⟨fun _ => ⟨.string s, nofun⟩, nofun⟩
  | array inside ih =>
    constructor
    · intro numbers
      have element := fun d hd => (ih d hd).1 fun n shows => numbers n (.element hd shows)
      exact ⟨.array (fun d hd => (element d hd).2 d rfl) fun d hd => (element d hd).1, nofun⟩
    · rintro elements ⟨⟩ d hd numbers
      have element := (ih d hd).1 numbers
      exact ⟨element.1, element.2 d rfl⟩
  | ready _ ih =>
    refine ⟨fun numbers => ?_, nofun⟩
    refine ⟨.ready (ih.1 fun n shows => numbers n (.ready shows)).1, ?_⟩
    rintro d ⟨⟩
    trivial
  | element _ mem ih =>
    refine ⟨fun numbers => ?_, nofun⟩
    have element := ih.2 _ rfl _ mem numbers
    refine ⟨element.1, ?_⟩
    rintro d ⟨⟩
    exact element.2

/-- A call with what a client can make of proper values makes proper data, if what the client
adds meets the standard. -/
theorem Call.Uses.makes_proper (library : session.library.MadeIn made)
    (hvalues : ∀ v ∈ values, Proper S made (.value v)) {call : Call} (h : call.Uses values)
    (meets : call.Meets S) :
  call.action.Makes S session
    (fun made r => ∀ v ∈ call.given (.ok r), Proper S made (.value v)) made
  := by
  have result : ∀ {action : Action Value}, action.Makes S session (ProperValue S) made →
      action.Makes S session (fun made r => ∀ v ∈ [r], Proper S made (.value v)) made :=
    fun h => h.imp fun _ _ hr _ hv => List.mem_singleton.mp hv ▸ hr
  have nothing : ∀ {action : Action String}, action.Makes S session Anything made →
      action.Makes S session (fun made _ => ∀ v ∈ [], Proper S made (.value v)) made :=
    fun h => h.imp (by simp)
  cases call with
  | evaluate code => exact nothing (.inFrame _ (.output _) ⟨library, meets⟩)
  | evaluateValue code => exact result (.inFrame _ (.program _) ⟨library, meets⟩)
  | force d => exact result (force_makes (Held.proper hvalues h meets).1)
  | index o minDepth name site =>
    have ho : Held values (.value (.object o)) := h
    cases (ho.proper hvalues nofun).1 with
    | object object => exact result (.request (.readField o minDepth name site) object)
  | function f arguments site =>
    obtain ⟨hf, harguments⟩ := h
    have harguments := fun d hd => ((harguments d hd).proper hvalues (meets d hd)).1
    cases (hf.proper hvalues nofun).1 with
    | function hf => exact result (.request (.call f _ site) ⟨hf, harguments⟩)
  | manifest v layout => exact nothing (manifest_makes layout (Held.proper hvalues h meets).1)

/-- A call with what a client can make of genuine values makes genuine data. -/
theorem Call.Uses.makes {a : State} (genuine : a.IsGenuine session made)
    (hvalues : ∀ v ∈ values, Genuine made (.value v)) {call : Call} (h : call.Uses values) :
  call.action.Makes .any session
    (fun made r => ∀ v ∈ call.given (.ok r), Genuine made (.value v)) made
  := by
  apply (h.makes_proper genuine.library (fun v hv => proper_any.mpr (hvalues v hv))
    (Standard.any_lax.meets call)).imp
  intro more r hr v hv
  exact proper_any.mp (hr v hv)

end

end Jsonnet
