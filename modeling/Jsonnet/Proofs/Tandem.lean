import Jsonnet.Proofs.Clients
import Jsonnet.Proofs.Kept
import Jsonnet.Proofs.Outcomes
import Jsonnet.Proofs.Traces
import Jsonnet.Proofs.Transparency

/-!
# Asking the reference evaluator as well

A client asks an evaluator that keeps results for one thing after another, and the reference
evaluator for the same. As long as the reference evaluator completes every call, whatever it comes
to, all that is kept is confirmed: a call that has failed fails again, and what has been asked for
before makes no difference to what a program comes to.
-/

namespace Jsonnet

/-- The session in which no results are kept. -/
def Session.reference (session : Session) : Session := { session with sharing := false }

theorem Session.reference_agrees (session : Session) :
  session.reference.Agrees session
  := ⟨rfl, rfl, rfl, rfl, rfl, rfl, rfl, rfl, rfl⟩

/-! ### The same call of two evaluators -/

/-- What a client can make in the same way of what two evaluators have given it. It does not make
elements or arguments of objects, but hands on the deferred values that they came from. -/
inductive HeldAlike (given : List (Value × Value)) : Datum → Datum → Prop where
  | given {v v' : Value} (mem : (v, v') ∈ given) : HeldAlike given (.value v) (.value v')
  | null : HeldAlike given (.value .null) (.value .null)
  | bool (b : Bool) : HeldAlike given (.value (.bool b)) (.value (.bool b))
  | number (x : Number) : HeldAlike given (.value (.number x)) (.value (.number x))
  | string (s : String) : HeldAlike given (.value (.string s)) (.value (.string s))
  | array {xs ys : Array Deferred}
      (elements : HeldAlike given (.deferreds xs.toList) (.deferreds ys.toList)) :
    HeldAlike given (.value (.array xs)) (.value (.array ys))
  | ready {v v' : Value} (value : HeldAlike given (.value v) (.value v'))
      (noObject : ∀ o, v ≠ .object o) :
    HeldAlike given (.deferred (.ready v)) (.deferred (.ready v'))
  | element {xs ys : Array Deferred} {i : Nat} {d d' : Deferred}
      (array : HeldAlike given (.value (.array xs)) (.value (.array ys))) (first : xs[i]? = some d)
      (second : ys[i]? = some d') :
    HeldAlike given (.deferred d) (.deferred d')
  | nil : HeldAlike given (.deferreds []) (.deferreds [])
  | cons {d d' : Deferred} {ds ds' : List Deferred}
      (head : HeldAlike given (.deferred d) (.deferred d'))
      (tail : HeldAlike given (.deferreds ds) (.deferreds ds')) :
    HeldAlike given (.deferreds (d :: ds)) (.deferreds (d' :: ds'))

namespace Call

/-- The same call of two evaluators, with what they have given and names that are known. -/
inductive Matches (given : List (Value × Value)) (names : Interner) : Call → Call → Prop where
  | evaluate {code : Code} (named : code.Named names.Knows) :
    Matches given names (.evaluate code) (.evaluate code)
  | evaluateValue {code : Code} (named : code.Named names.Knows) :
    Matches given names (.evaluateValue code) (.evaluateValue code)
  | force {d d' : Deferred} (deferred : HeldAlike given (.deferred d) (.deferred d')) :
    Matches given names (.force d) (.force d')
  | index {o o' : Object} (minDepth : Nat) {name : Name} (site : Location)
      (object : HeldAlike given (.value (.object o)) (.value (.object o')))
      (known : names.Knows name) :
    Matches given names (.index o minDepth name site) (.index o' minDepth name site)
  | function {f f' : Function} {arguments arguments' : List Deferred} (site : Location)
      (function : HeldAlike given (.value (.function f)) (.value (.function f')))
      (handed : HeldAlike given (.deferreds arguments) (.deferreds arguments')) :
    Matches given names (.function f arguments site) (.function f' arguments' site)
  | manifest {v v' : Value} (layout : Layout) (value : HeldAlike given (.value v) (.value v')) :
    Matches given names (.manifest v layout) (.manifest v' layout)

/-- The text that a call has come to, if it comes to a text. -/
def text? : (call : Call) → call.Result → Option String
  | .evaluate _, text | .manifest .., text => some text
  | .evaluateValue _, _ | .force _, _ | .index .., _ | .function .., _ => none

/-- Results of calls that are the same text, or values that match. -/
structure ResultsMatch (call call' : Call) (w : World .loose) (r : call.Result)
    (r' : call'.Result) : Prop where
  text : call.text? r = call'.text? r'
  values : List.Forall₂ (Value.Matches w.toPairing) (call.given (.ok r)) (call'.given (.ok r'))

end Call

/-- Data that match as results, or that are alike. -/
def Datum.Stands (w : Pairing .loose) : Datum → Datum → Prop
  | .value v, .value v' => v.Matches w v'
  | x, y => Alike w x y

/-- Values that match are alike if they are no objects. -/
theorem Value.Matches.alike {w : Pairing .loose} {v v' : Value} (h : v.Matches w v')
    (noObject : ∀ o, v ≠ .object o) :
  Alike w (.value v) (.value v')
  := by
  cases h with
  | null => exact .null
  | bool b => exact .bool b
  | number x => exact .number x
  | string s => exact .string s
  | array elements => exact .array elements
  | function function => exact .function function
  | @object o p object => exact absurd rfl (noObject o)

section

variable {session : Session} {given : List (Value × Value)} {w : World .loose}
  (hgiven : ∀ v v', (v, v') ∈ given → v.Matches w.toPairing v')

include hgiven

/-- What a client makes of values that match stands for each other. -/
theorem HeldAlike.stands {x y : Datum} (h : HeldAlike given x y) :
  x.Stands w.toPairing y
  := by
  induction h with
  | given mem => exact hgiven _ _ mem
  | null => exact Value.Matches.null
  | bool b => exact Value.Matches.bool b
  | number x => exact Value.Matches.number x
  | string s => exact Value.Matches.string s
  | array _ ih => exact Value.Matches.array ih
  | ready _ noObject ih => exact Alike.ready (Value.Matches.alike ih noObject)
  | @element xs ys i d d' _ first second ih =>
    have matching : Value.Matches w.toPairing (.array xs) (.array ys) := ih
    cases matching with
    | array elements =>
      have h := forall₂_getElem? (alike_deferreds_iff.mp elements) i
      rw [Array.getElem?_toList, Array.getElem?_toList, first, second] at h
      cases h with
      | some alike => exact alike
  | nil => exact Alike.nil
  | cons _ _ head tail => exact Alike.cons head tail

/-- The same call of two evaluators is carried out in lockstep. -/
theorem Call.Matches.related {names : Interner} {call call' : Call}
    (h : call.Matches given names call') (library : w.self session.library session.library)
    (known : ∀ n, names.Knows n → w.name n)
    (arguments : ∀ given ∈ session.arguments, names.Gives given.1) :
  Action.Related session.reference session (call.ResultsMatch call') w call.action call'.action
  := by
  have base : Alike w.toPairing (.env session.reference.base) (.env session.reference.base) :=
    base_alike library
  have arguments : ∀ given ∈ session.reference.arguments, w.name given.1 :=
    fun given h => known _ (arguments given h).knows
  cases h with
  | @evaluate code named =>
    have related : Action.Related session.reference session Same w code.output code.output :=
      .inFrame Terms.agrees_rfl (.output (named.mono known) (.loose _ _ _) base arguments)
    exact Progress.Related.imp related fun _ _ _ h => ⟨congrArg some h, .nil⟩
  | @evaluateValue code named =>
    have related : Action.Related session.reference session Matching w code.value code.value :=
      .inFrame Terms.agrees_rfl (.program (named.mono known) (.loose _ _ _) base arguments)
    exact Progress.Related.imp related fun _ _ _ h => ⟨rfl, .cons h .nil⟩
  | @force d d' deferred =>
    have related : Action.Related session.reference session Matching w d.force d'.force :=
      force_related (.alike (deferred.stands hgiven))
    exact Progress.Related.imp related fun _ _ _ h => ⟨rfl, .cons h .nil⟩
  | @index o o' minDepth name site object hname =>
    have matching : Value.Matches w.toPairing (.object o) (.object o') := object.stands hgiven
    cases matching with
    | object object =>
      have related : Action.Related session.reference session Matching w
          (o.read minDepth name site) (o'.read minDepth name site) :=
        read_related Terms.agrees_rfl minDepth object (known _ hname)
      exact Progress.Related.imp related fun _ _ _ h => ⟨rfl, .cons h .nil⟩
  | @function f f' arguments arguments' site function handed =>
    have matching : Value.Matches w.toPairing (.function f) (.function f') :=
      function.stands hgiven
    cases matching with
    | function function =>
      have related : Action.Related session.reference session Matching w
          (f.call arguments site) (f'.call arguments' site) :=
        call_related Terms.agrees_rfl function (handed.stands hgiven)
      exact Progress.Related.imp related fun _ _ _ h => ⟨rfl, .cons h .nil⟩
  | @manifest v v' layout value =>
    have related : Action.Related session.reference session Same w (v.manifest layout)
        (v'.manifest layout) :=
      manifest_related layout (value.stands hgiven)
    exact Progress.Related.imp related fun _ _ _ h => ⟨congrArg some h, .nil⟩

end

/-! ### Going on after a call -/

/-- A world in which the names that an interner has given out are known. -/
def World.knowing (w : World .loose) (names : Interner) : World .loose :=
  w.extend { Pairing.nothing .loose with name := names.Knows } (fun h => h.elim) fun h => h.elim

theorem World.le_knowing (w : World .loose) (names : Interner) :
  w ≤ w.knowing names
  := Pairing.le_join_left _ _

/-- A stage at which the names that an interner has given out are known. -/
def Stage.knowing (s : Stage) (names : Interner) : Stage :=
  { s with world := s.world.knowing names }

namespace Agreement.Inv

variable {reference memo : Session} {k k' : Leeway} {s : Stage} {a b : State}

/-- Where the other evaluator alone has gone on, and has kept what is confirmed, its state is still
related to the one of the reference evaluator. -/
theorem onward (h : Inv reference k s a b) (lawful : memo.frontEnd.Lawful) {O' : Origins}
    {b' : State} (le : s.right ≤ O') (grows : b.Grows memo b')
    (confirmed : b'.Confirmed reference O')
    (names : (Naming.behind k'.names k'.fixed).rel a.names b'.names)
    (slots : b'.slots.size ≤ a.slots.size + k'.slots) :
  Inv reference k' ⟨s.world, s.left, O'⟩ a b'
  := by
  have keeps := grows.keeps lawful confirmed.hasSlots
  exact {
    mirrors := h.mirrors.keeps le keeps confirmed.stems
    confirmed := confirmed
    names := names
    passed := fun o p hop hpassed => keeps.passed (h.passed o p hop hpassed)
    unique := h.unique
    slots := slots
    settled := fun o p hop hsettled => Object.isSettled_of_grows grows (h.settled o p hop hsettled) }

/-- Names may be added on both sides. -/
theorem knowing (h : Inv reference k s a b) (lawful : reference.frontEnd.Lawful)
    (hfixed : ¬ k'.fixed) (slots : b.slots.size ≤ a.slots.size + k'.slots) {later : Interner}
    (le : b.names ≤ later) :
  Inv reference k' (s.knowing later) { a with names := later } { b with names := later }
  := by
  have fits := h.mirrors.fits
  have le' := h.names.1.trans le
  have stems : ({ a with names := later } : State).Stems reference s.left :=
    fits.stems.extend lawful le_rfl le' rfl rfl fits.stems.thunks fits.stems.objects
  have stems' : ({ b with names := later } : State).Stems reference s.right :=
    fits.stems'.extend lawful le_rfl le rfl rfl fits.stems'.thunks fits.stems'.objects
  have keeps' : b.Keeps { b with names := later } := ⟨le, id, id⟩
  refine ⟨⟨⟨?_, h.mirrors.pending, ?_⟩, ?_, ?_, ?_, ?_, slots⟩, ?_⟩
  · exact fits.extend rfl le_rfl le_rfl ⟨le', id, id⟩ keeps' stems stems' (fun _ hn => ⟨hn, hn⟩)
      (fun _ _ h => h.elim) (fun _ _ h => h.elim) fun _ _ h => h.elim
  · exact fun o p hself => h.mirrors.self o p (hself.resolve_right id)
  · exact h.confirmed.adds (.same rfl rfl rfl stems') keeps' h.confirmed.hasSlots
  · exact ⟨le_rfl, fun hfix => absurd hfix hfixed, fun _ => rfl⟩
  · exact fun o p hop => h.passed o p (hop.resolve_right id)
  · exact fun o p p' hop hop' => h.unique o p p' (hop.resolve_right id) (hop'.resolve_right id)
  · exact fun o p hop => h.settled o p (hop.resolve_right id)

end Agreement.Inv

/-- After a failure of the other evaluator, all that it has kept is confirmed. -/
theorem Agreement.confirmed_of_error {reference memo : Session} {k : Leeway} {s : Stage}
    {α β : Type} {R : World .loose → α → β → Prop} {x : Outcome α} {failure : Failure} {b : State}
    (ends : (comparison reference memo k).Ends R s x (.error failure, b)) :
  ∃ O', s.right ≤ O' ∧ b.Confirmed reference O'
  := by
  cases ends with
  | error fails sound =>
    obtain ⟨s', le, confirmed, -⟩ := sound
    exact ⟨s'.right, le.2.2, confirmed⟩
  | overflow cramped overflow sound =>
    obtain ⟨a, s', le, confirmed, -⟩ := sound
    exact ⟨s'.right, le.2.2, confirmed⟩

/-! ### What relates the two evaluators between the calls -/

/-- What relates a state of the reference evaluator and what it has given to the other evaluator
when control is back at the client. -/
structure Session.Linked (session : Session) (s : Stage) (a b : State)
    (given : List (Value × Value)) : Prop where
  inv : Agreement.Inv session.reference ⟨b.names, False, b.slots.size, False⟩ s a b
  known : ∀ n, b.names.Knows n → s.world.name n
  given : ∀ v v', (v, v') ∈ given → v.Matches s.world.toPairing v'
  idle : ∀ i : Nat, b.checks[i]? ≠ some .inProgress
  prepared : session.Prepared b.names

namespace Session

variable {session : Session} (lawful : session.frontEnd.Lawful) (sharing : session.sharing = true)
  {s : Stage} {a b : State} {given : List (Value × Value)}

include lawful

/-- What relates the evaluators does so when control is back at the client, and when names have
been added. -/
theorem linked_knowing {k : Leeway} (inv : Agreement.Inv session.reference k s a b)
    (hgiven : ∀ v v', (v, v') ∈ given → v.Matches s.world.toPairing v')
    (idle : ∀ i : Nat, b.checks[i]? ≠ some .inProgress) (prepared : session.Prepared b.names)
    {later : Interner} (le : b.names ≤ later) :
  session.Linked (s.knowing later) { a with names := later } { b with names := later } given
  where
  inv := inv.knowing lawful id (Nat.le_add_left _ _) le
  known _ h := .inr h
  given v v' mem := (hgiven v v' mem).mono (s.world.le_knowing later)
  idle := idle
  prepared := prepared.mono le

/-- A new run of the reference evaluator beside another evaluator that has kept what is
confirmed. -/
theorem linked_new (prepared : session.Prepared b.names) {O' : Origins}
    (confirmed : b.Confirmed session.reference O')
    (hlibrary : O'.objects[0]? = some session.library)
    (idle : ∀ i : Nat, b.checks[i]? ≠ some .inProgress) (limit : Nat) :
  ∃ s, session.Linked s (.new b.names limit) b [(.object session.library, .object session.library)]
  := by
  have prepared' : session.reference.Prepared b.names := ⟨prepared.library, prepared.arguments⟩
  have inv := Agreement.outset_inv (k := ⟨b.names, False, b.slots.size, False⟩) prepared' id
    confirmed hlibrary rfl le_rfl limit
  refine ⟨_, linked_knowing lawful inv ?_ idle prepared le_rfl⟩
  intro v v' mem
  cases List.mem_singleton.mp mem
  exact .object ⟨rfl, rfl⟩

namespace Linked

variable (h : session.Linked s a b given)

include h

/-- A new run of the reference evaluator may begin at any time. -/
theorem renew (limit : Nat) :
  ∃ s, session.Linked s (.new b.names limit) b [(.object session.library, .object session.library)]
  := by
  have library := h.inv.mirrors.fits.object _ _
    (s.world.object_of_self h.inv.mirrors.fits.library)
  have hlibrary : s.right.objects[session.library.id.index]? = some session.library := library.2
  rw [h.prepared.library_id] at hlibrary
  exact linked_new lawful h.prepared h.inv.confirmed hlibrary h.idle limit

include sharing in
/-- What the reference evaluator completes, the other evaluator comes to the end of as well. -/
theorem carries {call call' : Call} (matching : call.Matches given b.names call')
    {x : Outcome call.Result} (completes : call.action.Completes session.reference b.slots.size a x) :
  ∃ outcome b', call'.action.Ends session b outcome b' ∧
    (Agreement.comparison session.reference session
      ⟨x.2.names, False, b.slots.size, a.stack.room ≤ b.stack.room⟩).Ends
        (call.ResultsMatch call') s x (outcome, b')
  := by
  have inv : Agreement.Inv session.reference
      ⟨x.2.names, False, b.slots.size, a.stack.room ≤ b.stack.room⟩ s a b :=
    { h.inv with names := ⟨h.inv.names.1, False.elim, h.inv.names.2.2⟩ }
  have library : s.world.self session.library session.library := h.inv.mirrors.fits.library
  have related := matching.related h.given library h.known h.prepared.arguments
  obtain ⟨fuel, ⟨outcome, b'⟩, run, ends⟩ :=
    inv.carries session.reference_agrees lawful rfl sharing h.idle id related completes le_rfl
  exact ⟨outcome, b', ⟨fuel, run⟩, ends⟩

/-- After a result from both evaluators. -/
theorem answered {call call' : Call} {k : Leeway} (hfixed : ¬ k.fixed) {r : call.Result}
    {r' : call'.Result} {a' b' : State} (grows : b.Grows session b')
    (ends : (Agreement.comparison session.reference session k).Ends (call.ResultsMatch call') s
      (.ok r, a') (.ok r', b')) :
  ∃ s, session.Linked s a' b' ((call.given (.ok r)).zip (call'.given (.ok r')) ++ given)
  := by
  cases ends with
  | ok s' le inv result =>
    have inv : Agreement.Inv session.reference k s' a' b' := inv
    have names : a'.names = b'.names := inv.names.2.2 hfixed
    have hgiven : ∀ v v', (v, v') ∈ (call.given (.ok r)).zip (call'.given (.ok r')) ++ given →
        v.Matches s'.world.toPairing v' := by
      intro v v' mem
      obtain mem | mem := List.mem_append.mp mem
      · exact List.forall₂_zip result.values mem
      · exact (h.given v v' mem).mono le.1
    have linked := linked_knowing lawful inv hgiven (fun i hi => h.idle i (grows.inProgress hi))
      (h.prepared.mono (grows.names lawful.grows)) le_rfl
    have same : { a' with names := b'.names } = a' := by rw [← names]
    rw [same] at linked
    exact ⟨_, linked⟩

/-- After a failure of the other evaluator, the reference evaluator may be taken back to where it
was before. -/
theorem failed {O' : Origins} {b' : State} (le : s.right ≤ O') (grows : b.Grows session b')
    (confirmed : b'.Confirmed session.reference O') :
  ∃ s, session.Linked s { a with names := b'.names } b' given
  := by
  have names : a.names ≤ b'.names := h.inv.names.1.trans (grows.names lawful.grows)
  have inv : Agreement.Inv session.reference ⟨b'.names, True, b'.slots.size, False⟩
      ⟨s.world, s.left, O'⟩ a b' :=
    h.inv.onward lawful le grows confirmed ⟨names, fun _ => rfl, fun h => absurd trivial h⟩
      (Nat.le_add_left _ _)
  exact ⟨_, linked_knowing lawful inv h.given (fun i hi => h.idle i (grows.inProgress hi))
    (h.prepared.mono (grows.names lawful.grows)) le_rfl⟩

end Linked

end Session

/-! ### Clients of both evaluators -/

/-- The states of the reference evaluator and of another one that a client comes to by asking them
for the same, with the values that they have given. The reference evaluator completes every call.
When the other one fails, it is taken back to where it was; or a new one is taken at any time, of
which the client has nothing but the library. -/
inductive Session.Tandem (session : Session) (start : State) :
    State → State → List (Value × Value) → Prop where
  | start (limit : Nat) :
    Tandem session start (.new start.names limit) start
      [(.object session.library, .object session.library)]
  | renew {a b : State} {given : List (Value × Value)} (before : Tandem session start a b given)
      (limit : Nat) :
    Tandem session start (.new b.names limit) b [(.object session.library, .object session.library)]
  | names {a b : State} {given : List (Value × Value)} {names : Interner}
      (before : Tandem session start a b given) (le : b.names ≤ names) :
    Tandem session start { a with names } { b with names } given
  | answered {a b a' b' : State} {given : List (Value × Value)} {call call' : Call}
      {r : call.Result} {r' : call'.Result} (before : Tandem session start a b given)
      (matching : call.Matches given b.names call')
      (completes : call.action.Completes session.reference b.slots.size a (.ok r, a'))
      (ends : call'.action.Ends session b (.ok r') b') :
    Tandem session start a' b' ((call.given (.ok r)).zip (call'.given (.ok r')) ++ given)
  | failed {a b b' : State} {given : List (Value × Value)} {call call' : Call}
      {x : Outcome call.Result} {failure : Failure} (before : Tandem session start a b given)
      (matching : call.Matches given b.names call')
      (completes : call.action.Completes session.reference b.slots.size a x)
      (ends : call'.action.Ends session b (.error failure) b') :
    Tandem session start { a with names := b'.names } b' given

section

variable {session : Session} (lawful : session.frontEnd.Lawful) (sharing : session.sharing = true)
  {names : Interner} (prepared : session.Prepared names) {limit : Nat} {a b : State}
  {given : List (Value × Value)}

namespace Session.Tandem

variable (h : session.Tandem (.new names limit) a b given)

include lawful sharing prepared h

/-- Between the calls of a client the two evaluators are related, and the stack of the other one
is as it was. -/
theorem linked :
  (∃ s, session.Linked s a b given) ∧ names ≤ b.names ∧ b.stack = .new limit
  := by
  induction h with
  | start limit' =>
    have confirmed := Agreement.new_confirmed session.reference names limit session.library
    exact ⟨linked_new lawful prepared confirmed rfl (State.new_idle names limit) limit', le_rfl, rfl⟩
  | renew before limit' ih =>
    obtain ⟨⟨s, linked⟩, rest⟩ := ih
    exact ⟨linked.renew lawful limit', rest⟩
  | names before le ih =>
    obtain ⟨⟨s, linked⟩, le', stack⟩ := ih
    have linked := linked_knowing lawful linked.inv linked.given linked.idle linked.prepared le
    exact ⟨⟨_, linked⟩, le'.trans le, stack⟩
  | answered before matching completes ends ih =>
    obtain ⟨⟨s, linked⟩, le, stack⟩ := ih
    obtain ⟨outcome, _, ends', carried⟩ := linked.carries lawful sharing matching completes
    obtain ⟨rfl, rfl⟩ := ends.unique ends'
    have grows := ends.grows
    exact ⟨linked.answered lawful id grows carried, le.trans (grows.names lawful.grows),
      grows.stack.trans stack⟩
  | failed before matching completes ends ih =>
    obtain ⟨⟨s, linked⟩, le, stack⟩ := ih
    obtain ⟨outcome, _, ends', carried⟩ := linked.carries lawful sharing matching completes
    obtain ⟨rfl, rfl⟩ := ends.unique ends'
    have grows := ends.grows
    obtain ⟨O', le', confirmed⟩ := Agreement.confirmed_of_error carried
    exact ⟨linked.failed lawful le' grows confirmed, le.trans (grows.names lawful.grows),
      grows.stack.trans stack⟩

/-- A failure repeats itself. If a call that the reference evaluator completes fails, then the same
call fails in the same way again from the state that the failure has left behind. Only where the
reference evaluator was given more room for frames the second call may overflow the stack. -/
theorem failure_repeats {call call' : Call} (matching : call.Matches given b.names call')
    {failure : Failure} {b' : State} (fails : call'.action.Ends session b (.error failure) b')
    (noOverflow : failure.isOverflow = false) {x : Outcome call.Result}
    (completes : call.action.Completes session.reference b'.slots.size a x) :
  ∃ again b'', call'.action.Ends session b' (.error again) b'' ∧
    (again.kind = failure.kind ∨ again.isOverflow = true ∧ limit < a.stack.room)
  := by
  obtain ⟨⟨s, linked⟩, -, stack⟩ := h.linked lawful sharing prepared
  have grows := fails.grows
  obtain ⟨outcome, _, fails', carried⟩ :=
    linked.carries lawful sharing matching (completes.mono grows.slotCount)
  obtain ⟨rfl, rfl⟩ := fails.unique fails'
  cases carried with
  | overflow cramped overflow sound =>
    rw [noOverflow] at overflow
    cases overflow
  | @error f _ a' _ fails sound =>
    obtain ⟨s', le, confirmed, same⟩ := sound
    have same : a'.names = b'.names := same.2.2 id
    have names : a.names ≤ b'.names := linked.inv.names.1.trans (grows.names lawful.grows)
    have inv : Agreement.Inv session.reference
        ⟨b'.names, True, b'.slots.size, a.stack.room ≤ b'.stack.room⟩
        ⟨s.world, s.left, s'.right⟩ a b' :=
      linked.inv.onward lawful le.2.2 grows confirmed
        ⟨names, fun _ => rfl, fun h => absurd trivial h⟩ (Nat.le_add_left _ _)
    have library : s.world.self session.library session.library := linked.inv.mirrors.fits.library
    have related := matching.related linked.given library linked.known linked.prepared.arguments
    obtain ⟨fuel, ⟨outcome, b''⟩, run, carried⟩ := inv.carries session.reference_agrees lawful rfl
      sharing (fun i hi => linked.idle i (grows.inProgress hi)) id related completes same.le
    cases carried with
    | error fails' _ =>
      exact ⟨_, b'', ⟨fuel, run⟩, .inl (fails'.kind.symm.trans fails.kind)⟩
    | overflow cramped overflow _ =>
      have room : b'.stack.room = limit := by rw [grows.stack, stack]; rfl
      exact ⟨_, b'', ⟨fuel, run⟩, .inr ⟨overflow, room ▸ Nat.not_le.mp cramped⟩⟩

end Session.Tandem

end

/-- The program that is `self` through a variable mentions the empty name only. -/
theorem Code.named_localSelf {P : Name → Prop} (h : P .empty) :
  Code.localSelf.Named P
  where
  file := h
  node node hnode := by
    simp only [localSelf, List.mem_toArray, List.mem_cons, List.not_mem_nil, or_false] at hnode
    obtain rfl | rfl | rfl := hnode
    · trivial
    · exact h
    · trivial
  bind bind hbind := by
    simp only [localSelf, List.mem_toArray, List.mem_singleton] at hbind
    cases hbind
    exact h
  param name hname := by
    simp [localSelf] at hname

/-- The program that is `self` through a variable fails in a new state, and reserves one slot. -/
theorem Code.localSelf_ends (session : Session) (names : Interner) :
  ∃ trace b, Code.localSelf.output.Ends session (.new names 500)
      (.error (.runtime .selfOutsideObject trace)) b ∧ b.names = names ∧ b.slots.size = 1
  := ⟨_, _, ⟨20, rfl⟩, rfl, rfl⟩

/-- The reference evaluator completes it, with one slot to spare. -/
theorem Code.localSelf_completes :
  let session := (Setup.bare.start .onlyEmpty).1
  let names := (Setup.bare.start .onlyEmpty).2.names
  ∃ x, Code.localSelf.output.Completes session.reference 1 (.new names 500) x
  := by
  intro session names
  obtain ⟨trace, b, ends, -, slots⟩ := Code.localSelf_ends session.reference names
  have hends : ((Code.localSelf.output session.reference).resolve session.reference
      (Task.perform session.reference 6) (.new names 500)).isSome = true := by decide +kernel
  have hevents : (Code.localSelf.output session.reference).events session.reference
      (Task.perform session.reference 6) (Task.events session.reference 6) (.new names 500)
        = [.begins (.thunk ⟨0⟩), .fails (.thunk ⟨0⟩)] := by decide +kernel
  obtain ⟨x, hx⟩ := Option.isSome_iff_exists.mp hends
  refine ⟨_, ends, ?_, ?_, .of_events hx hevents (by simp)⟩
  · rintro failure ⟨⟩
    rfl
  · rw [slots]
    decide

/-- A failure of a program repeats itself: `self` outside an object. -/
theorem Session.Tandem.failure_repeats_of_self :
  let session := (Setup.bare.start .onlyEmpty).1
  let names := (Setup.bare.start .onlyEmpty).2.names
  ∃ trace b x, session.frontEnd.Lawful ∧ session.sharing = true ∧ session.Prepared names ∧
    session.Tandem (.new names 500) (.new names 500) (.new names 500)
      [(.object session.library, .object session.library)] ∧
    Call.Matches [(.object session.library, .object session.library)] names (.evaluate .localSelf)
      (.evaluate .localSelf) ∧
    Code.localSelf.output.Ends session (.new names 500)
      (.error (.runtime .selfOutsideObject trace)) b ∧
    Code.localSelf.output.Completes session.reference b.slots.size (.new names 500) x ∧
    ∃ again b', Code.localSelf.output.Ends session b (.error again) b' ∧
      again.kind = .runtime .selfOutsideObject none
  := by
  intro session names
  have lawful : session.frontEnd.Lawful :=
    ⟨fun _ _ _ => le_rfl, (fun _ _ _ _ h => by cases h), fun _ _ _ _ _ => rfl⟩
  have prepared := Setup.start_prepared .bare .onlyEmpty
  have tandem : session.Tandem (.new names 500) (.new names 500) (.new names 500) _ := .start 500
  have named : Code.localSelf.Named names.Knows := Code.named_localSelf names.gives_empty.knows
  obtain ⟨trace, b, ends, -, slots⟩ := Code.localSelf_ends session names
  obtain ⟨x, completes⟩ := Code.localSelf_completes
  rw [← slots] at completes
  obtain ⟨again, b', ends', kind | ⟨-, cramped⟩⟩ :=
    tandem.failure_repeats lawful rfl prepared (.evaluate named) ends rfl completes
  · exact ⟨trace, b, x, lawful, rfl, prepared, tandem, .evaluate named, ends, completes, again, b',
      ends', kind⟩
  · exact absurd cramped (lt_irrefl 500)

/-! ### Preparing a session again -/

namespace Interner

theorem stable_libraryFields (functions : List LibraryFunction) :
  Stable fun names => libraryFields names functions
  := by
  induction functions with
  | nil => exact stable_pure []
  | cons f rest ih =>
    exact (stable_intern f.name).bind fun name => ih.bind fun fields =>
      stable_pure ((name, ⟨.hidden, .ready (.function (.builtin (.library f)))⟩) :: fields)

theorem stable_internExternals (given : List (String × External)) :
  Stable fun names => internExternals names given
  := by
  induction given with
  | nil => exact stable_pure []
  | cons first rest ih =>
    exact (stable_intern first.1).bind fun name => ih.bind fun values =>
      stable_pure ((name, first.2) :: values)

end Interner

/-- A session that is prepared with names that were given out for one is the same session. -/
theorem Setup.start_again (setup : Setup) {names later : Interner}
    (le : (setup.start names).2.names ≤ later) :
  setup.start later = ((setup.start names).1, .new later setup.settings.maxStack)
  := by
  simp only [start] at le ⊢
  generalize LibraryFunction.all = functions at le ⊢
  -- every step extends the interner, so what it has given out is known later
  have le₆ := (Interner.le_intern _ "rhs").trans le
  have le₅ := (Interner.le_intern _ "array_element").trans le₆
  have le₄ := (Interner.le_intern _ "arg").trans le₅
  have le₃ := ((Interner.stable_internExternals setup.arguments).grows _).trans le₄
  have le₂ := ((Interner.stable_internExternals setup.externals).grows _).trans le₃
  have le₁ := (Interner.le_intern _ "std").trans le₂
  rw [(Interner.stable_libraryFields functions).again names later le₁]
  dsimp only
  rw [Interner.intern_again le₂]
  dsimp only
  rw [(Interner.stable_internExternals setup.externals).again _ later le₃]
  dsimp only
  rw [(Interner.stable_internExternals setup.arguments).again _ later le₄]
  dsimp only
  rw [Interner.intern_again le₅]
  dsimp only
  rw [Interner.intern_again le₆]
  dsimp only
  refine Prod.ext ?_ ?_
  · dsimp only
    rw [Interner.intern_again le]
  · dsimp only
    rw [Interner.intern_again le]
    rfl

/-! ### What a program comes to -/

/-- Whether an outcome is an overflow of the stack. -/
def OverflowsStack {α : Type} (outcome : Except Failure α) : Prop :=
  ∃ failure, outcome = .error failure ∧ failure.isOverflow = true

/-- A program comes to what it comes to for the reference evaluator, if there is enough room for
frames. -/
theorem Agreement.outcome_of_ends {reference memo : Session} {k : Leeway} {s : Stage} {code : Code}
    {x : Outcome String} {outcome : Except Failure String} {b : State}
    (ends : (comparison reference memo k).Ends
      ((Call.evaluate code).ResultsMatch (.evaluate code)) s x (outcome, b)) :
  outcome.mapError Failure.kind = x.1.mapError Failure.kind ∨ ¬ k.roomy ∧ OverflowsStack outcome
  := by
  cases ends with
  | ok s' le inv result =>
    cases Option.some.inj result.text
    exact .inl rfl
  | error fails sound => exact .inl (congrArg Except.error fails.kind.symm)
  | overflow cramped overflow sound => exact .inr ⟨cramped, _, rfl, overflow⟩

/-- What has been asked for before makes no difference. If the reference evaluator, which is new,
completes a program, then an interpreter that has been used before and a new one come to the same
text or to failures of the same kind, and so does each other one with the same settings; only where
the reference evaluator was given more room for frames one of them may overflow the stack. -/
theorem Setup.earlier_calls_invisible (setup : Setup) (sharing : setup.sharing = true)
    (lawful : setup.frontEnd.Lawful) {names : Interner} {a b : State}
    {given : List (Value × Value)} (h : (setup.start names).1.Tandem (setup.start names).2 a b given)
    {code : Code} (named : code.Named b.names.Knows) {room : Nat} {x : Outcome String}
    (completes : code.output.Completes (setup.start names).1.reference b.slots.size
      (.new b.names room) x) :
  ∃ used b' fresh c, code.output.Ends (setup.start names).1 b used b' ∧
    code.output.Ends (setup.start b.names).1 (setup.start b.names).2 fresh c ∧
    (used.mapError Failure.kind = fresh.mapError Failure.kind ∨
      setup.settings.maxStack < room ∧ (OverflowsStack used ∨ OverflowsStack fresh))
  := by
  obtain ⟨session, start, heq, prepared⟩ := setup.exists_start names
  have again (le : (setup.start names).2.names ≤ b.names) :
      setup.start b.names = ((setup.start names).1, .new b.names setup.settings.maxStack) :=
    setup.start_again le
  rw [← setup.start_frontEnd names] at lawful
  rw [← setup.start_sharing names] at sharing
  rw [heq] at h completes lawful sharing again ⊢
  obtain ⟨⟨s, linked⟩, le, stack⟩ := h.linked lawful sharing prepared
  rw [again le]
  -- the reference evaluator begins anew, beside the interpreter that has been used and a new one
  obtain ⟨s, renewed⟩ := linked.renew lawful room
  have confirmed :=
    Agreement.new_confirmed session.reference b.names setup.settings.maxStack session.library
  obtain ⟨s', new⟩ := Session.linked_new (b := .new b.names setup.settings.maxStack) lawful
    (prepared.mono le) confirmed rfl (State.new_idle _ _) room
  have matching : Call.Matches [(.object session.library, .object session.library)] b.names
      (.evaluate code) (.evaluate code) := .evaluate named
  obtain ⟨used, b', ends, carried⟩ := renewed.carries lawful sharing matching completes
  obtain ⟨fresh, c, ends', carried'⟩ := new.carries lawful sharing matching
    (completes.mono (Nat.zero_le _))
  refine ⟨used, b', fresh, c, ends, ends', ?_⟩
  rw [stack] at carried
  obtain same | ⟨cramped, overflows⟩ := Agreement.outcome_of_ends carried
  · obtain same' | ⟨cramped, overflows⟩ := Agreement.outcome_of_ends carried'
    · exact .inl (same.trans same'.symm)
    · exact .inr ⟨Nat.not_le.mp cramped, .inr overflows⟩
  · exact .inr ⟨Nat.not_le.mp cramped, .inl overflows⟩

/-- The reference evaluator completes the program that binds a variable to null. -/
theorem Code.localNull_completes :
  let session := (Setup.bare.start .onlyEmpty).1
  let names := (Setup.bare.start .onlyEmpty).2.names
  ∃ x, Code.localNull.output.Completes session.reference 1 (.new names 500) x
  := by
  intro session names
  have hends : ((Code.localNull.output session.reference).resolve session.reference
      (Task.perform session.reference 6) (.new names 500)).map
        (fun x => (x.1, x.2.slots.size)) = some (.ok "null\n", 1) := by decide +kernel
  have hevents : (Code.localNull.output session.reference).events session.reference
      (Task.perform session.reference 6) (Task.events session.reference 6) (.new names 500)
        = [.begins (.thunk ⟨0⟩), .succeeds (.thunk ⟨0⟩)] := by decide +kernel
  obtain ⟨⟨outcome, b⟩, hx, heq⟩ := Option.map_eq_some_iff.mp hends
  obtain ⟨rfl, slots⟩ := Prod.mk.inj heq
  refine ⟨_, Action.run_iff.mpr ⟨6, hx⟩, (fun _ h => by cases h), ?_,
    .of_events hx hevents (by simp)⟩
  rw [slots]
  decide

/-- After a program that has failed, another one comes to the same as in a new interpreter. -/
theorem Setup.earlier_calls_invisible_of_self :
  let session := (bare.start .onlyEmpty).1
  ∃ trace a b given x, bare.sharing = true ∧ bare.frontEnd.Lawful ∧
    Code.localSelf.output.Ends session (bare.start .onlyEmpty).2
      (.error (.runtime .selfOutsideObject trace)) b ∧
    session.Tandem (bare.start .onlyEmpty).2 a b given ∧ Code.localNull.Named b.names.Knows ∧
    Code.localNull.output.Completes session.reference b.slots.size (.new b.names 500) x ∧
    ∃ used b' fresh c, Code.localNull.output.Ends session b used b' ∧
      Code.localNull.output.Ends (bare.start b.names).1 (bare.start b.names).2 fresh c ∧
      used.mapError Failure.kind = fresh.mapError Failure.kind
  := by
  intro session
  let names := (bare.start .onlyEmpty).2.names
  have lawful : session.frontEnd.Lawful :=
    ⟨fun _ _ _ => le_rfl, (fun _ _ _ _ h => by cases h), fun _ _ _ _ _ => rfl⟩
  have empty : names.Knows .empty := names.gives_empty.knows
  obtain ⟨trace, b, ends, hnames, slots⟩ := Code.localSelf_ends session names
  obtain ⟨x, completes⟩ := Code.localSelf_completes
  have tandem : session.Tandem (.new names 500) _ b _ :=
    .failed (.start 500) (.evaluate (Code.named_localSelf empty))
      (completes.mono (Nat.zero_le _)) ends
  have named : Code.localNull.Named b.names.Knows := Code.named_localNull (hnames ▸ empty)
  obtain ⟨y, completes⟩ := Code.localNull_completes
  have completes : Code.localNull.output.Completes session.reference b.slots.size
      (.new b.names 500) y := by
    rw [hnames, slots]
    exact completes
  obtain ⟨used, b', fresh, c, ends', ends'', same | ⟨cramped, -⟩⟩ :=
    earlier_calls_invisible bare rfl lawful tandem named completes
  · exact ⟨trace, _, b, _, y, rfl, lawful, ends, tandem, named, completes, used, b', fresh, c, ends',
      ends'', same⟩
  · exact absurd cramped (lt_irrefl 500)

end Jsonnet
