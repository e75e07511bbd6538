import Jsonnet.Proofs.Lockstep
import Jsonnet.Proofs.Origins

/-!
# Operations in lockstep

Related operations on states that fit a world come to related results, in states that fit
a larger world. The interners of the two states may differ, as long as they give out the
same names.
-/

namespace Jsonnet

/-! ### Interners in step -/

/-- A way of adding to an interner that comes to the same again, with any interner that
extends the result, and changes nothing then. -/
structure Interner.Stable {α : Type} (f : Interner → α × Interner) : Prop where
  grows : ∀ names, names ≤ (f names).2
  again : ∀ names later, (f names).2 ≤ later → f later = ((f names).1, later)

/-- How the interners of two runs are related, and which interners they come to. -/
structure Naming where
  rel : Interner → Interner → Prop
  fine : Interner → Prop
  fine' : Interner → Prop

/-- Interners that are related give out the same names, and stay related. -/
structure Naming.Lawful (ν : Naming) : Prop where
  upper : ∀ {m n}, ν.rel m n → ∃ names, m ≤ names ∧ n ≤ names
  step : ∀ {α : Type} {f : Interner → α × Interner}, Interner.Stable f → ∀ {m n},
    ν.rel m n → ν.fine (f m).2 → ν.fine' (f n).2 →
    (f m).1 = (f n).1 ∧ ν.rel (f m).2 (f n).2

namespace Naming

/-- Interners that are equal or, if the second one is fixed, of which the first one may be behind. -/
def behind (names : Interner) (fixed : Prop) : Naming where
  rel m n := m ≤ n ∧ (fixed → n = names) ∧ (¬ fixed → m = n)
  fine m := m ≤ names
  fine' _ := True

theorem behind_lawful (names : Interner) (fixed : Prop) :
  (behind names fixed).Lawful
  where
  upper h := ⟨_, h.1, le_rfl⟩
  step := by
    rintro α f hf m n ⟨hle, hfixed, hsame⟩ hfine _
    by_cases hfix : fixed
    · cases hfixed hfix
      rw [hf.again m names hfine]
      exact ⟨rfl, hfine, fun _ => rfl, absurd hfix⟩
    · cases hsame hfix
      exact ⟨rfl, le_rfl, fun h => absurd h hfix, fun _ => rfl⟩

/-- Interners below one, which is the second if that is fixed. -/
def below (names : Interner) (fixed : Prop) : Naming where
  rel m n := m ≤ names ∧ n ≤ names ∧ (fixed → n = names)
  fine m := m ≤ names
  fine' n := fixed ∨ n ≤ names

theorem below_lawful (names : Interner) (fixed : Prop) :
  (below names fixed).Lawful
  where
  upper h := ⟨names, h.1, h.2.1⟩
  step := by
    rintro α f hf m n ⟨hm, hn, hfixed⟩ hfine hfine'
    have hm' := hf.again m names hfine
    obtain hfix | hfine' := hfine'
    · cases hfixed hfix
      rw [hm']
      exact ⟨rfl, hfine, le_rfl, fun _ => rfl⟩
    · have hn' := hf.again n names hfine'
      refine ⟨?_, hfine, hfine', ?_⟩
      · exact (Prod.mk.inj (hm'.symm.trans hn')).1
      · intro hfix
        cases hfixed hfix
        rw [hm']

end Naming

/-- Interning, with a failure as a result. -/
def Interner.attempt (s : String) (names : Interner) : Except InternError Name × Interner :=
  match names.tryIntern s with
  | .ok (name, later) => (.ok name, later)
  | .error e => (.error e, names)

theorem Interner.stable_attempt (s : String) :
  Interner.Stable (Interner.attempt s)
  where
  grows names := by
    rw [attempt]
    split
    case h_1 name later h => exact (tryIntern_ok h).1
    case h_2 => exact le_rfl
  again names later hle := by
    rw [attempt] at hle
    cases h : names.tryIntern s with
    | ok result =>
      obtain ⟨name, grown⟩ := result
      rw [h] at hle
      simp only [attempt, h, ((tryIntern_ok h).2.mono hle).tryIntern_eq]
    | error e =>
      rw [h] at hle
      simp only [attempt, h, tryIntern_error h hle]

/-- A name that an attempt leads to is given out. -/
theorem Interner.gives_attempt {s : String} {names : Interner} {name : Name}
    (h : (attempt s names).1 = .ok name) :
  (attempt s names).2.Gives name
  := by
  rw [attempt] at h ⊢
  split at h
  case h_2 => cases h
  case h_1 known later hintern =>
    cases h
    exact ⟨s, (tryIntern_ok hintern).2⟩

theorem Interner.stable_internAll (strings : List String) :
  Interner.Stable fun names => names.internAll strings
  where
  grows names := le_internAll names strings
  again _ _ hle := internAll_again hle

/-- Turning strings into names, one thing after another. -/
theorem Interner.Stable.bind {α β : Type} {f : Interner → α × Interner}
    {g : α → Interner → β × Interner} (hf : Stable f) (hg : ∀ result, Stable (g result)) :
  Stable fun names => g (f names).1 (f names).2
  where
  grows names := (hf.grows names).trans ((hg _).grows _)
  again names later hle := by
    have h := hf.again names later (((hg _).grows _).trans hle)
    rw [h]
    exact (hg _).again _ later hle

theorem Interner.stable_pure {α : Type} (result : α) :
  Interner.Stable fun names => (result, names)
  where
  grows _ := le_rfl
  again _ _ _ := rfl

theorem Interner.stable_intern (s : String) :
  Interner.Stable fun names => names.intern s
  where
  grows names := names.le_intern s
  again _ _ hle := intern_again hle

theorem FrontEnd.Lawful.stable {frontEnd : FrontEnd} (h : frontEnd.Lawful)
    (file source : String) :
  Interner.Stable fun names => frontEnd names file source
  where
  grows names := h.grows names file source
  again names later hle := h.again names file source later hle

/-- Names that are interned are given out. -/
theorem Interner.gives_internAll (names : Interner) (strings : List String) :
  ∀ name ∈ (names.internAll strings).1, (names.internAll strings).2.Gives name
  := by
  induction strings generalizing names with
  | nil => simp [internAll]
  | cons s rest ih =>
    rw [internAll_cons]
    intro name hname
    obtain rfl | hname := List.mem_cons.mp hname
    · exact (names.gives_intern s).mono (le_internAll _ rest)
    · exact ih _ name hname

/-- Sorting keeps the names as they are. -/
theorem Object.perm_sortNames (names : Interner) (fields : List Name) :
  (sortNames names fields).Perm fields
  := by
  have h := (List.mergeSort_perm (fields.map fun name => (names.lookup name, name))
    fun a b => decide (a.1 ≤ b.1)).map Prod.snd
  rw [List.map_map, Function.comp_def, List.map_id'] at h
  exact h

/-- The strings of sorted names are in order. -/
theorem Object.sorted_sortNames (names : Interner) (fields : List Name) :
  (sortNames names fields).Pairwise fun n m => names.lookup n ≤ names.lookup m
  := by
  have pairs := @List.pairwise_mergeSort (String × Name) (fun a b => decide (a.1 ≤ b.1))
    (fun a b c => by simpa using le_trans) (fun a b => by simpa using le_total a.1 b.1)
    (fields.map fun name => (names.lookup name, name))
  rw [sortNames, List.pairwise_map]
  refine pairs.imp_of_mem ?_
  intro a b ha hb hab
  obtain ⟨n, -, rfl⟩ := List.mem_map.mp ((List.mergeSort_perm _ _).mem_iff.mp ha)
  obtain ⟨m, -, rfl⟩ := List.mem_map.mp ((List.mergeSort_perm _ _).mem_iff.mp hb)
  exact of_decide_eq_true hab

/-- Names of different strings are sorted in the same way whatever their order. -/
theorem Object.sortNames_eq_of_perm {names : Interner} {fields others : List Name}
    (perm : fields.Perm others) (given : ∀ name ∈ fields, names.Gives name) :
  sortNames names fields = sortNames names others
  := by
  have left := perm_sortNames names fields
  have right := perm_sortNames names others
  refine List.Perm.eq_of_pairwise ?_ (sorted_sortNames names fields) (sorted_sortNames names others)
    ((left.trans perm).trans right.symm)
  intro n m hn hm hnm hmn
  exact (given n (left.mem_iff.mp hn)).unique (given m (perm.mem_iff.mpr (right.mem_iff.mp hm)))
    (le_antisymm hnm hmn)

/-! ### States that fit a world -/

/-- States with origins that a world pairs: what is paired was made alike. -/
structure World.Fits (session : Session) (w : World .loose) (O : Origins) (a : State) (O' : Origins)
    (b : State) : Prop where
  name : ∀ n, w.name n → a.names.Knows n ∧ b.names.Knows n
  thunk : ∀ t t', w.thunk t t' → ∃ s s', O.thunks[t.index]? = some s ∧
    O'.thunks[t'.index]? = some s' ∧ Alike w.toPairing (.suspension s) (.suspension s')
  slot : ∀ i j, w.slot i j → ∃ d d', a.slots.entries[i.index]? = some d ∧
    b.slots.entries[j.index]? = some d' ∧ Alike w.toPairing (.deferred d) (.deferred d')
  object : ∀ o p, w.object o p → O.objects[o.id.index]? = some o ∧
    O'.objects[p.id.index]? = some p
  library : w.self session.library session.library
  stems : a.Stems session O
  stems' : b.Stems session O'

/-- The outcomes of related operations on states that fit a world. -/
inductive Operation.Results (session : Session) (ν : Naming) (w : World .loose) (O : Origins)
    (a : State) (O' : Origins) (b : State) {α β : Type} (T : World .loose → α → β → Prop) :
    Outcome α → Outcome β → Prop where
  | ok {r : α} {r' : β} {a₁ b₁ : State} (w₁ : World .loose) (le : w ≤ w₁) (P P' : Origins)
      (adds : a.Adds session O P a₁) (adds' : b.Adds session O' P' b₁)
      (fits : w₁.Fits session P a₁ P' b₁) (names : ν.rel a₁.names b₁.names)
      (self : ∀ o p, w₁.self o p → w.self o p)
      (object : ∀ o p, w₁.object o p → w.object o p ∨
        (o.id.index = O.objects.length ∧ p.id.index = O'.objects.length))
      (result : T w₁ r r') :
    Results session ν w O a O' b T (.ok r, a₁) (.ok r', b₁)
  | error {f f' : Failure} {a₁ b₁ : State} (kind : f.kind = f'.kind) (P' : Origins)
      (adds' : b.Adds session O' P' b₁) (names : ν.rel a₁.names b₁.names) :
    Results session ν w O a O' b T (.error f, a₁) (.error f', b₁)

namespace World.Fits

variable {session : Session} {w : World .loose} {O O' P P' : Origins} {a b a₁ b₁ : State}

/-- Names that both states know have the same strings. -/
theorem lookup_eq {ν : Naming} (hν : ν.Lawful) (fits : w.Fits session O a O' b)
    (names : ν.rel a.names b.names) {n : Name} (known : w.name n) :
  a.names.lookup n = b.names.lookup n
  := by
  obtain ⟨later, hm, hn⟩ := hν.upper names
  obtain ⟨hknows, hknows'⟩ := fits.name n known
  rw [← hknows.lookup_eq hm, ← hknows'.lookup_eq hn]

/-- Later states fit a world in which more is paired. -/
theorem extend (fits : w.Fits session O a O' b) {w₁ : World .loose} {more : Pairing .loose}
    (hw : w₁.toPairing = w.toPairing.join more) (hO : O ≤ P) (hO' : O' ≤ P')
    (ha : a.Keeps a₁) (hb : b.Keeps b₁) (stems : a₁.Stems session P)
    (stems' : b₁.Stems session P')
    (name : ∀ n, more.name n → a₁.names.Knows n ∧ b₁.names.Knows n)
    (thunk : ∀ t t', more.thunk t t' → ∃ s s', P.thunks[t.index]? = some s ∧
      P'.thunks[t'.index]? = some s' ∧ Alike w₁.toPairing (.suspension s) (.suspension s'))
    (slot : ∀ i j, more.slot i j → ∃ d d', a₁.slots.entries[i.index]? = some d ∧
      b₁.slots.entries[j.index]? = some d' ∧ Alike w₁.toPairing (.deferred d) (.deferred d'))
    (object : ∀ o p, more.object o p → P.objects[o.id.index]? = some o ∧
      P'.objects[p.id.index]? = some p) :
  w₁.Fits session P a₁ P' b₁
  := by
  have hle : w.toPairing ≤ w₁.toPairing := hw ▸ Pairing.le_join_left _ _
  refine ⟨?_, ?_, ?_, ?_, Pairing.self_mono hle fits.library, stems, stems'⟩
  · intro n h
    rw [hw] at h
    obtain h | h := h
    · exact ⟨(fits.name n h).1.mono ha.names, (fits.name n h).2.mono hb.names⟩
    · exact name n h
  · intro t t' h
    rw [hw] at h
    obtain h | h := h
    · obtain ⟨s, s', hs, hs', halike⟩ := fits.thunk t t' h
      exact ⟨s, s', Origins.thunk_mono hO hs, Origins.thunk_mono hO' hs', halike.mono hle⟩
    · exact thunk t t' h
  · intro i j h
    rw [hw] at h
    obtain h | h := h
    · obtain ⟨d, d', hd, hd', halike⟩ := fits.slot i j h
      exact ⟨d, d', ha.slot hd, hb.slot hd', halike.mono hle⟩
    · exact slot i j h
  · intro o p h
    rw [hw] at h
    obtain h | h := h
    · exact ⟨Origins.object_mono hO (fits.object o p h).1,
        Origins.object_mono hO' (fits.object o p h).2⟩
    · exact object o p h

/-- Later states fit the same world. -/
theorem keeps (fits : w.Fits session O a O' b) (hO : O ≤ P) (hO' : O' ≤ P')
    (ha : a.Keeps a₁) (hb : b.Keeps b₁) (stems : a₁.Stems session P)
    (stems' : b₁.Stems session P') :
  w.Fits session P a₁ P' b₁
  where
  name n h := ⟨(fits.name n h).1.mono ha.names, (fits.name n h).2.mono hb.names⟩
  thunk t t' h := by
    obtain ⟨s, s', hs, hs', halike⟩ := fits.thunk t t' h
    exact ⟨s, s', Origins.thunk_mono hO hs, Origins.thunk_mono hO' hs', halike⟩
  slot i j h := by
    obtain ⟨d, d', hd, hd', halike⟩ := fits.slot i j h
    exact ⟨d, d', ha.slot hd, hb.slot hd', halike⟩
  object o p h := ⟨Origins.object_mono hO (fits.object o p h).1,
    Origins.object_mono hO' (fits.object o p h).2⟩
  library := fits.library
  stems := stems
  stems' := stems'

end World.Fits

/-! ### Related operations -/

/-- Operations do the same in sessions that agree. -/
theorem Operation.apply_agrees {first second : Session} (agrees : first.Agrees second)
    (state : State) (op : Operation) :
  op.apply second state = op.apply first state
  := by
  have hcompile : ∀ (state : State) context file source,
      state.compile second context file source = state.compile first context file source := by
    intro state context file source
    simp only [State.compile, agrees.frontEnd, agrees.base]
  cases op with
  | importText directory path site => simp only [apply, agrees.importer]
  | imported directory path site =>
    simp only [apply, State.imported, agrees.importer, hcompile]
  | external name given =>
    cases given <;> simp only [apply, State.external, State.given, hcompile]
  | argument name given => cases given <;> simp only [apply, State.given, hcompile]
  | _ => rfl

namespace Operation

variable {session : Session} {ν : Naming} {w : World .loose} {O O' : Origins} {a b : State}
  (lawful : session.frontEnd.Lawful) (hν : ν.Lawful) (fits : w.Fits session O a O' b)
  (names : ν.rel a.names b.names)

include fits names in
/-- Operations that pair nothing more. -/
theorem results_same {α β : Type} {T : World .loose → α → β → Prop} {r : α} {r' : β} {a₁ b₁ : State}
    (ha : a.Adds session O O a₁) (hb : b.Adds session O' O' b₁) (hkeeps : a.Keeps a₁)
    (hkeeps' : b.Keeps b₁) (hnames : a₁.names = a.names) (hnames' : b₁.names = b.names)
    (result : T w r r') :
  Results session ν w O a O' b T (.ok r, a₁) (.ok r', b₁)
  := by
  refine .ok w le_rfl O O' ha hb ?_ (hnames ▸ hnames' ▸ names) (fun _ _ h => h)
    (fun _ _ h => .inl h) result
  exact fits.keeps le_rfl le_rfl hkeeps hkeeps' ha.stems hb.stems

include lawful hν fits names in
/-- Operations that add names. -/
theorem results_names {γ α β : Type} {f : Interner → γ × Interner} (hf : Interner.Stable f)
    {T : World .loose → α → β → Prop} {r : γ → Except Failure α} {q : γ → Except Failure β}
    (hfine : ν.fine (f a.names).2) (hfine' : ν.fine' (f b.names).2)
    (result : ∀ w₁ : World .loose, (f a.names).1 = (f b.names).1 →
      (∀ n, (f a.names).2.Knows n → (f b.names).2.Knows n → w₁.name n) →
      (∃ x y, r (f a.names).1 = .ok x ∧ q (f b.names).1 = .ok y ∧ T w₁ x y) ∨
        ∃ g g', r (f a.names).1 = .error g ∧ q (f b.names).1 = .error g' ∧ g.kind = g'.kind) :
  Results session ν w O a O' b T (r (f a.names).1, { a with names := (f a.names).2 })
    (q (f b.names).1, { b with names := (f b.names).2 })
  := by
  obtain ⟨heq, hrel⟩ := hν.step hf names hfine hfine'
  have hkeeps : a.Keeps { a with names := (f a.names).2 } := ⟨hf.grows a.names, id, id⟩
  have hkeeps' : b.Keeps { b with names := (f b.names).2 } := ⟨hf.grows b.names, id, id⟩
  have stems : ({ a with names := (f a.names).2 } : State).Stems session O :=
    fits.stems.extend lawful le_rfl (hf.grows a.names) rfl rfl fits.stems.thunks fits.stems.objects
  have stems' : ({ b with names := (f b.names).2 } : State).Stems session O' :=
    fits.stems'.extend lawful le_rfl (hf.grows b.names) rfl rfl fits.stems'.thunks
      fits.stems'.objects
  have adds : a.Adds session O O { a with names := (f a.names).2 } := .same rfl rfl rfl stems
  have adds' : b.Adds session O' O' { b with names := (f b.names).2 } := .same rfl rfl rfl stems'
  let more : Pairing .loose :=
    { Pairing.nothing .loose with name := fun n => (f a.names).2.Knows n ∧ (f b.names).2.Knows n }
  let w₁ := w.extend more (fun h => h.elim) fun h => h.elim
  have fits₁ : w₁.Fits session O { a with names := (f a.names).2 } O'
      { b with names := (f b.names).2 } :=
    fits.extend rfl le_rfl le_rfl hkeeps hkeeps' stems stems' (fun _ h => h)
      (fun _ _ h => h.elim) (fun _ _ h => h.elim) fun _ _ h => h.elim
  obtain ⟨x, y, hx, hy, hT⟩ | ⟨g, g', hg, hg', hkind⟩ :=
    result w₁ heq fun n h h' => .inr ⟨h, h'⟩
  · rw [hx, hy]
    exact .ok w₁ (w.le_extend _ _ _) O O' adds adds' fits₁ hrel
      (fun _ _ h => h.resolve_right id) (fun _ _ h => .inl (h.resolve_right id)) hT
  · rw [hg, hg']
    exact .error hkind O' adds' hrel

include hν fits names in
theorem sortNames_eq {fields : List Name} (known : ∀ name ∈ fields, w.name name) :
  Object.sortNames a.names fields = Object.sortNames b.names fields
  := by
  rw [Object.sortNames, Object.sortNames]
  congr 2
  apply List.map_congr_left
  intro n hn
  rw [fits.lookup_eq hν names (known n hn)]

/-! ### New thunks, slots and objects -/

/-- New thunks were made from alike suspensions. -/
theorem newThunks_origin {a b : State} {O O' : Origins} {u : Pairing .loose}
    (stems : a.thunks.size = O.thunks.length) (stems' : b.thunks.size = O'.thunks.length)
    {ss ss' : List Suspension}
    (alike : List.Forall₂ (fun s s' => Alike u (.suspension s) (.suspension s')) ss ss')
    {t t' : ThunkId} (h : (newThunks .loose a b ss.length).thunk t t') :
  ∃ s s', (O.thunks ++ ss)[t.index]? = some s ∧ (O'.thunks ++ ss')[t'.index]? = some s' ∧
    Alike u (.suspension s) (.suspension s')
  := by
  obtain ⟨k, hk, ht, ht'⟩ := h
  have hget := forall₂_getElem? alike k
  rw [ht, ht', stems, stems', List.getElem?_append_right (Nat.le_add_right _ _),
    List.getElem?_append_right (Nat.le_add_right _ _), Nat.add_sub_cancel_left,
    Nat.add_sub_cancel_left]
  obtain ⟨hs, -⟩ | ⟨s, s', hs, hs', h⟩ := optionRel_iff.mp hget
  · rw [List.getElem?_eq_none_iff] at hs
    omega
  · exact ⟨s, s', hs, hs', h⟩

/-- The states and origins with some thunks more. -/
theorem adds_thunks {session : Session} {a c : State} {O : Origins}
    (lawful : session.frontEnd.Lawful) (stems : a.Stems session O) (ss : List Suspension)
    (hthunks : c.thunks = a.thunks ++ ss.map Cell.pending) (hnames : c.names = a.names)
    (hchecks : c.checks = a.checks) (hfields : c.fields = a.fields)
    (himports : c.imports = a.imports) (hexternals : c.externals = a.externals) :
  a.Adds session O ⟨O.thunks ++ ss, O.objects⟩ c
  where
  thunks := ⟨ss, rfl, hthunks⟩
  objects := ⟨[], by simp, by simp [hchecks]⟩
  fields := hfields
  stems := by
    refine stems.extend lawful ?_ (hnames ▸ le_rfl) himports hexternals ?_ ?_
    · exact ⟨List.prefix_append _ _, List.prefix_refl _⟩
    · rw [hthunks, ← Array.length_toList, Array.toList_appendList, List.length_append,
        List.length_append, List.length_map, Array.length_toList, stems.thunks]
    · rw [hchecks, stems.objects]

/-- The states and origins with an object more. -/
theorem adds_object {session : Session} {a : State} {O : Origins}
    (lawful : session.frontEnd.Lawful) (stems : a.Stems session O) (object : Object) :
  a.Adds session O ⟨O.thunks, O.objects ++ [object]⟩
    { a with checks := a.checks.push .notChecked }
  where
  thunks := ⟨[], by simp, by simp⟩
  objects := ⟨[object], rfl, by simp⟩
  fields := rfl
  stems := by
    refine stems.extend lawful ?_ le_rfl rfl rfl stems.thunks ?_
    · exact ⟨List.prefix_refl _, List.prefix_append _ _⟩
    · simp [stems.objects]

/-- What stands in an array stands there after something is pushed. -/
theorem getElem?_push {α : Type} {xs : Array α} {x y : α} {i : Nat} (h : xs[i]? = some x) :
  (xs.push y)[i]? = some x
  := by
  obtain ⟨hlt, rfl⟩ := Array.getElem?_eq_some_iff.mp h
  exact Array.getElem?_push_lt hlt

include lawful fits names in
theorem results_share {ss ss' : List Suspension}
    (alike : List.Forall₂
      (fun s s' => Alike w.toPairing (.suspension s) (.suspension s')) ss ss') :
  Results session ν w O a O' b AlikeDeferreds (.ok (a.share ss).1, (a.share ss).2)
    (.ok (b.share ss').1, (b.share ss').2)
  := by
  have adds := adds_thunks (c := (a.share ss).2) lawful fits.stems ss rfl rfl rfl rfl rfl rfl
  have adds' := adds_thunks (c := (b.share ss').2) lawful fits.stems' ss' rfl rfl rfl rfl rfl rfl
  let more := newThunks .loose a b ss.length
  let w₁ := w.extend more (fun h => h.elim) fun h => h.elim
  refine .ok w₁ (w.le_extend _ _ _) _ _ adds adds' ?_ names (fun _ _ h => h.resolve_right id)
    (fun _ _ h => .inl (h.resolve_right id)) ?_
  · have hkeeps : a.Keeps (a.share ss).2 := ⟨le_rfl, id, id⟩
    have hkeeps' : b.Keeps (b.share ss').2 := ⟨le_rfl, id, id⟩
    apply fits.extend rfl adds.le adds'.le hkeeps hkeeps' adds.stems adds'.stems
    · exact fun _ h => h.elim
    · intro t t' h
      exact newThunks_origin fits.stems.thunks fits.stems'.thunks
        (alike.imp fun _ _ h => h.mono (Pairing.le_join_left _ _)) h
    · exact fun _ _ h => h.elim
    · exact fun _ _ h => h.elim
  · rw [AlikeDeferreds, alike_deferreds_iff, State.share, State.share, ← alike.length_eq]
    exact newThunks_alike (Pairing.le_join_right w.toPairing more)

include lawful fits names in
theorem results_newObject (object object' : ObjectId → Object) (hid : ∀ i, (object i).id = i)
    (hid' : ∀ i, (object' i).id = i) (alike : ∀ i j, (object i).Alike w.toPairing (object' j)) :
  Results session ν w O a O' b Paired (.ok (a.newObject object).1, (a.newObject object).2)
    (.ok (b.newObject object').1, (b.newObject object').2)
  := by
  let new := object ⟨a.checks.size⟩
  let new' := object' ⟨b.checks.size⟩
  have adds := adds_object (a := a) lawful fits.stems new
  have adds' := adds_object (a := b) lawful fits.stems' new'
  let more : Pairing .loose := { Pairing.nothing .loose with object := fun o p => o = new ∧ p = new' }
  have hmore : ∀ {o p}, more.object o p → o.Alike (w.toPairing.join more) p := by
    rintro o p ⟨rfl, rfl⟩
    exact (alike _ _).mono (Pairing.le_join_left _ _)
  have hindex : new.id.index = O.objects.length := by
    rw [← fits.stems.objects]
    exact congrArg ObjectId.index (hid _)
  have hindex' : new'.id.index = O'.objects.length := by
    rw [← fits.stems'.objects]
    exact congrArg ObjectId.index (hid' _)
  refine .ok (w.extend more (fun h => h.elim) hmore) (w.le_extend _ _ _) _ _ adds adds' ?_ names
    (fun _ _ h => h.resolve_right id) ?_ (.inr ⟨rfl, rfl⟩)
  · have hkeeps : a.Keeps (a.newObject object).2 := ⟨le_rfl, id, getElem?_push⟩
    have hkeeps' : b.Keeps (b.newObject object').2 := ⟨le_rfl, id, getElem?_push⟩
    apply fits.extend rfl adds.le adds'.le hkeeps hkeeps' adds.stems adds'.stems
    · exact fun _ h => h.elim
    · exact fun _ _ h => h.elim
    · exact fun _ _ h => h.elim
    · rintro o p ⟨rfl, rfl⟩
      rw [hindex, hindex']
      exact ⟨List.getElem?_concat_length .., List.getElem?_concat_length ..⟩
  · rintro o p (h | ⟨rfl, rfl⟩)
    · exact .inl h
    · exact .inr ⟨hindex, hindex'⟩

/-- The pairing of `count` slots that are reserved one after the other in both runs. -/
def newSlots (a b : State) (count : Nat) : Pairing .loose :=
  { newThunks .loose a b count with
    slot := fun i j => ∃ k < count, i.index = a.slots.size + k ∧ j.index = b.slots.size + k }

/-- New slots stand for each other in their order. -/
theorem newSlots_paired {a b : State} {count : Nat} {u : Pairing .loose}
    (h : newSlots a b count ≤ u) :
  List.Forall₂ u.slot ((List.range' a.slots.size count).map SlotId.mk)
    ((List.range' b.slots.size count).map SlotId.mk)
  := by
  rw [List.range'_eq_map_range, List.range'_eq_map_range, List.map_map, List.map_map,
    List.forall₂_map_left_iff, List.forall₂_map_right_iff, List.forall₂_same]
  intro k hk
  exact Pairing.slot_mono h ⟨k, List.mem_range.mp hk, rfl, rfl⟩

include lawful fits names in
theorem results_bindLocals {code : Code} {e e' : Env} (binds : List Bind)
    (hasSlots : (a.bindLocals code e binds).2.HasSlots)
    (hasSlots' : (b.bindLocals code e' binds).2.HasSlots)
    (named : code.Named w.name) (env : Alike w.toPairing (.env e) (.env e')) :
  Results session ν w O a O' b (Opened (binds.map Bind.name) e)
    (.ok (a.bindLocals code e binds).1, (a.bindLocals code e binds).2)
    (.ok (b.bindLocals code e' binds).1, (b.bindLocals code e' binds).2)
  := by
  obtain ⟨hbinds, hself⟩ := a.bindLocals_env code e binds
  rw [State.HasSlots, State.size_bindLocals_slots] at hasSlots hasSlots'
  rw [State.bindLocals_eq a code e binds hasSlots] at hbinds hself ⊢
  rw [State.bindLocals_eq b code e' binds hasSlots']
  let more := newSlots a b binds.length
  let u := w.toPairing.join more
  have hmore : more ≤ u := Pairing.le_join_right _ _
  have hthunks : newThunks .loose a b binds.length ≤ u :=
    ⟨fun _ h => h.elim, fun _ _ => .inr, fun _ _ h => h.elim, fun _ _ h => h.elim,
      fun _ _ h => h.elim⟩
  have hw : w.toPairing ≤ u := Pairing.le_join_left _ _
  have inner : Alike u (.env (a.localEnv e binds)) (.env (b.localEnv e' binds)) := by
    have henv := env.mono hw
    apply henv.withScope
    exact (alike_env_iff.mp henv).1.bindSlots (newSlots_paired hmore) _
  let ss (e : Env) : List Suspension :=
    binds.map fun bind => .code (.thunk bind.name) e (code.sibling bind.body)
  have alike : List.Forall₂ (fun s s' => Alike u (.suspension s) (.suspension s'))
      (ss (a.localEnv e binds)) (ss (b.localEnv e' binds)) := by
    rw [List.forall₂_map_left_iff, List.forall₂_map_right_iff, List.forall₂_same]
    intro bind _
    exact .code Terms.agrees_rfl inner
      ((named.sibling bind.body).mono fun _ => Pairing.name_mono hw) (.loose _ _ _)
  have adds := adds_thunks (c := a.localState code e binds) lawful fits.stems
    (ss (a.localEnv e binds)) (by rw [List.map_map]; rfl) rfl rfl rfl rfl rfl
  have adds' := adds_thunks (c := b.localState code e' binds) lawful fits.stems'
    (ss (b.localEnv e' binds)) (by rw [List.map_map]; rfl) rfl rfl rfl rfl rfl
  have hkeeps : a.Keeps (a.localState code e binds) := ⟨le_rfl, a.localState_slot code e binds, id⟩
  have hkeeps' : b.Keeps (b.localState code e' binds) :=
    ⟨le_rfl, b.localState_slot code e' binds, id⟩
  refine .ok (w.extend more (fun h => h.elim) fun h => h.elim) (w.le_extend _ _ _) _ _ adds adds'
    ?_ names (fun _ _ h => h.resolve_right id) (fun _ _ h => .inl (h.resolve_right id))
    ⟨inner, hbinds, hself⟩
  apply fits.extend rfl adds.le adds'.le hkeeps hkeeps' adds.stems adds'.stems
  · exact fun _ h => h.elim
  · intro t t' h
    have hlength : (ss (a.localEnv e binds)).length = binds.length := List.length_map _
    exact newThunks_origin fits.stems.thunks fits.stems'.thunks alike (hlength.symm ▸ h)
  · rintro i j ⟨k, hk, hi, hj⟩
    rw [hi, hj]
    exact ⟨_, _, a.localState_newSlot code e binds hk, b.localState_newSlot code e' binds hk,
      .shared (Pairing.thunk_mono hmore ⟨k, hk, rfl, rfl⟩)⟩
  · exact fun _ _ h => h.elim

/-! ### Code from outside -/

include lawful hν fits names in
/-- Compiling the same text from outside in both runs. -/
theorem results_compiles {file source : String} {x y : Outcome Deferred}
    (h : State.Compiles session O a file source x)
    (h' : State.Compiles session O' b file source y) (hkeeps : a.Keeps x.2)
    (hkeeps' : b.Keeps y.2) (hfine : ν.fine x.2.names) (hfine' : ν.fine' y.2.names) :
  Results session ν w O a O' b AlikeDeferred x y
  := by
  have hnames : x.2.names = (session.frontEnd a.names file source).2 := by
    cases h <;> assumption
  have hnames' : y.2.names = (session.frontEnd b.names file source).2 := by
    cases h' <;> assumption
  obtain ⟨heq, hrel⟩ := hν.step (lawful.stable file source) names (hnames ▸ hfine)
    (hnames' ▸ hfine')
  rw [← hnames, ← hnames'] at hrel
  cases h with
  | rejected compiled _ adds =>
    cases h' with
    | program compiled' => cases compiled.symm.trans (heq.trans compiled')
    | broken compiled' => cases compiled.symm.trans (heq.trans compiled')
    | rejected compiled' _ adds' =>
      cases compiled.symm.trans (heq.trans compiled')
      refine .ok w le_rfl O O' adds adds' ?_ hrel (fun _ _ h => h) (fun _ _ h => .inl h)
        (.failed (.ofKind rfl))
      exact fits.keeps adds.le adds'.le hkeeps hkeeps' adds.stems adds'.stems
  | broken compiled _ adds =>
    cases h' with
    | program compiled' => cases compiled.symm.trans (heq.trans compiled')
    | rejected compiled' => cases compiled.symm.trans (heq.trans compiled')
    | broken compiled' _ adds' =>
      cases compiled.symm.trans (heq.trans compiled')
      exact .error rfl _ adds' hrel
  | @program P a₁ thunk context code compiled _ adds origin =>
    cases h' with
    | rejected compiled' => cases compiled.symm.trans (heq.trans compiled')
    | broken compiled' => cases compiled.symm.trans (heq.trans compiled')
    | @program P' b₁ thunk' context' _ compiled' _ adds' origin' =>
      cases compiled.symm.trans (heq.trans compiled')
      have hnamed := lawful.named a.names file source code compiled
      have hnamed' := lawful.named b.names file source code compiled'
      dsimp only at hnames hnames'
      rw [← hnames] at hnamed
      rw [← hnames'] at hnamed'
      let more : Pairing .loose :=
        { Pairing.nothing .loose with
          name := fun n => a₁.names.Knows n ∧ b₁.names.Knows n
          thunk := fun t t' => t = thunk ∧ t' = thunk' }
      refine .ok (w.extend more (fun h => h.elim) fun h => h.elim) (w.le_extend _ _ _) P P' adds
        adds' ?_ hrel (fun _ _ h => h.resolve_right id) (fun _ _ h => .inl (h.resolve_right id))
        (.shared (.inr ⟨rfl, rfl⟩))
      apply fits.extend rfl adds.le adds'.le hkeeps hkeeps' adds.stems adds'.stems
      · exact fun _ h => h
      · rintro t t' ⟨rfl, rfl⟩
        have named : code.Named (w.toPairing.join more).name :=
          (hnamed.and hnamed').mono fun n h => .inr h
        exact ⟨_, _, origin, origin', .code (Terms.agrees_loose _ _)
          (base_alike (.inl fits.library)) named (.loose _ _ _)⟩
      · exact fun _ _ h => h.elim
      · exact fun _ _ h => h.elim

include fits names in
/-- Operations that fail in both runs. -/
theorem results_fail {α β : Type} {T : World .loose → α → β → Prop} {f f' : Failure}
    (kind : f.kind = f'.kind) :
  Results session ν w O a O' b T (.error f, a) (.error f', b)
  := .error kind O' (.same rfl rfl rfl fits.stems') names

/-- The outcome of interning. -/
def interned : Except InternError Name → Except Failure Name
  | .ok name => .ok name
  | .error e => .error (.breakdown e.message)

theorem apply_intern (session : Session) (a : State) (s : String) :
  (Operation.intern s).apply session a
    = (interned (Interner.attempt s a.names).1,
        { a with names := (Interner.attempt s a.names).2 })
  := by
  rw [apply, Interner.attempt]
  cases a.names.tryIntern s with
  | ok result => rfl
  | error e => rfl

end Operation

/-! ### All operations -/

/-- Related operations on states that fit a world come to related results. -/
theorem Operation.Related.results {session second : Session} (agrees : session.Agrees second)
    (lawful : session.frontEnd.Lawful) {ν : Naming} (hν : ν.Lawful) {w : World .loose} {O O' : Origins}
    {a b : State} {op op' : Operation} {T : World .loose → op.Result → op'.Result → Prop}
    (h : op.Related session w op' T) (fits : w.Fits session O a O' b)
    (names : ν.rel a.names b.names) (hasSlots : (op.apply session a).2.HasSlots)
    (hasSlots' : (op'.apply second b).2.HasSlots) (fine : ν.fine (op.apply session a).2.names)
    (fine' : ν.fine' (op'.apply second b).2.names) :
  Operation.Results session ν w O a O' b T (op.apply session a) (op'.apply second b)
  := by
  rw [apply_agrees agrees] at hasSlots' fine' ⊢
  have hkeeps := (op.grows session a).keeps lawful hasSlots
  have hkeeps' := (op'.grows session b).keeps lawful hasSlots'
  have same : ∀ {α β : Type} {T : World .loose → α → β → Prop} {r : α} {r' : β}, T w r r' →
      Results session ν w O a O' b T (.ok r, a) (.ok r', b) :=
    fun h => results_same fits names (.same rfl rfl rfl fits.stems)
      (.same rfl rfl rfl fits.stems') (.refl a) (.refl b) rfl rfl h
  cases h with
  | count step =>
    refine results_same fits names (.same rfl rfl rfl ?_) (.same rfl rfl rfl ?_) hkeeps hkeeps'
      rfl rfl rfl
    · exact { fits.stems with }
    · exact { fits.stems' with }
  | text known => exact same (fits.lookup_eq hν names known)
  | intern s =>
    rw [apply_intern] at fine fine' ⊢
    rw [apply_intern]
    apply results_names lawful hν fits names (Interner.stable_attempt s) fine fine'
      (r := interned) (q := interned)
    intro w₁ heq hname
    rw [← heq]
    cases hattempt : (Interner.attempt s a.names).1 with
    | error e => exact .inr ⟨_, _, rfl, rfl, rfl⟩
    | ok name =>
      refine .inl ⟨_, _, rfl, rfl, rfl, hname name ?_ ?_⟩
      · exact (Interner.gives_attempt hattempt).knows
      · exact (Interner.gives_attempt (heq ▸ hattempt)).knows
  | internAll strings =>
    apply results_names lawful hν fits names (Interner.stable_internAll strings) fine fine'
      (r := fun x => .ok x) (q := fun x => .ok x)
    intro w₁ heq hname
    refine .inl ⟨_, _, rfl, rfl, heq, ?_⟩
    intro n hn
    exact hname n (Interner.gives_internAll _ _ n hn).knows
      (Interner.gives_internAll _ _ n (heq ▸ hn)).knows
  | sort known =>
    apply same
    exact ⟨sortNames_eq hν fits names known, fun n hn => known n ((Object.perm_sortNames _ _).mem_iff.mp hn)⟩
  | @literal s s' fields asserts scope name member assertion =>
    refine results_newObject lawful fits names (fun id => .leaf ⟨id, s, fields, asserts⟩)
      (fun id => .leaf ⟨id, s', fields, asserts⟩) (fun _ => rfl) (fun _ => rfl) ?_
    intro i j
    exact .leaf ⟨scope, rfl, rfl, name, member, assertion⟩
  | @combine l r l' r' left right =>
    refine results_newObject lawful fits names (fun id => .combine id l r)
      (fun id => .combine id l' r') (fun _ => rfl) (fun _ => rfl) ?_
    intro i j
    rw [Object.combine, Object.combine, ← (w.alike left).size_eq, ← (w.alike right).size_eq,
      (w.alike left).hasAsserts_eq, (w.alike right).hasAsserts_eq]
    exact .join (fun _ => rfl) (w.alike left) (w.alike right)
  | share alike => exact results_share lawful fits names alike
  | bindLocals binds named env fits' =>
    exact results_bindLocals lawful fits names binds hasSlots hasSlots' named env
  | @slot s s' slot =>
    obtain ⟨d, d', hd, hd', alike⟩ := fits.slot s s' slot
    have hget : a.slots.get? s = some d := hd
    have hget' : b.slots.get? s' = some d' := hd'
    simp only [apply, hget, hget']
    exact same alike
  | @importText directory path site site' same_site =>
    obtain ⟨a₁, htext, hnames, hthunks, hchecks, hfields, hstems⟩ :=
      State.importText_eq fits.stems directory path site
    obtain ⟨b₁, htext', hnames', hthunks', hchecks', hfields', hstems'⟩ :=
      State.importText_eq fits.stems' directory path site'
    simp only [apply, htext, htext'] at hkeeps hkeeps' ⊢
    have adds' : b.Adds session O' O' b₁ := .same hthunks' hchecks' hfields' hstems'
    cases session.importer directory path with
    | error e => exact .error rfl O' adds' (hnames ▸ hnames' ▸ names)
    | ok file =>
      exact results_same fits names (.same hthunks hchecks hfields hstems) adds' hkeeps hkeeps'
        hnames hnames' rfl
  | @imported directory path site site' same_site known =>
    have hcases := State.imported_cases lawful fits.stems directory path site
    have hcases' := State.imported_cases lawful fits.stems' directory path site'
    rw [← fits.lookup_eq hν names known] at hcases'
    cases himporter : session.importer directory (a.names.lookup path) with
    | error e =>
      rw [himporter] at hcases hcases'
      obtain ⟨a₁, heq, -, hnames⟩ := hcases
      obtain ⟨b₁, heq', adds', hnames'⟩ := hcases'
      simp only [apply, heq, heq']
      exact .error rfl O' adds' (hnames ▸ hnames' ▸ names)
    | ok file =>
      rw [himporter] at hcases hcases'
      exact results_compiles lawful hν fits names hcases hcases' hkeeps hkeeps' fine fine'
  | @external name given defined known =>
    have hcases := State.external_cases lawful fits.stems (fits.name _ known).1 defined
    have hcases' := State.external_cases lawful fits.stems' (fits.name _ known).2 defined
    rw [← fits.lookup_eq hν names known] at hcases'
    cases given with
    | text value =>
      obtain ⟨a₁, heq, adds, hnames⟩ := hcases
      obtain ⟨b₁, heq', adds', hnames'⟩ := hcases'
      simp only [apply, heq, heq'] at hkeeps hkeeps' ⊢
      exact results_same fits names adds adds' hkeeps hkeeps' hnames hnames'
        (.ready (.string value))
    | code source =>
      exact results_compiles lawful hν fits names hcases hcases' hkeeps hkeeps' fine fine'
  | @argument name given defined known =>
    have hcases := State.given_cases lawful fits.stems given "top-level-arg" name
      (.topLevelArgument name)
    have hcases' := State.given_cases lawful fits.stems' given "top-level-arg" name
      (.topLevelArgument name)
    rw [← fits.lookup_eq hν names known] at hcases'
    cases given with
    | text value => exact same (.ready (.string value))
    | code source =>
      exact results_compiles lawful hν fits names hcases hcases' hkeeps hkeeps' fine fine'
  | raise same_site allowed => exact results_fail fits names rfl
  | fail fails => exact results_fail fits names fails.kind

/-- How many slots an operation reserves. -/
def Operation.reserved : Operation → Nat
  | .bindLocals _ _ binds => binds.length
  | _ => 0

theorem Operation.size_slots (session : Session) (a : State) (op : Operation) :
  (op.apply session a).2.slots.size = a.slots.size + op.reserved
  := by
  have hcompile : ∀ (a : State) context file source,
      (a.compile session context file source).2.slots = a.slots := by
    intro a context file source
    simp only [State.compile]
    split <;> rfl
  have hgiven : ∀ (given : External) kind name context,
      (a.given session given kind name context).2.slots = a.slots := by
    intro given kind name context
    cases given with
    | text value => rfl
    | code source => exact hcompile a _ _ _
  have htext : ∀ directory path site,
      (a.importText session.importer directory path site).2.slots = a.slots := by
    intro directory path site
    simp only [State.importText]
    split <;> rfl
  cases op with
  | bindLocals code env binds => exact a.size_bindLocals_slots code env binds
  | intern s => rw [apply_intern]; rfl
  | slot id =>
    rw [apply]
    cases a.slots.get? id <;> rfl
  | importText directory path site => exact congrArg Slots.size (htext directory path site)
  | argument name given => exact congrArg Slots.size (hgiven given _ name _)
  | external name given =>
    apply congrArg Slots.size
    have h := hgiven given "extvar" name (.external name)
    simp only [apply, State.external]
    split
    · rfl
    · split <;> rename_i heq <;> rw [heq] at h <;> exact h
  | imported directory path site =>
    apply congrArg Slots.size
    have h := htext directory (a.names.lookup path) site
    simp only [apply, State.imported]
    split
    · rfl
    · split
      · rename_i heq
        rw [heq] at h
        exact h
      · rename_i a₁ heq
        rw [heq] at h
        have h' := hcompile a₁ (.importing path)
        split <;> rename_i heq' <;> rw [← h, ← h', heq']
  | _ => rfl

/-- Related operations reserve the same number of slots. -/
theorem Operation.Related.reserved_eq {session : Session} {w : World .loose} {op op' : Operation}
    {T : World .loose → op.Result → op'.Result → Prop} (h : op.Related session w op' T) :
  op.reserved = op'.reserved
  := by
  cases h <;> rfl

end Jsonnet
