import Jsonnet.Proofs.ParallelStates

/-!
# Operations in parallel

Akin operations in akin states come to akin results, or fail in the same way, under a larger
bond and in states that are akin again.
-/

namespace Jsonnet

/-! ### Accords -/

/-- What comes of compiling a text in two runs. -/
inductive Compiled.Akin (κ : Kinship) (ν : Name → Name → Prop) : Compiled → Compiled → Prop where
  | program {c c' : Code} (code : κ.code ν (fun _ => True) c c') :
    Akin κ ν (.program c) (.program c')
  | rejected (message : String) {l l' : Option Location}
      (location : Option.Rel (Location.Akin ν) l l') :
    Akin κ ν (.rejected ⟨message, l⟩) (.rejected ⟨message, l'⟩)
  | broken (message : String) : Akin κ ν (.broken message) (.broken message)

/-- How the interners and the front ends of two runs go together, as long as the first run stays
with interners that have room. -/
structure Accord (κ : Kinship) (first second : FrontEnd) where
  /-- What relates the interners, for the names that stand for each other. -/
  holds : (Name → Name → Prop) → Interner → Interner → Prop
  room : Interner → Prop
  room_mono : ∀ {m n}, m ≤ n → room n → room m
  appends : first.Appends ∨ ∀ m, room m
  text : ∀ {ν m m' n n'}, holds ν m m' → ν n n' → m.lookup n = m'.lookup n'
  /-- Fields are told apart by their strings where they may be reordered. -/
  gives : κ.reorders → ∀ {ν m m' n n'}, holds ν m m' → ν n n' → m.Gives n ∧ m'.Gives n'
  intern : ∀ {w : Bond} {m m'} (s), holds w.name m m' → room (m.intern s).2 →
    (∃ e, m.tryIntern s = .error e ∧ m'.tryIntern s = .error e) ∨
      ∃ n k n' k' w', m.tryIntern s = .ok (n, k) ∧ m'.tryIntern s = .ok (n', k') ∧ w.Renames w' ∧
        holds w'.name k k' ∧ w'.name n n'
  compile : ∀ {w : Bond} {m m'} (file source), holds w.name m m' →
    room (first m file source).2 → ∃ w', w.Renames w' ∧
      holds w'.name (first m file source).2 (second m' file source).2 ∧
        Compiled.Akin κ w'.name (first m file source).1 (second m' file source).1

variable {κ : Kinship}

/-- Locations that are akin are known on both sides or on neither. -/
theorem Location.Akin.isUnknown_eq {w : Bond} {l l' : Location} (h : l.Akin w.name l') :
  l.isUnknown = l'.isUnknown
  := by
  obtain ⟨file, span⟩ := l
  obtain ⟨file', span'⟩ := l'
  obtain ⟨hfile, rfl⟩ := h
  rw [Location.isUnknown, Location.isUnknown, Bool.eq_iff_iff, beq_iff_eq, beq_iff_eq,
    Location.unknown, Location.mk.injEq, Location.mk.injEq, Bond.eq_iff hfile w.empty]

namespace Accord

section

variable {first second : FrontEnd} (A : Accord κ first second) {w : Bond} {m m' : Interner}

/-- Interning a string in both runs, whether or not there is room for it. -/
theorem intern_akin (s : String) (holds : A.holds w.name m m') (room : A.room (m.intern s).2) :
  ∃ w', w.Renames w' ∧ A.holds w'.name (m.intern s).2 (m'.intern s).2 ∧
    w'.name (m.intern s).1 (m'.intern s).1
  := by
  obtain ⟨e, h, h'⟩ | ⟨n, k, n', k', w', h, h', hle, holds', name⟩ := A.intern s holds room
  · simp only [Interner.intern, h, h']
    exact ⟨w, .refl w, holds, w.empty⟩
  · simp only [Interner.intern, h, h']
    exact ⟨w', hle, holds', name⟩

theorem internAll_akin (strings : List String) (holds : A.holds w.name m m')
    (room : A.room (m.internAll strings).2) :
  ∃ w', w.Renames w' ∧ A.holds w'.name (m.internAll strings).2 (m'.internAll strings).2 ∧
    List.Forall₂ w'.name (m.internAll strings).1 (m'.internAll strings).1
  := by
  induction strings generalizing w m m' with
  | nil => exact ⟨w, .refl w, holds, .nil⟩
  | cons s rest ih =>
    rw [Interner.internAll_cons] at room
    rw [Interner.internAll_cons, Interner.internAll_cons]
    obtain ⟨w₁, hle₁, holds₁, name⟩ :=
      A.intern_akin s holds (A.room_mono (Interner.le_internAll _ rest) room)
    obtain ⟨w₂, hle₂, holds₂, names⟩ := ih holds₁ room
    exact ⟨w₂, hle₁.trans hle₂, holds₂, .cons (Bond.name_mono hle₂.le name) names⟩

variable (holds : A.holds w.name m m')

include holds

theorem describe_eq {c c' : FrameContext} (h : c.Akin w.name c') :
  c.describe m = c'.describe m'
  := by
  cases h with
  | main => rfl
  | function => rfl
  | builtin name => rfl
  | assertion => rfl
  | thunk name | field name | importing name | external name | topLevelArgument name =>
    have htext := A.text holds name
    unfold FrameContext.describe
    dsimp only
    rw [htext]

theorem traceLine_eq {f f' : Frame} (h : f.Akin w.name f') :
  f.traceLine m = f'.traceLine m'
  := by
  have hfile : m.lookup f.location.file = m'.lookup f'.location.file :=
    A.text holds h.location.file
  rw [Frame.traceLine, Frame.traceLine, A.describe_eq holds h.context, h.location.isUnknown_eq,
    hfile, h.location.span]

/-- Akin errors that are raised inside akin frames are the same failure. -/
theorem failure_eq {s s' : CallStack} (frames : List.Forall₂ (Frame.Akin w.name) s.frames s'.frames)
    (cause : Cause) {l l' : Location} (site : l.Akin w.name l') :
  s.failure cause l m = s'.failure cause l' m'
  := by
  have hcontext : ((s.current?.map Frame.context).getD .main).Akin w.name
      ((s'.current?.map Frame.context).getD .main) := by
    rw [CallStack.current?, CallStack.current?]
    generalize s.frames = fs, s'.frames = fs' at frames
    cases frames with
    | nil => exact .main
    | cons head _ => exact head.context
  have hlines : ∀ {fs fs' : List Frame}, List.Forall₂ (Frame.Akin w.name) fs fs' →
      fs.map (Frame.traceLine m) = fs'.map (Frame.traceLine m') := by
    intro fs fs' h
    induction h with
    | nil => rfl
    | cons head _ ih => rw [List.map_cons, List.map_cons, A.traceLine_eq holds head, ih]
  rw [CallStack.failure, CallStack.failure, CallStack.capture, CallStack.capture, hlines]
  rw [← site.isUnknown_eq]
  split
  · exact frames
  · exact .cons ⟨site, hcontext⟩ frames

end

/-! ### Outcomes -/

section

variable {first second : FrontEnd} (A : Accord κ first second)

/-- The states that the first run may end in. -/
structure Within (a : State) : Prop where
  room : A.room a.names
  hasSlots : κ.dead → a.HasSlots

/-- What relates the states of two runs. -/
structure Meets (w : Bond) (a b : State) : Prop where
  holds : A.holds w.name a.names b.names
  akin : a.Akin κ w b

/-- Outcomes of two runs, under a larger bond. -/
inductive Ends {α β : Type} (R : Bond → α → β → Prop) (w : Bond) : Outcome α → Outcome β → Prop where
  | ok {w' : Bond} {r : α} {r' : β} {a b : State} (le : w ≤ w') (meets : A.Meets w' a b)
      (result : R w' r r') : Ends R w (.ok r, a) (.ok r', b)
  | error {w' : Bond} {f f' : Failure} {a b : State} (le : w ≤ w') (meets : A.Meets w' a b)
      (failure : f.Akin w'.name f') : Ends R w (.error f, a) (.error f', b)

variable {A} {u w w' : Bond} {a b : State}

theorem Ends.weaken {α β : Type} {R : Bond → α → β → Prop} {x : Outcome α} {y : Outcome β}
    (h : A.Ends R w x y) (hle : u ≤ w) :
  A.Ends R u x y
  := by
  cases h with
  | ok le meets result => exact .ok (hle.trans le) meets result
  | error le meets failure => exact .error (hle.trans le) meets failure

/-- What a run may end in it has been in all along. -/
theorem inherits {session : Session} (A : Accord κ session.frontEnd second) :
  session.Inherits A.Within
  where
  stack _ h := ⟨h.room, h.hasSlots⟩
  grows hgrows h := by
    refine ⟨?_, fun dead => hgrows.hasSlots (h.hasSlots dead)⟩
    obtain appends | room := A.appends
    · exact A.room_mono (hgrows.names appends) h.room
    · exact room _

namespace Meets

variable (h : A.Meets w a b)

include h

theorem failure_eq (cause : Cause) {l l' : Location} (site : l.Akin w.name l') :
  a.failure cause l = b.failure cause l'
  := A.failure_eq h.holds h.akin.frames cause site

theorem fails {α β : Type} {R : Bond → α → β → Prop} {f f' : Failure} (failure : f.Akin w.name f') :
  A.Ends R w (.error f, a) (.error f', b)
  := .error le_rfl h failure

theorem raises {α β : Type} {R : Bond → α → β → Prop} (cause : Cause) {l l' : Location}
    (site : l.Akin w.name l') :
  A.Ends R w (.error (a.failure cause l), a) (.error (b.failure cause l'), b)
  := by
  rw [h.failure_eq cause site]
  exact h.fails (.runtime _ _)

/-- The same names stand for each other under a bond with more thunks and slots. -/
theorem later (hname : w'.name = w.name) {a' b' : State} (akin : a'.Akin κ w' b')
    (ha : a'.names = a.names) (hb : b'.names = b.names) :
  A.Meets w' a' b'
  := by
  refine ⟨?_, akin⟩
  rw [hname, ha, hb]
  exact h.holds

theorem share {live : List Prop} {ss ss' : List Suspension}
    (kin : Partly (AkinAs κ .suspension w) live ss ss') :
  A.Ends (fun w' => Partly (AkinAs κ .deferred w') live) w (.ok (a.share ss).1, (a.share ss).2)
    (.ok (b.share ss').1, (b.share ss').2)
  := by
  obtain ⟨w', hle, hname, akin, result⟩ := h.akin.share kin
  exact .ok hle (h.later hname akin rfl rfl) result

/-- New objects get the same number. -/
theorem newObject {object object' : ObjectId → Object}
    (akin : ∀ id, Jsonnet.Akin κ w (.object (object id)) (.object (object' id))) :
  A.Ends (AkinAs κ .object) w (.ok (a.newObject object).1, (a.newObject object).2)
    (.ok (b.newObject object').1, (b.newObject object').2)
  := by
  refine .ok le_rfl ⟨h.holds, { h.akin with checks := ?_ }⟩ ?_
  · simp only [State.newObject]
    rw [h.akin.checks]
  · simp only [State.newObject]
    rw [h.akin.checks]
    exact akin _

theorem importText (importer : Importer) (directory path : String) {l l' : Location}
    (site : l.Akin w.name l') :
  A.Ends Identical w (a.importText importer directory path l) (b.importText importer directory path l')
  := by
  obtain ⟨hanswer, himports⟩ := h.akin.imports.resolve importer directory path
  have meets : A.Meets w
      { a with imports := (a.imports.resolve importer directory path).2 }
      { b with imports := (b.imports.resolve importer directory path).2 } :=
    ⟨h.holds, { h.akin with imports := himports }⟩
  simp only [State.importText]
  rw [← hanswer]
  split
  · exact .ok le_rfl meets rfl
  · exact meets.raises _ site

end Meets

end

/-! ### Code from outside -/

section

variable {session session' : Session} {A : Accord κ session.frontEnd session'.frontEnd} {w : Bond}
  {a b : State} (sessions : session.Akin κ w session')

include sessions

/-- Programs that are compiled in akin contexts. -/
theorem Meets.compile (h : A.Meets w a b) {context context' : FrameContext}
    (same : context.Akin w.name context') (file source : String)
    (hwithin : A.Within (a.compile session context file source).2) :
  A.Ends (AkinAs κ .deferred) w (a.compile session context file source)
    (b.compile session' context' file source)
  := by
  have hroom : A.room (session.frontEnd a.names file source).2 := by
    have := hwithin.room
    simp only [State.compile] at this
    split at this <;> exact this
  obtain ⟨w', hle, holds, hcompiled⟩ := A.compile file source h.holds hroom
  have meets : A.Meets w' { a with names := (session.frontEnd a.names file source).2 }
      { b with names := (session'.frontEnd b.names file source).2 } :=
    ⟨holds, (h.akin.mono hle).setNames _ _⟩
  unfold State.compile
  generalize session.frontEnd a.names file source = x at hcompiled meets ⊢
  generalize session'.frontEnd b.names file source = y at hcompiled meets ⊢
  obtain ⟨x, m⟩ := x
  obtain ⟨y, n⟩ := y
  cases hcompiled with
  | program code =>
    have base := (sessions.mono hle.le).base fun _ => True
    have kin : Partly (AkinAs κ .suspension w') [True] [.code context session.base _]
        [.code context' session'.base _] :=
      .cons (fun _ => .code (same.mono hle.le.1) base code) .nil
    obtain ⟨w'', hle', hname, akin, result⟩ := meets.akin.share kin
    have hpush : ∀ (ts : Array Cell) (t : Cell), ts.push t = ts ++ [t] := by simp
    obtain _ | ⟨head, -⟩ := result
    refine .ok (hle.le.trans hle') (meets.later hname ?_ rfl rfl) (head trivial)
    rw [hpush, hpush]
    exact akin
  | rejected message location =>
    exact .ok hle.le meets (Jsonnet.Akin.failed (.static message location))
  | broken message => exact .error hle.le meets (.breakdown _)

/-- Imports of paths that stand for each other. -/
theorem Meets.imported (h : A.Meets w a b) (directory : String) {n n' : Name} (path : w.name n n')
    {l l' : Location} (site : l.Akin w.name l')
    (hwithin : A.Within (a.imported session directory n l).2) :
  A.Ends (AkinAs κ .deferred) w (a.imported session directory n l)
    (b.imported session' directory n' l')
  := by
  have htext : a.names.lookup n = b.names.lookup n' := A.text h.holds path
  have hstart := h.importText session.importer directory (a.names.lookup n) site
  unfold State.imported at hwithin ⊢
  rw [← sessions.importer, ← htext]
  dsimp only at hwithin ⊢
  obtain ⟨hx, hy⟩ | ⟨d, d', hx, hy, hd⟩ :=
    optionRel_iff.mp (h.akin.imports.code? directory (a.names.lookup n))
  · rw [hx] at hwithin ⊢
    rw [hy]
    generalize a.importText session.importer directory (a.names.lookup n) l = x at hstart hwithin ⊢
    generalize b.importText session.importer directory (a.names.lookup n) l' = y at hstart ⊢
    cases hstart with
    | error le meets failure => exact .error le meets failure
    | @ok w₁ file _ a₁ b₁ le meets result =>
      cases result
      have hcompile := meets.compile (sessions.mono le) (.importing (Bond.name_mono le path))
        file.foundAt file.content
      dsimp only at hwithin ⊢
      generalize a₁.compile session (.importing n) file.foundAt file.content = x
        at hcompile hwithin ⊢
      generalize b₁.compile session' (.importing n') file.foundAt file.content = y
        at hcompile ⊢
      obtain ⟨_ | d, a₂⟩ := x
      · cases hcompile hwithin with
        | error le' meets' failure => exact .error (le.trans le') meets' failure
      · cases hcompile ⟨hwithin.room, hwithin.hasSlots⟩ with
        | ok le' meets' result' =>
          refine .ok (le.trans le') ⟨meets'.holds, { meets'.akin with imports := ?_ }⟩ result'
          exact meets'.akin.imports.setCode _ _ result'
  · rw [hx, hy]
    exact .ok le_rfl h hd

/-- Values that are given from outside under names that stand for each other. -/
theorem Meets.given (h : A.Meets w a b) (external : External) (kind : String) {n n' : Name}
    (name : w.name n n') {context context' : FrameContext} (same : context.Akin w.name context')
    (hwithin : A.Within (a.given session external kind n context).2) :
  A.Ends (AkinAs κ .deferred) w (a.given session external kind n context)
    (b.given session' external kind n' context')
  := by
  cases external with
  | text value => exact .ok le_rfl h (Jsonnet.Akin.ready (.string value))
  | code source =>
    have htext : a.names.lookup n = b.names.lookup n' := A.text h.holds name
    unfold State.given
    dsimp only
    rw [← htext]
    exact h.compile sessions same _ source hwithin

/-- External variables under names that stand for each other. -/
theorem Meets.external (h : A.Meets w a b) {n n' : Name} (name : w.name n n') (external : External)
    (hwithin : A.Within (a.external session n external).2) :
  A.Ends (AkinAs κ .deferred) w (a.external session n external)
    (b.external session' n' external)
  := by
  have hgiven := h.given sessions external "extvar" name (.external name)
  unfold State.external at hwithin ⊢
  obtain ⟨hx, hy⟩ | ⟨d, d', hx, hy, hd⟩ := optionRel_iff.mp (h.akin.externalOf name)
  · rw [hx] at hwithin ⊢
    rw [hy]
    generalize a.given session external "extvar" n (.external n) = x at hgiven hwithin ⊢
    generalize b.given session' external "extvar" n' (.external n') = y at hgiven ⊢
    obtain ⟨_ | d, a₁⟩ := x
    · cases hgiven hwithin with
      | error le meets failure => exact .error le meets failure
    · cases hgiven ⟨hwithin.room, hwithin.hasSlots⟩ with
      | ok le meets result =>
        exact .ok le ⟨meets.holds, meets.akin.keepExternal (Bond.name_mono le name) result⟩ result
  · rw [hx, hy]
    exact .ok le_rfl h hd

end

/-! ### Sorting -/

/-- Lists of related things are ordered in the same way by orders that agree on what is related. -/
theorem forall₂_mergeSort {α β : Type} {R : α → β → Prop} (le : α → α → Bool) (le' : β → β → Bool)
    (hle : ∀ x y u v, R x y → R u v → le x u = le' y v) {xs : List α} {ys : List β}
    (h : List.Forall₂ R xs ys) :
  List.Forall₂ R (xs.mergeSort le) (ys.mergeSort le')
  := by
  obtain ⟨hlength, hzip⟩ := List.forall₂_iff_zip.mp h
  have hfst : (xs.zip ys).map Prod.fst = xs := List.map_fst_zip hlength.le
  have hsnd : (xs.zip ys).map Prod.snd = ys := List.map_snd_zip hlength.ge
  have hleft := List.map_mergeSort (r := fun p q => le p.1 q.1) (s := le) (f := Prod.fst)
    (l := xs.zip ys) fun _ _ _ _ => rfl
  have hright := List.map_mergeSort (r := fun p q => le p.1 q.1) (s := le') (f := Prod.snd)
    (l := xs.zip ys) fun p hp q hq => hle _ _ _ _ (hzip hp) (hzip hq)
  rw [hfst] at hleft
  rw [hsnd] at hright
  rw [← hleft, ← hright, List.forall₂_map_left_iff, List.forall₂_map_right_iff, List.forall₂_same]
  intro p hp
  exact hzip ((List.mergeSort_perm _ _).mem_iff.mp hp)

section

variable {session session' : Session} {A : Accord κ session.frontEnd session'.frontEnd} {w : Bond}
  {a b : State}

theorem Meets.sortNames (h : A.Meets w a b) {ns ns' : List Name}
    (names : List.Forall₂ w.name ns ns') :
  NamesAs w (Object.sortNames a.names ns) (Object.sortNames b.names ns')
  := by
  have hkeys : List.Forall₂ (fun x y : String × Name => x.1 = y.1 ∧ w.name x.2 y.2)
      (ns.map fun name => (a.names.lookup name, name))
      (ns'.map fun name => (b.names.lookup name, name)) := by
    rw [List.forall₂_map_left_iff, List.forall₂_map_right_iff]
    exact names.imp fun _ _ name => ⟨A.text h.holds name, name⟩
  have hsorted := forall₂_mergeSort (fun a b => decide (a.1 ≤ b.1))
    (fun a b => decide (a.1 ≤ b.1)) (by
      rintro x y u v ⟨hxy, -⟩ ⟨huv, -⟩
      rw [hxy, huv]) hkeys
  rw [NamesAs, Object.sortNames, Object.sortNames, List.forall₂_map_left_iff,
    List.forall₂_map_right_iff]
  exact hsorted.imp fun _ _ h => h.2

/-- Names that stand for each other up to their order are sorted in the same way. -/
theorem Meets.sortNames_reordered (h : A.Meets w a b) {ns ms ns' : List Name}
    (names : List.Forall₂ w.name ns ms) (order : Reorders κ.reorders id ms ns') :
  NamesAs w (Object.sortNames a.names ns) (Object.sortNames b.names ns')
  := by
  obtain rfl | ⟨allowed, -, perm⟩ := order
  · exact h.sortNames names
  · have given : ∀ m ∈ ms, b.names.Gives m := by
      intro m hm
      obtain ⟨n, -, name⟩ := exists_right_of_mem names.flip hm
      exact (A.gives allowed h.holds name).2
    rw [← Object.sortNames_eq_of_perm perm given]
    exact h.sortNames names

/-! ### Operations -/

/-- Akin operations in akin states come to akin results, or fail in the same way. -/
theorem operation (sessions : session.Akin κ w session') (h : A.Meets w a b) {op op' : Operation}
    {S : Bond → op.Result → op'.Result → Prop} (akin : op.Akin κ w op' S)
    (hwithin : A.Within (op.apply session a).2) :
  A.Ends S w (op.apply session a) (op'.apply session' b)
  := by
  cases akin with
  | count step => exact .ok le_rfl ⟨h.holds, h.akin.setCounters _ _⟩ rfl
  | text name => exact .ok le_rfl h (A.text h.holds name)
  | intern s =>
    simp only [Operation.apply] at hwithin ⊢
    have hroom : A.room (a.names.intern s).2 := by
      have := hwithin.room
      rw [Interner.intern]
      cases hintern : a.names.tryIntern s <;> rw [hintern] at this <;> exact this
    obtain ⟨e, hx, hy⟩ | ⟨n, k, n', k', w', hx, hy, hle, holds, name⟩ :=
      A.intern s h.holds hroom
    · rw [hx, hy]
      exact h.fails (.breakdown _)
    · rw [hx, hy]
      exact .ok hle.le ⟨holds, (h.akin.mono hle).setNames _ _⟩ name
  | internAll strings =>
    obtain ⟨w', hle, holds, names⟩ := A.internAll_akin strings h.holds hwithin.room
    exact .ok hle.le ⟨holds, (h.akin.mono hle).setNames _ _⟩ names
  | sort names order => exact .ok le_rfl h (h.sortNames_reordered names order)
  | literal scope fields order asserts =>
    have akin : ∀ id, Jsonnet.Akin κ w (.object (.leaf ⟨id, _, _, _⟩)) (.object (.leaf ⟨id, _, _, _⟩)) :=
      fun id => .single (.literal scope fields order asserts)
    exact h.newObject akin
  | combine left right => exact h.newObject fun id => left.combine id right
  | share kin => exact h.share kin
  | bindLocals env binds outer alive =>
    obtain ⟨w', hle, hname, akin, henv⟩ := h.akin.bindLocals env binds outer alive hwithin.hasSlots
    exact .ok hle (h.later hname akin rfl rfl) henv
  | slot alive =>
    obtain ⟨d, d', hd, hd', deferred⟩ := h.akin.slots.related _ alive
    simp only [Operation.apply, Slots.get?, hd, hd']
    exact .ok le_rfl h deferred
  | importText directory path site =>
    simp only [Operation.apply]
    rw [← sessions.importer]
    exact h.importText session.importer directory path site
  | imported directory path site => exact h.imported sessions directory path site hwithin
  | external name given => exact h.external sessions name given hwithin
  | argument name given =>
    exact h.given sessions given "top-level-arg" name (.topLevelArgument name) hwithin
  | raise cause site => exact h.raises cause site
  | fail failure => exact h.fails failure

end

end Accord

end Jsonnet
