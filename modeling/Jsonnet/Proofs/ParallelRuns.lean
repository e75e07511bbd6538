import Jsonnet.Proofs.ParallelOperations

/-!
# Runs in parallel

A task that comes to an outcome in one run comes to an akin outcome in the other, as long as the
tasks and the states that they begin with are akin. So does the evaluation of a program in two
new sessions.
-/

namespace Jsonnet

namespace Accord

variable {κ : Kinship} {session session' : Session}
  {A : Accord κ session.frontEnd session'.frontEnd} {w : Bond} {a b : State}

section

variable (sessions : session.Akin κ w session') {task task' : Task}
  {S : Bond → task.Result → task'.Result → Prop} (akin : task.Akin κ w task' S)

include sessions akin

/-- Akin tasks are known in both states or in neither. -/
theorem Meets.known (h : A.Meets w a b) :
  Option.Rel (S w) (task.known? session a) (task'.known? session' b)
  := by
  cases akin with
  | force alive =>
    obtain ⟨x, y, hx, hy, cell⟩ := h.akin.thunks.related _ alive
    simp only [Task.known?, hx, hy]
    cases cell with
    | pending suspension => exact .none
    | ready value => exact .some value
  | check object =>
    simp only [Task.known?, h.akin.isSettled_eq object]
    split
    · exact .some rfl
    · exact .none
  | field object leaf hit name site =>
    simp only [Task.known?, sessions.sharing]
    split
    · rw [Object.fieldKey, Object.fieldKey, object.object_id]
      exact h.akin.field name _ _
    · exact .none
  | _ => exact .none

omit sessions in
theorem Meets.begin (h : A.Meets w a b) :
  A.Meets w (task.begin a) (task'.begin b)
  := by
  cases akin with
  | check object => exact ⟨h.holds, h.akin.setCheck object.object_id _⟩
  | _ => exact h

/-- Akin outcomes are kept by akin tasks. -/
theorem Ends.settle {x : Outcome task.Result} {y : Outcome task'.Result} (h : A.Ends S w x y) :
  A.Ends S w (x.1, task.settle session x.2 x.1) (y.1, task'.settle session' y.2 y.1)
  := by
  cases akin with
  | force alive =>
    cases h with
    | error le meets failure => exact .error le meets failure
    | ok le meets result =>
      refine .ok le ?_ result
      simp only [Task.settle, sessions.sharing]
      split
      · exact ⟨meets.holds, meets.akin.keepThunk _ result⟩
      · exact meets
  | check object =>
    have hid := object.object_id
    cases h with
    | error le meets failure => exact .error le ⟨meets.holds, meets.akin.setCheck hid _⟩ failure
    | ok le meets result => exact .ok le ⟨meets.holds, meets.akin.setCheck hid _⟩ result
  | field object leaf hit name site =>
    cases h with
    | error le meets failure => exact .error le meets failure
    | ok le meets result =>
      refine .ok le ?_ result
      simp only [Task.settle, sessions.sharing]
      split
      · rw [Object.fieldKey, Object.fieldKey, object.object_id]
        exact ⟨meets.holds, meets.akin.keepField _ _ (Bond.name_mono le name) result⟩
      · exact meets
  | _ =>
    cases h with
    | error le meets failure => exact .error le meets failure
    | ok le meets result => exact .ok le meets result

end

/-! ### Frames -/

/-- There is room for akin frames in both states or in neither. -/
theorem Meets.enter (h : A.Meets w a b) {frame? frame?' : Option Frame}
    (same : Option.Rel (Frame.Akin w.name) frame? frame?') :
  (∃ cause trace, a.enter frame? = .error (.runtime cause trace) ∧
      b.enter frame?' = .error (.runtime cause trace)) ∨
    ∃ a₁ b₁, a.enter frame? = .ok a₁ ∧ b.enter frame?' = .ok b₁ ∧ A.Meets w a₁ b₁
  := by
  cases same with
  | none => exact .inr ⟨a, b, rfl, rfl, h⟩
  | @some frame frame' same =>
    have hlimit : a.stack.limit = b.stack.limit := by
      rw [CallStack.limit, CallStack.limit, CallStack.depth, CallStack.depth,
        h.akin.frames.length_eq, h.akin.room]
    have hfailure := h.failure_eq (.stackOverflow a.stack.limit) same.location
    have hroom := h.akin.room
    unfold State.enter CallStack.push?
    dsimp only
    rw [hfailure, hlimit]
    cases hs : a.stack.room with
    | zero =>
      rw [← hroom, hs]
      exact .inl ⟨_, _, rfl, rfl⟩
    | succ room =>
      rw [← hroom, hs]
      exact .inr ⟨_, _, rfl, rfl, h.holds, h.akin.setStack (.cons same h.akin.frames) rfl⟩

/-- Outcomes with akin stacks in place of those they are reached with. -/
theorem Ends.setStack {α β : Type} {R : Bond → α → β → Prop} {x : Outcome α} {y : Outcome β}
    (h : A.Ends R w x y) {s t : CallStack} (frames : List.Forall₂ (Frame.Akin w.name) s.frames t.frames)
    (room : s.room = t.room) :
  A.Ends R w (x.1, { x.2 with stack := s }) (y.1, { y.2 with stack := t })
  := by
  have hmeets : ∀ {w' : Bond} {a b : State}, w ≤ w' → A.Meets w' a b →
      A.Meets w' { a with stack := s } { b with stack := t } := by
    intro w' a b le meets
    exact ⟨meets.holds, meets.akin.setStack (frames.imp fun _ _ hf => hf.mono le.1) room⟩
  cases h with
  | ok le meets result => exact .ok le (hmeets le meets) result
  | error le meets failure => exact .error le (hmeets le meets) failure

/-! ### Runs -/

/-- An outcome within an accord ends a run on exact terms. -/
theorem Within.endsIn {α : Type} {x : Outcome α} (h : A.Within x.2) :
  x.EndsIn .exactly A.Within
  := ⟨h, fun hloose => absurd trivial hloose⟩

/-- Counting does not matter. -/
theorem Meets.counting (h : A.Meets w a b) (n m : Nat) :
  A.Meets w (a.counting n) (b.counting m)
  := by
  obtain ⟨counters, ha⟩ := a.counting_eq n
  obtain ⟨counters', hb⟩ := b.counting_eq m
  rw [ha, hb]
  exact ⟨h.holds, h.akin.setCounters _ _⟩

/-- Computations in parallel come to akin outcomes if the tasks that they ask for do. -/
theorem resolve {ask : Option Frame → Task → Prop} {fuel : Nat}
    (htask : ∀ {task task' : Task} {S : Bond → task.Result → task'.Result → Prop} {w : Bond}
      {a b : State} {x : Outcome task.Result}, session.Akin κ w session' → task.Akin κ w task' S →
      A.Meets w a b → task.perform session fuel a = some x → A.Within x.2 →
      ∃ y, task'.perform session' fuel b = some y ∧ A.Ends S w x y)
    {α β : Type} {R : Bond → α → β → Prop} {p : Progress α} {q : Progress β} {x : Outcome α}
    (sessions : session.Akin κ w session') (h : p.Parallel κ ask R w q) (meets : A.Meets w a b)
    (hx : p.resolve session (Task.perform session fuel) a = some x) (hwithin : A.Within x.2) :
  ∃ y, q.resolve session' (Task.perform session' fuel) b = some y ∧ A.Ends R w x y
  := by
  induction h generalizing a b with
  | finished result =>
    cases hx
    exact ⟨_, rfl, .ok le_rfl meets result⟩
  | @step w op op' S rest rest' hop next ih =>
    have hends := A.operation sessions meets hop (A.inherits.operation hx hwithin.endsIn)
    rw [Progress.resolve] at hx ⊢
    generalize op.apply session a = out at hends hx
    generalize op'.apply session' b = out' at hends ⊢
    cases hends with
    | error le meets' failure =>
      cases hx
      exact ⟨_, rfl, .error le meets' failure⟩
    | ok le meets' result =>
      obtain ⟨y, hy, hends⟩ := ih _ le _ _ result (sessions.mono le) meets' hx
      exact ⟨y, hy, hends.weaken le⟩
  | @wait w frame? frame?' t t' S rest rest' asks same akin next ih =>
    rw [Progress.resolve]
    obtain ⟨cause, trace, henter, henter'⟩ | ⟨a₁, b₁, henter, henter', meets₁⟩ := meets.enter same
    · rw [Progress.resolve, henter] at hx
      cases hx
      rw [henter']
      exact ⟨_, rfl, meets.fails (.runtime cause trace)⟩
    · obtain ⟨-, f, hf, -⟩ | ⟨a₁', x₁, ha₁, hperform, hends₁, hok, herror⟩ :=
        A.inherits.task hx hwithin.endsIn
      · cases henter.symm.trans hf
      cases henter.symm.trans ha₁
      obtain ⟨y₁, hy₁, hends⟩ := htask sessions akin meets₁ hperform hends₁.state
      have hleave := ((Task.grows hperform).leave_eq henter).2
      have hleave' := ((Task.grows hy₁).leave_eq henter').2
      have hends := hends.setStack meets.akin.frames meets.akin.room
      rw [← hleave, ← hleave'] at hends
      rw [henter']
      simp only [hy₁]
      obtain ⟨x₁, a₂⟩ := x₁
      obtain ⟨y₁, b₂⟩ := y₁
      cases hends with
      | error le meets' failure =>
        rw [herror _ _ rfl]
        exact ⟨_, rfl, .error le meets' failure⟩
      | ok le meets' result =>
        obtain ⟨y, hy, hends⟩ := ih _ le _ _ result (sessions.mono le) meets' (hok _ _ rfl)
        exact ⟨y, hy, hends.weaken le⟩
  | @labelled w c c' e e' ds ds' fs gs fs' s s' rest rest' p q labels labels' names allowed distinct
      perm first second next ih =>
    -- the names come to the fields in both runs, and nothing else comes of them
    subst first second
    have given : ∀ f ∈ fs, a.names.Gives f.1 := by
      intro f hf
      obtain ⟨g, -, name⟩ := exists_right_of_mem names hf
      exact (A.gives allowed meets.holds name).1
    have given' : ∀ f ∈ fs', b.names.Gives f.1 := by
      intro f hf
      obtain ⟨g, -, name⟩ := exists_right_of_mem names.flip (perm.mem_iff.mpr hf)
      exact (A.gives allowed meets.holds name).2
    have distinctLeft : (fs.map Prod.fst).Nodup :=
      (Bond.nodup_iff (List.forall₂_map_left_iff.mpr (List.forall₂_map_right_iff.mpr names))).mpr
        distinct
    have distinctRight := (perm.map Prod.fst).nodup_iff.mp distinct
    have enough := fuel_of_literalFields hx
    have enough' : ds' ≠ [] → 0 < fuel := by
      intro hne
      apply enough
      have hlength : ds.length = ds'.length := by
        rw [labels.length_eq, names.length_eq, perm.length_eq, labels'.length_eq]
      rintro rfl
      exact hne (List.length_eq_zero_iff.mp hlength.symm)
    rw [resolve_literalFields labels given [] distinctLeft s enough] at hx
    rw [resolve_literalFields labels' given' [] distinctRight s' enough']
    exact ih sessions (meets.counting _ _) hx

/-- Settling a task touches neither the names nor the slots. -/
theorem Within.of_settle {task : Task} {outcome : Except Failure task.Result}
    (h : A.Within (task.settle session a outcome)) :
  A.Within a
  := by
  have hsame : (task.settle session a outcome).names = a.names ∧
      (task.settle session a outcome).slots = a.slots := by
    cases task <;> cases outcome <;> first
      | exact ⟨rfl, rfl⟩
      | (rw [Task.settle]; split <;> exact ⟨rfl, rfl⟩)
  refine ⟨hsame.1 ▸ h.room, fun dead => ?_⟩
  have := h.hasSlots dead
  rw [State.HasSlots, hsame.2] at this
  exact this

/-- Akin tasks in akin states come to akin outcomes, with tasks nested equally deep. -/
theorem perform {fuel : Nat} {task task' : Task} {S : Bond → task.Result → task'.Result → Prop}
    {x : Outcome task.Result} (sessions : session.Akin κ w session') (akin : task.Akin κ w task' S)
    (meets : A.Meets w a b) (hx : task.perform session fuel a = some x) (hwithin : A.Within x.2) :
  ∃ y, task'.perform session' fuel b = some y ∧ A.Ends S w x y
  := by
  induction fuel generalizing task task' w a b with
  | zero => cases hx
  | succ fuel ih =>
    obtain ⟨hn, hn'⟩ | ⟨r, r', hr, hr', result⟩ := optionRel_iff.mp (meets.known sessions akin)
    · rw [Task.perform_unknown hn, Option.map_eq_some_iff] at hx
      obtain ⟨x₁, hx₁, rfl⟩ := hx
      rw [Task.perform_unknown hn']
      have cells : ∀ t : ThunkId, w.thunk t →
          Option.Rel (Cell.Akin κ w) a.thunks[t.index]? b.thunks[t.index]? := fun t alive =>
        optionRel_iff.mpr (.inr (meets.akin.thunks.related _ alive))
      obtain ⟨y, hy, hends⟩ := resolve ih sessions (akin.action sessions cells)
        (meets.begin akin) hx₁ hwithin.of_settle
      rw [hy]
      exact ⟨_, rfl, hends.settle sessions akin⟩
    · rw [Task.perform, hr] at hx
      cases hx
      rw [Task.perform, hr']
      exact ⟨_, rfl, .ok le_rfl meets result⟩

end Accord

/-! ### New sessions -/

section

variable {κ : Kinship} {first second : FrontEnd} (A : Accord κ first second) {w : Bond}
  {m m' : Interner}

/-- The fields of the standard library, and external values, under names that stand for each
other. -/
theorem libraryFields_akin (functions : List LibraryFunction) (holds : A.holds w.name m m')
    (room : A.room (libraryFields m functions).2) :
  ∃ w', w.Renames w' ∧
    A.holds w'.name (libraryFields m functions).2 (libraryFields m' functions).2 ∧
    Akin κ w' (.fields (fun _ => True) (libraryFields m functions).1)
      (.fields (fun _ => True) (libraryFields m' functions).1)
  := by
  induction functions generalizing w m m' with
  | nil => exact ⟨w, .refl w, holds, .fieldless⟩
  | cons f rest ih =>
    have hle := (libraryFields_given (m.intern f.name).2 rest).1
    obtain ⟨w₁, hle₁, holds₁, name⟩ := A.intern_akin f.name holds (A.room_mono hle room)
    obtain ⟨w₂, hle₂, holds₂, fields⟩ := ih holds₁ room
    exact ⟨w₂, hle₁.trans hle₂, holds₂,
      .field (Bond.name_mono hle₂.le name) (.given (.function (.builtin _))) fields⟩

theorem internExternals_akin (values : List (String × External)) (holds : A.holds w.name m m')
    (room : A.room (internExternals m values).2) :
  ∃ w', w.Renames w' ∧ A.holds w'.name (internExternals m values).2 (internExternals m' values).2 ∧
    List.Forall₂ (fun x y => w'.name x.1 y.1 ∧ x.2 = y.2) (internExternals m values).1
      (internExternals m' values).1
  := by
  induction values generalizing w m m' with
  | nil => exact ⟨w, .refl w, holds, .nil⟩
  | cons value rest ih =>
    have hle := (internExternals_given (m.intern value.1).2 rest).1
    obtain ⟨w₁, hle₁, holds₁, name⟩ := A.intern_akin value.1 holds (A.room_mono hle room)
    obtain ⟨w₂, hle₂, holds₂, given⟩ := ih holds₁ room
    exact ⟨w₂, hle₁.trans hle₂, holds₂, .cons ⟨Bond.name_mono hle₂.le name, rfl⟩ given⟩

/-- Values that are given anew under names that stand for each other. -/
theorem foldl_giveAnew_akin {xs ys us vs : List (Name × External)}
    (kept : List.Forall₂ (fun x y => w.name x.1 y.1 ∧ x.2 = y.2) xs ys)
    (given : List.Forall₂ (fun x y => w.name x.1 y.1 ∧ x.2 = y.2) us vs) :
  List.Forall₂ (fun x y => w.name x.1 y.1 ∧ x.2 = y.2) (us.foldl giveAnew xs) (vs.foldl giveAnew ys)
  := by
  induction given generalizing xs ys with
  | nil => exact kept
  | @cons u v us vs head tail ih =>
    apply ih
    have hfilter : List.Forall₂ (fun x y => w.name x.1 y.1 ∧ x.2 = y.2)
        (xs.filter fun old => old.1 != u.1) (ys.filter fun old => old.1 != v.1) := by
      induction kept with
      | nil => exact .nil
      | @cons x y xs ys hxy _ ihkept =>
        have hne : (x.1 != u.1) = (y.1 != v.1) := by
          rw [bne, bne, Bond.beq_eq hxy.1 head.1]
        rw [List.filter_cons, List.filter_cons, ← hne]
        split
        · exact .cons hxy ihkept
        · exact ihkept
    exact List.rel_append hfilter (.cons head .nil)

end

/-- Nothing has been computed in either of two new states. -/
theorem State.new_akin {κ : Kinship} {w : Bond} (hthunk : ∀ t, ¬ w.thunk t)
    (hslot : ∀ s, ¬ w.slot s) (m m' : Interner) (maxStack : Nat) :
  (State.new m maxStack).Akin κ w (.new m' maxStack)
  where
  frames := .nil
  room := rfl
  thunks := ⟨rfl, fun i hi => absurd hi (hthunk _)⟩
  slots := ⟨rfl, fun i hi => absurd hi (hslot _)⟩
  full _ i hi := absurd hi (Nat.not_lt_zero i)
  checks := rfl
  fields := ⟨fun h => by simp [State.new] at h, fun h => by simp [State.new] at h⟩
  imports key := by
    simp only [State.new, ImportCache.empty, Std.HashMap.getElem?_empty]
    exact .none
  externals := ⟨fun h => by simp [State.new] at h, fun h => by simp [State.new] at h⟩

/-- Two sessions that begin with related interners are akin. -/
theorem Setup.start_akin {κ : Kinship} {setup : Setup} (A : Accord κ setup.frontEnd setup.frontEnd)
    {w : Bond} (hthunk : ∀ t, ¬ w.thunk t) (hslot : ∀ s, ¬ w.slot s) {m m' : Interner}
    (holds : A.holds w.name m m') (room : A.room (setup.start m).2.names) :
  ∃ w', w.Renames w' ∧ A.holds w'.name (setup.start m).2.names (setup.start m').2.names ∧
    (setup.start m).2.Akin κ w' (setup.start m').2 ∧
    (setup.start m).1.Akin κ w' (setup.start m').1
  := by
  simp only [start] at room ⊢
  generalize LibraryFunction.all = functions at room ⊢
  -- every step extends the interner, so there is room all along
  have room₆ := A.room_mono (Interner.le_intern _ "rhs") room
  have room₅ := A.room_mono (Interner.le_intern _ "array_element") room₆
  have room₄ := A.room_mono (Interner.le_intern _ "arg") room₅
  have room₃ := A.room_mono (internExternals_given _ setup.arguments).1 room₄
  have room₂ := A.room_mono (internExternals_given _ setup.externals).1 room₃
  have room₁ := A.room_mono (Interner.le_intern _ "std") room₂
  obtain ⟨w₁, hle₁, holds, fields⟩ := libraryFields_akin A functions holds room₁
  obtain ⟨w₂, hle₂, holds, libraryName⟩ := A.intern_akin "std" holds room₂
  obtain ⟨w₃, hle₃, holds, externals⟩ := internExternals_akin A setup.externals holds room₃
  obtain ⟨w₄, hle₄, holds, arguments⟩ := internExternals_akin A setup.arguments holds room₄
  obtain ⟨w₅, hle₅, holds, argumentName⟩ := A.intern_akin "arg" holds room₅
  obtain ⟨w₆, hle₆, holds, elementName⟩ := A.intern_akin "array_element" holds room₆
  obtain ⟨w₇, hle₇, holds, rightOperandName⟩ := A.intern_akin "rhs" holds room
  have hle₆₇ := hle₆.trans hle₇
  have hle₅₇ := hle₅.trans hle₆₇
  have hle₄₇ := hle₄.trans hle₅₇
  have hle₃₇ := hle₃.trans hle₄₇
  have hle₂₇ := hle₂.trans hle₃₇
  have hle := hle₁.trans hle₂₇
  refine ⟨w₇, hle, holds, State.new_akin (hle.thunk ▸ hthunk) (hle.slot ▸ hslot) _ _ _, ?_⟩
  constructor
  · rfl
  · rfl
  · exact externals.imp fun _ _ h => ⟨Bond.name_mono hle₄₇.le h.1, h.2⟩
  · exact (foldl_giveAnew_akin .nil arguments).imp fun _ _ h => ⟨Bond.name_mono hle₅₇.le h.1, h.2⟩
  · exact .single (.literal .empty (fields.mono hle₂₇.le) (.refl _ _ _) .unasserted)
  · exact Bond.name_mono hle₃₇.le libraryName
  · exact Bond.name_mono hle₆₇.le argumentName
  · exact Bond.name_mono hle₇.le elementName
  · dsimp only
    exact rightOperandName

/-- The evaluation of akin programs in akin sessions: if one comes to an outcome, within what the
accord speaks about, the other comes to an akin one. -/
theorem Accord.output {κ : Kinship} {first second : FrontEnd} (A : Accord κ first second)
    {session session' : Session} (hfirst : session.frontEnd = first)
    (hsecond : session'.frontEnd = second) {w : Bond} {a b : State}
    (sessions : session.Akin κ w session') (meets : A.Meets w a b) {live : Name → Prop}
    {c c' : Code} (code : κ.code w.name live c c') {fuel : Nat} {x : Outcome String}
    (hx : c.output.run session fuel a = some x) (hwithin : A.Within x.2) :
  ∃ fuel' y, c'.output.run session' fuel' b = some y ∧ A.Ends Identical w x y
  := by
  subst hfirst hsecond
  obtain ⟨n, hn⟩ := Action.run_iff.mp ⟨fuel, hx⟩
  have parallel : Action.Parallel κ session session' (fun _ _ => True) Identical w c.output
      c'.output :=
    Action.Parallel.inFrame trivial ⟨κ.location code, .main⟩ (Task.Akin.output code)
  obtain ⟨y, hy, hends⟩ := resolve perform sessions parallel meets hn hwithin
  obtain ⟨fuel', hfuel'⟩ := Action.run_iff.mpr ⟨n, hy⟩
  exact ⟨fuel', y, hfuel', hends⟩

/-- Akin programs in two new sessions. -/
theorem Setup.output_akin {κ : Kinship} {setup : Setup} (A : Accord κ setup.frontEnd setup.frontEnd)
    {w : Bond} (hthunk : ∀ t, ¬ w.thunk t) (hslot : ∀ s, ¬ w.slot s) {m m' : Interner}
    (holds : A.holds w.name m m') {live : Name → Prop} {c c' : Code} (code : κ.code w.name live c c')
    {fuel : Nat} {x : Outcome String}
    (hx : c.output.run (setup.start m).1 fuel (setup.start m).2 = some x) (hwithin : A.Within x.2) :
  ∃ fuel' y, c'.output.run (setup.start m').1 fuel' (setup.start m').2 = some y ∧
    A.Ends Identical w x y
  := by
  have hroom : A.room (setup.start m).2.names := by
    obtain appends | room := A.appends
    · obtain ⟨n, hn⟩ := Action.run_iff.mp ⟨fuel, hx⟩
      have grows : (setup.start m).2.Grows _ x.2 := Progress.grows Task.grows hn
      rw [← setup.start_frontEnd m] at appends
      exact A.room_mono (grows.names appends) hwithin.room
    · exact room _
  obtain ⟨w', hle, holds, akin, sessions⟩ := start_akin A hthunk hslot holds hroom
  obtain ⟨fuel', y, hy, hends⟩ := A.output (setup.start_frontEnd m) (setup.start_frontEnd m')
    sessions ⟨holds, akin⟩ (κ.mono code hle.le.1) hx hwithin
  exact ⟨fuel', y, hy, hends.weaken hle.le⟩

end Jsonnet
