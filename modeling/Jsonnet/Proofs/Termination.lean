import Jsonnet.Proofs.Cutting
import Jsonnet.Proofs.Itself
import Jsonnet.Proofs.Renaming

/-!
# Frames bound the recursion

A program in which expressions stand behind their parts comes to an end if the recursion through
data is cut. A task that asks for another one outside all frames goes down in its program, or
further up in an object, or asks for a task of a simpler kind; and there are only so many frames.
-/

namespace Jsonnet

/-! ### Ordered programs -/

/-- Whether all expressions stand behind their parts. -/
def Arena.Ordered (arena : Arena) : Prop :=
  ∀ id, ∀ place ∈ arena.below id, place.id.index < id.index

theorem Arena.Renamed.refl {ν : Name → Name → Prop} (hν : ∀ n, ν n n) (arena : Arena) :
  arena.Renamed ν arena
  where
  file := hν _
  nodes := by
    apply List.forall₂_same.mpr
    intro node _
    cases node with
    | string s => exact .string (hν s)
    | var name => exact .var (hν name)
    | importCode path => exact .importCode (hν path)
    | importText path => exact .importText (hν path)
    | _ => exact .nameless _ rfl
  spans := rfl
  lists := rfl
  binds := List.forall₂_same.mpr fun _ _ => ⟨hν _, rfl⟩
  params := List.forall₂_same.mpr fun _ _ => hν _
  fields := rfl

/-- Codes of ordered programs that differ by names that stand for each other. -/
def Kinship.ordered : Kinship where
  code ν live c c' := Kinship.renamed.code ν live c c' ∧ c.arena.Ordered
  dead := False
  reorders := False
  mono h hνμ := ⟨Kinship.renamed.mono h.1 hνμ, h.2⟩
  location h := Kinship.renamed.location h.1
  node := by
    rintro ν live c c' ⟨⟨⟨harena, hroot⟩, alive⟩, ordered⟩
    refine harena.akin alive (fun live id alive => ⟨⟨⟨harena, rfl⟩, alive⟩, ordered⟩) ?_
    rw [Code.node, Code.node, hroot]
    exact harena.node c'.root

/-- The code of an ordered program is of a kind with itself. -/
theorem Arena.Ordered.selves {code : Code} (h : code.arena.Ordered) :
  Kinship.ordered.Selves code
  := fun _ hν => ⟨⟨⟨.refl hν _, rfl⟩, fun _ => trivial⟩, h⟩

/-! ### Depths in objects -/

section

variable {κ : Kinship} {w : Bond}

/-- There are at least as many literals as the size says. -/
theorem Akin.size_le : ∀ {o p : Object}, Akin κ w (.object o) (.object p) → ∀ skipped,
  o.size ≤ (o.leavesFrom skipped).length
  | .leaf _, _, _, _ => le_rfl
  | .join _ _ _ left right, _, h, skipped => by
    cases h with
    | join sized hleft hright =>
      have hl := hleft.size_le (addLeaves skipped right.size)
      have hr := hright.size_le skipped
      rw [Object.size, sized, Object.leavesFrom, List.length_append]
      exact (min_le_left _ _).trans (by omega)

/-- The depth of a literal is less than the number of literals. -/
theorem Akin.depth_lt : ∀ {o p : Object}, Akin κ w (.object o) (.object p) →
    ∀ {skipped : Nat} {hit : Leaf × Nat}, hit ∈ o.leavesFrom skipped →
  hit.2 < skipped + (o.leavesFrom skipped).length
  | .leaf _, _, _, skipped, hit, hmem => by
    cases List.mem_singleton.mp hmem
    exact Nat.lt_succ_self skipped
  | .join _ _ _ left right, _, h, skipped, hit, hmem => by
    cases h with
    | join sized hleft hright =>
      rw [Object.leavesFrom, List.mem_append] at hmem
      rw [Object.leavesFrom, List.length_append]
      obtain hmem | hmem := hmem
      · have := hright.depth_lt hmem
        omega
      · have hdepth := hleft.depth_lt hmem
        have hsize := hright.size_le skipped
        have hskipped : addLeaves skipped right.size ≤ skipped + right.size := min_le_left _ _
        omega

end

/-- A field is not found less deep than it is looked for. -/
theorem Object.le_depth_of_findFrom {name : Name} {hit : Leaf × Nat} :
    ∀ {o : Object} {minDepth skipped : Nat}, o.findFrom name minDepth skipped = some hit →
  addLeaves skipped minDepth ≤ hit.2
  | .leaf _, minDepth, skipped, h => by
    rw [findFrom] at h
    split at h
    case isFalse => cases h
    case isTrue hfound =>
      cases h
      rw [Bool.and_eq_true, decide_eq_true_eq] at hfound
      rw [addLeaves, hfound.1]
      exact min_le_left _ _
  | .join _ _ _ left right, minDepth, skipped, h => by
    rw [findFrom_join, Option.or_eq_some_iff] at h
    obtain h | ⟨-, h⟩ := h
    · split at h
      case isFalse => cases h
      case isTrue => exact le_depth_of_findFrom h
    · have hleft := le_depth_of_findFrom h
      simp only [addLeaves] at hleft ⊢
      omega

/-- In an object with less than 2³² literals a field is found no less deep than it is looked for,
and less deep than there are literals. -/
theorem Akin.depth_of_find? {κ : Kinship} {w : Bond} {o p : Object}
    (h : Akin κ w (.object o) (.object p)) (few : o.leaves.length < 2 ^ 32) {minDepth : Nat}
    {name : Name} {leaf : Leaf} {depth : Nat} (hit : o.find? minDepth name = some (leaf, depth)) :
  minDepth ≤ depth ∧ depth < o.leaves.length
  := by
  have hlt := h.depth_lt (Object.mem_of_findFrom hit).1
  have hle := Object.le_depth_of_findFrom hit
  have hmax : maxLeaves = 2 ^ 32 - 1 := rfl
  simp only [addLeaves, Object.leaves] at *
  omega

/-! ### Ranks -/

/-- The rank of a task, with `depth` tasks directly above it that go through data. Tasks of some
kinds rank below those of others. Among those that evaluate, the rank is the place in the program;
among those that read or compute a field, the number of literals that are left; and among those
that go through data, how many more may be nested. -/
def Task.rank (limit depth : Nat) : Task → ℕ ×ₗ ℕ
  | .call .. | .check _ => toLex (0, 0)
  | .force _ => toLex (1, 0)
  | .field object _ depth _ _ => toLex (2, 2 * (object.leaves.length - depth))
  | .readField object minDepth _ _ => toLex (2, 2 * (object.leaves.length - minDepth) + 1)
  | .document _ | .equal .. | .order .. => toLex (3, limit - depth)
  | .evaluate code _ => toLex (4, code.root.index)
  | .builtin .. | .program _ | .output _ => toLex (5, 0)

/-- What the tasks of an ordered program are like: they evaluate in it, and fields are found no less
deep than they are looked for, and less deep than there are literals. -/
def Task.Orderly : Task → Prop
  | .evaluate code _ => code.arena.Ordered
  | .readField object minDepth name _ =>
    ∀ leaf depth, object.find? minDepth name = some (leaf, depth) → minDepth ≤ depth
  | .field object _ depth _ _ => object.leaves.length < 2 ^ 32 → depth < object.leaves.length
  | _ => True

section

variable {limit depth : Nat} {task inner : Task}

/-- What an orderly task asks for outside all frames ranks below it, unless that is cut. -/
theorem Task.Orderly.rank_lt (h : task.Orderly) (uncut : task.isCut limit depth = false)
    (asks : task.Asks none inner) (few : inner.FewLeaves) :
  inner.rank limit (task.depthBelow depth inner) < task.rank limit depth
  := by
  have lower : ∀ {i j m n : ℕ}, i < j → toLex (i, m) < toLex (j, n) :=
    fun h => Prod.Lex.toLex_lt_toLex.mpr (.inl h)
  have further : ∀ {i m n : ℕ}, m < n → toLex (i, m) < toLex (i, n) :=
    fun h => Prod.Lex.toLex_lt_toLex.mpr (.inr ⟨rfl, h⟩)
  cases task with
  | evaluate code env =>
    cases inner with
    | evaluate next env' =>
      obtain ⟨place, hplace, rfl⟩ := asks
      exact further (h _ place hplace)
    | builtin | field | program | output => exact asks.elim
    | _ => exact lower (by decide)
  | force thunk =>
    cases inner with
    | call => exact lower (by decide)
    | _ => exact asks.elim
  | call function arguments site => cases inner <;> exact asks.elim
  | check object => cases inner <;> exact asks.elim
  | readField object minDepth name site =>
    cases inner with
    | check => exact lower (by decide)
    | field other leaf depth name' site' =>
      obtain ⟨rfl, hit, rfl⟩ := asks
      have hle := h leaf depth hit
      exact further (by omega)
    | _ => exact asks.elim
  | field object leaf depth name site =>
    cases inner with
    | call => exact lower (by decide)
    | readField other minDepth name' site' =>
      obtain ⟨rfl, rfl, rfl⟩ := asks
      have hlt := h few
      have hnext : addLeaves depth 1 = depth + 1 := min_eq_left (by
        have hmax : maxLeaves = 2 ^ 32 - 1 := rfl
        have hfew : other.leaves.length < 2 ^ 32 := few
        omega)
      have hfurther : 2 * (other.leaves.length - addLeaves depth 1) + 1
          < 2 * (other.leaves.length - depth) := by omega
      exact further hfurther
    | _ => exact asks.elim
  | document value | equal x y | order operator x y =>
    -- at the limit the task would be cut
    have hdepth : depth < limit := by simpa [isCut, isData] using uncut
    cases inner with
    | document | equal | order => exact further (Nat.sub_succ_lt_self limit depth hdepth)
    | force | call | check | readField => exact lower (by decide)
    | _ => exact asks.elim
  | builtin b arguments | program code | output code =>
    cases inner <;> first | exact asks.elim | exact lower (by decide)

end

/-- Whether what a task asks for ranks below it, if it is outside all frames. -/
def Task.Descends (limit depth : Nat) (task : Task) (frame? : Option Frame) (inner : Task) : Prop :=
  frame? = none → inner.FewLeaves →
    inner.rank limit (task.depthBelow depth inner) < task.rank limit depth

/-- The tasks of an ordered program ask for such tasks only. -/
theorem Task.Akin.descends {session : Session} {w : Bond} {task : Task}
    {S : Bond → task.Result → task.Result → Prop} (akin : task.Akin .ordered w task S)
    (sessions : session.Akin .ordered w session) {a : State}
    (cells : ∀ t, w.thunk t →
      Option.Rel (Cell.Akin .ordered w) a.thunks[t.index]? a.thunks[t.index]?)
    (few : task.FewLeaves) {limit depth : Nat} (uncut : task.isCut limit depth = false) :
  Action.Parallel .ordered session session (task.Descends limit depth) S w (task.action a)
    (task.action a)
  := by
  have of_orderly : task.Orderly → Action.Parallel .ordered session session
      (task.Descends limit depth) S w (task.action a) (task.action a) := by
    intro orderly
    apply Progress.Parallel.imp _ (akin.action sessions cells)
    rintro frame? inner asks rfl few
    exact orderly.rank_lt uncut asks few
  cases akin with
  | literal _ _ literal literal' => exact evaluateLiteral_parallel _ _ literal literal'
  | evaluate env code => exact of_orderly code.2
  | readField minDepth object name site =>
    exact of_orderly fun leaf depth hit => (object.depth_of_find? few hit).1
  | field object leaf hit name site =>
    exact of_orderly fun few => (object.depth_of_find? few hit).2
  | _ => exact of_orderly trivial

/-! ### Runs that come to an end -/

section

variable {session : Session} {cut : Failure} {limit : Nat}
  {A : Accord .ordered session.frontEnd session.frontEnd} {w : Bond} {a : State}

/-- A computation comes to an outcome if the tasks do that it asks for. -/
theorem Progress.Parallel.ends {ask : Option Frame → Task → Prop} {depths : Task → Nat}
    (room : ∀ m, A.room m)
    (htask : ∀ {frame? : Option Frame} {task : Task} {S : Bond → task.Result → task.Result → Prop}
      {w : Bond} {b c : State}, b.stack = a.stack → b.enter frame? = .ok c → ask frame? task →
      session.Akin .ordered w session → task.Akin .ordered w task S → A.Meets w c c →
      task.ReadsFew session cut limit (depths task) c →
      ∃ fuel x, task.performCut session cut limit fuel (depths task) c = some x ∧ A.Ends S w x x)
    {α : Type} {R : Bond → α → α → Prop} {p q : Progress α} {b : State}
    (h : p.Parallel .ordered ask R w q) (same : p = q) (sessions : session.Akin .ordered w session)
    (meets : A.Meets w b b) (stack : b.stack = a.stack)
    (few : p.ReadsFew session cut limit depths b) :
  ∃ fuel x, p.resolve session (fun task => task.performCut session cut limit fuel (depths task)) b
    = some x ∧ A.Ends R w x x
  := by
  induction h generalizing b with
  | finished result =>
    cases same
    exact ⟨0, _, rfl, .ok le_rfl meets result⟩
  | @step w op op' S rest rest' hop next ih =>
    cases same
    have hends := A.operation sessions meets hop ⟨room _, False.elim⟩
    have hgrows := op.grows session b
    rcases happly : op.apply session b with ⟨outcome, c⟩
    rw [happly] at hends hgrows
    cases hends with
    | error le meets' failure =>
      refine ⟨0, _, ?_, .error le meets' failure⟩
      simp only [resolve, happly]
    | ok le meets' result =>
      obtain ⟨fuel, x, hx, hends⟩ := ih _ le _ _ result rfl (sessions.mono le) meets'
        (hgrows.stack.trans stack) (few.of_step happly)
      refine ⟨fuel, x, ?_, hends.weaken le⟩
      simp only [resolve, happly]
      exact hx
  | @wait w frame? frame?' t t' S rest rest' asks frame akin next ih =>
    cases same
    obtain ⟨cause, trace, henter, -⟩ | ⟨c, c', henter, henter', meets₁⟩ := meets.enter frame
    · refine ⟨0, _, ?_, meets.fails (.runtime cause trace)⟩
      simp only [resolve, henter]
    · cases henter.symm.trans henter'
      obtain ⟨fuel₁, x₁, hx₁, hends₁⟩ :=
        htask stack henter asks sessions akin meets₁ (few.task_of_wait henter)
      have hgrows := Task.performCut_grows hx₁
      have hends := hends₁.setStack meets.akin.frames meets.akin.room
      rw [← (hgrows.leave_eq henter).2] at hends
      obtain ⟨outcome, d⟩ := x₁
      cases hends with
      | error le meets' failure =>
        refine ⟨fuel₁, _, ?_, .error le meets' failure⟩
        simp only [resolve, henter, hx₁]
      | ok le meets' result =>
        obtain ⟨fuel₂, x, hx, hends⟩ := ih _ le _ _ result rfl (sessions.mono le) meets'
          ((hgrows.leave henter).stack.trans stack) (few.next_of_wait henter hx₁)
        refine ⟨max fuel₁ fuel₂, x, ?_, hends.weaken le⟩
        simp only [resolve, henter, Task.performCut_mono (le_max_left fuel₁ fuel₂) hx₁]
        exact resolve_mono (Task.performCut_mono (le_max_right fuel₁ fuel₂)) hx
  | labelled _ _ _ allowed => exact allowed.elim

/-- A task of an ordered program comes to an outcome: what it asks for is inside one more frame, or
ranks below it. -/
theorem Task.Akin.ends (room : ∀ m, A.room m) (names : ∀ {ν m}, A.holds ν m m → ∀ n, ν n n)
    {task : Task} {S : Bond → task.Result → task.Result → Prop} {depth : Nat}
    (sessions : session.Akin .ordered w session) (akin : task.Akin .ordered w task S)
    (meets : A.Meets w a a) (few : task.ReadsFew session cut limit depth a) :
  ∃ fuel x, task.performCut session cut limit fuel depth a = some x ∧ A.Ends S w x x
  := by
  generalize hmeasure : toLex (a.stack.room, task.rank limit depth) = measure
  induction measure using WellFoundedLT.induction generalizing task depth w a with
  | ind measure ih =>
  subst hmeasure
  cases uncut : task.isCut limit depth with
  | true =>
    refine ⟨1, _, Task.performCut_cut uncut, ?_⟩
    exact meets.fails (.refl (names meets.holds) cut)
  | false =>
  obtain ⟨unknown, -⟩ | ⟨r, r', known, known', result⟩ := optionRel_iff.mp (meets.known sessions akin)
  case inr =>
    cases known.symm.trans known'
    exact ⟨1, _, Task.performCut_known uncut known, .ok le_rfl meets result⟩
  case inl =>
  have cells : ∀ t : ThunkId, w.thunk t →
      Option.Rel (Cell.Akin .ordered w) a.thunks[t.index]? a.thunks[t.index]? := fun t alive =>
    optionRel_iff.mpr (.inr (meets.akin.thunks.related _ alive))
  have hinner : ∀ {frame? : Option Frame} {inner : Task}
      {S : Bond → inner.Result → inner.Result → Prop} {w : Bond} {b c : State},
      b.stack = (task.begin a).stack → b.enter frame? = .ok c →
      task.Descends limit depth frame? inner → session.Akin .ordered w session →
      inner.Akin .ordered w inner S → A.Meets w c c →
      inner.ReadsFew session cut limit (task.depthBelow depth inner) c →
      ∃ fuel x, inner.performCut session cut limit fuel (task.depthBelow depth inner) c = some x ∧
        A.Ends S w x x := by
    intro frame? inner S w b c stack henter descends sessions akin meets few
    rw [Task.begin_stack] at stack
    apply ih _ _ sessions akin meets few rfl
    have hroom := State.room_of_enter henter
    rw [stack] at hroom
    cases frame? with
    | none =>
      have hsame : a.stack.room = c.stack.room := hroom
      exact Prod.Lex.toLex_lt_toLex.mpr (.inr ⟨hsame.symm, descends rfl few.1⟩)
    | some frame =>
      have hless : a.stack.room = c.stack.room + 1 := hroom
      exact Prod.Lex.toLex_lt_toLex.mpr (.inl (by omega))
  obtain ⟨fuel, x, hx, hends⟩ := (akin.descends sessions cells few.1 uncut).ends room hinner rfl
    sessions (meets.begin akin) rfl (few.2 uncut unknown)
  refine ⟨fuel + 1, _, ?_, hends.settle sessions akin⟩
  rw [Task.performCut_unknown uncut unknown, hx, Option.map_some]

end

/-- The program that is null. -/
def Code.null : Code := ⟨{ file := .empty, nodes := #[.null] }, ⟨0⟩⟩

end Jsonnet
