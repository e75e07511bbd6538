import Jsonnet.Proofs.Akin

/-!
# Fields of objects that are akin

Akin objects have the same fields with the same visibilities, up to names that stand for each
other. Where fields may be in another order, so may the list of their names.
-/

namespace Jsonnet

/-- An entry has a related one. -/
theorem exists_right_of_mem {α β : Type} {R : α → β → Prop} {xs : List α} {ys : List β}
    (h : List.Forall₂ R xs ys) {x : α} (hx : x ∈ xs) :
  ∃ y ∈ ys, R x y
  := by
  induction h with
  | nil => cases hx
  | cons head _ ih =>
    obtain rfl | hx := List.mem_cons.mp hx
    · exact ⟨_, List.mem_cons_self, head⟩
    · obtain ⟨y, hy, hR⟩ := ih hx
      exact ⟨y, List.mem_cons_of_mem _ hy, hR⟩

/-- Entries that are related one by one make up related lists. -/
theorem exists_forall₂ {α β : Type} {R : α → β → Prop} {xs : List α} (h : ∀ x ∈ xs, ∃ y, R x y) :
  ∃ ys, List.Forall₂ R xs ys
  := by
  induction xs with
  | nil => exact ⟨[], .nil⟩
  | cons x xs ih =>
    obtain ⟨y, hy⟩ := h x List.mem_cons_self
    obtain ⟨ys, hys⟩ := ih fun x hx => h x (List.mem_cons_of_mem _ hx)
    exact ⟨y :: ys, .cons hy hys⟩

/-- Different names stand for different names. -/
theorem Bond.nodup_iff {w : Bond} {ns ns' : List Name} (h : List.Forall₂ w.name ns ns') :
  ns.Nodup ↔ ns'.Nodup
  := by
  have unique : Relator.BiUnique w.name :=
    ⟨fun _ _ _ h h' => w.left_unique h h', fun _ _ _ h h' => w.right_unique h h'⟩
  exact List.rel_nodup unique h

namespace Akin

variable {κ : Kinship} {w : Bond}

/-! ### Definitions -/

/-- Names that stand for each other are defined with the same visibilities in akin literals. -/
theorem leaf_definitions {l l' : Leaf} (h : Akin κ w (.leaf l) (.leaf l')) {n n' : Name}
    (name : w.name n n') :
  l.definitions n = l'.definitions n'
  := by
  obtain ⟨-, live, gs, -, fields, order, -⟩ := leaf_iff.mp h
  have same : (gs.filter fun field => field.1 = n').map (fun field => field.2.visibility)
      = l'.definitions n' := by
    obtain heq | ⟨-, distinct, perm⟩ := order
    · rw [heq, Leaf.definitions]
    · have distinct' := (perm.map Prod.fst).nodup_iff.mp distinct
      have hgs := Object.definitions_of_once (l := ⟨l.id, l.scope, gs, []⟩) distinct n'
      rw [Object.definitions_of_once distinct', Leaf.field?,
        ← Object.lookup_eq_of_perm distinct perm]
      exact hgs
  rw [← same, Leaf.definitions]
  have hfields := fields_iff.mp fields
  generalize l.fields = fs at hfields
  clear same order fields
  induction hfields with
  | nil => rfl
  | @cons f g fs gs head tail ih =>
    have heq := Bond.eq_iff head.1 name
    by_cases hn : f.1 = n
    · rw [List.filter_cons_of_pos (by simpa using hn),
        List.filter_cons_of_pos (by simpa using heq.mp hn), List.map_cons, List.map_cons, head.2.1, ih]
    · rw [List.filter_cons_of_neg (by simpa using hn),
        List.filter_cons_of_neg (by simpa using mt heq.mpr hn), ih]

section

variable {o p : Object} (h : Akin κ w (.object o) (.object p))

include h

theorem definitions_eq {n n' : Name} (name : w.name n n') :
  o.definitions n = p.definitions n'
  := by
  have hleaves := h.leavesFrom 0
  rw [Object.definitions, Object.definitions, Object.leaves, Object.leaves]
  generalize o.leavesFrom 0 = xs, p.leavesFrom 0 = ys at hleaves
  induction hleaves with
  | nil => rfl
  | cons head _ ih =>
    rw [List.flatMap_cons, List.flatMap_cons, ih]
    dsimp only
    rw [head.1.leaf_definitions name]

theorem lookup_visibility {n n' : Name} (name : w.name n n') :
  o.visibility.lookup n = p.visibility.lookup n'
  := by rw [Object.lookup_visibility, Object.lookup_visibility, h.definitions_eq name]

theorem hasField {n n' : Name} (name : w.name n n') (includeHidden : Bool) :
  o.hasField n includeHidden = p.hasField n' includeHidden
  := by
  rw [Object.hasField, Object.hasField, h.isSome_find? name, h.lookup_visibility name]

theorem mem_fieldNames_iff {n n' : Name} (name : w.name n n') (includeHidden : Bool) :
  n ∈ o.fieldNames includeHidden ↔ n' ∈ p.fieldNames includeHidden
  := by
  rw [Object.mem_fieldNames_iff_lookup, Object.mem_fieldNames_iff_lookup, h.lookup_visibility name]

end

/-! ### Names that are listed -/

/-- A name that is listed is that of a definition. -/
theorem exists_definition {o : Object} {n : Name} {includeHidden : Bool}
    (hn : n ∈ o.fieldNames includeHidden) :
  ∃ x ∈ o.leaves, ∃ f ∈ x.1.fields, f.1 = n
  := by
  obtain ⟨v, -, hv⟩ := (o.mem_fieldNames_iff_lookup includeHidden n).mp hn
  rw [Object.lookup_visibility] at hv
  split at hv
  case isTrue => cases hv
  case isFalse defined =>
    obtain ⟨u, hu⟩ := List.exists_mem_of_ne_nil _ defined
    obtain ⟨x, hx, hu⟩ := List.mem_flatMap.mp hu
    rw [List.mem_reverse, Leaf.definitions, List.mem_map] at hu
    obtain ⟨f, hf, -⟩ := hu
    obtain ⟨hf, hname⟩ := List.mem_filter.mp hf
    exact ⟨x, hx, f, hf, of_decide_eq_true hname⟩

/-! ### The table, where no other order is allowed -/

/-- Names with visibilities that stand for each other. -/
abbrev VisibleAs (w : Bond) (x y : Name × Visibility) : Prop := w.name x.1 y.1 ∧ x.2 = y.2

theorem refineVisibility {n n' : Name} (name : w.name n n') (v : Visibility)
    {seen seen' : List (Name × Visibility)} (h : List.Forall₂ (VisibleAs w) seen seen') :
  List.Forall₂ (VisibleAs w) (Object.refineVisibility n v seen) (Object.refineVisibility n' v seen')
  := by
  induction h with
  | nil => exact .cons ⟨name, rfl⟩ .nil
  | @cons x y xs ys head tail ih =>
    obtain ⟨m, u⟩ := x
    obtain ⟨m', u'⟩ := y
    obtain ⟨hm, hu⟩ := head
    cases hu
    rw [Object.refineVisibility, Object.refineVisibility]
    have heq := Bond.eq_iff hm name
    by_cases h : m = n
    · rw [if_pos h, if_pos (heq.mp h)]
      exact .cons ⟨hm, rfl⟩ tail
    · rw [if_neg h, if_neg fun h' => h (heq.mpr h')]
      exact .cons ⟨hm, rfl⟩ ih

theorem visibilityFields {live : Name → Prop} : ∀ {fs fs' : List (Name × Field)},
  Akin κ w (.fields live fs) (.fields live fs') → ∀ {seen seen' : List (Name × Visibility)},
    List.Forall₂ (VisibleAs w) seen seen' →
    List.Forall₂ (VisibleAs w)
      (fs.foldl (fun seen (n, f) => Object.refineVisibility n f.visibility seen) seen)
      (fs'.foldl (fun seen (n, f) => Object.refineVisibility n f.visibility seen) seen')
  | [], _, h, _, _, hseen => by
    cases h
    exact hseen
  | _ :: _, _, h, _, _, hseen => by
    cases h with
    | field name head tail => exact visibilityFields tail (refineVisibility name _ hseen)

theorem visibilityOver (ordered : ¬ κ.reorders) : ∀ {o p : Object}, Akin κ w (.object o) (.object p) →
  ∀ {seen seen' : List (Name × Visibility)}, List.Forall₂ (VisibleAs w) seen seen' →
    List.Forall₂ (VisibleAs w) (o.visibilityOver seen) (p.visibilityOver seen')
  | .leaf l, _, h, _, _, hseen => by
    cases h with
    | single leaf =>
      obtain ⟨-, live, gs, -, fields, order, -⟩ := leaf_iff.mp leaf
      rw [Object.visibilityOver, Object.visibilityOver, ← order.eq ordered]
      exact visibilityFields fields hseen
  | .join _ _ _ left right, _, h, _, _, hseen => by
    cases h with
    | join sized hleft hright => exact visibilityOver ordered hright (visibilityOver ordered hleft hseen)

/-- The names that are listed stand for each other one by one. -/
theorem fieldNames_ordered (ordered : ¬ κ.reorders) {o p : Object}
    (h : Akin κ w (.object o) (.object p)) (includeHidden : Bool) :
  List.Forall₂ w.name (o.fieldNames includeHidden) (p.fieldNames includeHidden)
  := by
  have hvisible : List.Forall₂ (VisibleAs w) o.visibility p.visibility :=
    visibilityOver ordered h .nil
  rw [Object.fieldNames, Object.fieldNames]
  generalize o.visibility = xs, p.visibility = ys at hvisible
  induction hvisible with
  | nil => exact .nil
  | @cons x y xs ys head tail ih =>
    obtain ⟨n, v⟩ := x
    obtain ⟨n', v'⟩ := y
    obtain ⟨name, hv⟩ := head
    change v = v' at hv
    subst hv
    simp only [List.filter_cons]
    cases includeHidden || v != .hidden with
    | true => exact .cons name ih
    | false => exact ih

/-! ### The lists of names -/

section

variable {o p : Object} (h : Akin κ w (.object o) (.object p)) (includeHidden : Bool)

include h

/-- A name that is listed stands for one of the other object. -/
theorem exists_name_right {n : Name} (hn : n ∈ o.fieldNames includeHidden) :
  ∃ n' ∈ p.fieldNames includeHidden, w.name n n'
  := by
  obtain ⟨x, hx, f, hf, rfl⟩ := exists_definition hn
  obtain ⟨y, -, leaf, -⟩ := exists_right_of_mem (h.leavesFrom 0) hx
  obtain ⟨-, live, gs, -, fields, -, -⟩ := leaf_iff.mp leaf
  obtain ⟨g, -, name, -⟩ := exists_right_of_mem (fields_iff.mp fields) hf
  exact ⟨g.1, (h.mem_fieldNames_iff name includeHidden).mp hn, name⟩

/-- A name that the other object lists is stood for. -/
theorem exists_name_left {n' : Name} (hn' : n' ∈ p.fieldNames includeHidden) :
  ∃ n ∈ o.fieldNames includeHidden, w.name n n'
  := by
  obtain ⟨y, hy, g, hg, rfl⟩ := exists_definition hn'
  obtain ⟨x, -, leaf, -⟩ := exists_right_of_mem (h.leavesFrom 0).flip hy
  obtain ⟨-, live, gs, -, fields, order, -⟩ := leaf_iff.mp leaf
  obtain ⟨f, -, name, -⟩ := exists_right_of_mem (fields_iff.mp fields).flip (order.perm.mem_iff.mpr hg)
  exact ⟨f.1, (h.mem_fieldNames_iff name includeHidden).mpr hn', name⟩

/-- The names that are listed stand for each other, up to their order. -/
theorem fieldNames :
  ∃ ns, List.Forall₂ w.name (o.fieldNames includeHidden) ns ∧
    Reorders κ.reorders id ns (p.fieldNames includeHidden)
  := by
  by_cases allowed : κ.reorders
  · have counterparts : ∀ n ∈ o.fieldNames includeHidden, ∃ n', w.name n n' := by
      intro n hn
      obtain ⟨n', -, name⟩ := h.exists_name_right includeHidden hn
      exact ⟨n', name⟩
    obtain ⟨ns, hns⟩ := exists_forall₂ counterparts
    have distinct : ns.Nodup := (Bond.nodup_iff hns).mp (o.nodup_fieldNames includeHidden)
    refine ⟨ns, hns, .inr ⟨allowed, by rwa [List.map_id], ?_⟩⟩
    rw [List.perm_ext_iff_of_nodup distinct (p.nodup_fieldNames includeHidden)]
    intro n'
    constructor
    · intro hn'
      obtain ⟨n, hn, name⟩ := exists_right_of_mem hns.flip hn'
      exact (h.mem_fieldNames_iff name includeHidden).mp hn
    · intro hn'
      obtain ⟨n, hn, name⟩ := h.exists_name_left includeHidden hn'
      obtain ⟨m, hm, other⟩ := exists_right_of_mem hns hn
      rwa [w.right_unique name other]
  · exact ⟨_, fieldNames_ordered allowed h includeHidden, .refl _ _ _⟩

end

end Akin

end Jsonnet
