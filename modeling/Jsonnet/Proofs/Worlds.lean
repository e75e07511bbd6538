import Jsonnet.Eval.Program
import Jsonnet.Proofs.Alike

/-!
# Alike objects and results

A result may be an object whose assertions are not checked, so results match in more
cases than data in a store do. A world is a pairing that pairs alike objects only.
-/

namespace Jsonnet

/-- Related options are both empty, or both hold related things. -/
theorem optionRel_iff {α β : Type} {r : α → β → Prop} {x : Option α} {y : Option β} :
  Option.Rel r x y ↔ (x = none ∧ y = none) ∨ ∃ a b, x = some a ∧ y = some b ∧ r a b
  := by
  constructor
  · intro h
    cases h with
    | none => exact .inl ⟨rfl, rfl⟩
    | some h => exact .inr ⟨_, _, rfl, rfl, h⟩
  · rintro (⟨rfl, rfl⟩ | ⟨a, b, rfl, rfl, h⟩)
    · exact .none
    · exact .some h

/-- Lists that are related element by element are related at every position. -/
theorem forall₂_getElem? {α β : Type} {r : α → β → Prop} {xs : List α} {ys : List β}
    (h : List.Forall₂ r xs ys) (i : Nat) :
  Option.Rel r xs[i]? ys[i]?
  := by
  induction h generalizing i with
  | nil => exact .none
  | cons head tail ih =>
    cases i with
    | zero => exact .some head
    | succ i => exact ih i

/-! ### Lists and scopes -/

section

variable {τ : Terms} {w : Pairing τ}

theorem alike_deferreds_iff {xs ys : List Deferred} :
  Alike w (.deferreds xs) (.deferreds ys)
    ↔ List.Forall₂ (fun x y => Alike w (.deferred x) (.deferred y)) xs ys
  := by
  constructor
  · intro h
    induction xs generalizing ys with
    | nil => cases h; exact .nil
    | cons x xs ih =>
      cases h with
      | cons head tail => exact .cons head (ih tail)
  · intro h
    induction h with
    | nil => exact .nil
    | cons head tail ih => exact .cons head ih

theorem alike_bindings_iff {bs bs' : List (Name × Binding)} :
  Alike w (.bindings bs) (.bindings bs')
    ↔ List.Forall₂ (fun b b' => b.1 = b'.1 ∧ Alike w (.binding b.2) (.binding b'.2)) bs bs'
  := by
  constructor
  · intro h
    induction bs generalizing bs' with
    | nil => cases h; exact .nil
    | cons b bs ih =>
      cases h with
      | bind head tail => exact .cons ⟨rfl, head⟩ (ih tail)
  · intro h
    induction h with
    | nil => exact .unbound
    | @cons b b' bs bs' head tail ih =>
      obtain ⟨name, b⟩ := b
      obtain ⟨name', b'⟩ := b'
      obtain ⟨heq, hb⟩ := head
      cases heq
      exact .bind hb ih

/-- Alike lists bind a name to alike things. -/
theorem lookup_alike {bs bs' : List (Name × Binding)} (name : Name)
    (h : List.Forall₂ (fun b b' => b.1 = b'.1 ∧ Alike w (.binding b.2) (.binding b'.2))
      bs bs') :
  Option.Rel (fun b b' => Alike w (.binding b) (.binding b')) (bs.lookup name)
    (bs'.lookup name)
  := by
  induction h with
  | nil => exact .none
  | @cons b b' bs bs' head tail ih =>
    obtain ⟨n, b⟩ := b
    obtain ⟨n', b'⟩ := b'
    obtain ⟨heq, hb⟩ := head
    cases heq
    rw [List.lookup, List.lookup]
    cases name == n with
    | true => exact .some hb
    | false => exact ih

/-- In alike scopes a name is bound to alike things. -/
theorem Alike.lookup (name : Name) : ∀ {s s' : Scope}, Alike w (.scope s) (.scope s') →
  Option.Rel (fun b b' => Alike w (.binding b) (.binding b')) (s.lookup name)
    (s'.lookup name)
  | .empty, _, h => by
    cases h
    exact .none
  | .layer bs s, _, h => by
    cases h with
    | layer bindings outer =>
      have hlayer := lookup_alike name (List.rel_reverse (alike_bindings_iff.mp bindings))
      rw [Scope.lookup, Scope.lookup]
      obtain ⟨hb, hb'⟩ | ⟨b, b', hb, hb', h⟩ := optionRel_iff.mp hlayer
      · rw [hb, hb']
        exact Alike.lookup name outer
      · rw [hb, hb']
        exact .some h

theorem Alike.extend {s s' : Scope} (h : Alike w (.scope s) (.scope s'))
    {bs bs' : List (Name × Binding)} (hbs : Alike w (.bindings bs) (.bindings bs')) :
  Alike w (.scope (s.extend bs)) (.scope (s'.extend bs'))
  := by
  cases hbs with
  | unbound => exact h
  | bind head tail => exact .layer (.bind head tail) h

theorem Alike.bindValues {s s' : Scope} (h : Alike w (.scope s) (.scope s'))
    {ds ds' : List Deferred} (hds : Alike w (.deferreds ds) (.deferreds ds'))
    (params : List Name) :
  Alike w (.scope (s.bindValues (params.zip ds))) (.scope (s'.bindValues (params.zip ds')))
  := by
  apply h.extend
  rw [alike_deferreds_iff] at hds
  induction hds generalizing params with
  | nil => cases params <;> exact .unbound
  | cons head tail ih =>
    cases params with
    | nil => exact .unbound
    | cons param params => exact .bind (.bound head) (ih params)

/-- Names are bound to slots that stand for each other. -/
theorem Alike.bindSlots {s s' : Scope} (h : Alike w (.scope s) (.scope s'))
    {slots slots' : List SlotId} (hslots : List.Forall₂ w.slot slots slots') (names : List Name) :
  Alike w (.scope (s.bindSlots (names.zip slots))) (.scope (s'.bindSlots (names.zip slots')))
  := by
  apply h.extend
  induction hslots generalizing names with
  | nil => cases names <;> exact .unbound
  | cons head tail ih =>
    cases names with
    | nil => exact .unbound
    | cons name names => exact .bind (.slot head) (ih names)

theorem alike_env_iff {e e' : Env} :
  Alike w (.env e) (.env e')
    ↔ Alike w (.scope e.scope) (.scope e'.scope) ∧ Option.Rel w.self e.self? e'.self? ∧
      e.superDepth = e'.superDepth
  := by
  constructor
  · intro h
    cases h with
    | outside scope => exact ⟨scope, .none, rfl⟩
    | inside scope self => exact ⟨scope, .some self, rfl⟩
  · rintro ⟨scope, self, depth⟩
    obtain ⟨s, o?, d⟩ := e
    obtain ⟨s', p?, d'⟩ := e'
    cases depth
    cases self with
    | none => exact .outside scope
    | some self => exact .inside scope self

theorem Alike.withScope {e e' : Env} (h : Alike w (.env e) (.env e')) {s s' : Scope}
    (hs : Alike w (.scope s) (.scope s')) :
  Alike w (.env (e.withScope s)) (.env (e'.withScope s'))
  := by
  rw [alike_env_iff] at h ⊢
  exact ⟨hs, h.2⟩

end

/-! ### Results -/

/-- Results that match: the same up to what is paired, where any object may be a result. -/
inductive Value.Matches {τ : Terms} (w : Pairing τ) : Value → Value → Prop where
  | null : Matches w .null .null
  | bool (b : Bool) : Matches w (.bool b) (.bool b)
  | number (x : Number) : Matches w (.number x) (.number x)
  | string (s : String) : Matches w (.string s) (.string s)
  | array {xs ys : Array Deferred} (elements : Alike w (.deferreds xs.toList) (.deferreds ys.toList)) :
    Matches w (.array xs) (.array ys)
  | function {f g : Function} (function : Alike w (.function f) (.function g)) :
    Matches w (.function f) (.function g)
  | object {o p : Object} (object : w.object o p) : Matches w (.object o) (.object p)

/-- Arguments of builtins that match: alike, or computed already and matching. -/
inductive Deferred.Matches {τ : Terms} (w : Pairing τ) : Deferred → Deferred → Prop where
  | alike {d d' : Deferred} (h : Alike w (.deferred d) (.deferred d')) : Matches w d d'
  | ready {v v' : Value} (h : v.Matches w v') : Matches w (.ready v) (.ready v')

section

variable {τ : Terms} {u w : Pairing τ} {v v' : Value}

theorem Value.Matches.mono (h : v.Matches u v') (hle : u ≤ w) :
  v.Matches w v'
  := by
  cases h with
  | null => exact .null
  | bool b => exact .bool b
  | number n => exact .number n
  | string s => exact .string s
  | array elements => exact .array (elements.mono hle)
  | function function => exact .function (function.mono hle)
  | object object => exact .object (Pairing.object_mono hle object)

theorem Value.Matches.typeName_eq (h : v.Matches w v') :
  v.typeName = v'.typeName
  := by
  cases h <;> rfl

theorem Deferred.Matches.mono {d d' : Deferred} (h : d.Matches u d') (hle : u ≤ w) :
  d.Matches w d'
  := by
  cases h with
  | alike h => exact .alike (h.mono hle)
  | ready h => exact .ready (h.mono hle)

theorem matches_of_alike {ds ds' : List Deferred} (h : Alike w (.deferreds ds) (.deferreds ds')) :
  List.Forall₂ (Deferred.Matches w) ds ds'
  := by
  rw [alike_deferreds_iff] at h
  exact h.imp fun _ _ => .alike

end

theorem Value.Matches.symm {w : Pairing .loose} {v v' : Value} (h : v.Matches w v') :
  v'.Matches w.inverse v
  := by
  cases h with
  | null => exact .null
  | bool b => exact .bool b
  | number n => exact .number n
  | string s => exact .string s
  | array elements => exact .array elements.symm
  | function function => exact .function function.symm
  | object object => exact .object object

theorem Value.Matches.trans {u w : Pairing .loose} {v v' v'' : Value} (h : v.Matches u v')
    (h' : v'.Matches w v'') :
  v.Matches (u.comp w) v''
  := by
  cases h with
  | null => cases h'; exact .null
  | bool b => cases h'; exact .bool b
  | number n => cases h'; exact .number n
  | string s => cases h'; exact .string s
  | array elements =>
    cases h' with
    | array elements' => exact .array (elements.trans elements')
  | function function =>
    cases h' with
    | function function' => exact .function (function.trans function')
  | object object =>
    cases h' with
    | object object' => exact .object ⟨_, object, object'⟩

/-! ### Objects -/

/-- A member of a literal that is alike to itself: it refers to what is in the scope of the
literal, and to the object that the literal is part of. -/
inductive Member.Fits {τ : Terms} (w : Pairing τ) (scope : Scope) : Member → Prop where
  | code {body : Code} (named : body.Named w.name) (fits : body.Fits τ scope.Binds True)
      (extendsSuper : Bool) : Fits w scope (.code body extendsSuper)
  | ready {v : Value} (value : Jsonnet.Alike w (.value v) (.value v)) : Fits w scope (.ready v)

/-- Literals that differ by their scopes only. -/
structure Leaf.Alike {τ : Terms} (w : Pairing τ) (l l' : Leaf) : Prop where
  scope : Jsonnet.Alike w (.scope l.scope) (.scope l'.scope)
  fields : l.fields = l'.fields
  asserts : l.asserts = l'.asserts
  name : ∀ field ∈ l.fields, w.name field.1
  member : ∀ field ∈ l.fields, field.2.member.Fits w l.scope
  assertion : ∀ member ∈ l.asserts, member.Fits w l.scope

/-- Objects of alike literals. Where objects keep the numbers of their literals, an object of
three parts may be put together either way. -/
inductive Object.Alike {τ : Terms} (w : Pairing τ) : Object → Object → Prop where
  | leaf {l l' : Leaf} (leaf : l.Alike w l') : Alike w (.leaf l) (.leaf l')
  | join {i i' : ObjectId} {size : Nat} {hasAsserts : Bool} {l r l' r' : Object}
      (sized : ¬ τ.exact → size = addLeaves l.size r.size) (left : Alike w l l')
      (right : Alike w r r') :
    Alike w (.join i size hasAsserts l r) (.join i' size hasAsserts l' r')
  | regroup {i j i' j' : ObjectId} {a b c a' b' c' : Object} (exact : τ.exact)
      (first : Alike w a a') (second : Alike w b b') (third : Alike w c c')
      (inner : 0 < b.size) (total : a.size + b.size + c.size ≤ maxLeaves) :
    Alike w (combine i (combine j a b) c) (combine i' a' (combine j' b' c'))
  | ungroup {i j i' j' : ObjectId} {a b c a' b' c' : Object} (exact : τ.exact)
      (first : Alike w a a') (second : Alike w b b') (third : Alike w c c')
      (inner : 0 < b.size) (total : a.size + b.size + c.size ≤ maxLeaves) :
    Alike w (combine i a (combine j b c)) (combine i' (combine j' a' b') c')

namespace Member.Fits

variable {τ : Terms} {u w : Pairing τ} {scope : Scope} {member : Member}

theorem of_selves (h : member.Fits u scope) (hle : u.selves ≤ w.selves) :
  member.Fits w scope
  := by
  cases h with
  | @code body named fits extendsSuper =>
    have named : body.Named w.name := named.mono fun _ => Pairing.name_mono hle
    exact .code named fits extendsSuper
  | ready value => exact .ready (value.of_selves hle)

theorem mono (h : member.Fits u scope) (hle : u ≤ w) :
  member.Fits w scope
  := h.of_selves (Pairing.selves_mono hle)

theorem symm {w : Pairing .loose} (h : member.Fits w scope) (scope' : Scope) :
  member.Fits w.inverse scope'
  := by
  cases h with
  | @code body named fits extendsSuper =>
    have named : body.Named w.inverse.name := named
    exact .code named (.loose _ _ _) extendsSuper
  | ready value => exact .ready value.symm

theorem trans {u w : Pairing .loose} {scope' : Scope} (h : member.Fits u scope)
    (h' : member.Fits w scope') :
  member.Fits (u.comp w) scope
  := by
  cases h with
  | ready value =>
    cases h' with
    | ready value' => exact .ready (value.trans value')
  | code named fits extendsSuper =>
    cases h' with
    | code named' _ _ => exact .code (named.and named') fits extendsSuper

end Member.Fits

namespace Leaf.Alike

variable {τ : Terms} {u w : Pairing τ} {l l' l'' : Leaf}

theorem of_selves (h : l.Alike u l') (hle : u.selves ≤ w.selves) :
  l.Alike w l'
  where
  scope := h.scope.of_selves hle
  fields := h.fields
  asserts := h.asserts
  name field hfield := Pairing.name_mono hle (h.name field hfield)
  member field hfield := (h.member field hfield).of_selves hle
  assertion member hmember := (h.assertion member hmember).of_selves hle

theorem symm {w : Pairing .loose} (h : l.Alike w l') :
  l'.Alike w.inverse l
  where
  scope := h.scope.symm
  fields := h.fields.symm
  asserts := h.asserts.symm
  name field hfield := h.name field (h.fields ▸ hfield)
  member field hfield := (h.member field (h.fields ▸ hfield)).symm _
  assertion member hmember := (h.assertion member (h.asserts ▸ hmember)).symm _

theorem trans {u w : Pairing .loose} (h : l.Alike u l') (h' : l'.Alike w l'') :
  l.Alike (u.comp w) l''
  where
  scope := h.scope.trans h'.scope
  fields := h.fields.trans h'.fields
  asserts := h.asserts.trans h'.asserts
  name field hfield := ⟨h.name field hfield, h'.name field (h.fields ▸ hfield)⟩
  member field hfield := (h.member field hfield).trans (h'.member field (h.fields ▸ hfield))
  assertion member hmember :=
    (h.assertion member hmember).trans (h'.assertion member (h.asserts ▸ hmember))

theorem field?_eq (h : l.Alike w l') (name : Name) :
  l.field? name = l'.field? name
  := by
  rw [Leaf.field?, Leaf.field?, h.fields]

/-- The members of alike literals are the same. -/
theorem fits (h : l.Alike w l') {name : Name} {field : Field}
    (hfield : l.field? name = some field) :
  field.member.Fits w l.scope
  := by
  obtain ⟨before, after, heq, -⟩ := List.lookup_eq_some_iff.mp hfield
  apply h.member (name, field)
  rw [heq]
  exact List.mem_append_right _ List.mem_cons_self

end Leaf.Alike

/-! ### Looking fields up -/

theorem addLeaves_assoc (a b c : Nat) :
  addLeaves (addLeaves a b) c = addLeaves a (addLeaves b c)
  := by
  simp only [addLeaves]
  omega

theorem addLeaves_comm (a b : Nat) :
  addLeaves a b = addLeaves b a
  := by
  rw [addLeaves, addLeaves, Nat.add_comm]

/-- Options that are related stay so with related alternatives. -/
theorem optionRel_or {α β : Type} {r : α → β → Prop} {x x' : Option α} {y y' : Option β}
    (h : Option.Rel r x y) (h' : Option.Rel r x' y') :
  Option.Rel r (x.or x') (y.or y')
  := by
  cases h with
  | none => exact h'
  | some h => exact .some h

namespace Object

theorem size_combine (id : ObjectId) (left right : Object) :
  (combine id left right).size = addLeaves left.size right.size
  := rfl

theorem hasAsserts_combine (id : ObjectId) (left right : Object) :
  (combine id left right).hasAsserts = (left.hasAsserts || right.hasAsserts)
  := rfl

theorem leavesFrom_combine (id : ObjectId) (left right : Object) (skipped : Nat) :
  (combine id left right).leavesFrom skipped
    = right.leavesFrom skipped ++ left.leavesFrom (addLeaves skipped right.size)
  := rfl

theorem visibilityOver_combine (id : ObjectId) (left right : Object)
    (seen : List (Name × Visibility)) :
  (combine id left right).visibilityOver seen
    = right.visibilityOver (left.visibilityOver seen)
  := rfl

variable (name : Name) (minDepth skipped : Nat)

/-- A field is looked up in the right object first, if that is not left out, and in the
left one behind it. -/
theorem findFrom_join (id : ObjectId) (size : Nat) (hasAsserts : Bool) (left right : Object) :
  (join id size hasAsserts left right).findFrom name minDepth skipped
    = (if minDepth < right.size then right.findFrom name minDepth skipped else none).or
      (left.findFrom name (minDepth - right.size) (addLeaves skipped right.size))
  := by
  rw [findFrom]
  split
  case h_1 hit h => rw [h, Option.some_or]
  case h_2 h => rw [h, Option.none_or]

/-- In an object of three parts that are put together on the left, a field is looked up
part by part. -/
theorem findFrom_left (i j : ObjectId) (a b c : Object) :
  (combine i (combine j a b) c).findFrom name minDepth skipped
    = (if minDepth < c.size then c.findFrom name minDepth skipped else none).or
      ((if minDepth - c.size < b.size then
          b.findFrom name (minDepth - c.size) (addLeaves skipped c.size) else none).or
        (a.findFrom name (minDepth - (b.size + c.size))
          (addLeaves skipped (addLeaves b.size c.size))))
  := by
  rw [combine, findFrom_join, combine, findFrom_join, addLeaves_assoc, Nat.sub_sub]
  simp only [addLeaves, Nat.add_comm]

/-- In an object of three parts that are put together on the right, a field is looked up
part by part as well. -/
theorem findFrom_right (i j : ObjectId) (a b c : Object) (inner : 0 < b.size)
    (total : a.size + b.size + c.size ≤ maxLeaves) :
  (combine i a (combine j b c)).findFrom name minDepth skipped
    = (if minDepth < c.size then c.findFrom name minDepth skipped else none).or
      ((if minDepth - c.size < b.size then
          b.findFrom name (minDepth - c.size) (addLeaves skipped c.size) else none).or
        (a.findFrom name (minDepth - (b.size + c.size))
          (addLeaves skipped (addLeaves b.size c.size))))
  := by
  have hsize : (combine j b c).size = addLeaves b.size c.size := rfl
  have hsum : addLeaves b.size c.size = b.size + c.size := by
    simp only [addLeaves]
    omega
  rw [combine, findFrom_join, hsize, hsum, combine, findFrom_join]
  by_cases hb : minDepth < b.size + c.size
  · rw [if_pos hb, if_pos (show minDepth - c.size < b.size by omega), Option.or_assoc]
  · rw [if_neg hb, if_neg (show ¬ minDepth < c.size by omega),
      if_neg (show ¬ minDepth - c.size < b.size by omega)]
    rfl

end Object

/-- The literal in which a field is found is one of the object's, and defines the field. -/
theorem Object.mem_of_findFrom {name : Name} {hit : Leaf × Nat} :
    ∀ {o : Object} {minDepth skipped : Nat}, o.findFrom name minDepth skipped = some hit →
  hit ∈ o.leavesFrom skipped ∧ (hit.1.field? name).isSome = true
  | .leaf l, minDepth, skipped, h => by
    rw [findFrom] at h
    split at h
    case isFalse => cases h
    case isTrue hfound =>
      cases h
      rw [Bool.and_eq_true] at hfound
      exact ⟨List.mem_singleton_self _, hfound.2⟩
  | .join id size hasAsserts left right, minDepth, skipped, h => by
    rw [findFrom_join, Option.or_eq_some_iff] at h
    rw [leavesFrom, List.mem_append]
    obtain h | ⟨-, h⟩ := h
    · split at h
      case isFalse => cases h
      case isTrue => exact (mem_of_findFrom h).imp_left .inl
    · exact (mem_of_findFrom h).imp_left .inr

/-! ### Alike objects -/

namespace Object.Alike

variable {τ : Terms} {u w : Pairing τ} {o p q : Object}

/-- Objects are alike by what their literals refer to, so other objects do not matter. -/
theorem of_selves (h : o.Alike u p) (hle : u.selves ≤ w.selves) :
  o.Alike w p
  := by
  induction h with
  | leaf leaf => exact .leaf (leaf.of_selves hle)
  | join sized left right ihleft ihright => exact .join sized ihleft ihright
  | regroup exact first second third inner total ihfirst ihsecond ihthird =>
    exact .regroup exact ihfirst ihsecond ihthird inner total
  | ungroup exact first second third inner total ihfirst ihsecond ihthird =>
    exact .ungroup exact ihfirst ihsecond ihthird inner total

theorem mono (h : o.Alike u p) (hle : u ≤ w) :
  o.Alike w p
  := h.of_selves (Pairing.selves_mono hle)

theorem size_eq (h : o.Alike w p) :
  o.size = p.size
  := by
  induction h with
  | leaf leaf => rfl
  | join => rfl
  | regroup exact first second third inner total ihfirst ihsecond ihthird =>
    simp only [size_combine, ihfirst, ihsecond, ihthird, addLeaves_assoc]
  | ungroup exact first second third inner total ihfirst ihsecond ihthird =>
    simp only [size_combine, ihfirst, ihsecond, ihthird, addLeaves_assoc]

theorem symm {w : Pairing .loose} (h : o.Alike w p) :
  p.Alike w.inverse o
  := by
  induction h with
  | leaf leaf => exact .leaf leaf.symm
  | join sized left right ihleft ihright =>
    refine .join ?_ ihleft ihright
    intro hloose
    rw [sized hloose, left.size_eq, right.size_eq]
  | regroup exact => exact exact.elim
  | ungroup exact => exact exact.elim

theorem trans {u w : Pairing .loose} (h : o.Alike u p) (h' : p.Alike w q) :
  o.Alike (u.comp w) q
  := by
  induction h generalizing q with
  | leaf leaf =>
    cases h' with
    | leaf leaf' => exact .leaf (leaf.trans leaf')
  | join sized left right ihleft ihright =>
    cases h' with
    | join _ left' right' => exact .join sized (ihleft left') (ihright right')
    | regroup exact => exact exact.elim
    | ungroup exact => exact exact.elim
  | regroup exact => exact exact.elim
  | ungroup exact => exact exact.elim

theorem hasAsserts_eq (h : o.Alike w p) :
  o.hasAsserts = p.hasAsserts
  := by
  induction h with
  | leaf leaf => rw [hasAsserts, hasAsserts, leaf.asserts]
  | join => rfl
  | regroup exact first second third inner total ihfirst ihsecond ihthird =>
    simp only [hasAsserts_combine, ihfirst, ihsecond, ihthird, Bool.or_assoc]
  | ungroup exact first second third inner total ihfirst ihsecond ihthird =>
    simp only [hasAsserts_combine, ihfirst, ihsecond, ihthird, Bool.or_assoc]

/-- Alike objects have alike literals at the same depths. -/
theorem leavesFrom (h : o.Alike w p) (skipped : Nat) :
  List.Forall₂ (fun l l' => l.1.Alike w l'.1 ∧ l.2 = l'.2) (o.leavesFrom skipped)
    (p.leavesFrom skipped)
  := by
  induction h generalizing skipped with
  | leaf leaf => exact .cons ⟨leaf, rfl⟩ .nil
  | join sized left right ihleft ihright =>
    rw [Object.leavesFrom, Object.leavesFrom, right.size_eq]
    exact List.rel_append (ihright skipped) (ihleft _)
  | regroup exact first second third inner total ihfirst ihsecond ihthird =>
    simp only [leavesFrom_combine, size_combine, second.size_eq, third.size_eq, addLeaves_assoc,
      List.append_assoc]
    rw [addLeaves_comm (size _) (size _)]
    exact List.rel_append (ihthird skipped) (List.rel_append (ihsecond _) (ihfirst _))
  | ungroup exact first second third inner total ihfirst ihsecond ihthird =>
    simp only [leavesFrom_combine, size_combine, second.size_eq, third.size_eq, addLeaves_assoc,
      List.append_assoc]
    rw [addLeaves_comm (size _) (size _)]
    exact List.rel_append (ihthird skipped) (List.rel_append (ihsecond _) (ihfirst _))

/-- Alike objects have the same assertions in alike literals. -/
theorem assertions (h : o.Alike w p) :
  List.Forall₂ (fun a a' => a.1.Alike w a'.1 ∧ a.2 = a'.2 ∧ a.2.2.Fits w a.1.scope)
    o.assertions p.assertions
  := by
  rw [Object.assertions, Object.assertions]
  refine List.rel_flatMap (h.leavesFrom 0) ?_
  rintro ⟨l, depth⟩ ⟨l', depth'⟩ ⟨hl, hdepth⟩
  cases hdepth
  dsimp only at hl ⊢
  rw [← hl.asserts, List.forall₂_map_left_iff, List.forall₂_map_right_iff, List.forall₂_same]
  intro a ha
  exact ⟨hl, rfl, hl.assertion a ha⟩

/-- In alike objects a field is found in alike literals at the same depth. -/
theorem findFrom (h : o.Alike w p) (name : Name) (minDepth skipped : Nat) :
  Option.Rel (fun l l' => l.1.Alike w l'.1 ∧ l.2 = l'.2) (o.findFrom name minDepth skipped)
    (p.findFrom name minDepth skipped)
  := by
  induction h generalizing minDepth skipped with
  | leaf leaf =>
    rw [Object.findFrom, Object.findFrom, leaf.field?_eq]
    split
    · exact .some ⟨leaf, rfl⟩
    · exact .none
  | join sized left right ihleft ihright =>
    rw [findFrom_join, findFrom_join, right.size_eq]
    apply optionRel_or _ (ihleft _ _)
    split
    · apply ihright
    · exact .none
  | regroup exact first second third inner total ihfirst ihsecond ihthird =>
    rw [findFrom_left, findFrom_right, second.size_eq, third.size_eq]
    · apply optionRel_or _ (optionRel_or _ (ihfirst _ _)) <;> split
      · apply ihthird
      · exact .none
      · apply ihsecond
      · exact .none
    · rwa [← second.size_eq]
    · rwa [← first.size_eq, ← second.size_eq, ← third.size_eq]
  | ungroup exact first second third inner total ihfirst ihsecond ihthird =>
    rw [findFrom_right _ _ _ _ _ _ _ _ inner total, findFrom_left, second.size_eq, third.size_eq]
    apply optionRel_or _ (optionRel_or _ (ihfirst _ _)) <;> split
    · apply ihthird
    · exact .none
    · apply ihsecond
    · exact .none

theorem find? (h : o.Alike w p) (minDepth : Nat) (name : Name) :
  Option.Rel (fun l l' => l.1.Alike w l'.1 ∧ l.2 = l'.2) (o.find? minDepth name)
    (p.find? minDepth name)
  := h.findFrom name minDepth 0

/-- The depths of the literals of an object, below the greatest count. -/
theorem leavesFrom_depth {w : Pairing .loose} (h : o.Alike w p) {skipped : Nat} {l : Leaf}
    {depth : Nat} (hl : (l, depth) ∈ o.leavesFrom skipped) (hdepth : depth < maxLeaves) :
  skipped ≤ depth ∧ depth < skipped + o.size
  := by
  induction h generalizing skipped with
  | leaf leaf =>
    cases List.mem_singleton.mp hl
    rw [size]
    omega
  | join sized left right ihleft ihright =>
    rw [Object.leavesFrom, List.mem_append] at hl
    rw [size, sized False.elim]
    simp only [addLeaves] at *
    obtain hl | hl := hl
    · have := ihright hl
      omega
    · have := ihleft hl
      omega
  | regroup exact => exact exact.elim
  | ungroup exact => exact exact.elim

/-- Below the greatest count, the literals of an object have different depths. -/
theorem leavesFrom_unique {w : Pairing .loose} (h : o.Alike w p) {skipped : Nat} {l l' : Leaf} {depth : Nat}
    (hl : (l, depth) ∈ o.leavesFrom skipped) (hl' : (l', depth) ∈ o.leavesFrom skipped)
    (hdepth : depth < maxLeaves) :
  l = l'
  := by
  induction h generalizing skipped with
  | leaf leaf =>
    cases List.mem_singleton.mp hl
    cases List.mem_singleton.mp hl'
    rfl
  | join sized left right ihleft ihright =>
    rw [Object.leavesFrom, List.mem_append] at hl hl'
    obtain hl | hl := hl <;> obtain hl' | hl' := hl'
    · exact ihright hl hl'
    · have := right.leavesFrom_depth hl hdepth
      have := left.leavesFrom_depth hl' hdepth
      simp only [addLeaves] at *
      omega
    · have := left.leavesFrom_depth hl hdepth
      have := right.leavesFrom_depth hl' hdepth
      simp only [addLeaves] at *
      omega
    · exact ihleft hl hl'
  | regroup exact => exact exact.elim
  | ungroup exact => exact exact.elim

/-- Below the greatest count, the depth of a literal in which a field is found tells
which one it is. -/
theorem find?_unique {w : Pairing .loose} (h : o.Alike w p) {m m' : Nat} {name name' : Name} {l l' : Leaf}
    {depth : Nat} (hl : o.find? m name = some (l, depth))
    (hl' : o.find? m' name' = some (l', depth)) (hdepth : depth < maxLeaves) :
  l = l'
  := h.leavesFrom_unique (mem_of_findFrom hl).1 (mem_of_findFrom hl').1 hdepth

theorem visibilityOver (h : o.Alike w p) (seen : List (Name × Visibility)) :
  o.visibilityOver seen = p.visibilityOver seen
  := by
  induction h generalizing seen with
  | leaf leaf => rw [Object.visibilityOver, Object.visibilityOver, leaf.fields]
  | join sized left right ihleft ihright =>
    rw [Object.visibilityOver, Object.visibilityOver, ihleft, ihright]
  | regroup exact first second third inner total ihfirst ihsecond ihthird =>
    simp only [visibilityOver_combine, ihfirst, ihsecond, ihthird]
  | ungroup exact first second third inner total ihfirst ihsecond ihthird =>
    simp only [visibilityOver_combine, ihfirst, ihsecond, ihthird]

/-- Alike objects have the same fields. -/
theorem fieldNames_eq (h : o.Alike w p) (includeHidden : Bool) :
  o.fieldNames includeHidden = p.fieldNames includeHidden
  := by
  rw [fieldNames, fieldNames, visibility, visibility, h.visibilityOver]

theorem hasField_eq (h : o.Alike w p) (name : Name) (includeHidden : Bool) :
  o.hasField name includeHidden = p.hasField name includeHidden
  := by
  have hfind : (o.find? 0 name).isSome = (p.find? 0 name).isSome := by
    obtain ⟨ho, hp⟩ | ⟨l, l', ho, hp, -⟩ := optionRel_iff.mp (h.find? 0 name) <;> rw [ho, hp]
    rfl
  rw [Object.hasField, Object.hasField, hfind, visibility, visibility, h.visibilityOver]

end Object.Alike

/-! ### Worlds -/

/-- A pairing of alike objects. -/
structure World (τ : Terms) extends Pairing τ where
  object_of_self : ∀ {o p : Object}, self o p → object o p
  alike : ∀ {o p : Object}, object o p → o.Alike toPairing p

namespace World

variable {τ : Terms}

/-- A world extends another one if its pairing does. -/
instance : LE (World τ) where
  le u w := u.toPairing ≤ w.toPairing

instance : Preorder (World τ) where
  le_refl w := le_refl w.toPairing
  le_trans u v w := le_trans (a := u.toPairing) (b := v.toPairing) (c := w.toPairing)

/-- A world in which more is paired. -/
def extend (w : World τ) (more : Pairing τ)
    (self : ∀ {o p}, more.self o p → w.object o p ∨ more.object o p)
    (alike : ∀ {o p}, more.object o p → o.Alike (w.toPairing.join more) p) : World τ where
  toPairing := w.toPairing.join more
  object_of_self := by
    intro o p h
    obtain h | h := h
    · exact .inl (w.object_of_self h)
    · exact self h
  alike := by
    intro o p h
    obtain h | h := h
    · exact (w.alike h).mono (Pairing.le_join_left _ _)
    · exact alike h

theorem le_extend (w : World τ) (more : Pairing τ)
    (self : ∀ {o p}, more.self o p → w.object o p ∨ more.object o p)
    (alike : ∀ {o p}, more.object o p → o.Alike (w.toPairing.join more) p) :
  w ≤ w.extend more self alike
  := Pairing.le_join_left _ _

/-- Values of a store match as results. -/
theorem matches_of_alike (w : World τ) {v v' : Value} (h : Alike w.toPairing (.value v) (.value v')) :
  v.Matches w.toPairing v'
  := by
  cases h with
  | null => exact .null
  | bool b => exact .bool b
  | number n => exact .number n
  | string s => exact .string s
  | array elements => exact .array elements
  | function function => exact .function function
  | object self => exact .object (w.object_of_self self)

end World

/-! ### New thunks -/

section

variable (τ : Terms) (a b : State) (count : Nat)

/-- The pairing of `count` thunks that are made one after the other in both runs. -/
def newThunks : Pairing τ :=
  { Pairing.nothing τ with
    thunk := fun t t' => ∃ k < count, t.index = a.thunks.size + k ∧ t'.index = b.thunks.size + k }

variable {τ a b count}

/-- New thunks stand for each other in their order. -/
theorem newThunks_alike {u : Pairing τ} (h : newThunks τ a b count ≤ u) :
  List.Forall₂ (fun d d' => Alike u (.deferred d) (.deferred d'))
    ((List.range' a.thunks.size count).map fun index => .shared ⟨index⟩)
    ((List.range' b.thunks.size count).map fun index => .shared ⟨index⟩)
  := by
  rw [List.range'_eq_map_range, List.range'_eq_map_range, List.map_map, List.map_map,
    List.forall₂_map_left_iff, List.forall₂_map_right_iff, List.forall₂_same]
  intro k hk
  exact .shared (Pairing.thunk_mono h ⟨k, List.mem_range.mp hk, rfl, rfl⟩)

end

end Jsonnet
