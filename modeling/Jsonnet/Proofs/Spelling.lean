import Jsonnet.Proofs.Names

/-!
# Numbering strings differently

Two interners may know different strings, and number those that both know differently. As long as
there is room for the strings of both, each of them has a name for every string that it is asked
for.
-/

namespace Jsonnet

namespace Interner

/-! ### Known strings -/

/-- The strings that a shard knows. -/
def known (names : Interner) (index : Fin 16) : Finset String :=
  (names.shards.get index).strings.toList.toFinset

/-- Whether no shard is full. -/
def HasSpare (names : Interner) : Prop :=
  ∀ index : Fin 16, (names.shards.get index).strings.size ≤ Name.maxPosition

/-- Whether no shard would be full with the strings that either of two interners knows. -/
def FitsWith (names other : Interner) : Prop :=
  ∀ index, (names.known index ∪ other.known index).card ≤ Name.maxPosition

variable {names later other : Interner} {index : Fin 16} {s t : String}

theorem mem_known :
  s ∈ names.known index ↔ ∃ position : Nat, (names.shards.get index).strings[position]? = some s
  := by
  simp only [known, List.mem_toFinset, List.mem_iff_getElem?, Array.getElem?_toList]

/-- A shard knows each of its strings once. -/
theorem card_known :
  (names.known index).card = (names.shards.get index).strings.size
  := by
  have hnodup : (names.shards.get index).strings.toList.Nodup := by
    rw [List.nodup_iff_getElem?_ne_getElem?]
    intro i j hij hj heq
    rw [Array.getElem?_toList, Array.getElem?_toList] at heq
    have hi := Array.getElem?_eq_getElem (show i < (names.shards.get index).strings.size by
      rw [Array.length_toList] at hj
      omega)
    have hi' := hi
    rw [heq, ← Shard.position_iff] at hi'
    rw [← Shard.position_iff] at hi
    exact hij.ne (Option.some.inj (hi.symm.trans hi'))
  rw [known, List.toFinset_card_of_nodup hnodup, Array.length_toList]

theorem known_mono (h : names ≤ later) (index : Fin 16) :
  names.known index ⊆ later.known index
  := by
  intro s hs
  obtain ⟨position, hs⟩ := mem_known.mp hs
  have hlt := (Array.getElem?_eq_some_iff.mp hs).choose
  have hle : position ≤ Name.maxPosition := by
    have := (names.shards.get index).size_le
    omega
  have hshard := Name.shard_pack index.isLt hle
  have hknown : names.string? (.pack index.val.toUInt32 position.toUInt32) = some s := by
    rw [string?_eq hshard, Name.position_pack index.isLt hle]
    exact hs
  have hlater := h _ _ hknown
  rw [string?_eq hshard, Name.position_pack index.isLt hle] at hlater
  exact mem_known.mpr ⟨position, hlater⟩

theorem HasSpare.mono (h : later.HasSpare) (hle : names ≤ later) :
  names.HasSpare
  := by
  intro index
  rw [← card_known]
  exact (Finset.card_le_card (known_mono hle index)).trans (card_known.trans_le (h index))

theorem FitsWith.mono (h : later.FitsWith other) (hle : names ≤ later) :
  names.FitsWith other
  := by
  intro index
  exact (Finset.card_le_card (Finset.union_subset_union_left (known_mono hle index))).trans (h index)

/-- An interner with no more strings than two that fit together has no full shard. -/
theorem FitsWith.hasSpare (h : names.FitsWith other) {less : Interner}
    (hless : ∀ index, less.known index ⊆ names.known index ∪ other.known index) :
  less.HasSpare
  := by
  intro index
  rw [← card_known]
  exact (Finset.card_le_card (hless index)).trans (h index)

/-- What an interner has grown from fits with it. -/
theorem HasSpare.fitsWith (h : later.HasSpare) (hle : names ≤ later) :
  later.FitsWith names
  := by
  intro index
  rw [Finset.union_eq_left.mpr (known_mono hle index), card_known]
  exact h index

theorem fitsWith_of_size_le
    (h : ∀ index : Fin 16, (names.shards.get index).strings.size
      + (other.shards.get index).strings.size ≤ Name.maxPosition) :
  names.FitsWith other
  := by
  intro index
  have hcard := Finset.card_union_le (names.known index) (other.known index)
  rw [card_known, card_known] at hcard
  exact hcard.trans (h index)

/-! ### Room for names -/

/-- An interner that has no full shard gives every string a name. -/
theorem HasSpare.tryIntern (h : names.HasSpare) (s : String) :
  ∃ name later, names.tryIntern s = .ok (name, later)
  := by
  cases hintern : names.tryIntern s with
  | ok result => exact ⟨result.1, result.2, rfl⟩
  | error e =>
    rw [Interner.tryIntern] at hintern
    split at hintern
    case h_1 => cases hintern
    case h_2 =>
      dsimp only at hintern
      split at hintern
      case isTrue => cases hintern
      case isFalse hfull => exact absurd (h (shardOf s)) hfull

/-- An interner that had no full shard has a name for each string it was asked for. -/
theorem HasSpare.numbers_intern (h : names.HasSpare) (s : String) :
  (names.intern s).2.Numbers s (names.intern s).1
  := by
  obtain ⟨name, later, hintern⟩ := h.tryIntern s
  rw [intern, hintern]
  exact (tryIntern_ok hintern).2

theorem Numbers.mem_known {name : Name} (h : names.Numbers s name) :
  s ∈ names.known (shardOf s)
  := Interner.mem_known.mpr ⟨_, h.getElem?⟩

/-- Interning a string makes nothing else known. -/
theorem mem_known_of_intern (h : t ∈ (names.intern s).2.known index) :
  t ∈ names.known index ∨ t = s ∧ index = shardOf s
  := by
  cases hintern : names.tryIntern s with
  | error e =>
    rw [intern, hintern] at h
    exact .inl h
  | ok result =>
    rw [intern, hintern] at h
    rw [tryIntern] at hintern
    split at hintern
    case h_1 =>
      cases hintern
      exact .inl h
    case h_2 =>
      dsimp only at hintern
      split at hintern
      case isFalse => cases hintern
      case isTrue =>
        cases hintern
        obtain ⟨position, ht⟩ := mem_known.mp h
        by_cases heq : shardOf s = index
        · subst heq
          simp only [append, Shard.push, Vector.get_eq_getElem, Fin.getElem_fin,
            Vector.getElem_set_self, Array.getElem?_push] at ht
          split at ht
          case isTrue => exact .inr ⟨(Option.some.inj ht).symm, rfl⟩
          case isFalse => exact .inl (mem_known.mpr ⟨position, ht⟩)
        · have hne : (shardOf s).val ≠ index.val := fun hval => heq (Fin.ext hval)
          simp only [append, Vector.get_eq_getElem, Vector.getElem_set_ne _ _ hne] at ht
          exact .inl (mem_known.mpr ⟨position, ht⟩)

theorem internAll_append (names : Interner) (strings more : List String) :
  (names.internAll (strings ++ more)).2 = ((names.internAll strings).2.internAll more).2
  := by
  induction strings generalizing names with
  | nil => rfl
  | cons s rest ih =>
    rw [List.cons_append, internAll_cons, internAll_cons]
    exact ih _

/-! ### Names of the same strings -/

/-- Whether two interners have two names for the same string. -/
def Same (names names' : Interner) (n n' : Name) : Prop :=
  ∃ s, names.Numbers s n ∧ names'.Numbers s n'

namespace Same

variable {names' later' : Interner} {n n' m m' : Name}

theorem lookup_eq (h : names.Same names' n n') :
  names.lookup n = names'.lookup n'
  := by
  obtain ⟨s, hn, hn'⟩ := h
  rw [Interner.lookup_eq, Interner.lookup_eq, hn.string, hn'.string]

theorem mono (h : names.Same names' n n') (hle : names ≤ later) (hle' : names' ≤ later') :
  later.Same later' n n'
  := by
  obtain ⟨s, hn, hn'⟩ := h
  exact ⟨s, hn.mono hle, hn'.mono hle'⟩

theorem empty (names names' : Interner) :
  names.Same names' .empty .empty
  := by
  obtain ⟨s, hs⟩ := names.gives_empty
  obtain ⟨t, ht⟩ := names'.gives_empty
  have hstring : ∀ names : Interner, names.string? .empty = some "" := by
    intro names
    rw [string?_eq (show Name.empty.shard = (0 : Fin 16).val from rfl)]
    exact names.empty_eq
  have hs' := hs.string
  have ht' := ht.string
  rw [hstring] at hs' ht'
  cases hs'
  cases ht'
  exact ⟨"", hs, ht⟩

theorem left_unique (h : names.Same names' n n') (h' : names.Same names' m n') :
  n = m
  := by
  obtain ⟨s, hn, hn'⟩ := h
  obtain ⟨t, hm, hm'⟩ := h'
  cases hn'.string.symm.trans hm'.string
  exact hn.unique hm

theorem right_unique (h : names.Same names' n n') (h' : names.Same names' n m') :
  n' = m'
  := by
  obtain ⟨s, hn, hn'⟩ := h
  obtain ⟨t, hm, hm'⟩ := h'
  cases hn.string.symm.trans hm.string
  exact hn'.unique hm'

end Same

end Interner

end Jsonnet
