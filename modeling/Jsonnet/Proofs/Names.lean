import Mathlib
import Jsonnet.Interner

/-!
# Interners only grow

An interner extends another one if it knows all names of the other, each for the same
string. Interning extends, and interning the same string again, with any interner that
extends the result, gives the same name and changes nothing.
-/

namespace Jsonnet

/-! ### The parts of a name -/

namespace Name

theorem shard_eq_div (n : Name) :
  n.shard = n.raw.toNat / 2 ^ 28
  := by
  simp [shard, UInt32.toNat_shiftRight, Nat.shiftRight_eq_div_pow]

theorem position_eq_mod (n : Name) :
  n.position = n.raw.toNat % 2 ^ 28
  := by
  rw [position, UInt32.toNat_and]
  exact Nat.and_two_pow_sub_one_eq_mod _ 28

/-- A name is determined by its shard and its position. -/
theorem ext_parts {n m : Name} (hshard : n.shard = m.shard)
    (hposition : n.position = m.position) :
  n = m
  := by
  rw [shard_eq_div, shard_eq_div] at hshard
  rw [position_eq_mod, position_eq_mod] at hposition
  obtain ⟨n⟩ := n
  obtain ⟨m⟩ := m
  have h : n.toNat = m.toNat := by
    rw [← Nat.div_add_mod n.toNat (2 ^ 28), ← Nat.div_add_mod m.toNat (2 ^ 28)]
    exact congrArg₂ (2 ^ 28 * · + ·) hshard hposition
  exact congrArg Name.mk (UInt32.toNat_inj.mp h)

section

variable {index position : Nat} (hindex : index < shardCount)
  (hposition : position ≤ maxPosition)

include hindex hposition

theorem toNat_pack :
  (pack index.toUInt32 position.toUInt32).raw.toNat = index * 2 ^ 28 + position
  := by
  simp only [shardCount, maxPosition] at hindex hposition
  have h₁ : index.toUInt32.toNat = index := Nat.mod_eq_of_lt (by omega)
  have h₂ : position.toUInt32.toNat = position := Nat.mod_eq_of_lt (by omega)
  have h₃ : index <<< 28 % 2 ^ 32 = index <<< 28 := by
    rw [Nat.shiftLeft_eq]
    exact Nat.mod_eq_of_lt (by omega)
  rw [pack, UInt32.toNat_or, UInt32.toNat_shiftLeft, h₁, h₂]
  change index <<< 28 % 2 ^ 32 ||| position = _
  rw [h₃, ← Nat.shiftLeft_add_eq_or_of_lt (by omega), Nat.shiftLeft_eq]

theorem shard_pack :
  (pack index.toUInt32 position.toUInt32).shard = index
  := by
  rw [shard_eq_div, toNat_pack hindex hposition]
  simp only [shardCount, maxPosition] at hindex hposition
  omega

theorem position_pack :
  (pack index.toUInt32 position.toUInt32).position = position
  := by
  rw [position_eq_mod, toNat_pack hindex hposition]
  simp only [shardCount, maxPosition] at hindex hposition
  omega

end

end Name

namespace Interner

/-! ### Known names -/

/-- The string of a name that has been given out. -/
def string? (names : Interner) (name : Name) : Option String :=
  names.shards[name.shard]?.bind fun shard => shard.strings[name.position]?

theorem lookup_eq (names : Interner) (name : Name) :
  names.lookup name = (names.string? name).getD ""
  := by
  have h : names.shards[name.shard]? = some _ := Vector.getElem?_eq_getElem name.shard_lt
  simp only [lookup, string?, h, Option.bind_some]

/-- The string of a name, in terms of its shard. -/
theorem string?_eq {names : Interner} {name : Name} {index : Fin 16}
    (h : name.shard = index.val) :
  names.string? name = names.shards[index].strings[name.position]?
  := by
  have hshard : names.shards[index.val]? = some _ := Vector.getElem?_eq_getElem index.isLt
  simp only [string?, h, hshard, Option.bind_some]
  rfl

/-- Whether the interner has given out a name. -/
def Knows (names : Interner) (name : Name) : Prop := (names.string? name).isSome

/-- An interner extends another one if it knows the names of the other, each for the
same string. -/
instance : LE Interner where
  le a b := ∀ name s, a.string? name = some s → b.string? name = some s

instance : Preorder Interner where
  le_refl _ _ _ h := h
  le_trans _ _ _ hab hbc name s h := hbc name s (hab name s h)

variable {names later : Interner}

theorem Knows.mono {name : Name} (h : names.Knows name) (hle : names ≤ later) :
  later.Knows name
  := by
  obtain ⟨s, hs⟩ := Option.isSome_iff_exists.mp h
  rw [Knows, hle name s hs]
  rfl

theorem Knows.lookup_eq {name : Name} (h : names.Knows name) (hle : names ≤ later) :
  later.lookup name = names.lookup name
  := by
  obtain ⟨s, hs⟩ := Option.isSome_iff_exists.mp h
  rw [Interner.lookup_eq, Interner.lookup_eq, hs, hle name s hs]

/-! ### Names for strings -/

/-- The name is the one that the interner gives out for the string. -/
structure Numbers (names : Interner) (s : String) (name : Name) : Prop where
  shard : name.shard = shardOf s
  string : names.string? name = some s

theorem Numbers.mono {s : String} {name : Name} (h : names.Numbers s name)
    (hle : names ≤ later) :
  later.Numbers s name
  := ⟨h.shard, hle name s h.string⟩

theorem Numbers.knows {s : String} {name : Name} (h : names.Numbers s name) :
  names.Knows name
  := by
  rw [Knows, h.string]
  rfl

/-- The string stands in its shard under the position of its name. -/
theorem Numbers.getElem? {s : String} {name : Name} (h : names.Numbers s name) :
  (names.shards.get (shardOf s)).strings[name.position]? = some s
  := by
  have hstring := h.string
  rw [string?_eq h.shard] at hstring
  exact hstring

/-- A string has one name. -/
theorem Numbers.unique {s : String} {n m : Name} (hn : names.Numbers s n)
    (hm : names.Numbers s m) :
  n = m
  := by
  apply Name.ext_parts (hn.shard.trans hm.shard.symm)
  have h₁ := hn.getElem?
  have h₂ := hm.getElem?
  rw [← Shard.position_iff] at h₁ h₂
  exact Option.some.inj (h₁.symm.trans h₂)

/-- Whether the interner gives out a name for some string. -/
def Gives (names : Interner) (name : Name) : Prop := ∃ s, names.Numbers s name

theorem Gives.knows {name : Name} (h : names.Gives name) :
  names.Knows name
  := by
  obtain ⟨s, hs⟩ := h
  exact hs.knows

theorem Gives.mono {name : Name} (h : names.Gives name) (hle : names ≤ later) :
  later.Gives name
  := h.imp fun _ hs => hs.mono hle

/-- Names for the same string are the same. -/
theorem Gives.unique {n m : Name} (hn : names.Gives n) (hm : names.Gives m)
    (h : names.lookup n = names.lookup m) :
  n = m
  := by
  obtain ⟨s, hs⟩ := hn
  obtain ⟨t, ht⟩ := hm
  rw [lookup_eq, lookup_eq, hs.string, ht.string] at h
  cases h
  exact hs.unique ht

/-- The empty name is that of the empty string. -/
theorem numbers_empty (names : Interner) :
  names.Numbers "" .empty
  := by
  refine ⟨by simp [shardOf, Name.shard, Name.empty], ?_⟩
  have hshard : Name.empty.shard = (0 : Fin 16).val := rfl
  rw [string?_eq hshard]
  exact names.empty_eq

/-- Every interner gives out the empty name. -/
theorem gives_empty (names : Interner) :
  names.Gives .empty
  := ⟨"", names.numbers_empty⟩

/-- Every interner extends the one that knows the empty string alone. -/
theorem onlyEmpty_le (names : Interner) :
  onlyEmpty ≤ names
  := by
  intro name s hs
  obtain ⟨index, hindex⟩ : ∃ index : Fin 16, name.shard = index.val := ⟨⟨name.shard, name.shard_lt⟩, rfl⟩
  rw [string?_eq hindex] at hs ⊢
  by_cases hzero : index = 0
  · subst hzero
    have hshard : onlyEmpty.shards[(0 : Fin 16)].strings[name.position]? = #[""][name.position]? := by
      simp [onlyEmpty, Shard.push, Shard.empty]
    rw [hshard, Array.getElem?_singleton] at hs
    split at hs
    case isTrue hposition =>
      cases hs
      rw [hposition]
      exact names.empty_eq
    case isFalse => cases hs
  · have hshard : onlyEmpty.shards[index] = Shard.empty := by
      have hne : (0 : Nat) ≠ index.val := fun h => hzero (Fin.ext h.symm)
      simp [onlyEmpty, hne]
    rw [hshard] at hs
    simp [Shard.empty] at hs

/-- A position of the shard of a string is that of a name. -/
theorem string?_pack {s : String} {position : Nat} (h : position ≤ Name.maxPosition) :
  names.string? (.pack (shardOf s).val.toUInt32 position.toUInt32)
    = (names.shards[shardOf s]).strings[position]?
  := by
  rw [string?_eq (Name.shard_pack (shardOf s).isLt h),
    Name.position_pack (shardOf s).isLt h]

/-- A string whose position is known has the name packed from it. -/
theorem numbers_pack {s : String} {position : Nat}
    (h : (names.shards.get (shardOf s)).strings[position]? = some s) :
  names.Numbers s (.pack (shardOf s).val.toUInt32 position.toUInt32)
  := by
  have hlt := (Array.getElem?_eq_some_iff.mp h).choose
  have hle : position ≤ Name.maxPosition := by
    have := (names.shards.get (shardOf s)).size_le
    omega
  exact ⟨Name.shard_pack (shardOf s).isLt hle, (string?_pack hle).trans h⟩

/-! ### Interning -/

/-- Appending a string to a shard extends. -/
theorem le_append (names : Interner) (index : Fin 16) (s : String) {isNew hasRoom} :
  names ≤ names.append index s isNew hasRoom
  := by
  intro name t ht
  by_cases h : name.shard = index.val
  · rw [string?_eq h] at ht ⊢
    have hlt := (Array.getElem?_eq_some_iff.mp ht).choose
    have hset : (names.append index s isNew hasRoom).shards[index]
        = names.shards[index].push s isNew hasRoom := by
      simp [append]
    rw [hset, Shard.getElem?_push_of_lt hlt, ht]
  · simpa [string?, append, Vector.getElem?_set, Ne.symm h] using ht

/-- Interning extends, and the name is that of the string. -/
theorem tryIntern_ok {s : String} {name : Name}
    (h : names.tryIntern s = .ok (name, later)) :
  names ≤ later ∧ later.Numbers s name
  := by
  rw [tryIntern] at h
  split at h
  case h_1 position hposition =>
    cases h
    rw [Shard.position_iff] at hposition
    exact ⟨le_rfl, numbers_pack hposition⟩
  case h_2 isNew =>
    dsimp only at h
    split at h
    case isTrue hasRoom =>
      cases h
      constructor
      · apply le_append
      · apply numbers_pack
        simp [append, Shard.push, Vector.get_eq_getElem]
    case isFalse => cases h

/-- Interning a known string gives its name and changes nothing. -/
theorem Numbers.tryIntern_eq {s : String} {name : Name} (h : names.Numbers s name) :
  names.tryIntern s = .ok (name, names)
  := by
  have hposition := h.getElem?
  rw [← Shard.position_iff] at hposition
  rw [tryIntern]
  split
  case h_1 position hp =>
    rw [Shard.position_iff] at hp
    rw [(numbers_pack hp).unique h]
  case h_2 isNew => cases hposition.symm.trans isNew

/-- A string that finds its shard full never gets a name. -/
theorem tryIntern_error {s : String} {e : InternError} (h : names.tryIntern s = .error e)
    (hle : names ≤ later) :
  later.tryIntern s = .error e
  := by
  rw [tryIntern] at h
  split at h
  case h_1 => cases h
  case h_2 isNew =>
    dsimp only at h
    split at h
    case isTrue => cases h
    case isFalse hfull =>
      cases h
      have hsize := (names.shards[shardOf s]).size_le
      have hsize' := (later.shards[shardOf s]).size_le
      -- The shard was full, so it holds the same strings later on.
      have hold : ∀ (position : Nat) t, (names.shards[shardOf s]).strings[position]? = some t →
          (later.shards[shardOf s]).strings[position]? = some t := by
        intro position t ht
        have hlt := (Array.getElem?_eq_some_iff.mp ht).choose
        have hmax : position ≤ Name.maxPosition := by omega
        rw [← string?_pack hmax] at ht ⊢
        exact hle _ _ ht
      have hsame : (later.shards[shardOf s]).strings.size
          = (names.shards[shardOf s]).strings.size := by
        have hlast : (names.shards[shardOf s]).strings.size - 1
            < (names.shards[shardOf s]).strings.size := by omega
        have := hold _ _ (Array.getElem?_eq_getElem hlast)
        have := (Array.getElem?_eq_some_iff.mp this).choose
        omega
      have hnew : (later.shards[shardOf s]).positions[s]? = none := by
        by_contra hne
        obtain ⟨position, hposition⟩ := Option.ne_none_iff_exists'.mp hne
        rw [Shard.position_iff] at hposition
        have hlt := (Array.getElem?_eq_some_iff.mp hposition).choose
        rw [hsame] at hlt
        have := hold _ _ (Array.getElem?_eq_getElem hlt)
        rw [hposition] at this
        have hmem := Array.getElem?_eq_getElem hlt
        rw [← Option.some.inj this, ← Shard.position_iff, isNew] at hmem
        cases hmem
      rw [tryIntern]
      split
      case h_1 position hposition => rw [hnew] at hposition; cases hposition
      case h_2 =>
        rw [dif_neg (by omega)]
        simp only [hsame]

/-- Interning extends. -/
theorem le_intern (names : Interner) (s : String) :
  names ≤ (names.intern s).2
  := by
  rw [intern]
  split
  case h_1 result h => exact (tryIntern_ok h).1
  case h_2 => exact le_rfl

/-- A name that is interned is given out. -/
theorem gives_intern (names : Interner) (s : String) :
  (names.intern s).2.Gives (names.intern s).1
  := by
  rw [intern]
  split
  case h_1 result h => exact ⟨s, (tryIntern_ok h).2⟩
  case h_2 => exact names.gives_empty

/-- Interning again gives the same name and changes nothing. -/
theorem intern_again {s : String} (hle : (names.intern s).2 ≤ later) :
  later.intern s = ((names.intern s).1, later)
  := by
  rw [intern] at hle ⊢
  cases h : names.tryIntern s with
  | ok result =>
    rw [h] at hle
    rw [((tryIntern_ok h).2.mono hle).tryIntern_eq]
    simp only [intern, h]
  | error e =>
    rw [h] at hle
    rw [tryIntern_error h hle]
    simp only [intern, h]

theorem internAll_cons (names : Interner) (s : String) (rest : List String) :
  names.internAll (s :: rest)
    = ((names.intern s).1 :: ((names.intern s).2.internAll rest).1,
        ((names.intern s).2.internAll rest).2)
  := rfl

/-- Interning several strings extends. -/
theorem le_internAll (names : Interner) (strings : List String) :
  names ≤ (names.internAll strings).2
  := by
  induction strings generalizing names with
  | nil => exact le_rfl
  | cons s rest ih => exact (names.le_intern s).trans (ih _)

/-- Interning several strings again gives the same names and changes nothing. -/
theorem internAll_again {strings : List String}
    (hle : (names.internAll strings).2 ≤ later) :
  later.internAll strings = ((names.internAll strings).1, later)
  := by
  induction strings generalizing names with
  | nil => rfl
  | cons s rest ih =>
    rw [internAll_cons] at hle ⊢
    have h := intern_again ((le_internAll _ rest).trans hle)
    rw [internAll_cons, h, ih hle]

end Interner

end Jsonnet
