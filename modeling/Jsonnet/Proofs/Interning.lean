import Jsonnet.Proofs.Spelling
import Jsonnet.Proofs.Storing

/-!
# Interning numbers strings once and for all

Any sequence of calls of a new interner sets up a bijection between the strings that it was asked
for and their names: a name looks up its string from then on, equal strings get equal names and
different strings different ones, and the counter of the interner counts the strings it knows. A
call that finds its shard full leaves everything as it was.
-/

namespace Jsonnet

namespace Interner

variable {names later : Interner} {s t : String} {name : Name}

/-! ### Sequences of calls -/

/-- What a call answers, and the interner it leaves behind: where the shard is full, the one that
there was. -/
def call (names : Interner) (s : String) : Except InternError Name × Interner :=
  match names.tryIntern s with
  | .ok (name, later) => (.ok name, later)
  | .error e => (.error e, names)

/-- Calls for several strings, one after the other: the strings with their answers, and the interner
that the last call leaves behind. -/
def callAll (names : Interner) :
    List String → List (String × Except InternError Name) × Interner
  | [] => ([], names)
  | s :: rest =>
    let (answer, next) := names.call s
    let (calls, last) := next.callAll rest
    ((s, answer) :: calls, last)

/-- The strings that calls gave a name to. -/
def given (calls : List (String × Except InternError Name)) : List String :=
  (calls.filter (·.2.isOk)).map (·.1)

theorem call_of_ok (h : names.tryIntern s = .ok (name, later)) :
  names.call s = (.ok name, later)
  := by rw [call, h]

theorem call_of_error {e : InternError} (h : names.tryIntern s = .error e) :
  names.call s = (.error e, names)
  := by rw [call, h]

/-- A call that answers with a name has interned its string. -/
theorem tryIntern_of_call (h : (names.call s).1 = .ok name) :
  names.tryIntern s = .ok (name, (names.call s).2)
  := by
  rw [call] at h ⊢
  split at h
  case h_1 interned =>
    cases h
    rw [interned]
  case h_2 => cases h

theorem le_call (names : Interner) (s : String) :
  names ≤ (names.call s).2
  := by
  rw [call]
  split
  case h_1 interned => exact (tryIntern_ok interned).1
  case h_2 => exact le_rfl

theorem callAll_cons (names : Interner) (s : String) (rest : List String) :
  names.callAll (s :: rest)
    = ((s, (names.call s).1) :: ((names.call s).2.callAll rest).1,
        ((names.call s).2.callAll rest).2)
  := rfl

/-- What is known stays known. -/
theorem le_callAll (names : Interner) (strings : List String) :
  names ≤ (names.callAll strings).2
  := by
  induction strings generalizing names with
  | nil => exact le_rfl
  | cons s rest ih => exact (names.le_call s).trans (ih _)

/-- A name that was given to a string is the name of that string from then on. -/
theorem numbers_of_mem_callAll {strings : List String}
    (h : (s, .ok name) ∈ (names.callAll strings).1) :
  (names.callAll strings).2.Numbers s name
  := by
  induction strings generalizing names with
  | nil => cases h
  | cons t rest ih =>
    rw [callAll_cons] at h ⊢
    obtain first | others := List.mem_cons.mp h
    · obtain ⟨rfl, answer⟩ := Prod.mk.inj first
      exact (tryIntern_ok (tryIntern_of_call answer.symm)).2.mono (le_callAll _ rest)
    · exact ih others

/-! ### The strings that are known -/

/-- Interning a string makes that string known, and no other one. -/
theorem mem_known_tryIntern (interned : names.tryIntern s = .ok (name, later)) :
  t ∈ later.known (shardOf t) ↔ t = s ∨ t ∈ names.known (shardOf t)
  := by
  have same : (names.intern s).2 = later := by rw [intern, interned]
  obtain ⟨grown, numbers⟩ := tryIntern_ok interned
  constructor
  · intro member
    rw [← same] at member
    obtain before | ⟨new, -⟩ := mem_known_of_intern member
    · exact .inr before
    · exact .inl new
  · rintro (rfl | before)
    · exact numbers.mem_known
    · exact known_mono grown _ before

/-- Interning counts a string that is new. -/
theorem size_tryIntern (interned : names.tryIntern s = .ok (name, later)) :
  later.size = if s ∈ names.known (shardOf s) then names.size else names.size + 1
  := by
  rw [tryIntern] at interned
  split at interned
  case h_1 position known =>
    cases interned
    rw [Shard.position_iff] at known
    rw [if_pos (mem_known.mpr ⟨position, known⟩)]
  case h_2 isNew =>
    dsimp only at interned
    split at interned
    case isFalse => cases interned
    case isTrue hasRoom =>
      cases interned
      rw [if_neg]
      · rfl
      · intro member
        obtain ⟨position, known⟩ := mem_known.mp member
        rw [← Shard.position_iff] at known
        cases known.symm.trans isNew

/-- The strings an interner knows are those of a set, and it counts them. -/
structure Counts (names : Interner) (strings : Finset String) : Prop where
  known : ∀ s, s ∈ names.known (shardOf s) ↔ s ∈ strings
  size_eq : names.size = strings.card

theorem known_onlyEmpty :
  ∀ index : Fin 16, onlyEmpty.known index ⊆ {""}
  := by decide +kernel

theorem counts_onlyEmpty :
  onlyEmpty.Counts {""}
  := by
  constructor
  · intro s
    constructor
    · intro member
      exact known_onlyEmpty _ member
    · intro empty
      rw [Finset.mem_singleton.mp empty]
      exact (numbers_empty onlyEmpty).mem_known
  · rfl

/-- Interning a string adds that string. -/
theorem Counts.tryIntern {strings : Finset String} (h : names.Counts strings)
    (interned : names.tryIntern s = .ok (name, later)) :
  later.Counts (insert s strings)
  := by
  constructor
  · intro t
    rw [mem_known_tryIntern interned, Finset.mem_insert, h.known]
  · rw [size_tryIntern interned, Finset.card_insert_eq_ite, ← h.size_eq]
    simp only [h.known]

/-- Interning several strings adds those strings, as long as there is room for them. -/
theorem Counts.internAll {known : Finset String} {strings : List String} (h : names.Counts known)
    (spare : (names.internAll strings).2.HasSpare) :
  (names.internAll strings).2.Counts (known ∪ strings.toFinset)
  := by
  induction strings generalizing names known with
  | nil => rwa [List.toFinset_nil, Finset.union_empty]
  | cons s rest ih =>
    rw [internAll_cons] at spare ⊢
    obtain ⟨name, later, interned⟩ :=
      (spare.mono ((names.le_intern s).trans (le_internAll _ rest))).tryIntern s
    have first := h.tryIntern interned
    have same : (names.intern s).2 = later := by rw [intern, interned]
    rw [← same] at first
    rw [List.toFinset_cons, Finset.union_insert, ← Finset.insert_union]
    exact ih first spare

/-- A new interner knows the empty string, the reserved words and the names of the library. -/
theorem counts_new :
  Interner.new.Counts ("" :: (reservedWords ++ libraryNames)).toFinset
  := by
  have spare : Interner.new.HasSpare := fun index => (size_new_le index).trans (by decide)
  have counts := counts_onlyEmpty.internAll spare
  rwa [Finset.singleton_union, ← List.toFinset_cons] at counts

theorem given_cons_ok (calls : List (String × Except InternError Name)) :
  given ((s, .ok name) :: calls) = s :: given calls
  := rfl

theorem given_cons_error (calls : List (String × Except InternError Name)) {e : InternError} :
  given ((s, .error e) :: calls) = given calls
  := rfl

/-- Calls add the strings that they gave a name to. -/
theorem Counts.callAll {known : Finset String} (h : names.Counts known) (strings : List String) :
  (names.callAll strings).2.Counts (known ∪ (given (names.callAll strings).1).toFinset)
  := by
  induction strings generalizing names known with
  | nil => rwa [Interner.callAll, given, List.filter_nil, List.map_nil, List.toFinset_nil,
      Finset.union_empty]
  | cons s rest ih =>
    rw [callAll_cons]
    cases interned : names.tryIntern s with
    | ok result =>
      obtain ⟨name, later⟩ := result
      rw [call_of_ok interned, given_cons_ok, List.toFinset_cons, Finset.union_insert,
        ← Finset.insert_union]
      exact ih (h.tryIntern interned)
    | error e =>
      rw [call_of_error interned, given_cons_error]
      exact ih h

/-! ### The bijection -/

/-- The name that a string gets is packed from its shard and its position there. -/
theorem Numbers.eq_pack (h : names.Numbers s name) :
  name.position ≤ Name.maxPosition ∧
    name = .pack (shardOf s).val.toUInt32 name.position.toUInt32
  := by
  have known := h.getElem?
  have inside := (Array.getElem?_eq_some_iff.mp known).choose
  have size := (names.shards.get (shardOf s)).size_le
  exact ⟨by omega, h.unique (numbers_pack known)⟩

/-- Only a string that is not known finds its shard full, with as many strings as there are
positions. -/
theorem tryIntern_error_iff {e : InternError} :
  names.tryIntern s = .error e
    ↔ s ∉ names.known (shardOf s) ∧
      (names.shards.get (shardOf s)).strings.size = Name.maxPosition + 1 ∧
      e = .shardFull (shardOf s) (Name.maxPosition + 1)
  := by
  have bound := (names.shards.get (shardOf s)).size_le
  rw [mem_known, tryIntern]
  split
  case h_1 position known =>
    rw [Shard.position_iff] at known
    constructor
    · intro answer
      cases answer
    · rintro ⟨absent, -⟩
      exact absurd ⟨position, known⟩ absent
  case h_2 isNew =>
    have absent : ¬∃ position : Nat,
        (names.shards.get (shardOf s)).strings[position]? = some s := by
      rintro ⟨position, known⟩
      rw [← Shard.position_iff] at known
      cases known.symm.trans isNew
    dsimp only
    split
    case isTrue hasRoom =>
      have room : (names.shards.get (shardOf s)).strings.size ≤ Name.maxPosition := hasRoom
      constructor
      · intro answer
        cases answer
      · rintro ⟨-, size, -⟩
        omega
    case isFalse full =>
      have full : ¬(names.shards.get (shardOf s)).strings.size ≤ Name.maxPosition := full
      have size : (names.shards.get (shardOf s)).strings.size = Name.maxPosition + 1 := by omega
      constructor
      · intro answer
        cases answer
        exact ⟨absent, size, congrArg _ size⟩
      · rintro ⟨-, -, answer⟩
        rw [answer]
        exact congrArg (fun count => Except.error (InternError.shardFull _ count)) size

/-- Interning numbers strings once and for all. After any sequence of calls of a new interner a name
that was given to a string looks up that string, and does so after any further calls; two of the
names are equal exactly if their strings are; the empty string has the empty name; and the counter
is the number of strings that are known. A name has the shard of its string and the position of the
string there, from which it is packed. A call that finds its shard full changes nothing: its string
is not known, and all the positions of the shard are taken. -/
theorem numbers_strings (strings : List String) :
  let calls := (Interner.new.callAll strings).1
  let names := (Interner.new.callAll strings).2
  (∀ s name, (s, .ok name) ∈ calls → ∀ more, (names.callAll more).2.lookup name = s) ∧
    (∀ s t n m, (s, .ok n) ∈ calls → (t, .ok m) ∈ calls → (n = m ↔ s = t)) ∧
    names.call "" = (.ok .empty, names) ∧
    names.size = ("" :: (reservedWords ++ libraryNames ++ given calls)).toFinset.card ∧
    (∀ s name, (s, .ok name) ∈ calls →
      name = .pack (shardOf s).val.toUInt32 name.position.toUInt32 ∧ name.shard = (shardOf s).val ∧
        (names.shards.get (shardOf s)).strings[name.position]? = some s) ∧
    (∀ s e, (names.call s).1 = .error e →
      (names.call s).2 = names ∧ s ∉ names.known (shardOf s) ∧
        (names.shards.get (shardOf s)).strings.size = Name.maxPosition + 1 ∧
        e = .shardFull (shardOf s) (Name.maxPosition + 1)) ∧
    ∀ index position : Nat, index < Name.shardCount → position ≤ Name.maxPosition →
      (Name.pack index.toUInt32 position.toUInt32).shard = index ∧
        (Name.pack index.toUInt32 position.toUInt32).position = position
  := by
  intro calls names
  refine ⟨?looksUp, ?unique, ?empty, ?size, ?parts, ?full, ?unpack⟩
  case looksUp =>
    intro s name member more
    have numbers := (numbers_of_mem_callAll member).mono (le_callAll names more)
    rw [lookup_eq, numbers.string]
    rfl
  case unique =>
    intro s t n m first second
    have hn := numbers_of_mem_callAll first
    have hm := numbers_of_mem_callAll second
    constructor
    · rintro rfl
      exact Option.some.inj (hn.string.symm.trans hm.string)
    · rintro rfl
      exact hn.unique hm
  case empty => exact call_of_ok names.numbers_empty.tryIntern_eq
  case size =>
    rw [(counts_new.callAll strings).size_eq, ← List.toFinset_append]
    rfl
  case parts =>
    intro s name member
    have numbers := numbers_of_mem_callAll member
    exact ⟨numbers.eq_pack.2, numbers.shard, numbers.getElem?⟩
  case full =>
    intro s e answer
    cases interned : names.tryIntern s with
    | ok result =>
      rw [call_of_ok interned] at answer
      cases answer
    | error e =>
      rw [call_of_error interned] at answer ⊢
      cases answer
      exact ⟨rfl, tryIntern_error_iff.mp interned⟩
  case unpack =>
    intro index position hindex hposition
    exact ⟨Name.shard_pack hindex hposition, Name.position_pack hindex hposition⟩

end Interner

end Jsonnet
