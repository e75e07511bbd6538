import Jsonnet.Proofs.Equality
import Jsonnet.Proofs.Integers
import Jsonnet.Proofs.Outcomes

/-!
# Characters of strings

The builtins for strings count, index and join characters, not bytes: the positions of a string are
the numbers below its length, the string is put together from the characters there, lengths of
joined strings add up, and every character is the one with its code point. Lengths are numbers, so
what is said of joining characters and of adding lengths is about `2 ^ 53` characters at most; the
program counts on lengths far below that.
-/

namespace Jsonnet

/-! ### Results that need room for one frame -/

/-- Where there is room on the call stack for one more frame, an action gives a result and leaves
that room. -/
def Action.Yields (session : Session) {α : Type} (x : Action α) (r : α) : Prop :=
  ∀ a : State, 0 < a.stack.room → ∃ b, x.Gives session a r b ∧ 0 < b.stack.room

/-- The call of a builtin with values. -/
def Builtin.onValues (b : Builtin) (site : Location) (values : List Value) : Action Value :=
  (Function.builtin b).call (values.map .ready) site

section

variable {session : Session}

theorem Action.Yields.of_gives {α : Type} {x : Action α} {r : α}
    (h : ∀ a : State, x.Gives session a r a) :
  x.Yields session r
  := fun a room => ⟨a, h a, room⟩

theorem Action.Yields.bind {α β : Type} {x : Action α} {next : α → Action β} {r : α} {s : β}
    (hx : x.Yields session r) (hnext : (next r).Yields session s) :
  (x >>= next).Yields session s
  := by
  intro a room
  obtain ⟨b, first, left⟩ := hx a room
  obtain ⟨c, second, left⟩ := hnext b left
  exact ⟨c, first.bind second, left⟩

/-- A builtin needs room for its own frame only, where it computes without asking for more. -/
theorem Builtin.yields {b : Builtin} {values : List Value} {r : Value}
    (arity : values.length = b.arity) (site : Location)
    (h : ∀ a : State, (applyBuiltin b (values.map .ready)).Gives session a r a) :
  (b.onValues site values).Yields session r
  := by
  intro a room
  have arity : (values.map Deferred.ready).length = b.arity := by rw [List.length_map, arity]
  exact ⟨a.countBuiltin, Builtin.gives_call arity room (fun stack => h _) site, room⟩

/-! ### Builtins on values -/

variable (site : Location)

theorem length_yields (s : String) :
  (Builtin.onValues (.library .length) site [.string s]).Yields session (.number (.ofNat s.length))
  := by
  refine Builtin.yields rfl site fun a => ?_
  exact (Action.Gives.pure (Value.string s)).bind (.pure _)

theorem length_character_yields (c : Char) :
  (Builtin.onValues (.library .length) site [.string (String.singleton c)]).Yields session
    (.number (.ofNat 1))
  := by
  have one : (Builtin.onValues (.library .length) site _).Yields session _ :=
    length_yields site (String.singleton c)
  rwa [String.length_singleton] at one

theorem codepoint_yields (c : Char) :
  (Builtin.onValues (.library .codepoint) site [.string (String.singleton c)]).Yields session
    (.number (.ofNat c.toNat))
  := by
  refine Builtin.yields rfl site fun a => ?_
  have text : (stringArgument (.ready (.string (String.singleton c)))).Gives session a
      (String.singleton c) a := (Action.Gives.pure (Value.string (String.singleton c))).bind (.pure _)
  refine text.bind ?_
  rw [String.toList_singleton]
  exact .pure _

theorem char_yields (c : Char) :
  (Builtin.onValues (.library .char) site [.number (.ofNat c.toNat)]).Yields session
    (.string (String.singleton c))
  := by
  refine Builtin.yields rfl site fun a => ?_
  have number : (numberArgument (.ready (.number (.ofNat c.toNat)))).Gives session a
      (.ofNat c.toNat) a := (Action.Gives.pure (Value.number (.ofNat c.toNat))).bind (.pure _)
  have valid : c.toNat.isValidChar := c.valid
  have bound : c.toNat ≤ 4294967295 := Nat.le_of_lt_succ c.val.toNat_lt
  have exact' : c.toNat ≤ 2 ^ 53 := by omega
  refine number.bind ?_
  simp only [Number.less_zero_ofNat exact', Number.lessEq_ofNat bound (by decide),
    Number.word_ofNat exact', Int.toNat_natCast, valid, Bool.false_eq_true, if_false, decide_true,
    Bool.and_self, if_true, Char.ofNat_toNat]
  exact .pure _

theorem add_strings_yields (s t : String) :
  (Builtin.onValues (.binary .add) site [.string s, .string t]).Yields session (.string (s ++ t))
  := by
  refine Builtin.yields rfl site fun a => ?_
  exact (Action.Gives.pure (Value.string s)).bind ((Action.Gives.pure (Value.string t)).bind (.pure _))

theorem add_numbers_yields {m n : Nat} (h : m + n ≤ 2 ^ 53) :
  (Builtin.onValues (.binary .add) site [.number (.ofNat m), .number (.ofNat n)]).Yields session
    (.number (.ofNat (m + n)))
  := by
  refine Builtin.yields rfl site fun a => ?_
  have finite := Number.finite_iff.mp (Number.finite_ofNat (n := m + n) (by omega))
  refine (Action.Gives.pure (Value.number _)).bind ((Action.Gives.pure (Value.number _)).bind ?_)
  change (checked (Number.ofNat m + Number.ofNat n)).Gives session _ _ _
  rw [Number.ofNat_add h, checked, finite.1, finite.2]
  exact .pure _

/-- Values that are no collections are compared at once. -/
theorem equal_yields {v w : Value} {r : Bool} (h : computeEqual v w = pure r) :
  (Builtin.onValues (.binary .equal) site [v, w]).Yields session (.bool r)
  := by
  refine Builtin.yields rfl site fun a => ?_
  have equal : (v.equal w).Gives session a r a := by
    apply Action.Gives.request_iff.mpr
    have action : (Task.equal v w).action a = pure r := h
    exact Task.Gives.of_action rfl (action ▸ Action.Gives.pure r)
  have operands : (operandsEqual (.ready v) (.ready w)).Gives session a r a :=
    (Action.Gives.pure v).bind ((Action.Gives.pure w).bind equal)
  exact operands.bind (.pure _)

/-- A string is equal to itself. -/
theorem equal_string_yields (s : String) :
  (Builtin.onValues (.binary .equal) site [.string s, .string s]).Yields session (.bool true)
  := equal_yields site (congrArg pure (beq_self_eq_true s))

/-- A length is equal to itself. -/
theorem equal_natural_yields {n : Nat} (h : n ≤ 2 ^ 53) :
  (Builtin.onValues (.binary .equal) site [.number (.ofNat n), .number (.ofNat n)]).Yields session
    (.bool true)
  := by
  have same : (Number.ofNat n).equal (.ofNat n) = true := by
    rw [Number.equal, (Number.rank_ofNat h).1, beq_self_eq_true, Bool.not_false, Bool.and_self,
      Bool.and_self]
  exact equal_yields site (congrArg pure same)

/-! ### Positions -/

/-- At an integer from zero on and below the length there is a character. -/
theorem indexValue_yields {s : String} {i : Number} (integral : i.isIntegral = true)
    (low : Number.zero.lessEq i = true) (high : i.less (.ofNat s.length) = true) :
  (indexValue (.string s) (.number i) site).Yields session
    (.string (String.singleton (s.toList[i.word.toNat]?.getD '\x00')))
  := by
  refine .of_gives fun a => ?_
  have position : (positionIn s.toList.length site (.number i)).Gives session a i.word.toNat a := by
    refine (Action.Gives.pure i).bind ?_
    rw [String.length_toList, integral, Number.less_of_lessEq low, Number.lessEq_of_less high]
    exact .pure _
  exact position.bind (.pure _)

/-- At a position of a string there is the character that stands there. -/
theorem indexValue_natural {s : String} (short : s.length ≤ 2 ^ 53) {i : Nat} {c : Char}
    (h : s.toList[i]? = some c) :
  (indexValue (.string s) (.number (.ofNat i)) site).Yields session (.string (String.singleton c))
  := by
  have inside : i < s.length := by
    rw [← String.length_toList]
    exact (List.getElem?_eq_some_iff.mp h).1
  have exact' : i ≤ 2 ^ 53 := inside.le.trans short
  have integral := Number.isIntegral_ofNat (exact'.trans_lt (by decide : 2 ^ 53 < 2 ^ 64))
  have low := Number.lessEq_ofNat i.zero_le exact'
  have yields : (indexValue (.string s) (.number (.ofNat i)) site).Yields session _ :=
    indexValue_yields site integral low (Number.less_ofNat inside short)
  rwa [Number.word_ofNat exact', Int.toNat_natCast, h] at yields

/-- Behind the last character there is none. -/
theorem indexValue_length {s : String} (fits : s.length < 2 ^ 64) (a : State) :
  ∃ position, (indexValue (.string s) (.number (.ofNat s.length)) site).Ends session a
    (.error (a.failure (.indexOutOfBounds position s.length) site)) a
  := by
  use (Number.ofNat s.length).word
  have outside : (positionIn s.toList.length site (.number (.ofNat s.length))).Ends session a
      (.error (a.failure (.indexOutOfBounds (Number.ofNat s.length).word s.length) site)) a := by
    refine Action.Ends.bind_iff.mpr (.inr ⟨_, a, Action.Ends.pure_iff.mpr ⟨rfl, rfl⟩, ?_⟩)
    simp only [String.length_toList, Number.isIntegral_ofNat fits, Number.lessEq_ofNat_self fits,
      Bool.not_true, Bool.false_eq_true, if_false, Bool.or_true, if_true]
    exact Action.Ends.raise_iff.mpr ⟨rfl, rfl⟩
  exact Action.Ends.bind_iff.mpr (.inl ⟨_, rfl, outside⟩)

/-! ### Joining characters -/

/-- The sum of a value and of the characters at some positions of a string, from left to right. -/
def addCharacters (site : Location) (s : String) (sum : Value) : List Nat → Action Value
  | [] => return sum
  | i :: rest => do
    let c ← indexValue (.string s) (.number (.ofNat i)) site
    addCharacters site s (← Builtin.onValues (.binary .add) site [sum, c]) rest

/-- The characters from some position on are added one by one: what is there already stands before
them. -/
theorem addCharacters_yields {s : String} (short : s.length ≤ 2 ^ 53) (rest : List Char) :
  ∀ done : List Char, s.toList = done ++ rest →
    (addCharacters site s (.string (String.ofList done))
      (List.range' done.length rest.length)).Yields session (.string s)
  := by
  induction rest with
  | nil =>
    intro done text
    rw [List.append_nil] at text
    rw [← text, String.ofList_toList]
    exact .of_gives fun a => .pure _
  | cons c rest ih =>
    intro done text
    have here : s.toList[done.length]? = some c := by
      rw [text, List.getElem?_append_right le_rfl, Nat.sub_self, List.getElem?_cons_zero]
    have joins := ih (done ++ [c]) (by rw [text, List.append_assoc, List.singleton_append])
    rw [List.length_append, List.length_singleton, String.ofList_append] at joins
    rw [List.length_cons, List.range'_succ, addCharacters]
    exact (indexValue_natural site short here).bind ((add_strings_yields site _ _).bind joins)

/-! ### Agreement -/

/-- Whether the character with the code point of a character of a string is that character. -/
def characterReturns (site : Location) (s : String) (i : Number) : Action Value := do
  let c ← indexValue (.string s) (.number i) site
  let point ← Builtin.onValues (.library .codepoint) site [c]
  let again ← Builtin.onValues (.library .char) site [point]
  Builtin.onValues (.binary .equal) site [again, c]

/-- Whether the sum of the characters of a string is the string. -/
def charactersJoin (site : Location) (s : String) : Action Value := do
  let sum ← addCharacters site s (.string "") (List.range s.length)
  Builtin.onValues (.binary .equal) site [sum, .string s]

/-- Whether the length of a sum of strings is the sum of their lengths. -/
def lengthsAdd (site : Location) (s t : String) : Action Value := do
  let joined ← Builtin.onValues (.binary .add) site [.string s, .string t]
  let whole ← Builtin.onValues (.library .length) site [joined]
  let first ← Builtin.onValues (.library .length) site [.string s]
  let second ← Builtin.onValues (.library .length) site [.string t]
  let sum ← Builtin.onValues (.binary .add) site [first, second]
  Builtin.onValues (.binary .equal) site [whole, sum]

theorem characterReturns_yields {s : String} {i : Number} {c : Char}
    (here : (indexValue (.string s) (.number i) site).Yields session
      (.string (String.singleton c))) :
  (characterReturns site s i).Yields session (.bool true)
  := by
  refine here.bind ?_
  refine (codepoint_yields site c).bind ?_
  refine (char_yields site c).bind ?_
  exact equal_string_yields site _

theorem charactersJoin_yields {s : String} (short : s.length ≤ 2 ^ 53) :
  (charactersJoin site s).Yields session (.bool true)
  := by
  have joins : (addCharacters site s (.string "") (List.range' 0 s.toList.length)).Yields session
      (.string s) := addCharacters_yields site short s.toList [] rfl
  rw [String.length_toList, ← List.range_eq_range'] at joins
  exact joins.bind (equal_string_yields site s)

theorem lengthsAdd_yields {s t : String} (short : s.length + t.length ≤ 2 ^ 53) :
  (lengthsAdd site s t).Yields session (.bool true)
  := by
  refine (add_strings_yields site s t).bind ?_
  refine (length_yields site _).bind ?_
  refine (length_yields site s).bind ?_
  refine (length_yields site t).bind ?_
  refine (add_numbers_yields site short).bind ?_
  rw [String.length_append]
  exact equal_natural_yields site short

/-- The string primitives agree on characters. The length of a string is a number `n` such that at
every integer from zero on and below `n` stands a string of length one, which is the character with
its code point; at `n` stands nothing; the characters joined are the string; and lengths add up. The
size of a string is a word of 64 bits, and its positions are numbers as long as there are `2 ^ 53` of
them at most: the program counts on lengths far below that. -/
theorem Value.string_primitives_agree (s : String) :
  ∃ n, (Builtin.onValues (.library .length) site [.string s]).Yields session (.number n) ∧
    (∀ i : Number, i.isIntegral = true → Number.zero.lessEq i = true → i.less n = true →
      (∃ c, (indexValue (.string s) (.number i) site).Yields session (.string c) ∧
        (Builtin.onValues (.library .length) site [.string c]).Yields session
          (.number (.ofNat 1))) ∧
      (characterReturns site s i).Yields session (.bool true)) ∧
    (s.length < 2 ^ 64 → ∀ a, ∃ position,
      (indexValue (.string s) (.number n) site).Ends session a
        (.error (a.failure (.indexOutOfBounds position s.length) site)) a) ∧
    (s.length ≤ 2 ^ 53 → (charactersJoin site s).Yields session (.bool true)) ∧
    ∀ t : String, s.length + t.length ≤ 2 ^ 53 →
      (lengthsAdd site s t).Yields session (.bool true)
  := by
  refine ⟨_, length_yields site s, ?characters, indexValue_length site, charactersJoin_yields site,
    fun t => lengthsAdd_yields site⟩
  case characters =>
    intro i integral low high
    have here : (indexValue (.string s) (.number i) site).Yields session _ :=
      indexValue_yields site integral low high
    exact ⟨⟨_, here, length_character_yields site _⟩, characterReturns_yields site here⟩

end

end Jsonnet
