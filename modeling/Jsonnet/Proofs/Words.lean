import Jsonnet.Proofs.Characters

/-!
# Bitwise operators and shifts on integers

An operand is turned into a 64-bit integer, the operator works on bits, and the result becomes a
number again. For integers of at most 53 bits nothing is lost on the way: the bitwise operators come
to the bitwise operations on integers in two's complement, a shift to the left multiplies by a power
of two as long as the product has 64 bits, and a shift to the right divides and rounds down.
-/

namespace Jsonnet

open Number

/-- Whether an integer is written in two's complement with some bits and a sign. -/
def HasBits (w : Nat) (x : Int) : Prop := -2 ^ w ≤ x ∧ x < 2 ^ w

instance (w : Nat) (x : Int) : Decidable (HasBits w x) :=
  inferInstanceAs (Decidable (-2 ^ w ≤ x ∧ x < 2 ^ w))

theorem two_pow_eq_cast (w : Nat) :
  (2 : Int) ^ w = (2 ^ w : Nat)
  := by
  push_cast
  rfl

theorem HasBits.natAbs_le {w : Nat} {x : Int} (h : HasBits w x) :
  x.natAbs ≤ 2 ^ w
  := by
  have low := h.1
  have high := h.2
  rw [two_pow_eq_cast] at low high
  omega

theorem HasBits.mono {v w : Nat} {x : Int} (h : HasBits v x) (hvw : v ≤ w) :
  HasBits w x
  := by
  have power : (2 : Int) ^ v ≤ 2 ^ w := pow_le_pow_right₀ (by decide) hvw
  exact ⟨(neg_le_neg power).trans h.1, h.2.trans_le power⟩

theorem HasBits.isWord {x : Int} (h : HasBits 63 x) :
  IsWord x
  := isWord_iff.mpr h

namespace Number

open Binary64

variable {a : Number} {n : Nat} {x : Int}

/-! ### The integer that a number stands for -/

/-- Whether a number stands for an integer: it has the absolute value and the sign of the integer.
Both zeros stand for zero. -/
def Denotes (a : Number) (x : Int) : Prop :=
  ∃ negative, a.value = .finite negative (x.natAbs * unitsPerOne) ∧
    (if negative then -(x.natAbs : Int) else x.natAbs) = x

/-- Without its fraction such a number is the integer, if that has 64 bits. -/
theorem Denotes.word_eq (h : a.Denotes x) (hx : IsWord x) :
  a.word = x
  := by
  obtain ⟨negative, value, sign⟩ := h
  rw [word, value, clamp, Nat.mul_div_cancel _ unitsPerOne_pos]
  change max leastWord (min greatestWord (if negative then -(x.natAbs : Int) else x.natAbs)) = x
  rw [sign, min_eq_right hx.2, max_eq_right hx.1]

/-- A number without units is one of the two zeros. -/
theorem magnitude_eq_zero {negative : Bool} (h : a.value = .finite negative 0) :
  a.magnitude = 0
  := by
  rw [value, ofBits] at h
  split at h
  case isTrue => split at h <;> cases h
  case isFalse =>
    injection h with _ units
    rw [Binary64.magnitude] at units
    split at units
    case isTrue exponent =>
      simp only [exponentOf, fractionOf, Nat.pow_eq] at exponent units
      rw [Number.magnitude, Nat.pow_eq]
      omega
    case isFalse =>
      have fraction : Nat.pow 2 52 + fractionOf a.bits ≠ 0 := by
        rw [Nat.pow_eq]
        omega
      exact absurd units (Nat.mul_ne_zero fraction (Nat.two_pow_pos _).ne')

/-- A number that stands for a natural number is not below zero. -/
theorem Denotes.less_zero {k : Nat} (h : a.Denotes k) :
  a.less .zero = false
  := by
  obtain ⟨negative, value, sign⟩ := h
  have rank : 0 ≤ a.rank := by
    rw [Number.rank]
    split
    case isFalse => exact Int.natCast_nonneg _
    case isTrue signed =>
      -- The only natural number with a sign is the negative zero.
      have zero : k = 0 := by
        rw [Number.value, ofBits] at value
        split at value
        case isTrue => split at value <;> cases value
        case isFalse =>
          injection value with minus
          rw [← minus, signed, if_pos rfl, Int.natAbs_natCast] at sign
          omega
      rw [zero, Int.natCast_zero, Int.natAbs_zero, Nat.zero_mul] at value
      rw [magnitude_eq_zero value]
      exact le_rfl
  have zero : Number.zero.rank = 0 := by decide
  rw [less, zero, decide_eq_false (not_lt.mpr rank), Bool.and_false]

/-! ### Numbers of integers -/

/-- A natural number of 64 bits is a number without rounding if the last place divides it. -/
theorem value_ofNat_of_dvd (h : n < 2 ^ 64) (last : 2 ^ (n.log2 - 52) ∣ n) :
  (ofNat n).value = .finite false (n * unitsPerOne)
  := by
  obtain small | large := le_or_gt n (2 ^ 53)
  · exact value_ofNat small
  have hzero : n ≠ 0 := by omega
  have places : 53 ≤ n.log2 ∧ n.log2 < 64 :=
    ⟨(Nat.le_log2 hzero).mpr large.le, (Nat.log2_lt hzero).mpr h⟩
  obtain ⟨significand, product⟩ := last
  have positive : 0 < 2 ^ (n.log2 - 52) := Nat.two_pow_pos _
  have low : 2 ^ 52 ≤ significand := by
    apply Nat.le_of_mul_le_mul_left _ positive
    rw [← product, ← Nat.pow_add, Nat.sub_add_cancel (by omega)]
    exact Nat.log2_self_le hzero
  have high : significand < 2 ^ 53 := by
    apply Nat.lt_of_mul_lt_mul_left (a := 2 ^ (n.log2 - 52))
    rw [← product, ← Nat.pow_add, show n.log2 - 52 + 53 = n.log2 + 1 by omega]
    exact Nat.lt_log2_self
  have rounded : roundedQuotient n (2 ^ (n.log2 - 52)) = significand := by
    have quotient : n / 2 ^ (n.log2 - 52) = significand :=
      Nat.div_eq_of_eq_mul_right positive product
    have rest : n % 2 ^ (n.log2 - 52) = 0 := Nat.mod_eq_zero_of_dvd ⟨significand, product⟩
    simp only [roundedQuotient, rest, quotient, Nat.mul_zero, positive, decide_true, Bool.true_or,
      if_true]
  have bits : (ofNat n).bits.toNat = (1022 + n.log2) * 2 ^ 52 + significand := by
    simp only [ofNat, if_neg hzero, if_neg (show ¬ n.log2 ≤ 52 by omega), Nat.pow_eq, rounded,
      Nat.toUInt64_eq, UInt64.toNat_ofNat']
    omega
  have units : significand * 2 ^ (1022 + n.log2) = n * unitsPerOne := by
    have exponent : 1022 + n.log2 = n.log2 - 52 + 1074 := by omega
    obtain ⟨k, hk⟩ : ∃ k, k = 1074 := ⟨_, rfl⟩
    rw [exponent, unitsPerOne_eq hk, ← hk, Nat.pow_add, ← Nat.mul_assoc, Nat.mul_comm significand,
      ← product]
  rw [value_of_bits bits low high (by omega), units]

/-- The opposite of a finite number has the opposite value. -/
theorem value_neg {negative : Bool} {units : Nat} (h : a.value = .finite negative units) :
  (-a).value = .finite (!negative) units
  := by
  have bits : (-a).bits.toNat = a.bits.toNat ^^^ 2 ^ 63 := UInt64.toNat_xor ..
  have same : (-a).bits.toNat % 2 ^ 63 = a.bits.toNat % 2 ^ 63 := magnitude_neg a
  have other : (-a).bits.toNat / 2 ^ 63 = a.bits.toNat / 2 ^ 63 ^^^ 1 := by
    rw [bits, Nat.xor_div_two_pow, Nat.div_self (Nat.two_pow_pos 63)]
  have exponent : exponentOf (-a).bits = exponentOf a.bits := by
    rw [exponentOf, exponentOf, Nat.pow_eq, Nat.pow_eq]
    omega
  have fraction : fractionOf (-a).bits = fractionOf a.bits := by
    rw [fractionOf, fractionOf, Nat.pow_eq]
    omega
  have sign : signOf (-a).bits = !signOf a.bits := by
    have bit : a.bits.toNat / 2 ^ 63 = 0 ∨ a.bits.toNat / 2 ^ 63 = 1 := by
      have := a.bits.toNat_lt
      omega
    rw [signOf, signOf, Nat.pow_eq, other]
    obtain zero | one := bit
    · rw [zero]
      rfl
    · rw [one]
      rfl
  rw [value, ofBits] at h ⊢
  rw [exponent, fraction, sign]
  split at h
  case isTrue => split at h <;> cases h
  case isFalse finite =>
    injection h with minus magnitude
    rw [if_neg finite, minus, magnitude]

/-- An integer of 64 bits is a number without rounding if the last place divides it. -/
theorem denotes_ofInt_of_dvd (h : x.natAbs < 2 ^ 64) (last : 2 ^ (x.natAbs.log2 - 52) ∣ x.natAbs) :
  (ofInt x).Denotes x
  := by
  cases x with
  | ofNat n => exact ⟨false, value_ofNat_of_dvd h last, rfl⟩
  | negSucc n => exact ⟨true, value_neg (value_ofNat_of_dvd h last), rfl⟩

/-- A power of two times a natural number up to `2 ^ 53` is divided by its last place. -/
theorem last_dvd {n : Nat} (h : n ≤ 2 ^ 53) (k : Nat) :
  2 ^ ((n * 2 ^ k).log2 - 52) ∣ n * 2 ^ k
  := by
  obtain rfl | hzero := Nat.eq_zero_or_pos n
  · rw [Nat.zero_mul]
    exact dvd_zero _
  rw [log2_mul_two_pow hzero.ne']
  obtain rfl | h := h.eq_or_lt
  · rw [← Nat.pow_add]
    apply Nat.pow_dvd_pow
    rw [Nat.log2_two_pow]
    omega
  obtain ⟨places, -, -⟩ := significand_mem hzero.ne' h
  apply Dvd.dvd.mul_left
  apply Nat.pow_dvd_pow
  omega

theorem natAbs_mul_two_pow (x : Int) (k : Nat) :
  (x * 2 ^ k).natAbs = x.natAbs * 2 ^ k
  := by
  rw [Int.natAbs_mul, Int.natAbs_pow]
  rfl

/-- An integer of 53 bits is a number. -/
theorem denotes_ofInt (h : HasBits 53 x) :
  (ofInt x).Denotes x
  := by
  have small := h.natAbs_le
  have last := last_dvd small 0
  rw [Nat.pow_zero, Nat.mul_one] at last
  exact denotes_ofInt_of_dvd (by omega) last

/-- An integer of 53 bits times a power of two is a number, if the product has 63 bits. -/
theorem denotes_ofInt_mul (h : HasBits 53 x) {k : Nat} (fits : HasBits 63 (x * 2 ^ k)) :
  (ofInt (x * 2 ^ k)).Denotes (x * 2 ^ k)
  := by
  have last := last_dvd h.natAbs_le k
  rw [← natAbs_mul_two_pow] at last
  have := fits.natAbs_le
  exact denotes_ofInt_of_dvd (by omega) last

end Number

/-! ### Bits -/

section

variable {w n : Nat} {x y : Int}

theorem hasBits_natCast :
  HasBits w n ↔ n < 2 ^ w
  := by
  rw [HasBits, two_pow_eq_cast]
  omega

theorem hasBits_negSucc :
  HasBits w (.negSucc n) ↔ n < 2 ^ w
  := by
  rw [HasBits, two_pow_eq_cast]
  omega

/-- The bits of a word are those of its integer in two's complement. -/
theorem getLsbD_ofInt {i : Nat} (h : i < w) :
  (BitVec.ofInt w x).getLsbD i = x.testBit i
  := by
  cases x with
  | ofNat n =>
    change (BitVec.ofNat w n).getLsbD i = n.testBit i
    rw [BitVec.getLsbD_ofNat, decide_eq_true h, Bool.true_and]
  | negSucc n =>
    change _ = !n.testBit i
    rw [BitVec.ofInt_negSucc_eq_not_ofNat, BitVec.getLsbD_not, BitVec.getLsbD_ofNat,
      decide_eq_true h, Bool.true_and, Bool.true_and]

/-- An operator on bits comes to the same on words as on integers in two's complement. -/
theorem ofInt_bitwise {f : Bool → Bool → Bool} {g : BitVec w → BitVec w → BitVec w}
    (bits : ∀ a b i, (g a b).getLsbD i = f (a.getLsbD i) (b.getLsbD i)) :
  g (.ofInt w x) (.ofInt w y) = .ofInt w (Int.bitwise f x y)
  := by
  apply BitVec.eq_of_getLsbD_eq
  intro i h
  rw [bits, getLsbD_ofInt h, getLsbD_ofInt h, getLsbD_ofInt h, Int.testBit_bitwise]

theorem natBitwise_hasBits (f : Bool → Bool → Bool) {m n : Nat} (hm : m < 2 ^ w)
    (hn : n < 2 ^ w) :
  HasBits w (Int.natBitwise f m n)
  := by
  rw [Int.natBitwise]
  cases f false false with
  | true => exact hasBits_negSucc.mpr (Nat.bitwise_lt_two_pow hm hn)
  | false => exact hasBits_natCast.mpr (Nat.bitwise_lt_two_pow hm hn)

/-- An operator on bits needs no more bits than its operands. -/
theorem HasBits.bitwise (f : Bool → Bool → Bool) (hx : HasBits w x) (hy : HasBits w y) :
  HasBits w (Int.bitwise f x y)
  := by
  cases x with
  | ofNat m =>
    have hm := hasBits_natCast.mp hx
    cases y with
    | ofNat n => exact natBitwise_hasBits f hm (hasBits_natCast.mp hy)
    | negSucc n => exact natBitwise_hasBits (fun a b => f a !b) hm (hasBits_negSucc.mp hy)
  | negSucc m =>
    have hm := hasBits_negSucc.mp hx
    cases y with
    | ofNat n => exact natBitwise_hasBits (fun a b => f (!a) b) hm (hasBits_natCast.mp hy)
    | negSucc n => exact natBitwise_hasBits (fun a b => f (!a) !b) hm (hasBits_negSucc.mp hy)

/-- The complement needs no more bits. -/
theorem HasBits.lnot (h : HasBits w x) :
  HasBits w (Int.lnot x)
  := by
  cases x with
  | ofNat n => exact hasBits_negSucc.mpr (hasBits_natCast.mp h)
  | negSucc n => exact hasBits_natCast.mpr (hasBits_negSucc.mp h)

/-- An integer divided by a power of two and rounded down needs no more bits. -/
theorem HasBits.ediv (h : HasBits w x) (k : Nat) :
  HasBits w (x / 2 ^ k)
  := by
  have positive : (0 : Int) < 2 ^ k := pow_pos (by decide) k
  have least : (1 : Int) ≤ 2 ^ k := positive
  have size : (0 : Int) < 2 ^ w := pow_pos (by decide) w
  have product := le_mul_of_one_le_right size.le least
  constructor
  · rw [Int.le_ediv_iff_mul_le positive, Int.neg_mul]
    exact (neg_le_neg product).trans h.1
  · rw [Int.ediv_lt_iff_lt_mul positive]
    exact h.2.trans_le product

/-! ### Operators on words -/

/-- A bitwise operator on words is the one on integers in two's complement. -/
theorem bitwise_eq {f : Bool → Bool → Bool} {g : BitVec 64 → BitVec 64 → BitVec 64}
    (bits : ∀ a b i, (g a b).getLsbD i = f (a.getLsbD i) (b.getLsbD i))
    (hx : HasBits 63 x) (hy : HasBits 63 y) :
  bitwise g x y = Int.bitwise f x y
  := by
  have range := hx.bitwise f hy
  rw [bitwise, ofInt_bitwise bits, BitVec.toInt_ofInt_eq_self (by decide) range.1 range.2]

theorem bitwise_and_eq (hx : HasBits 63 x) (hy : HasBits 63 y) :
  bitwise (· &&& ·) x y = x.land y
  := by
  rw [bitwise_eq (fun _ _ _ => BitVec.getLsbD_and) hx hy, Int.bitwise_and]

theorem bitwise_or_eq (hx : HasBits 63 x) (hy : HasBits 63 y) :
  bitwise (· ||| ·) x y = x.lor y
  := by
  rw [bitwise_eq (fun _ _ _ => BitVec.getLsbD_or) hx hy, Int.bitwise_or]

theorem bitwise_xor_eq (hx : HasBits 63 x) (hy : HasBits 63 y) :
  bitwise (· ^^^ ·) x y = x.xor y
  := by
  rw [bitwise_eq (fun _ _ _ => BitVec.getLsbD_xor) hx hy, Int.bitwise_xor]

theorem complement_eq (hx : HasBits 63 x) :
  complement x = x.lnot
  := by
  have bits : ~~~BitVec.ofInt 64 x = .ofInt 64 x.lnot := by
    apply BitVec.eq_of_getLsbD_eq
    intro i h
    rw [BitVec.getLsbD_not, getLsbD_ofInt h, getLsbD_ofInt h, Int.testBit_lnot, decide_eq_true h,
      Bool.true_and]
  have range := hx.lnot
  rw [complement, bits, BitVec.toInt_ofInt_eq_self (by decide) range.1 range.2]

theorem shiftLeft_eq {k : Nat} (fits : HasBits 63 (x * 2 ^ k)) :
  shiftLeft x k = x * 2 ^ k
  := by
  have low := fits.1
  have high := fits.2
  have power : ((Nat.pow 2 k : Nat) : Int) = 2 ^ k := Int.natCast_pow 2 k
  rw [shiftLeft, power]
  apply Int.bmod_eq_of_le_mul_two
  · rw [Nat.pow_eq]
    omega
  · rw [Nat.pow_eq]
    omega

theorem shiftRight_eq (k : Nat) :
  shiftRight x k = x / 2 ^ k
  := by
  rw [shiftRight, Nat.pow_eq, Int.natCast_pow]
  rfl

/-- The quotient by a power of two is rounded down. -/
theorem floor_eq (k : Nat) :
  ⌊(x : ℚ) / 2 ^ k⌋ = x / 2 ^ k
  := by
  have floor := Rat.floor_intCast_div_natCast x (2 ^ k)
  push_cast at floor
  exact floor

/-! ### Identities -/

theorem xor_xor_cancel (x y : Int) :
  (x.xor y).xor y = x
  := by
  cases x with
  | ofNat m =>
    cases y with
    | ofNat n => exact congrArg Int.ofNat (Nat.xor_xor_cancel_right m n)
    | negSucc n => exact congrArg Int.ofNat (Nat.xor_xor_cancel_right m n)
  | negSucc m =>
    cases y with
    | ofNat n => exact congrArg Int.negSucc (Nat.xor_xor_cancel_right m n)
    | negSucc n => exact congrArg Int.negSucc (Nat.xor_xor_cancel_right m n)

theorem lnot_land (x y : Int) :
  (x.land y).lnot = x.lnot.lor y.lnot
  := by cases x <;> cases y <;> rfl

theorem lnot_lor (x y : Int) :
  (x.lor y).lnot = x.lnot.land y.lnot
  := by cases x <;> cases y <;> rfl

end

/-! ### Operators on numbers -/

/-- An action gives the number of an integer of some bits, which is that integer. -/
structure Action.YieldsInteger (session : Session) (w : Nat) (action : Action Value) (r : Int) :
    Prop where
  yields : action.Yields session (.number (.ofInt r))
  denotes : (Number.ofInt r).Denotes r
  hasBits : HasBits w r

/-- Exclusive or with the same operand twice. -/
def xorTwice (site : Location) (v w : Value) : Action Value := do
  let once ← Builtin.onValues (.binary .bitXor) site [v, w]
  Builtin.onValues (.binary .bitXor) site [once, w]

/-- The complement of what an operator gives. -/
def complementOf (op : BinaryOp) (site : Location) (v w : Value) : Action Value := do
  let result ← Builtin.onValues (.binary op) site [v, w]
  Builtin.onValues (.unary .bitNot) site [result]

/-- What an operator gives for the complements of its operands. -/
def onComplements (op : BinaryOp) (site : Location) (v w : Value) : Action Value := do
  let left ← Builtin.onValues (.unary .bitNot) site [v]
  let right ← Builtin.onValues (.unary .bitNot) site [w]
  Builtin.onValues (.binary op) site [left, right]

/-- A shift to the left and back. -/
def shiftBack (site : Location) (v w : Value) : Action Value := do
  let shifted ← Builtin.onValues (.binary .shiftLeft) site [v, w]
  Builtin.onValues (.binary .shiftRight) site [shifted, w]

theorem Action.YieldsInteger.bind {session : Session} {v w : Nat} {action : Action Value}
    {next : Value → Action Value} {r s : Int} (first : action.YieldsInteger session v r)
    (second : (next (.number (.ofInt r))).YieldsInteger session w s) :
  (action >>= next).YieldsInteger session w s
  := ⟨first.yields.bind second.yields, second.denotes, second.hasBits⟩

section

variable (session : Session) (site : Location) {a b c : Number} {x y : Int} {k : Nat}

section

variable (ha : a.Denotes x) (hb : b.Denotes y) (hx : HasBits 53 x) (hy : HasBits 53 y)

include ha hb hx hy

/-- A function of two words gets the integers that its operands stand for. -/
theorem onWords_yields {op : BinaryOp} {f : Int → Int → Int} {r : Int}
    (operator : ∀ v w, applyBinary op v w = onWords f v w) (result : f x y = r)
    (range : HasBits 53 r) :
  (Builtin.onValues (.binary op) site [.number a, .number b]).YieldsInteger session 53 r
  := by
  refine ⟨Builtin.yields rfl site fun s => ?_, denotes_ofInt range, range⟩
  change (applyBinary op (.ready (.number a)) (.ready (.number b))).Gives session s _ s
  rw [operator, ← result, ← ha.word_eq (hx.mono (by decide)).isWord,
    ← hb.word_eq (hy.mono (by decide)).isWord]
  exact .pure _

theorem and_yields :
  (Builtin.onValues (.binary .bitAnd) site [.number a, .number b]).YieldsInteger session 53
    (x.land y)
  := by
  have range := hx.bitwise and hy
  rw [Int.bitwise_and] at range
  exact onWords_yields session site ha hb hx hy (fun _ _ => rfl)
    (bitwise_and_eq (hx.mono (by decide)) (hy.mono (by decide))) range

theorem or_yields :
  (Builtin.onValues (.binary .bitOr) site [.number a, .number b]).YieldsInteger session 53
    (x.lor y)
  := by
  have range := hx.bitwise or hy
  rw [Int.bitwise_or] at range
  exact onWords_yields session site ha hb hx hy (fun _ _ => rfl)
    (bitwise_or_eq (hx.mono (by decide)) (hy.mono (by decide))) range

theorem xor_yields :
  (Builtin.onValues (.binary .bitXor) site [.number a, .number b]).YieldsInteger session 53
    (x.xor y)
  := by
  have range := hx.bitwise xor hy
  rw [Int.bitwise_xor] at range
  exact onWords_yields session site ha hb hx hy (fun _ _ => rfl)
    (bitwise_xor_eq (hx.mono (by decide)) (hy.mono (by decide))) range

omit hb hy in
theorem complement_yields :
  (Builtin.onValues (.unary .bitNot) site [.number a]).YieldsInteger session 53 x.lnot
  := by
  refine ⟨Builtin.yields rfl site fun s => ?_, denotes_ofInt hx.lnot, hx.lnot⟩
  have wide : HasBits 63 x := hx.mono (by decide)
  rw [← complement_eq wide, ← ha.word_eq wide.isWord]
  exact (Action.Gives.pure (Value.number a)).bind (.pure _)

/-- Exclusive or with the same integer twice gives the integer back. -/
theorem xorTwice_yields :
  (xorTwice site (.number a) (.number b)).YieldsInteger session 53 x
  := by
  have once := xor_yields session site ha hb hx hy
  have twice := xor_yields session site once.denotes hb once.hasBits hy
  rw [xor_xor_cancel] at twice
  exact once.bind twice

/-- The complement of a conjunction is the disjunction of the complements. -/
theorem complementOf_and_yields :
  (complementOf .bitAnd site (.number a) (.number b)).YieldsInteger session 53 (x.land y).lnot ∧
    (onComplements .bitOr site (.number a) (.number b)).YieldsInteger session 53 (x.land y).lnot
  := by
  constructor
  · have both := and_yields session site ha hb hx hy
    exact both.bind (complement_yields session site both.denotes both.hasBits)
  · have left := complement_yields session site ha hx
    have right := complement_yields session site hb hy
    have either := or_yields session site left.denotes right.denotes left.hasBits
      right.hasBits
    rw [← lnot_land] at either
    exact left.bind (right.bind either)

/-- The complement of a disjunction is the conjunction of the complements. -/
theorem complementOf_or_yields :
  (complementOf .bitOr site (.number a) (.number b)).YieldsInteger session 53 (x.lor y).lnot ∧
    (onComplements .bitAnd site (.number a) (.number b)).YieldsInteger session 53 (x.lor y).lnot
  := by
  constructor
  · have either := or_yields session site ha hb hx hy
    exact either.bind (complement_yields session site either.denotes either.hasBits)
  · have left := complement_yields session site ha hx
    have right := complement_yields session site hb hy
    have both := and_yields session site left.denotes right.denotes left.hasBits
      right.hasBits
    rw [← lnot_lor] at both
    exact left.bind (right.bind both)

end

/-! ### Shifts of numbers -/

section

variable (ha : a.Denotes x) (hc : c.Denotes k) (hk : k ≤ 63)

include ha hc hk

/-- A shift gets the integer of its left operand and a number of places below 64. -/
theorem shift_yields {op : BinaryOp} {f : Int → Nat → Int} {r : Int} {w : Nat}
    (operator : ∀ v w, applyBinary op v w = shift f v w) (hx : HasBits 63 x) (result : f x k = r)
    (exact' : (Number.ofInt r).Denotes r) (range : HasBits w r) :
  (Builtin.onValues (.binary op) site [.number a, .number c]).YieldsInteger session w r
  := by
  refine ⟨Builtin.yields rfl site fun s => ?_, exact', range⟩
  have places : HasBits 63 (k : Int) := hasBits_natCast.mpr (hk.trans_lt (by decide))
  have operands : (expectNumbers (.ready (.number a)) (.ready (.number c))).Gives session s
      (a, c) s := .pure _
  change (applyBinary op (.ready (.number a)) (.ready (.number c))).Gives session s _ s
  rw [operator]
  refine operands.bind ?_
  simp only [hc.less_zero, Bool.false_eq_true, if_false, ha.word_eq hx.isWord,
    hc.word_eq places.isWord, Int.toNat_natCast, Nat.mod_eq_of_lt (Nat.lt_succ_of_le hk), result]
  exact .pure _

/-- A shift to the left multiplies by a power of two, as long as the product has 64 bits. -/
theorem shiftLeft_yields (hx : HasBits 53 x) (fits : HasBits 63 (x * 2 ^ k)) :
  (Builtin.onValues (.binary .shiftLeft) site [.number a, .number c]).YieldsInteger session 63
    (x * 2 ^ k)
  := shift_yields session site ha hc hk (fun _ _ => rfl) (hx.mono (by decide)) (shiftLeft_eq fits)
    (denotes_ofInt_mul hx fits) fits

/-- A shift to the right divides by a power of two and rounds down. -/
theorem shiftRight_yields (hx : HasBits 63 x) (range : HasBits 53 (x / 2 ^ k)) :
  (Builtin.onValues (.binary .shiftRight) site [.number a, .number c]).YieldsInteger session 53
    (x / 2 ^ k)
  := shift_yields session site ha hc hk (fun _ _ => rfl) hx (shiftRight_eq k)
    (denotes_ofInt range) range

/-- A shift to the left is undone by the shift to the right, as long as nothing is lost. -/
theorem shiftBack_yields (hx : HasBits 53 x) (fits : HasBits 63 (x * 2 ^ k)) :
  (shiftBack site (.number a) (.number c)).YieldsInteger session 53 x
  := by
  have positive : (2 : Int) ^ k ≠ 0 := (pow_pos (by decide) k).ne'
  have quotient : x * 2 ^ k / 2 ^ k = x := Int.mul_ediv_cancel x positive
  have shifted := shiftLeft_yields session site ha hc hk hx fits
  have back := shiftRight_yields session site shifted.denotes hc hk fits
    (quotient.symm ▸ hx)
  rw [quotient] at back
  exact shifted.bind back

end

/-- Bitwise operators and shifts are exact on integers of 53 bits. The bitwise operators come to
the operations on integers in two's complement, which need no more bits; exclusive or undoes
itself, and the complement turns conjunctions into disjunctions and back. For up to 63 places a
shift to the left multiplies by a power of two and is undone by the shift to the right, if the
product has 64 bits, and a shift to the right divides by a power of two and rounds down. -/
theorem Value.integer_operators_exact (ha : a.Denotes x) (hb : b.Denotes y)
    (hx : -2 ^ 53 ≤ x ∧ x < 2 ^ 53) (hy : -2 ^ 53 ≤ y ∧ y < 2 ^ 53) :
  (Builtin.onValues (.binary .bitAnd) site [.number a, .number b]).YieldsInteger session 53
      (x.land y) ∧
    (Builtin.onValues (.binary .bitOr) site [.number a, .number b]).YieldsInteger session 53
      (x.lor y) ∧
    (Builtin.onValues (.binary .bitXor) site [.number a, .number b]).YieldsInteger session 53
      (x.xor y) ∧
    (Builtin.onValues (.unary .bitNot) site [.number a]).YieldsInteger session 53 x.lnot ∧
    (xorTwice site (.number a) (.number b)).YieldsInteger session 53 x ∧
    ((complementOf .bitAnd site (.number a) (.number b)).YieldsInteger session 53
        (x.land y).lnot ∧
      (onComplements .bitOr site (.number a) (.number b)).YieldsInteger session 53
        (x.land y).lnot) ∧
    ((complementOf .bitOr site (.number a) (.number b)).YieldsInteger session 53
        (x.lor y).lnot ∧
      (onComplements .bitAnd site (.number a) (.number b)).YieldsInteger session 53
        (x.lor y).lnot) ∧
    ∀ (k : Nat) (c : Number), c.Denotes k → k ≤ 63 →
      (-2 ^ 63 ≤ x * 2 ^ k → x * 2 ^ k < 2 ^ 63 →
        (Builtin.onValues (.binary .shiftLeft) site [.number a, .number c]).YieldsInteger session
          63 (x * 2 ^ k) ∧
        (shiftBack site (.number a) (.number c)).YieldsInteger session 53 x) ∧
      (Builtin.onValues (.binary .shiftRight) site [.number a, .number c]).YieldsInteger session 53
        ⌊(x : ℚ) / 2 ^ k⌋
  := by
  refine ⟨and_yields session site ha hb hx hy, or_yields session site ha hb hx hy,
    xor_yields session site ha hb hx hy, complement_yields session site ha hx,
    xorTwice_yields session site ha hb hx hy, complementOf_and_yields session site ha hb hx hy,
    complementOf_or_yields session site ha hb hx hy, ?shifts⟩
  case shifts =>
    intro k c hc hk
    constructor
    · intro low high
      exact ⟨shiftLeft_yields session site ha hc hk hx ⟨low, high⟩,
        shiftBack_yields session site ha hc hk hx ⟨low, high⟩⟩
    · rw [floor_eq]
      exact shiftRight_yields session site ha hc hk (HasBits.mono hx (by decide))
        (HasBits.ediv hx k)

end

/-- Two negative integers, and a shift by 59 places to the left and to the right. -/
theorem Value.integer_operators_exact_of_negative :
  let a := Number.ofInt (-13)
  let b := Number.ofInt (-11)
  let c := Number.ofInt 59
  a.Denotes (-13) ∧ b.Denotes (-11) ∧ c.Denotes 59 ∧
    (Builtin.onValues (.binary .bitAnd) .unknown [.number a, .number b]).YieldsInteger .bare 53
      (-15) ∧
    (Builtin.onValues (.binary .bitXor) .unknown [.number a, .number b]).YieldsInteger .bare 53 6 ∧
    (Builtin.onValues (.unary .bitNot) .unknown [.number a]).YieldsInteger .bare 53 12 ∧
    (Builtin.onValues (.binary .shiftLeft) .unknown [.number a, .number c]).YieldsInteger .bare 63
      (-13 * 2 ^ 59) ∧
    (shiftBack .unknown (.number a) (.number c)).YieldsInteger .bare 53 (-13)
  := by
  intro a b c
  have ha : a.Denotes (-13) := denotes_ofInt (by decide)
  have hb : b.Denotes (-11) := denotes_ofInt (by decide)
  have hc : c.Denotes 59 := denotes_ofInt (by decide)
  obtain ⟨both, -, differ, complement, -, -, -, shifts⟩ :=
    Value.integer_operators_exact .bare .unknown ha hb (by decide) (by decide)
  obtain ⟨left, back⟩ := (shifts 59 c hc (by decide)).1 (by decide) (by decide)
  exact ⟨ha, hb, hc, both, differ, complement, left, back⟩

end Jsonnet
