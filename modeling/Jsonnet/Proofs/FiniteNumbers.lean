import Mathlib
import Jsonnet.Eval.Library

/-!
# Finite numbers

A number is finite if its magnitude is below that of the infinities. Arithmetic is checked to
come to finite numbers; what is not checked are opposites and the numbers of integers, and those
are finite because an integer of 64 bits is small.
-/

namespace Jsonnet

namespace Number

/-- Whether a number is finite: neither an infinity nor what is not a number. -/
def Finite (x : Number) : Prop := x.magnitude < infiniteMagnitude

instance (x : Number) : Decidable x.Finite :=
  inferInstanceAs (Decidable (x.magnitude < infiniteMagnitude))

/-- The numbers that a check lets pass are the finite ones. -/
theorem finite_iff {x : Number} :
  x.Finite ↔ x.isNaN = false ∧ x.isInfinite = false
  := by
  rw [Finite, isNaN, isInfinite, decide_eq_false_iff_not, beq_eq_false_iff_ne]
  omega

/-- The opposite of a number has the same magnitude. -/
theorem magnitude_neg (x : Number) :
  (-x).magnitude = x.magnitude
  := by
  have sign : (0x8000000000000000 : UInt64).toNat % 2 ^ 63 = 0 := rfl
  change (x.bits ^^^ 0x8000000000000000).toNat % 2 ^ 63 = x.bits.toNat % 2 ^ 63
  rw [UInt64.toNat_xor, Nat.xor_mod_two_pow, sign, Nat.xor_zero]

/-- The opposite of a finite number is finite. -/
theorem Finite.neg {x : Number} (h : x.Finite) :
  (-x).Finite
  := by
  rw [Finite, magnitude_neg]
  exact h

/-! ### Numbers of integers -/

/-- A quotient is rounded up by one at most. -/
theorem roundedQuotient_le (n divisor : Nat) :
  roundedQuotient n divisor ≤ n / divisor + 1
  := by
  rw [roundedQuotient]
  split
  · exact Nat.le_succ _
  · exact le_rfl

/-- The significand of a natural number has 53 bits, or is the next power of two. -/
theorem significand_le (n : Nat) :
  (if n.log2 ≤ 52 then n * 2 ^ (52 - n.log2) else roundedQuotient n (2 ^ (n.log2 - 52))) ≤ 2 ^ 53
  := by
  have below : n < 2 ^ (n.log2 + 1) := Nat.lt_log2_self
  split
  case isTrue h =>
    have exponent : n.log2 + 1 + (52 - n.log2) = 53 := by omega
    calc n * 2 ^ (52 - n.log2)
        ≤ 2 ^ (n.log2 + 1) * 2 ^ (52 - n.log2) := Nat.mul_le_mul_right _ below.le
      _ = 2 ^ 53 := by rw [← Nat.pow_add, exponent]
  case isFalse h =>
    have exponent : 53 + (n.log2 - 52) = n.log2 + 1 := by omega
    have quotient : n / 2 ^ (n.log2 - 52) < 2 ^ 53 := by
      rw [Nat.div_lt_iff_lt_mul (Nat.two_pow_pos _), ← Nat.pow_add, exponent]
      exact below
    exact (roundedQuotient_le _ _).trans quotient

/-- The number of a natural number of 64 bits is finite. -/
theorem finite_ofNat {n : Nat} (h : n < 2 ^ 64) :
  (ofNat n).Finite
  := by
  rw [ofNat]
  split
  case isTrue => decide
  case isFalse hzero =>
    have places : n.log2 < 64 := (Nat.log2_lt hzero).mpr h
    have significand := significand_le n
    simp only [Nat.pow_eq]
    generalize (if n.log2 ≤ 52 then n * 2 ^ (52 - n.log2)
      else roundedQuotient n (2 ^ (n.log2 - 52))) = m at significand ⊢
    simp only [Finite, magnitude, infiniteMagnitude, Nat.toUInt64_eq,
      UInt64.toNat_ofNat', Nat.pow_eq]
    omega

/-- Whether an integer has 64 bits. -/
def IsWord (i : Int) : Prop := leastWord ≤ i ∧ i ≤ greatestWord

/-- The bounds of an integer of 64 bits. -/
theorem isWord_iff {i : Int} :
  IsWord i ↔ -2 ^ 63 ≤ i ∧ i < 2 ^ 63
  := by
  have least : leastWord = -2 ^ 63 := rfl
  have greatest : greatestWord = 2 ^ 63 - 1 := rfl
  rw [IsWord, least, greatest]
  omega

/-- The number of an integer of 64 bits is finite. -/
theorem finite_ofInt {i : Int} (h : IsWord i) :
  (ofInt i).Finite
  := by
  rw [isWord_iff] at h
  cases i with
  | ofNat n =>
    have bound : (n : Int) < 2 ^ 63 := h.2
    exact finite_ofNat (by omega)
  | negSucc n => exact (finite_ofNat (by omega)).neg

/-- Without its fraction a number is an integer of 64 bits. -/
theorem isWord_word (x : Number) :
  IsWord x.word
  := by
  have least : leastWord = -2 ^ 63 := rfl
  have greatest : greatestWord = 2 ^ 63 - 1 := rfl
  rw [word, IsWord, least, greatest]
  cases x.value with
  | nan => exact ⟨by decide, by decide⟩
  | infinite negative => cases negative <;> exact ⟨by decide, by decide⟩
  | finite negative units =>
    rw [Binary64.clamp]
    omega

end Number

open Number

/-- Whether an integer function of two integers of 64 bits comes to an integer of 64 bits. -/
def KeepsWords {α : Type} (f : Int → α → Int) : Prop := ∀ i a, IsWord i → IsWord (f i a)

theorem isWord_toInt (x : BitVec 64) :
  IsWord x.toInt
  := isWord_iff.mpr ⟨BitVec.le_toInt x, BitVec.toInt_lt⟩

theorem bitwise_keepsWords (f : BitVec 64 → BitVec 64 → BitVec 64) :
  KeepsWords (bitwise f)
  := fun _ _ _ => isWord_toInt _

theorem isWord_complement (i : Int) :
  IsWord (complement i)
  := isWord_toInt _

theorem shiftLeft_keepsWords :
  KeepsWords shiftLeft
  := by
  intro i places _
  have positive : 0 < Nat.pow 2 64 := Nat.two_pow_pos 64
  have low := Int.le_bmod (x := i * Nat.pow 2 places) positive
  have high := Int.bmod_lt (x := i * Nat.pow 2 places) positive
  rw [isWord_iff, shiftLeft]
  simp only [Nat.pow_eq] at low high ⊢
  omega

theorem shiftRight_keepsWords :
  KeepsWords shiftRight
  := by
  intro i places h
  rw [isWord_iff] at h ⊢
  have positive : (0 : Int) < Nat.pow 2 places := Int.natCast_pos.mpr (Nat.two_pow_pos places)
  rw [shiftRight]
  constructor
  · rw [Int.le_ediv_iff_mul_le positive]
    exact le_trans (by nlinarith) h.1
  · rw [Int.ediv_lt_iff_lt_mul positive]
    exact lt_of_lt_of_le h.2 (by nlinarith)

end Jsonnet
