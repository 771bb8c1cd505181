import Mathlib.Algebra.Order.Ring.Int
import MipsMonitor.Proofs.Guarded.Functions

/-!
# Functions of words as numbers

What the functions of words compute, in terms of the numbers that the words stand for. A word stands
for a number below `2 ^ 32`, or for a signed one between `-2 ^ 31` and `2 ^ 31`, and these agree
modulo `2 ^ 32` (`Word.toNat_eq`). The value of an arithmetic function is a number first and cut off
afterwards (`Arithmetic.exact`, `Arithmetic.toNat_apply`). The two results of a multiplication are
the halves of the product, and those of a division are a quotient and a remainder with the sign of
the dividend (`LongArithmetic.Leaves`, `LongArithmetic.leaves_apply`).
-/

namespace MipsMonitor

open Word

namespace Word

/-- The two values of a word agree modulo `2 ^ 32`. -/
theorem toNat_eq (w : Word) : (w.toNat : Int) = signed w % 4294967296 := by
  have hlt := w.toNat_lt
  rw [signed_eq]
  omega

/-- An integer is taken modulo the size of a word. -/
theorem toNat_ofInt (n : Int) : ((UInt32.ofInt n).toNat : Int) = n % 4294967296 := by
  rw [UInt32.ofInt, UInt32.toNat_ofNat']
  omega

/-- A number in the range of signed words is the signed value of its word. -/
theorem signed_ofInt {n : Int} (h : -2147483648 ≤ n) (h' : n < 2147483648) :
    signed (UInt32.ofInt n) = n := by
  have hword := toNat_ofInt n
  rw [signed_eq]
  omega

end Word

namespace Arithmetic

/-- The value of a function before it is cut off at 32 bits. Moving down by `k` bits divides by
`2 ^ k` and rounds down, for signed words as well. -/
def exact : Arithmetic → Word → Word → Int
  | add, a, b => signed a + signed b
  | sub, a, b => signed a - signed b
  | and, a, b => (a.toNat &&& b.toNat : Nat)
  | or, a, b => (a.toNat ||| b.toNat : Nat)
  | xor, a, b => (a.toNat ^^^ b.toNat : Nat)
  | nor, a, b => 4294967295 - (a.toNat ||| b.toNat : Nat)
  | lessSigned, a, b => if signed a < signed b then 1 else 0
  | less, a, b => if a.toNat < b.toNat then 1 else 0
  | shiftLeft, a, b => (a.toNat * 2 ^ (b.toNat % 32) : Nat)
  | shiftRight, a, b => (a.toNat / 2 ^ (b.toNat % 32) : Nat)
  | shiftRightSigned, a, b => signed a / 2 ^ (b.toNat % 32)
  | second, _, b => b.toNat

/-- A word that is moved up loses the bits that are moved out. -/
theorem toNat_shiftLeft (a b : Word) :
    (shiftLeft.apply a b).toNat = a.toNat * 2 ^ (b.toNat % 32) % 4294967296 := by
  rw [apply, UInt32.toNat_shiftLeft, Nat.shiftLeft_eq]

/-- A shift to the right divides by a power of two. -/
theorem toNat_shiftRight (a b : Word) :
    (shiftRight.apply a b).toNat = a.toNat / 2 ^ (b.toNat % 32) := by
  rw [apply, UInt32.toNat_shiftRight, Nat.shiftRight_eq_div_pow]

/-- A signed word is moved down by the low five bits of the amount, and rounded down. -/
theorem signed_shiftRightSigned (a b : Word) :
    signed (shiftRightSigned.apply a b) = signed a / 2 ^ (b.toNat % 32) := by
  -- The amount is taken modulo 32 as a signed word, which comes to its low five bits.
  have hamount : (b.toBitVec.smod 32).toNat = b.toNat % 32 := by
    have hmod : (b.toBitVec.smod 32).toInt = Int.fmod (signed b) 32 := BitVec.toInt_smod
    have hcond := (b.toBitVec.smod 32).toInt_eq_toNat_cond
    have hb := toNat_eq b
    rw [Int.fmod_eq_emod_of_nonneg _ (by decide)] at hmod
    omega
  have hshift : signed (shiftRightSigned.apply a b) =
      (a.toBitVec.sshiftRight' (b.toBitVec.smod 32)).toInt := rfl
  rw [hshift, BitVec.sshiftRight', BitVec.toInt_sshiftRight, hamount, Int.shiftRight_eq_div_pow]
  rfl

/-- The value of a function is its exact value, cut off. -/
theorem toNat_apply (f : Arithmetic) (a b : Word) :
    ((f.apply a b).toNat : Int) = f.exact a b % 4294967296 := by
  have ha := toNat_eq a
  have hb := toNat_eq b
  have hla := a.toNat_lt
  have hlb := b.toNat_lt
  cases f with
  | add =>
    rw [apply, UInt32.toNat_add, exact]
    omega
  | sub =>
    rw [apply, UInt32.toNat_sub, exact]
    omega
  | and =>
    -- The bitwise functions stay below the modulus, so the remainder is the number itself.
    have hle : a.toNat &&& b.toNat ≤ a.toNat := Nat.and_le_left
    rw [apply, UInt32.toNat_and, exact]
    omega
  | or =>
    have hlt : a.toNat ||| b.toNat < 2 ^ 32 := Nat.or_lt_two_pow hla hlb
    rw [apply, UInt32.toNat_or, exact]
    omega
  | xor =>
    have hlt : a.toNat ^^^ b.toNat < 2 ^ 32 := Nat.xor_lt_two_pow hla hlb
    rw [apply, UInt32.toNat_xor, exact]
    omega
  | nor =>
    have hlt : a.toNat ||| b.toNat < 2 ^ 32 := Nat.or_lt_two_pow hla hlb
    have hsize : UInt32.size = 4294967296 := rfl
    rw [apply, UInt32.toNat_not, UInt32.toNat_or, exact]
    omega
  | lessSigned =>
    have hlt : a.toInt32 < b.toInt32 ↔ signed a < signed b := Int32.lt_iff_toInt_lt
    simp only [apply, exact, hlt]
    split <;> rfl
  | less =>
    simp only [apply, exact, UInt32.lt_iff_toNat_lt]
    split <;> rfl
  | shiftLeft => rw [toNat_shiftLeft, exact, Int.natCast_emod]; rfl
  | shiftRight =>
    have hlt : a.toNat / 2 ^ (b.toNat % 32) < 4294967296 :=
      Nat.lt_of_le_of_lt (Nat.div_le_self _ _) hla
    rw [toNat_shiftRight, exact]
    generalize a.toNat / 2 ^ (b.toNat % 32) = n at hlt ⊢
    omega
  | shiftRightSigned => rw [toNat_eq, signed_shiftRightSigned, exact]
  | second =>
    rw [apply, exact]
    omega

end Arithmetic

namespace Trapping

/-- A sum or difference that stays in the range of signed words is cut off to itself. -/
theorem value?_eq_some {f : Trapping} {a b : Word}
    (h : -2147483648 ≤ f.exact a b ∧ f.exact a b < 2147483648) :
    f.value? a b = some (UInt32.ofInt (f.exact a b)) :=
  if_pos ⟨h.1, Int.le_of_lt_add_one h.2⟩

/-- One that leaves the range has no value. -/
theorem value?_eq_none {f : Trapping} {a b : Word}
    (h : ¬(-2147483648 ≤ f.exact a b ∧ f.exact a b < 2147483648)) : f.value? a b = none :=
  if_neg fun hin => h ⟨hin.1, Int.lt_add_one_of_le hin.2⟩

end Trapping

/-- A quotient rounded toward zero and its remainder, which is smaller than the divisor and, if it
is not zero, has the sign of the dividend. -/
structure Divides (dividend divisor quotient remainder : Int) : Prop where
  /-- The dividend is put together again. -/
  sum : dividend = quotient * divisor + remainder
  /-- The remainder is smaller than the divisor. -/
  small : remainder.natAbs < divisor.natAbs
  /-- The remainder is zero or has the sign of the dividend. -/
  sign : remainder = 0 ∨ remainder.sign = dividend.sign

/-- Division towards zero leaves a quotient and a remainder. -/
theorem divides_tdiv {n d : Int} (hd : d ≠ 0) : Divides n d (n.tdiv d) (n.tmod d) where
  sum := (Int.tdiv_mul_add_tmod n d).symm
  small := by
    rw [Int.natAbs_tmod]
    exact Nat.mod_lt _ (Int.natAbs_pos.mpr hd)
  sign := by
    -- A remainder has the sign of its dividend, unless it is zero.
    obtain hneg | rfl | hpos := Int.lt_trichotomy n 0
    · have hle : n.tmod d ≤ 0 := by
        have hnonneg := Int.tmod_nonneg d (show 0 ≤ -n by omega)
        rw [Int.neg_tmod] at hnonneg
        omega
      refine (Int.lt_or_eq_of_le hle).symm.imp_right fun hlt => ?_
      rw [Int.sign_eq_neg_one_of_neg hlt, Int.sign_eq_neg_one_of_neg hneg]
    · exact .inl (Int.zero_tmod d)
    · have hge : 0 ≤ n.tmod d := Int.tmod_nonneg d (Int.le_of_lt hpos)
      refine (Int.lt_or_eq_of_le hge).symm.imp Eq.symm fun hlt => ?_
      rw [Int.sign_eq_one_of_pos hlt, Int.sign_eq_one_of_pos hpos]

namespace LongArithmetic

/-- What the two result registers hold for two words: the halves of the product, or remainder and
quotient. Of the signed quotients one is no signed word; it is left as an unsigned one. A division
by zero leaves the dividend and a word of ones, or one for a negative dividend. -/
def Leaves (f : LongArithmetic) (a b high low : Word) : Prop :=
  match f with
  | multiplySigned => signed high * 4294967296 + low.toNat = signed a * signed b
  | multiply => high.toNat * 4294967296 + low.toNat = a.toNat * b.toNat
  | divideSigned =>
    if b = 0 then high = a ∧ low.toNat = if signed a < 0 then 1 else 4294967295
    else if signed a = -2147483648 ∧ signed b = -1 then
      high = 0 ∧ low.toNat = 2147483648 ∧ Divides (signed a) (signed b) low.toNat (signed high)
    else Divides (signed a) (signed b) (signed low) (signed high)
  | divide =>
    if b = 0 then high = a ∧ low.toNat = 4294967295
    else Divides a.toNat b.toNat low.toNat high.toNat

variable {a b : Word}

/-- The signed product leaves its two halves. -/
theorem leaves_multiplySigned :
    multiplySigned.Leaves a b (multiplySigned.apply a b).1 (multiplySigned.apply a b).2 := by
  obtain ⟨ha, ha'⟩ := Guarded.signed_bounds a
  obtain ⟨hb, hb'⟩ := Guarded.signed_bounds b
  have hproduct : (signed a * signed b).natAbs ≤ 2147483648 * 2147483648 := by
    rw [Int.natAbs_mul]
    exact Nat.mul_le_mul (by omega) (by omega)
  simp only [Leaves, apply, halves]
  generalize signed a * signed b = n at hproduct ⊢
  rw [signed_ofInt (by omega) (by omega), toNat_ofInt]
  omega

/-- The product leaves its two halves. -/
theorem leaves_multiply : multiply.Leaves a b (multiply.apply a b).1 (multiply.apply a b).2 := by
  have hproduct : a.toNat * b.toNat ≤ 4294967295 * 4294967295 :=
    Nat.mul_le_mul (Nat.le_of_lt_succ a.toNat_lt) (Nat.le_of_lt_succ b.toNat_lt)
  simp only [Leaves, apply, halves, ← Int.natCast_mul]
  generalize a.toNat * b.toNat = n at hproduct ⊢
  have hhigh := toNat_ofInt (n / 4294967296)
  have hlow := toNat_ofInt n
  omega

/-- Every quotient of signed words but one is a signed word. -/
theorem tdiv_bounds (hne : signed b ≠ 0) (hleast : ¬(signed a = -2147483648 ∧ signed b = -1)) :
    -2147483648 ≤ (signed a).tdiv (signed b) ∧ (signed a).tdiv (signed b) ≤ 2147483647 := by
  obtain ⟨ha, ha'⟩ := Guarded.signed_bounds a
  have hquotient := Guarded.signedQuotient_of_ne ha ha' hne hleast
  rw [Guarded.signedQuotient, if_neg hne, Guarded.within] at hquotient
  split at hquotient
  · next hin => exact hin
  · cases hquotient

/-- The signed division leaves its quotient and its remainder. -/
theorem leaves_divideSigned :
    divideSigned.Leaves a b (divideSigned.apply a b).1 (divideSigned.apply a b).2 := by
  obtain ⟨hb, hb'⟩ := Guarded.signed_bounds b
  simp only [Leaves, apply]
  by_cases hzero : b = 0
  · simp only [if_pos hzero, true_and]
    split <;> rfl
  · have hne : signed b ≠ 0 := mt Guarded.signed_eq_zero.mp hzero
    simp only [if_neg hzero]
    -- The least number divided by minus one is the one quotient that does not fit.
    split
    · next hleast =>
      rw [hleast.1, hleast.2]
      exact ⟨rfl, rfl, rfl, by decide, .inl rfl⟩
    · next hleast =>
      have hdivides := divides_tdiv (n := signed a) hne
      obtain ⟨hquotient, hquotient'⟩ := tdiv_bounds hne hleast
      have hsmall := hdivides.small
      rw [signed_ofInt hquotient (by omega), signed_ofInt (by omega) (by omega)]
      exact hdivides

/-- The division leaves its quotient and its remainder. -/
theorem leaves_divide : divide.Leaves a b (divide.apply a b).1 (divide.apply a b).2 := by
  simp only [Leaves, apply]
  split
  · exact ⟨rfl, rfl⟩
  · next hzero =>
    have hne : (b.toNat : Int) ≠ 0 := fun h => hzero (UInt32.toNat_inj.mp (Int.ofNat.inj h))
    have hdivides := divides_tdiv (n := a.toNat) hne
    rw [Int.tdiv_eq_ediv_of_nonneg (by omega), Int.tmod_eq_emod_of_nonneg (by omega),
      ← Int.natCast_ediv, ← Int.natCast_emod] at hdivides
    simpa only [UInt32.toNat_div, UInt32.toNat_mod] using hdivides

/-- What the result registers are given is what they should hold. -/
theorem leaves_apply (f : LongArithmetic) (a b : Word) :
    f.Leaves a b (f.apply a b).1 (f.apply a b).2 := by
  cases f with
  | multiplySigned => exact leaves_multiplySigned
  | multiply => exact leaves_multiply
  | divideSigned => exact leaves_divideSigned
  | divide => exact leaves_divide

end LongArithmetic

end MipsMonitor
