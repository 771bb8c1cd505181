import MipsMonitor.Machine.Effect
import MipsMonitor.Proofs.Guarded.Basic

/-!
# Guarded functions of words

The functions of two words that instructions compute with a step that may have no result: products
of 64 bits, divisions, and the merging of a loaded or stored word with another one by shifts. The
divisions that have no result are told apart first (`Guarded.long_eq`), and a word is moved by whole
bytes, three at most (`Guarded.fillHigh_eq`, `Guarded.fillLow_eq`).
-/

namespace MipsMonitor

namespace Guarded

/-- The contents of the two result registers. -/
def long (f : LongArithmetic) (a b : Word) : Guarded (Word × Word) :=
  match f with
  | .multiplySigned => do
    let product ← within (-9223372036854775808) 9223372036854775807 (Word.signed a * Word.signed b)
    pure (← highHalf product 32, UInt32.ofInt product)
  | .multiply => do
    let product ← within 0 18446744073709551615 (a.toNat * b.toNat)
    pure (← highHalf product 32, UInt32.ofInt product)
  | .divideSigned =>
    let n := Word.signed a
    let d := Word.signed b
    if d = 0 then pure (a, if 0 ≤ n then 0xFFFFFFFF else 1)
    else if n = -2147483648 ∧ d = -1 then pure (0, 0x80000000)
    else do pure (UInt32.ofInt (← signedRemainder n d), UInt32.ofInt (← signedQuotient n d))
  | .divide => if b = 0 then pure (a, 0xFFFFFFFF) else do pure (← remainder a b, ← quotient a b)

/-- The low bytes of `new`, moved up by `count` bytes, over those of `old`, whose low bytes stay. -/
def fillHigh (count : Nat) (old new : Word) : Guarded Word :=
  match count with
  | 0 => pure new
  | 1 => do pure ((old &&& 0x000000FF) ||| (← shiftLeft new 8))
  | 2 => do pure ((old &&& 0x0000FFFF) ||| (← shiftLeft new 16))
  | _ => do pure ((old &&& 0x00FFFFFF) ||| (← shiftLeft new 24))

/-- The high bytes of `new`, moved down by `count` bytes, over those of `old`, whose high bytes
stay. -/
def fillLow (count : Nat) (old new : Word) : Guarded Word :=
  match count with
  | 0 => pure new
  | 1 => do pure ((old &&& 0xFF000000) ||| (← shiftRight new 8))
  | 2 => do pure ((old &&& 0xFFFF0000) ||| (← shiftRight new 16))
  | _ => do pure ((old &&& 0xFFFFFF00) ||| (← shiftRight new 24))

/-- The place of the byte that an address designates in its word. -/
def place (a : Word) : Nat := (a &&& (3 : Word)).toNat

/-! ## Functions never break off -/

/-- The upper half of a product of two words is taken without an overflow. -/
theorem highHalf_eq (n : Int) : highHalf n 32 = .ok (UInt32.ofInt (n / 4294967296)) := by
  unfold highHalf
  rw [if_pos (by decide), Int.shiftRight_eq_div_pow]
  rfl

/-- The value of a signed word is in the range of signed words. -/
theorem signed_bounds (w : Word) : -2147483648 ≤ Word.signed w ∧ Word.signed w ≤ 2147483647 :=
  ⟨w.toInt32.le_toInt, w.toInt32.toInt_le⟩

/-- A word is zero as a signed number only if it is zero. -/
theorem signed_eq_zero {w : Word} : Word.signed w = 0 ↔ w = 0 := by
  constructor
  · intro h
    have hzero : w.toInt32 = (0 : Word).toInt32 := Int32.toInt_inj.mp h
    exact congrArg Int32.toUInt32 hzero
  · rintro rfl
    rfl

/-- Products fit 64 bits, and what has no quotient is not divided. -/
theorem long_eq (f : LongArithmetic) (a b : Word) : long f a b = .ok (f.apply a b) := by
  obtain ⟨ha, ha'⟩ := signed_bounds a
  obtain ⟨hb, hb'⟩ := signed_bounds b
  cases f with
  | multiplySigned =>
    -- No product is larger in magnitude than the square of the least word, which the guard admits.
    have hproduct : (Word.signed a * Word.signed b).natAbs ≤ 2147483648 * 2147483648 := by
      rw [Int.natAbs_mul]
      exact Nat.mul_le_mul (by omega) (by omega)
    unfold long
    simp only
    rw [within_of_le (by omega) (by omega), ok_bind, highHalf_eq]
    rfl
  | multiply =>
    have hproduct : a.toNat * b.toNat ≤ 4294967295 * 4294967295 :=
      Nat.mul_le_mul (Nat.le_of_lt_succ a.toNat_lt) (Nat.le_of_lt_succ b.toNat_lt)
    unfold long
    simp only
    rw [within_of_le (by omega) (by omega), ok_bind, highHalf_eq]
    rfl
  | divideSigned =>
    unfold long LongArithmetic.apply
    simp only [signed_eq_zero]
    split
    · simp only [pure_eq]
      congr 2
      -- Division by zero: the quotient depends on the sign of the dividend alone.
      split <;> split <;> first | rfl | omega
    · next hzero =>
      split
      · next hleast =>
        obtain ⟨hn, hd⟩ := hleast
        rw [hn, hd]
        rfl
      · next hleast =>
        have hne : Word.signed b ≠ 0 := mt signed_eq_zero.mp hzero
        rw [signedRemainder_of_ne ha ha' hne hleast, ok_bind,
          signedQuotient_of_ne ha ha' hne hleast, ok_bind, pure_eq]
  | divide =>
    unfold long LongArithmetic.apply
    simp only
    split
    · rfl
    · next hzero =>
      rw [remainder_of_ne hzero, ok_bind, quotient_of_ne hzero, ok_bind, pure_eq]

/-- The place of a byte is one of the four of a word. -/
theorem place_lt (a : Word) : place a < 4 := by
  have hle : place a ≤ 3 := Nat.and_le_right
  omega

/-- The bits below the place of a byte. -/
theorem bitsBelow_eq (a : Word) : Word.bitsBelow a = 8 * UInt32.ofNat (place a) := by
  rw [place, UInt32.ofNat_toNat]
  rfl

/-- The bits above the place of a byte. -/
theorem bitsAbove_eq (a : Word) : Word.bitsAbove a = 8 * UInt32.ofNat (3 - place a) := by
  have hlt := place_lt a
  unfold Word.bitsAbove
  rw [bitsBelow_eq]
  generalize place a = n at hlt
  match n, hlt with
  | 0, _ | 1, _ | 2, _ | 3, _ => rfl

/-- Filling the upper bytes shifts by less than the width. -/
theorem fillHigh_eq {count : Nat} (h : count < 4) (old new : Word) :
    fillHigh count old new = .ok (Word.fillHigh (8 * UInt32.ofNat count) old new) := by
  unfold fillHigh Word.fillHigh
  match count, h with
  | 0, _ =>
    have hamount : 8 * UInt32.ofNat 0 = 0 := rfl
    have hmask : ~~~((0xFFFFFFFF : Word) <<< 0) = 0 := rfl
    rw [hamount, hmask, UInt32.and_zero, UInt32.zero_or, UInt32.shiftLeft_zero]
    rfl
  | 1, _ => rfl
  | 2, _ => rfl
  | 3, _ => rfl

/-- Filling the lower bytes shifts by less than the width. -/
theorem fillLow_eq {count : Nat} (h : count < 4) (old new : Word) :
    fillLow count old new = .ok (Word.fillLow (8 * UInt32.ofNat count) old new) := by
  unfold fillLow Word.fillLow
  match count, h with
  | 0, _ =>
    have hamount : 8 * UInt32.ofNat 0 = 0 := rfl
    have hmask : ~~~((0xFFFFFFFF : Word) >>> 0) = 0 := rfl
    rw [hamount, hmask, UInt32.and_zero, UInt32.zero_or, UInt32.shiftRight_zero]
    rfl
  | 1, _ => rfl
  | 2, _ => rfl
  | 3, _ => rfl

end Guarded

end MipsMonitor
