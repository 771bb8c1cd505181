import MipsMonitor.Instruction.Pattern

/-!
# Bits of words

A word is known by its 32 bits (`Word.eq_of_bit`). What words are put together and taken apart with
moves bits or picks some of them out (`Word.bit_shiftLeft`, `Word.bit_bits`), so that statements
about runs of bits are proved one bit at a time.
-/

namespace MipsMonitor

namespace Word

/-- A bit of a word, counted from the lowest one. -/
def bit (w : Word) (k : Nat) : Bool := w.toNat.testBit k

/-- A number has no bits above those that it fits in. -/
theorem bit_eq_false {w : Word} {width k : Nat} (h : w.toNat < 1 <<< width) (hk : width ≤ k) :
    w.bit k = false := by
  rw [Nat.one_shiftLeft] at h
  exact Nat.testBit_lt_two_pow (Nat.lt_of_lt_of_le h (Nat.pow_le_pow_right (by decide) hk))

/-- A word is known by its bits. -/
theorem eq_of_bit {v w : Word} (h : ∀ k < 32, v.bit k = w.bit k) : v = w := by
  apply UInt32.toNat_inj.mp
  apply Nat.eq_of_testBit_eq
  intro k
  by_cases hk : k < 32
  · exact h k hk
  · have hv : v.bit k = false := bit_eq_false v.toNat_lt (Nat.le_of_not_lt hk)
    have hw : w.bit k = false := bit_eq_false w.toNat_lt (Nat.le_of_not_lt hk)
    exact hv.trans hw.symm

/-- No bit of zero is set. -/
@[simp]
theorem bit_zero (k : Nat) : bit 0 k = false := Nat.zero_testBit k

/-- A bit of a disjunction. -/
@[simp]
theorem bit_or (v w : Word) (k : Nat) : (v ||| w).bit k = (v.bit k || w.bit k) := by
  rw [bit, UInt32.toNat_or, Nat.testBit_or]
  rfl

/-- A bit of a conjunction. -/
@[simp]
theorem bit_and (v w : Word) (k : Nat) : (v &&& w).bit k = (v.bit k && w.bit k) := by
  rw [bit, UInt32.toNat_and, Nat.testBit_and]
  rfl

/-- A bit of an exclusive disjunction. -/
@[simp]
theorem bit_xor (v w : Word) (k : Nat) : (v ^^^ w).bit k = (v.bit k ^^ w.bit k) := by
  rw [bit, UInt32.toNat_xor, Nat.testBit_xor]
  rfl

/-- Moving a word up moves its bits. -/
theorem bit_shiftLeft (w : Word) {distance k : Nat} (hdistance : distance < 32) (hk : k < 32) :
    (w <<< distance.toUInt32).bit k = (decide (distance ≤ k) && w.bit (k - distance)) := by
  have hamount : distance.toUInt32.toNat = distance :=
    UInt32.toNat_ofNat_of_lt' (Nat.lt_trans hdistance (by decide))
  rw [bit, UInt32.toNat_shiftLeft, hamount, Nat.mod_eq_of_lt hdistance, Nat.testBit_mod_two_pow,
    Nat.testBit_shiftLeft, decide_eq_true hk, Bool.true_and]
  rfl

/-- A run of bits holds the bits of the word from its lowest one on. -/
theorem bit_bits (w : Word) {low width : Nat} (hlow : low < 32) (hwidth : width ≤ 32) (k : Nat) :
    (bits w low width).bit k = (decide (k < width) && w.bit (low + k)) := by
  rw [bit, toNat_bits w hlow hwidth, Nat.one_shiftLeft, Nat.testBit_mod_two_pow,
    Nat.testBit_shiftRight]
  rfl

/-- A run of bits is a number of as many bits. -/
theorem toNat_bits_lt (w : Word) {low width : Nat} (hlow : low < 32) (hwidth : width ≤ 32) :
    (bits w low width).toNat < 1 <<< width := by
  rw [toNat_bits w hlow hwidth, Nat.one_shiftLeft]
  exact Nat.mod_lt _ (Nat.two_pow_pos width)

/-- The bits of a mask. -/
theorem bit_lowMask {width : Nat} (hwidth : width ≤ 32) (k : Nat) :
    (lowMask width).bit k = decide (k < width) := by
  rw [bit, toNat_lowMask hwidth, Nat.one_shiftLeft, Nat.testBit_two_pow_sub_one]

end Word

end MipsMonitor
