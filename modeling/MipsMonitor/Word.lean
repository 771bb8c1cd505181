/-!
# Machine words

A word is 32 bits wide: an address, the contents of a register or an encoded instruction. This
module holds the views of a word that the rest of the library shares: its value as a signed number,
a run of its bits, its low half extended by sign, and its four bytes, lowest first.
`signed_eq` reads the signed value off the highest bit, `toNat_bits` reads a run of bits as the
value of the word, moved down and cut off, and `ofBytes_toBytes` says that the bytes of a word
determine it.
-/

namespace MipsMonitor

/-- A 32-bit word. Sums and differences wrap around. -/
abbrev Word := UInt32

namespace Word

/-- The value of a word in two's complement. -/
def signed (w : Word) : Int := w.toInt32.toInt

/-- The low 16 bits of a word, extended by their sign to a whole word. -/
def signExtendHalf (w : Word) : Word := w.toUInt16.toInt16.toInt32.toUInt32

/-- The low 8 bits of a word, extended by their sign to a whole word. -/
def signExtendByte (w : Word) : Word := w.toUInt8.toInt8.toInt32.toUInt32

/-- A word with its `width` low bits set. -/
def lowMask (width : Nat) : Word := if width < 32 then (1 <<< width.toUInt32) - 1 else 0xFFFFFFFF

/-- The `width` bits of a word that start at bit `low`, as a number. -/
def bits (w : Word) (low width : Nat) : Word := (w >>> low.toUInt32) &&& lowMask width

/-- Whether an address is a multiple of `alignment`. -/
def isAligned (address alignment : Word) : Bool := address % alignment == 0

/-- The address of the word that contains an address. -/
def alignDown (address : Word) : Word := address &&& 0xFFFFFFFC

/-- The low half of a word as two bytes, lowest first. -/
def halfToBytes (w : Word) : List UInt8 := [w.toUInt8, (w >>> 8).toUInt8]

/-- The four bytes of a word, lowest first. -/
def toBytes (w : Word) : List UInt8 :=
  [w.toUInt8, (w >>> 8).toUInt8, (w >>> 16).toUInt8, (w >>> 24).toUInt8]

/-- The number that bytes spell, lowest first; what does not fit in a word is dropped. -/
def ofBytes : List UInt8 → Word
  | [] => 0
  | b :: rest => b.toUInt32 + 256 * ofBytes rest

/-- The signed value of a word, by its highest bit. -/
theorem signed_eq (w : Word) :
    signed w = if w.toNat < 2147483648 then (w.toNat : Int) else w.toNat - 4294967296 := by
  have hsplit : signed w =
      if 2 * w.toNat < 2 ^ 32 then (w.toNat : Int) else (w.toNat : Int) - 2 ^ 32 :=
    w.toBitVec.toInt_eq_toNat_cond
  rw [hsplit]
  omega

/-- The mask of the low bits, as a number. -/
theorem toNat_lowMask {width : Nat} (h : width ≤ 32) :
    (lowMask width).toNat = (1 <<< width) - 1 := by
  rw [Nat.one_shiftLeft]
  unfold lowMask
  split
  · next hlt =>
    have hw : width.toUInt32.toNat = width :=
      UInt32.toNat_ofNat_of_lt' (Nat.lt_trans hlt (by decide))
    have hpow : 2 ^ width < 2 ^ 32 := Nat.pow_lt_pow_right (by omega) hlt
    have hone : (1 <<< width.toUInt32 : UInt32).toNat = 2 ^ width := by
      rw [UInt32.toNat_shiftLeft, hw, Nat.mod_eq_of_lt hlt]
      simp only [UInt32.toNat_one, Nat.one_shiftLeft]
      exact Nat.mod_eq_of_lt hpow
    have hpos : 0 < 2 ^ width := Nat.two_pow_pos _
    rw [UInt32.toNat_sub_of_le _ _ (by rw [UInt32.le_iff_toNat_le, hone]; exact hpos), hone]
    rfl
  · next hge =>
    have : width = 32 := by omega
    subst this
    rfl

/-- A run of bits is what is left of the word after dropping the bits below and above it. -/
theorem toNat_bits (w : Word) {low width : Nat} (hlow : low < 32) (hwidth : width ≤ 32) :
    (bits w low width).toNat = (w.toNat >>> low) % (1 <<< width) := by
  have hl : low.toUInt32.toNat = low := UInt32.toNat_ofNat_of_lt' (Nat.lt_trans hlow (by decide))
  simp only [bits, UInt32.toNat_and, UInt32.toNat_shiftRight, hl, toNat_lowMask hwidth,
    Nat.mod_eq_of_lt hlow, Nat.one_shiftLeft, Nat.and_two_pow_sub_one_eq_mod]

/-- A word is spelled by its bytes. -/
theorem ofBytes_toBytes (w : Word) : ofBytes w.toBytes = w := by
  apply UInt32.toNat_inj.mp
  have hw := w.toNat_lt
  simp only [toBytes, ofBytes, UInt32.toNat_add, UInt32.toNat_mul, UInt8.toNat_toUInt32,
    UInt32.toNat_toUInt8, UInt32.toNat_shiftRight, UInt32.toNat_ofNat,
    Nat.shiftRight_eq_div_pow]
  simp only [Nat.reduceMod, Nat.reducePow] at *
  omega

end Word

end MipsMonitor
