import MipsMonitor.Word

/-!
# Hexadecimal text

Numbers are written in base sixteen with lower-case digits behind the prefix `0x`: as they are
(`hex`), or filled with zeros on the left to a fixed number of digits, two for a byte
(`hexByte`) and eight for a word (`hexWord`).
-/

namespace MipsMonitor.Text

/-- The digits of a number in base sixteen, without a leading zero unless the number is zero. -/
def hexDigits (n : Nat) : List Char := Nat.toDigits 16 n

/-- A number in base sixteen, prefixed. -/
def hex (n : Nat) : String := "0x" ++ String.ofList (hexDigits n)

/-- A number in base sixteen, prefixed, with at least `width` digits. -/
def hexPadded (width n : Nat) : String :=
  "0x" ++ String.ofList ((hexDigits n).leftpad width '0')

/-- A byte as two digits. -/
def hexByte (b : UInt8) : String := hexPadded 2 b.toNat

/-- A word as eight digits. -/
def hexWord (w : Word) : String := hexPadded 8 w.toNat

/-- Text filled with blanks on the right to at least `width` characters. -/
def column (width : Nat) (s : String) : String :=
  String.ofList (s.toList.rightpad width ' ')

end MipsMonitor.Text
