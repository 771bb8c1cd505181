import MipsMonitor.Text.Blank
import MipsMonitor.Text.Numeral
import MipsMonitor.Text.Quoted
import MipsMonitor.Word

/-!
# Values typed by a user

A value is a decimal number with an optional sign, or a binary or hexadecimal number behind the
prefix `0b` or `0x`. Blanks may stand anywhere. A negative value stands for its two's complement,
so the values accepted are those from `-2^31` to `2^32 - 1`.
-/

namespace MipsMonitor.Debug

open MipsMonitor.Text

/-- Why a text is not a value; each cause keeps the text as it was typed. -/
inductive ValueError where
  /-- The text is no number, or one beyond 64 bits. -/
  | invalid (input : String) (cause : NumeralError)
  /-- The number is neither a word nor the negative of one half of them. -/
  | outOfRange (input : String)
  /-- There is a sign between the prefix and the digits. -/
  | signAfterPrefix (input : String)
deriving DecidableEq, Repr

/-- The wording of an error. -/
def ValueError.message : ValueError → String
  | .invalid input cause => "invalid number " ++ quoted input ++ ": " ++ cause.message
  | .outOfRange input => quoted input ++ " does not fit in 32 bits"
  | .signAfterPrefix input => quoted input ++ " has a sign after its radix prefix"

namespace Value

/-- The base that a text selects by its prefix, and the text behind the prefix. -/
def splitRadix : List Char → Nat × List Char
  | '0' :: 'b' :: cs => (2, cs)
  | '0' :: 'x' :: cs => (16, cs)
  | cs => (10, cs)

/-- Whether a text starts with a sign. -/
def startsWithSign : List Char → Bool
  | '+' :: _ => true
  | '-' :: _ => true
  | _ => false

/-- The numbers that a word can stand for. -/
def range : IntRange := ⟨-2147483648, 4294967295⟩

/-- Reads a value. -/
def parse (input : String) : Except ValueError Word :=
  let (radix, digits) := splitRadix (withoutBlanks input.toList)
  if radix ≠ 10 ∧ startsWithSign digits then .error (.signAfterPrefix input)
  else
    match readInt radix .signed64 digits with
    | .error cause => .error (.invalid input cause)
    | .ok n => if range.contains n then .ok (UInt32.ofInt n) else .error (.outOfRange input)

end Value

end MipsMonitor.Debug
