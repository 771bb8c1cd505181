/-!
# Reading integers

An integer is written in some base as an optional sign and one or more digits. The reader works
from the left and keeps the value so far within a closed range; it stops at the first character
that is no digit or at the first digit that leaves the range, whichever comes first.
-/

namespace MipsMonitor.Text

/-- Why a text is not an integer of the wanted range. -/
inductive NumeralError where
  /-- There is no character at all. -/
  | empty
  /-- A character is no digit of the base, or there is a sign and nothing else. -/
  | invalidDigit
  /-- The value lies above the range. -/
  | tooLarge
  /-- The value lies below the range. -/
  | tooSmall
deriving DecidableEq, Repr

/-- The wording of an error. -/
def NumeralError.message : NumeralError → String
  | .empty => "cannot parse integer from empty string"
  | .invalidDigit => "invalid digit found in string"
  | .tooLarge => "number too large to fit in target type"
  | .tooSmall => "number too small to fit in target type"

/-- A closed range of integers. -/
structure IntRange where
  /-- The least member. -/
  low : Int
  /-- The greatest member. -/
  high : Int

namespace IntRange

/-- The integers of 64 bits in two's complement. -/
def signed64 : IntRange := ⟨-9223372036854775808, 9223372036854775807⟩

/-- The natural numbers of 64 bits. -/
def unsigned64 : IntRange := ⟨0, 18446744073709551615⟩

/-- Whether a range has the integer. -/
def contains (range : IntRange) (n : Int) : Bool := range.low ≤ n && n ≤ range.high

end IntRange

/-- The value of a digit, if the character is a digit of the base. Letters of either case follow
the nine. -/
def digit? (radix : Nat) (c : Char) : Option Nat :=
  let value :=
    if '0' ≤ c ∧ c ≤ '9' then some (c.toNat - '0'.toNat)
    else if 'a' ≤ c ∧ c ≤ 'z' then some (c.toNat - 'a'.toNat + 10)
    else if 'A' ≤ c ∧ c ≤ 'Z' then some (c.toNat - 'A'.toNat + 10)
    else none
  value.filter (· < radix)

/-- Reads digits behind those that made up `value`. With `negative` each digit is taken away
instead of added, so that the least member of the range can be read. -/
def readDigits (radix : Nat) (range : IntRange) (negative : Bool) :
    Int → List Char → Except NumeralError Int
  | value, [] => .ok value
  | value, c :: cs =>
    match digit? radix c with
    | none => .error .invalidDigit
    -- The character is checked before the range, so a wrong one is found if it is reached.
    | some d =>
      let next : Int := if negative then value * radix - d else value * radix + d
      if next < range.low then .error .tooSmall
      else if range.high < next then .error .tooLarge
      else readDigits radix range negative next cs

/-- Reads an integer. A minus sign is taken only where the range has negative members. -/
def readInt (radix : Nat) (range : IntRange) : List Char → Except NumeralError Int
  | [] => .error .empty
  | ['+'] => .error .invalidDigit
  | ['-'] => .error .invalidDigit
  | '+' :: cs => readDigits radix range false 0 cs
  | '-' :: cs => if range.low < 0 then readDigits radix range true 0 cs else .error .invalidDigit
  | cs => readDigits radix range false 0 cs

end MipsMonitor.Text
