import MipsMonitor.Text.Extender
import MipsMonitor.Text.Hex
import MipsMonitor.Text.Ignorable
import MipsMonitor.Text.Unprintable

/-!
# Quoted text

Text from outside is shown between double quotes, so that a message stays on one line and every
character of it can be told. A quote, a backslash and the common controls have an escape of two
characters; whatever else has no picture of its own is shown as its code point in braces.
-/

namespace MipsMonitor.Text

/-- Whether a code point lies in one of the given closed ranges. -/
def inRanges (ranges : Array (Nat × Nat)) (code : Nat) : Bool :=
  ranges.any fun (low, high) => low ≤ code && code ≤ high

/-- Whether a character is shown as it is: it has a picture, is not ignored in display, and extends
no other character. -/
def isPlain (c : Char) : Bool :=
  !inRanges extenderRanges c.toNat && !inRanges unprintableRanges c.toNat &&
    !inRanges ignorableRanges c.toNat

/-- The short escape of a character, if it has one. -/
def shortEscape? (c : Char) : Option String :=
  match c.toNat with
  | 0x00 => some "\\0"
  | 0x09 => some "\\t"
  | 0x0A => some "\\n"
  | 0x0D => some "\\r"
  | 0x22 => some "\\\""
  | 0x5C => some "\\\\"
  | _ => none

/-- How a character is written between quotes. -/
def quotedChar (c : Char) : String :=
  match shortEscape? c with
  | some escape => escape
  | none =>
    if isPlain c then String.singleton c
    else "\\u\x7b" ++ String.ofList (hexDigits c.toNat) ++ "\x7d"

/-- A text between quotes. -/
def quoted (s : String) : String := "\"" ++ String.join (s.toList.map quotedChar) ++ "\""

end MipsMonitor.Text
