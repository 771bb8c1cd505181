import MipsMonitor.Instruction.Basic
import MipsMonitor.Text.Hex

/-!
# Instructions as text

An instruction is written as its mnemonic, filled up to eight characters, and its operands with a
comma between them. `Instruction.disassemble?` knows where the instruction stands and shows the
target of a jump; `Instruction.text?` shows the field itself. There is no text if an operand numbers
a register without a name.
-/

namespace MipsMonitor

open Text

/-- A number in the style of its operand. -/
def NumberStyle.format (style : NumberStyle) (w : Word) : String :=
  match style with
  | signed16 => toString w.toUInt16.toInt16.toInt
  | unsigned16 => hex w.toUInt16.toNat
  | unsigned32 => hex w.toNat

/-- The bank of the register that an operand numbers, if it numbers one. -/
def Mnemonic.operandBank? (m : Mnemonic) (op : Operand) : Option Bank :=
  match op, m with
  | .destination, .mfc0 | .destination, .mtc0 => some .cop0
  | .destination, .mfc2 | .destination, .mtc2 => some .cop2Data
  | .destination, .cfc2 | .destination, .ctc2 => some .cop2Control
  | .target, .lwc2 | .target, .swc2 => some .cop2Data
  | op, _ => if op.isRegister then some .general else none

namespace Instruction

/-- One operand as text. The base of a load or store is shown with the offset. -/
def operandText? (i : Instruction) (delaySlot : Option Word) (op : Operand) (style : NumberStyle) :
    Option String :=
  let number := i.getD op
  match i.mnemonic.operandBank? op with
  | some bank => bank.name? number.toNat
  | none =>
    if op = .offset && (i.mnemonic.isLoad || i.mnemonic.isStore) then
      (Bank.name? .general (i.getD .base).toNat).map fun base =>
        style.format number ++ "(" ++ base ++ ")"
    else
      match op, delaySlot with
      | .jumpIndex, some slot => some (hexWord (jumpTarget slot number))
      | _, _ => some (style.format number)

/-- The text of an instruction, given the address of its delay slot if that is known. -/
def format? (i : Instruction) (delaySlot : Option Word) : Option String :=
  let operands := i.mnemonic.encoding.operands
  if i.raw == 0 then some "nop"
  else if operands.isEmpty then some i.mnemonic.name
  else
    let shown := operands.filter fun (op, _) => op ≠ .base
    (shown.mapM fun (op, style) => i.operandText? delaySlot op style).map fun texts =>
      column 8 i.mnemonic.name ++ ", ".intercalate texts

/-- The text of an instruction wherever it stands. -/
def text? (i : Instruction) : Option String := i.format? none

/-- The text of an instruction at an address. -/
def disassemble? (i : Instruction) (pc : Word) : Option String := i.format? (some (pc + size))

end Instruction

end MipsMonitor
