import MipsMonitor.Instruction.Encoding
import MipsMonitor.Register.Bank

/-!
# Instructions

An instruction is a word together with the mnemonic whose encoding it matches
(`Instruction.decode?`). Its operands are the fields that the encoding has, and nothing else.
-/

namespace MipsMonitor

/-- A decoded instruction word. -/
structure Instruction where
  /-- What the word encodes. -/
  mnemonic : Mnemonic
  /-- The word. -/
  raw : Word
deriving DecidableEq, Repr

/-- The encoding of an instruction has no such operand. -/
structure MissingOperand where
  /-- The operand that was asked for. -/
  operand : Operand
  /-- The instruction that was asked. -/
  mnemonic : Mnemonic
deriving DecidableEq, Repr

/-- The wording of the error. -/
def MissingOperand.message (e : MissingOperand) : String :=
  "failed to get " ++ e.operand.description ++ " for instruction \"" ++ e.mnemonic.name ++ "\""

namespace Instruction

/-- The bytes of one instruction. -/
def size : Word := 4

/-- Where control returns to from a call at an address: behind its delay slot. -/
def returnAddress (pc : Word) : Word := pc + 2 * size

/-- The instruction that a word encodes, if it encodes one. -/
def decode? (w : Word) : Option Instruction :=
  (Mnemonic.all.find? fun m => m.encoding.pattern.accepts w).map (⟨·, w⟩)

/-- The value of an operand, if the encoding has it. -/
def get? (i : Instruction) (op : Operand) : Option Word := i.mnemonic.encoding.pattern.get? op i.raw

/-- The value of an operand. -/
def get (i : Instruction) (op : Operand) : Except MissingOperand Word :=
  match i.get? op with
  | some w => .ok w
  | none => .error ⟨op, i.mnemonic⟩

/-- The value of an operand, or zero if the encoding does not have it. -/
def getD (i : Instruction) (op : Operand) : Word := (i.get? op).getD 0

/-- The general register that an operand numbers. -/
def gpr (i : Instruction) (op : Operand) : Gpr := Fin.ofNat 32 (i.getD op).toNat

/-- Whether control may go elsewhere than to the next instruction. -/
def endsBlock (i : Instruction) : Bool := i.mnemonic.endsBlock

/-- Whether the next instruction is executed before control is transferred. -/
def hasDelaySlot (i : Instruction) : Bool := i.mnemonic.hasDelaySlot

/-- Whether a routine is entered. -/
def isCall (i : Instruction) : Bool := i.mnemonic.isCall

/-- Whether a routine is left: a jump to the return address. -/
def isReturn (i : Instruction) : Bool := i.mnemonic == .jr && i.get? .source == some 31

/-- The target of a jump: its index counts words, and its segment is that of the delay slot. -/
def jumpTarget (delaySlot index : Word) : Word :=
  (delaySlot &&& (0xF0000000 : Word)) ||| (index <<< 2)

/-- Where control goes if that does not depend on a register. A branch is relative to its delay
slot; a jump stays within the segment of its delay slot. -/
def staticTarget? (i : Instruction) (pc : Word) : Option Word :=
  let delaySlot := pc + size
  if i.mnemonic.isBranch then
    (i.get? .offset).map fun offset => delaySlot + (Word.signExtendHalf offset <<< 2)
  else if i.mnemonic == .j || i.mnemonic == .jal then
    (i.get? .jumpIndex).map (jumpTarget delaySlot)
  else none

end Instruction

end MipsMonitor
