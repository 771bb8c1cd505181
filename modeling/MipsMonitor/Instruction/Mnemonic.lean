/-!
# Mnemonics

The instructions of the processor by name: MIPS I without floating point and translation buffer,
with the moves, loads and stores of the geometry coprocessor. Predicates sort them by what they do
to the flow of control and to memory.
-/

namespace MipsMonitor

/-- The name of an instruction. -/
inductive Mnemonic where
  | add | addi | addiu | addu | and | andi
  | beq | bgez | bgezal | bgtz | blez | bltz | bltzal | bne
  | breakpoint
  | cfc2 | cop2 | ctc2
  | div | divu
  | j | jal | jalr | jr
  | lb | lbu | lh | lhu | lui | lw | lwc2 | lwl | lwr
  | mfc0 | mfc2 | mfhi | mflo | mtc0 | mtc2 | mthi | mtlo
  | mult | multu
  | nor | or | ori
  | rfe
  | sb | sh
  | sll | sllv | slt | slti | sltiu | sltu | sra | srav | srl | srlv | sub | subu
  | sw | swc2 | swl | swr
  | syscall
  | xor | xori
deriving DecidableEq, Repr

namespace Mnemonic

/-- All mnemonics, in alphabetical order. -/
def all : List Mnemonic :=
  [add, addi, addiu, addu, and, andi, beq, bgez, bgezal, bgtz, blez, bltz, bltzal, bne, breakpoint,
   cfc2, cop2, ctc2, div, divu, j, jal, jalr, jr, lb, lbu, lh, lhu, lui, lw, lwc2, lwl, lwr, mfc0,
   mfc2, mfhi, mflo, mtc0, mtc2, mthi, mtlo, mult, multu, nor, or, ori, rfe, sb, sh, sll, sllv,
   slt, slti, sltiu, sltu, sra, srav, srl, srlv, sub, subu, sw, swc2, swl, swr, syscall, xor, xori]

/-- How an instruction is written. -/
def name : Mnemonic → String
  | add => "add" | addi => "addi" | addiu => "addiu" | addu => "addu"
  | and => "and" | andi => "andi"
  | beq => "beq" | bgez => "bgez" | bgezal => "bgezal" | bgtz => "bgtz" | blez => "blez"
  | bltz => "bltz" | bltzal => "bltzal" | bne => "bne"
  | breakpoint => "break"
  | cfc2 => "cfc2" | cop2 => "cop2" | ctc2 => "ctc2"
  | div => "div" | divu => "divu"
  | j => "j" | jal => "jal" | jalr => "jalr" | jr => "jr"
  | lb => "lb" | lbu => "lbu" | lh => "lh" | lhu => "lhu" | lui => "lui" | lw => "lw"
  | lwc2 => "lwc2" | lwl => "lwl" | lwr => "lwr"
  | mfc0 => "mfc0" | mfc2 => "mfc2" | mfhi => "mfhi" | mflo => "mflo"
  | mtc0 => "mtc0" | mtc2 => "mtc2" | mthi => "mthi" | mtlo => "mtlo"
  | mult => "mult" | multu => "multu"
  | nor => "nor" | or => "or" | ori => "ori"
  | rfe => "rfe"
  | sb => "sb" | sh => "sh"
  | sll => "sll" | sllv => "sllv" | slt => "slt" | slti => "slti" | sltiu => "sltiu"
  | sltu => "sltu" | sra => "sra" | srav => "srav" | srl => "srl" | srlv => "srlv"
  | sub => "sub" | subu => "subu"
  | sw => "sw" | swc2 => "swc2" | swl => "swl" | swr => "swr"
  | syscall => "syscall"
  | xor => "xor" | xori => "xori"

/-- Conditional transfers of control. -/
def isBranch : Mnemonic → Bool
  | beq | bgez | bgezal | bgtz | blez | bltz | bltzal | bne => true
  | _ => false

/-- Unconditional transfers of control. -/
def isJump : Mnemonic → Bool
  | j | jal | jalr | jr => true
  | _ => false

/-- Whether the next instruction is executed before control is transferred. -/
def hasDelaySlot (m : Mnemonic) : Bool := m.isBranch || m.isJump

/-- Whether control may go elsewhere than to the next instruction. -/
def endsBlock (m : Mnemonic) : Bool := m.hasDelaySlot || m == syscall || m == breakpoint

/-- Jumps that leave a return address: the entry of a routine. -/
def isCall : Mnemonic → Bool
  | jal | jalr => true
  | _ => false

/-- Whether a return address is left in a register. -/
def links : Mnemonic → Bool
  | jal | jalr | bgezal | bltzal => true
  | _ => false

/-- Whether memory is read into a register. -/
def isLoad : Mnemonic → Bool
  | lb | lbu | lh | lhu | lw | lwl | lwr | lwc2 => true
  | _ => false

/-- Whether a register is written to memory. -/
def isStore : Mnemonic → Bool
  | sb | sh | sw | swl | swr | swc2 => true
  | _ => false

/-- No mnemonic is missing from the list. -/
theorem mem_all (m : Mnemonic) : m ∈ all := by cases m <;> decide

end Mnemonic

end MipsMonitor
