import MipsMonitor.Instruction.Mnemonic
import MipsMonitor.Instruction.Pattern

/-!
# Encodings

For each mnemonic the shape of its words and the operands that are shown behind it
(`Mnemonic.encoding`). Encodings fall into few shapes: arithmetic on registers, arithmetic with a
constant, loads and stores, branches, jumps, and moves between the banks of registers.
-/

namespace MipsMonitor

/-- How the number in an operand is shown. -/
inductive NumberStyle where
  /-- The low half in decimal, with a sign. -/
  | signed16
  /-- The low half in hexadecimal. -/
  | unsigned16
  /-- The whole number in hexadecimal. -/
  | unsigned32
deriving DecidableEq, Repr

/-- The encoding of one instruction. -/
structure Encoding where
  /-- The shape of its words. -/
  pattern : Pattern
  /-- The operands in the order in which they are shown. -/
  operands : List (Operand × NumberStyle)
deriving DecidableEq, Repr

namespace Encoding

/-- A segment of fixed bits. -/
def fixed (len : Nat) (value : Word) : Nat × Content := (len, .fixed value)

/-- A segment that holds an operand. -/
def field (len : Nat) (op : Operand) : Nat × Content := (len, .operand op)

/-- A segment that holds the number of a register. -/
def register (op : Operand) : Nat × Content := field 5 op

/-- An encoding whose operands are all shown in full. -/
def plain (segments : List (Nat × Content)) (shown : List Operand) : Encoding :=
  ⟨.ofSegments segments, shown.map (·, .unsigned32)⟩

/-- Two source registers and a destination. -/
def threeRegisters (function : Word) (shown : List Operand) : Encoding :=
  plain [fixed 6 0, register .source, register .target, register .destination, fixed 11 function]
    shown

/-- Arithmetic on two registers. -/
def arithmetic (function : Word) : Encoding :=
  threeRegisters function [.destination, .source, .target]

/-- A shift by the amount in a register. -/
def shiftByRegister (function : Word) : Encoding :=
  threeRegisters function [.destination, .target, .source]

/-- A shift by a constant amount. -/
def shiftByConstant (function : Word) : Encoding :=
  plain [fixed 11 0, register .target, register .destination, field 5 .shift, fixed 6 function]
    [.destination, .target, .shift]

/-- Multiplication and division, whose results have registers of their own. -/
def longArithmetic (function : Word) : Encoding :=
  plain [fixed 6 0, register .source, register .target, fixed 16 function] [.source, .target]

/-- Arithmetic with a constant. -/
def constant (opcode : Word) (style : NumberStyle) : Encoding :=
  ⟨.ofSegments [fixed 6 opcode, register .source, register .target, field 16 .immediate],
    [(.target, .unsigned32), (.source, .unsigned32), (.immediate, style)]⟩

/-- A branch on two registers. -/
def compareBranch (opcode : Word) : Encoding :=
  ⟨.ofSegments [fixed 6 opcode, register .source, register .target, field 16 .offset],
    [(.source, .unsigned32), (.target, .unsigned32), (.offset, .signed16)]⟩

/-- A branch on the sign of one register. -/
def signBranch (opcode condition : Word) : Encoding :=
  ⟨.ofSegments [fixed 6 opcode, register .source, fixed 5 condition, field 16 .offset],
    [(.source, .unsigned32), (.offset, .signed16)]⟩

/-- A load or a store. -/
def access (opcode : Word) : Encoding :=
  ⟨.ofSegments [fixed 6 opcode, register .base, register .target, field 16 .offset],
    [(.target, .unsigned32), (.offset, .signed16), (.base, .unsigned32)]⟩

/-- A jump within the segment. -/
def jump (opcode : Word) : Encoding :=
  plain [fixed 6 opcode, field 26 .jumpIndex] [.jumpIndex]

/-- A trap with free bits, which are not shown. -/
def trap (function : Word) : Encoding :=
  plain [fixed 6 0, field 20 .code, fixed 6 function] []

/-- An instruction with one source register. -/
def fromRegister (function : Word) : Encoding :=
  plain [fixed 6 0, register .source, fixed 21 function] [.source]

/-- An instruction with a destination alone. -/
def toRegister (function : Word) : Encoding :=
  plain [fixed 16 0, register .destination, fixed 11 function] [.destination]

/-- A move between a general register and a coprocessor. -/
def coprocessorMove (opcode : Word) : Encoding :=
  plain [fixed 11 opcode, register .target, register .destination, fixed 11 0]
    [.target, .destination]

end Encoding

open Encoding in
/-- The encoding of an instruction. -/
def Mnemonic.encoding : Mnemonic → Encoding
  | .add => arithmetic 0x20
  | .addi => constant 0x08 .signed16
  | .addiu => constant 0x09 .signed16
  | .addu => arithmetic 0x21
  | .and => arithmetic 0x24
  | .andi => constant 0x0C .unsigned16
  | .beq => compareBranch 0x04
  | .bgez => signBranch 0x01 0x01
  | .bgezal => signBranch 0x01 0x11
  | .bgtz => signBranch 0x07 0x00
  | .blez => signBranch 0x06 0x00
  | .bltz => signBranch 0x01 0x00
  | .bltzal => signBranch 0x01 0x10
  | .bne => compareBranch 0x05
  | .breakpoint => trap 0x0D
  | .cfc2 => coprocessorMove 0x242
  | .cop2 => plain [fixed 7 0x25, field 25 .command] [.command]
  | .ctc2 => coprocessorMove 0x246
  | .div => longArithmetic 0x1A
  | .divu => longArithmetic 0x1B
  | .j => jump 0x02
  | .jal => jump 0x03
  | .jalr =>
    plain [fixed 6 0, register .source, fixed 5 0, register .destination, fixed 11 0x09]
      [.destination, .source]
  | .jr => fromRegister 0x08
  | .lb => access 0x20
  | .lbu => access 0x24
  | .lh => access 0x21
  | .lhu => access 0x25
  | .lui =>
    ⟨.ofSegments [fixed 11 0x1E0, register .target, field 16 .immediate],
      [(.target, .unsigned32), (.immediate, .unsigned16)]⟩
  | .lw => access 0x23
  | .lwc2 => access 0x32
  | .lwl => access 0x22
  | .lwr => access 0x26
  | .mfc0 => coprocessorMove 0x200
  | .mfc2 => coprocessorMove 0x240
  | .mfhi => toRegister 0x10
  | .mflo => toRegister 0x12
  | .mtc0 => coprocessorMove 0x204
  | .mtc2 => coprocessorMove 0x244
  | .mthi => fromRegister 0x11
  | .mtlo => fromRegister 0x13
  | .mult => longArithmetic 0x18
  | .multu => longArithmetic 0x19
  | .nor => arithmetic 0x27
  | .or => arithmetic 0x25
  | .ori => constant 0x0D .unsigned16
  | .rfe => plain [fixed 32 0x42000010] []
  | .sb => access 0x28
  | .sh => access 0x29
  | .sll => shiftByConstant 0x00
  | .sllv => shiftByRegister 0x04
  | .slt => arithmetic 0x2A
  | .slti => constant 0x0A .signed16
  | .sltiu => constant 0x0B .signed16
  | .sltu => arithmetic 0x2B
  | .sra => shiftByConstant 0x03
  | .srav => shiftByRegister 0x07
  | .srl => shiftByConstant 0x02
  | .srlv => shiftByRegister 0x06
  | .sub => arithmetic 0x22
  | .subu => arithmetic 0x23
  | .sw => access 0x2B
  | .swc2 => access 0x3A
  | .swl => access 0x2A
  | .swr => access 0x2E
  | .syscall => trap 0x0C
  | .xor => arithmetic 0x26
  | .xori => constant 0x0E .unsigned16

end MipsMonitor
