import MipsMonitor.Exception
import MipsMonitor.Instruction.Basic

/-!
# Operations

What an instruction asks the processor to do, with its operands read out of the word and with every
address that depends on where the instruction stands worked out. `Instruction.operation` gives the
operation of an instruction at an address; a word that encodes nothing asks for an exception.
-/

namespace MipsMonitor

/-- A function of two words. -/
inductive Arithmetic where
  | add | sub | and | or | xor | nor
  /-- Whether the first is less than the second, as signed numbers. -/
  | lessSigned
  /-- Whether the first is less than the second. -/
  | less
  /-- The first, moved up by the low five bits of the second. -/
  | shiftLeft
  /-- The first, moved down by the low five bits of the second. -/
  | shiftRight
  /-- The first, moved down with its sign by the low five bits of the second. -/
  | shiftRightSigned
  /-- The second alone. -/
  | second
deriving DecidableEq, Repr

/-- A sum or difference of signed numbers that may leave their range. -/
inductive Trapping where
  | add | sub
deriving DecidableEq, Repr

/-- A function of two words with two results. -/
inductive LongArithmetic where
  | multiplySigned | multiply | divideSigned | divide
deriving DecidableEq, Repr

/-- A condition on two words. -/
inductive Condition where
  | equal | notEqual
  /-- The first is above zero. -/
  | positive
  /-- The first is not above zero. -/
  | notPositive
  /-- The first is not below zero. -/
  | notNegative
  /-- The first is below zero. -/
  | negative
deriving DecidableEq, Repr

/-- What is loaded, and how it fills a word. -/
inductive Load where
  | byteSigned | byte | halfSigned | half | word
  /-- The part of an unaligned word that ends at the address. -/
  | left
  /-- The part of an unaligned word that starts at the address. -/
  | right
deriving DecidableEq, Repr

/-- What is stored. -/
inductive Store where
  | byte | half | word
  /-- The part of an unaligned word that ends at the address. -/
  | left
  /-- The part of an unaligned word that starts at the address. -/
  | right
deriving DecidableEq, Repr

/-- The second operand of an arithmetic operation. -/
inductive Source where
  /-- What a register holds. -/
  | register (r : Gpr)
  /-- A constant. -/
  | constant (w : Word)
deriving DecidableEq, Repr

/-- The address of a load or store: a base register and a distance. -/
structure Location where
  /-- The register that holds the base. -/
  base : Gpr
  /-- The distance from it. -/
  offset : Word
deriving DecidableEq, Repr

/-- What an instruction asks for. -/
inductive Operation where
  /-- Puts a function of two words into a register. -/
  | arithmetic (f : Arithmetic) (dest lhs : Gpr) (rhs : Source)
  /-- Puts a sum or difference into a register, unless it overflows. -/
  | trapping (f : Trapping) (dest lhs : Gpr) (rhs : Source)
  /-- Puts a product, or a remainder and a quotient, into the two result registers. -/
  | long (f : LongArithmetic) (lhs rhs : Gpr)
  /-- Copies one watched register to another. -/
  | move (dest source : Tracked)
  /-- Loads into a general register. -/
  | load (what : Load) (dest : Gpr) (location : Location)
  /-- Stores a general register. -/
  | store (what : Store) (source : Gpr) (location : Location)
  /-- Loads a word into a data register of the geometry coprocessor. -/
  | loadGeometry (dest : Fin 32) (location : Location)
  /-- Stores a data register of the geometry coprocessor. -/
  | storeGeometry (source : Fin 32) (location : Location)
  /-- Transfers control if a condition holds. The return address, if there is one, is left whether
  or not it holds. -/
  | branch (condition : Condition) (lhs rhs : Gpr) (target : Word) (link? : Option Word)
  /-- Transfers control, and leaves the return address if there is one. -/
  | jump (target : Word) (link? : Option Word)
  /-- Transfers control to the address in a register. -/
  | jumpRegister (source : Gpr)
  /-- Transfers control to the address in a register and leaves the return address in another. -/
  | callRegister (source dest : Gpr) (link : Word)
  /-- Copies a register of a coprocessor, or zero if it has none of that number. -/
  | moveFrom (dest : Gpr) (bank : Bank) (index : Nat)
  /-- Writes a register of the system control coprocessor. -/
  | moveToSystem (index : Nat) (source : Gpr)
  /-- Writes a register of the geometry coprocessor. -/
  | moveToGeometry (dest : Register) (source : Gpr)
  /-- Takes back the mode bits of before the last exception. -/
  | returnFromException
  /-- Does nothing: the geometry coprocessor computes nothing here. -/
  | geometryCommand
  /-- Raises an exception. -/
  | raise (e : Exception)
deriving DecidableEq, Repr

namespace Instruction

/-- The constant of an instruction, extended by its sign. -/
def signedImmediate (i : Instruction) : Word := Word.signExtendHalf (i.getD .immediate)

/-- Where a load or store goes. -/
def location (i : Instruction) : Location := ⟨i.gpr .base, Word.signExtendHalf (i.getD .offset)⟩

/-- The operation of an instruction at an address. -/
def operation (i : Instruction) (pc : Word) : Operation :=
  let rs := i.gpr .source
  let rt := i.gpr .target
  let rd := i.gpr .destination
  let target := (i.staticTarget? pc).getD 0
  let link := returnAddress pc
  let registers f := Operation.arithmetic f rd rs (.register rt)
  let constant f w := Operation.arithmetic f rt rs (.constant w)
  let shift f source := Operation.arithmetic f rd rt source
  match i.mnemonic with
  | .add => .trapping .add rd rs (.register rt)
  | .addi => .trapping .add rt rs (.constant i.signedImmediate)
  | .sub => .trapping .sub rd rs (.register rt)
  | .addu => registers .add
  | .addiu => constant .add i.signedImmediate
  | .subu => registers .sub
  | .and => registers .and
  | .andi => constant .and (i.getD .immediate)
  | .or => registers .or
  | .ori => constant .or (i.getD .immediate)
  | .xor => registers .xor
  | .xori => constant .xor (i.getD .immediate)
  | .nor => registers .nor
  | .slt => registers .lessSigned
  | .slti => constant .lessSigned i.signedImmediate
  | .sltu => registers .less
  | .sltiu => constant .less i.signedImmediate
  | .lui => .arithmetic .second rt .zero (.constant (i.getD .immediate <<< 16))
  | .sll => shift .shiftLeft (.constant (i.getD .shift))
  | .srl => shift .shiftRight (.constant (i.getD .shift))
  | .sra => shift .shiftRightSigned (.constant (i.getD .shift))
  | .sllv => shift .shiftLeft (.register rs)
  | .srlv => shift .shiftRight (.register rs)
  | .srav => shift .shiftRightSigned (.register rs)
  | .mult => .long .multiplySigned rs rt
  | .multu => .long .multiply rs rt
  | .div => .long .divideSigned rs rt
  | .divu => .long .divide rs rt
  | .mfhi => .move (.ofGpr rd) .hi
  | .mflo => .move (.ofGpr rd) .lo
  | .mthi => .move .hi (.ofGpr rs)
  | .mtlo => .move .lo (.ofGpr rs)
  | .lb => .load .byteSigned rt i.location
  | .lbu => .load .byte rt i.location
  | .lh => .load .halfSigned rt i.location
  | .lhu => .load .half rt i.location
  | .lw => .load .word rt i.location
  | .lwl => .load .left rt i.location
  | .lwr => .load .right rt i.location
  | .lwc2 => .loadGeometry rt i.location
  | .sb => .store .byte rt i.location
  | .sh => .store .half rt i.location
  | .sw => .store .word rt i.location
  | .swl => .store .left rt i.location
  | .swr => .store .right rt i.location
  | .swc2 => .storeGeometry rt i.location
  | .beq => .branch .equal rs rt target none
  | .bne => .branch .notEqual rs rt target none
  | .bgtz => .branch .positive rs .zero target none
  | .blez => .branch .notPositive rs .zero target none
  | .bgez => .branch .notNegative rs .zero target none
  | .bltz => .branch .negative rs .zero target none
  | .bgezal => .branch .notNegative rs .zero target (some link)
  | .bltzal => .branch .negative rs .zero target (some link)
  | .j => .jump target none
  | .jal => .jump target (some link)
  | .jr => .jumpRegister rs
  | .jalr => .callRegister rs rd link
  | .syscall => .raise .syscall
  | .breakpoint => .raise .breakpoint
  | .mfc0 => .moveFrom rt .cop0 rd
  | .mtc0 => .moveToSystem rd rt
  | .rfe => .returnFromException
  | .mfc2 => .moveFrom rt .cop2Data rd
  | .cfc2 => .moveFrom rt .cop2Control rd
  | .mtc2 => .moveToGeometry ⟨.cop2Data, rd⟩ rt
  | .ctc2 => .moveToGeometry ⟨.cop2Control, rd⟩ rt
  | .cop2 => .geometryCommand

end Instruction

/-- The operation of a word at an address, given what it encodes. -/
def Operation.ofInstruction? (i? : Option Instruction) (pc : Word) : Operation :=
  match i? with
  | some i => i.operation pc
  | none => .raise .reservedInstruction

end MipsMonitor
