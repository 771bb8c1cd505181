/-!
# Operands

The fields of an instruction word that vary from one instruction to the next, each with the letter
that stands for its bits in a bit pattern.
-/

namespace MipsMonitor

/-- A field of an instruction word. -/
inductive Operand where
  /-- The first source register. -/
  | source
  /-- The second source register, or the register that is loaded or stored. -/
  | target
  /-- The register that takes the result. -/
  | destination
  /-- The amount of a shift. -/
  | shift
  /-- A constant of 16 bits. -/
  | immediate
  /-- The distance of a branch, or of a load or store from its base. -/
  | offset
  /-- The register that holds the base address of a load or store. -/
  | base
  /-- The word address of a jump within its segment. -/
  | jumpIndex
  /-- The free bits of a system call or breakpoint. -/
  | code
  /-- The command of a geometry coprocessor operation. -/
  | command
deriving DecidableEq, Repr

namespace Operand

/-- All operands. -/
def all : List Operand :=
  [source, target, destination, shift, immediate, offset, base, jumpIndex, code, command]

/-- The letter of an operand in a bit pattern. -/
def letter : Operand → Char
  | source => 's'
  | target => 't'
  | destination => 'd'
  | shift => 'h'
  | immediate => 'k'
  | offset => 'f'
  | base => 'b'
  | jumpIndex => 'j'
  | code => 'c'
  | command => 'g'

/-- The operand of a letter, if it stands for one. -/
def ofLetter? (c : Char) : Option Operand := all.find? (·.letter == c)

/-- Whether an operand is the number of a general register. -/
def isRegister : Operand → Bool
  | source | destination | target | base => true
  | _ => false

/-- What an operand is called in an error. -/
def description : Operand → String
  | source => "source register"
  | target => "target register"
  | destination => "destination register"
  | shift => "shift amount"
  | immediate => "immediate"
  | offset => "offset"
  | base => "base"
  | jumpIndex => "jump index"
  | code => "code"
  | command => "command"

/-- A letter leads back to its operand. -/
theorem ofLetter?_letter (op : Operand) : ofLetter? op.letter = some op := by
  cases op <;> decide

end Operand

end MipsMonitor
