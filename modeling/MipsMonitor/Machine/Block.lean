import MipsMonitor.Machine.Step

/-!
# Blocks

Programs are translated a block at a time. A block holds the instructions from the address where it
is entered up to the delay slot of the first one that transfers control; it also ends behind a word
that must trap, before a word that cannot be fetched, and at a fixed length (`instructionsFrom`). It
runs from its first step to its last, and a transfer of control takes place at its end.
-/

namespace MipsMonitor

/-- Where control goes at the end of a block. -/
structure Exit where
  /-- The next instruction. -/
  target : Word
  /-- How control gets there. -/
  transfer : Transfer
deriving DecidableEq, Repr

/-- A translation. -/
structure Block where
  /-- Where it is entered. -/
  start : Word
  /-- Its instructions. -/
  steps : List Step
deriving DecidableEq, Repr

/-- How much is translated at a time. -/
inductive Extent where
  /-- A whole block. -/
  | block
  /-- One instruction and its delay slot, without a look at breakpoints. -/
  | single
deriving DecidableEq, Repr

namespace Extent

/-- The greatest number of instructions, a delay slot behind them not counted. -/
def room : Extent → Nat
  | block => 64
  | single => 1

/-- Whether an action takes place. -/
def admits : Extent → Action → Bool
  | block, _ => true
  | single, action => action != .check

end Extent

namespace Block

/-- The instructions from an address on that belong to one block: at most `room` of them and a delay
slot. Each comes with its address and what its word encodes. -/
def instructionsFrom (fetch : Word → Option Word) :
    (room : Nat) → (address : Word) → List (Word × Option Instruction)
  | 0, _ => []
  | room + 1, address =>
    match fetch address with
    -- What stands before a word that cannot be fetched still runs; the word itself traps later.
    | none => []
    | some w =>
      let i? := Instruction.decode? w
      let next := address + Instruction.size
      let rest :=
        match i? with
        | none => []
        | some i =>
          -- A delay slot belongs to the block even if there is no room left.
          if i.hasDelaySlot then
            (fetch next).toList.map fun slot => (next, Instruction.decode? slot)
          else if i.endsBlock then []
          else instructionsFrom fetch room next
      (address, i?) :: rest

/-- Translates the instructions from an address on, of whatever memory the words are read from. -/
def translateBy (read : Word → Except MemoryError Word)
    (choose : Word → Option Instruction → List Action) (extent : Extent) (start : Word) :
    Except Trap Block :=
  let fetch (address : Word) := (read address).toOption
  if Word.isAligned start Instruction.size then
    match read start with
    | .error e => .error (.fetch e start)
    | .ok _ =>
      let steps := (instructionsFrom fetch extent.room start).map fun (address, i?) =>
        ⟨address, (choose address i?).filter extent.admits, .ofInstruction? i? address⟩
      .ok ⟨start, steps⟩
  else .error (.architectural .addressLoadError start)

/-- Translates the instructions of memory from an address on. -/
def translate (memory : Ram) (choose : Word → Option Instruction → List Action) (extent : Extent)
    (start : Word) : Except Trap Block :=
  translateBy (ByteMemory.readWord memory) choose extent start

/-- What is reported when the words of a block are fetched. -/
def fetchNotes (memory : Ram) (b : Block) : List Entry :=
  b.steps.flatMap fun s => ByteMemory.readNotes memory (Address.run s.address 4)

/-- The number of instructions. -/
def length (b : Block) : Nat := b.steps.length

/-- The address behind the last instruction. -/
def stop (b : Block) : Word := b.start + UInt32.ofNat b.length * Instruction.size

/-- The bytes of the longest block: the instructions that there is room for, and a delay slot. -/
def longest : Nat := 4 * (Extent.block.room + 1)

/-- Whether an address lies in a block. -/
def covers (b : Block) (address : Word) : Bool := b.start ≤ address && address < b.stop

/-- Executes steps. Where control goes is decided by the last transfer among them, or else by
`exit`. -/
def runSteps {σ : Type} (observer : Observer σ) : Exit → List Step → EStateM Signal (Guest σ) Exit
  | exit, [] => pure exit
  | exit, s :: rest => do
    match ← s.run observer with
    | .next => runSteps observer exit rest
    | .jump target transfer => runSteps observer ⟨target, transfer⟩ rest

/-- Executes a block. -/
def run {σ : Type} (observer : Observer σ) (b : Block) : EStateM Signal (Guest σ) Exit :=
  runSteps observer ⟨b.stop, .plain⟩ b.steps

end Block

end MipsMonitor
