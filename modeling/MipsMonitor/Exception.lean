/-!
# Architectural exceptions

The exceptions that the processor can raise, with their wording and the code by which the cause
register tells them apart. `Reset` has a vector of its own and no code.
-/

namespace MipsMonitor

/-- An exception of the processor. -/
inductive Exception where
  /-- An external interrupt. -/
  | interrupt
  /-- A store to a page that may not be written. -/
  | tlbModified
  /-- A load from an address without translation. -/
  | tlbLoadMiss
  /-- A store to an address without translation. -/
  | tlbStoreMiss
  /-- A load or an instruction fetch from an address of the wrong alignment. -/
  | addressLoadError
  /-- A store to an address of the wrong alignment. -/
  | addressStoreError
  /-- An instruction fetch that no device answers. -/
  | instructionBusError
  /-- A load or store that no device answers. -/
  | dataBusError
  /-- The instruction `syscall`. -/
  | syscall
  /-- The instruction `break`. -/
  | breakpoint
  /-- A word that encodes no instruction. -/
  | reservedInstruction
  /-- An instruction for a coprocessor that is switched off. -/
  | coprocessorUnusable
  /-- A signed sum or difference outside 32 bits. -/
  | overflow
  /-- The reset line. -/
  | reset
deriving DecidableEq, Repr

namespace Exception

/-- All exceptions, in the order of their codes and the reset last. -/
def all : List Exception :=
  [.interrupt, .tlbModified, .tlbLoadMiss, .tlbStoreMiss, .addressLoadError, .addressStoreError,
   .instructionBusError, .dataBusError, .syscall, .breakpoint, .reservedInstruction,
   .coprocessorUnusable, .overflow, .reset]

/-- The wording of an exception. -/
def text : Exception → String
  | interrupt => "interrupt"
  | tlbModified => "TLB modified"
  | tlbLoadMiss => "TLB miss on load"
  | tlbStoreMiss => "TLB miss on store"
  | addressLoadError => "address error on load"
  | addressStoreError => "address error on store"
  | instructionBusError => "bus error on instruction fetch"
  | dataBusError => "bus error on data access"
  | syscall => "syscall"
  | breakpoint => "breakpoint"
  | reservedInstruction => "reserved instruction"
  | coprocessorUnusable => "coprocessor unusable"
  | overflow => "arithmetic overflow"
  | reset => "reset"

/-- The code of an exception in the cause register. -/
def code? : Exception → Option Nat
  | interrupt => some 0
  | tlbModified => some 1
  | tlbLoadMiss => some 2
  | tlbStoreMiss => some 3
  | addressLoadError => some 4
  | addressStoreError => some 5
  | instructionBusError => some 6
  | dataBusError => some 7
  | syscall => some 8
  | breakpoint => some 9
  | reservedInstruction => some 10
  | coprocessorUnusable => some 11
  | overflow => some 12
  | reset => none

/-- The exception with the given code. -/
def ofCode? (code : Nat) : Option Exception := all.find? fun e => e.code? == some code

end Exception

end MipsMonitor
