import MipsMonitor.Exception
import MipsMonitor.Memory.Map

/-!
# Traps and signals

Why execution ends before the routine returns. A trap names the instruction that could not be
executed and, unless the machine itself gave up, the fault underneath: an exception of the processor
or a refused access to memory. A signal is a trap, a breakpoint or a request to stop.
-/

namespace MipsMonitor

open Text

/-- What went wrong underneath a trap. -/
inductive Fault where
  /-- An exception of the processor. -/
  | architectural (exception : Exception)
  /-- A refused access to memory. -/
  | memory (error : MemoryError)
deriving DecidableEq, Repr

namespace Fault

/-- The exception that a fault raises. Every refused access is an error on the bus. -/
def exception : Fault → Exception
  | architectural e => e
  | memory _ => .dataBusError

/-- The wording of a fault. -/
def text : Fault → String
  | architectural e => e.text
  | memory e => e.message

end Fault

/-- An instruction that could not be executed. -/
structure Trap where
  /-- What is said about it. -/
  message : String
  /-- The address of the instruction. -/
  pc : Word
  /-- What went wrong; nothing if the machine itself gave up. -/
  cause? : Option Fault
deriving DecidableEq, Repr

namespace Trap

/-- An exception raised by the instruction at `pc`. -/
def architectural (e : Exception) (pc : Word) : Trap :=
  ⟨e.text ++ " at " ++ hexWord pc, pc, some (.architectural e)⟩

/-- An access to memory by the instruction at `pc` that was refused. -/
def memory (e : MemoryError) (pc : Word) : Trap :=
  ⟨(Fault.memory e).exception.text ++ " at " ++ hexWord pc, pc, some (.memory e)⟩

/-- The word at `address` could not be fetched. -/
def fetch (e : MemoryError) (address : Word) : Trap :=
  ⟨"instruction fetch failed at " ++ hexWord address ++ ": " ++ e.message, address,
    some (.architectural .instructionBusError)⟩

/-- There is no memory that the instruction at `pc` could come from or use. -/
def detached (pc : Word) : Trap := ⟨"no memory view attached", pc, none⟩

/-- The message with the wording of the cause behind it. -/
def text (t : Trap) : String :=
  match t.cause? with
  | some cause => t.message ++ " (" ++ cause.text ++ ")"
  | none => t.message

end Trap

/-- Why execution ended before the routine returned. -/
inductive Signal where
  /-- There is a breakpoint on the instruction at the address, which was not executed. -/
  | breakpoint (address : Word)
  /-- An instruction could not be executed. -/
  | trap (t : Trap)
  /-- A stop was requested; the instruction at `pc` is the next one. -/
  | stopped (pc : Word)
deriving DecidableEq, Repr

end MipsMonitor
