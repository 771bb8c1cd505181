import MipsMonitor.Machine.Signal
import MipsMonitor.Memory.View
import MipsMonitor.Register.File

/-!
# The core

The state of the processor that instructions work on: its registers, its view of memory, the stop
request, a coarse clock, and the addresses stored to since translations were last checked against
them. The status register and the view go together: a write to the status register that changes the
isolation of the cache changes the view (`Core.writeSystem`).

The host reads and writes memory as loads and stores do (`peek`, `poke`); both report what they do.
-/

namespace MipsMonitor

open Text

/-- Why the host cannot access memory. -/
inductive AccessError where
  /-- There is no memory. -/
  | detached
  /-- The address of an instruction is not a multiple of its size. -/
  | misaligned (address : Word)
  /-- Memory refuses the access. -/
  | memory (error : MemoryError)
deriving DecidableEq, Repr

/-- The wording of an error. -/
def AccessError.message : AccessError → String
  | detached => "no memory view is attached, reset the CPU first"
  | misaligned address => "misaligned instruction address " ++ hexWord address
  | memory e => e.message

/-- The state of the processor. -/
structure Core where
  /-- The registers. -/
  registers : RegisterFile
  /-- The memory that is attached, as the processor addresses it. -/
  view? : Option (View Ram)
  /-- Whether a stop is requested. -/
  stopped : Bool
  /-- The instructions executed since the last heartbeat. -/
  ticks : Nat
  /-- Where the core reports. -/
  sink : Sink
  /-- The addresses stored to that are still to be checked against translations. -/
  written : List Word
  /-- What was reported, in order. -/
  log : Array Entry

namespace Core

/-- A core without memory that reports to a sink. -/
def detached (sink : Sink) : Core := ⟨.blank, none, false, 0, sink, [], #[]⟩

instance : Inhabited Core := ⟨detached .standard⟩

/-- The ticks between two heartbeats. -/
def heartbeat : Nat := 2000000

/-- The core with entries added to its log. -/
def note (c : Core) (entries : List Entry) : Core :=
  if entries.isEmpty then c else { c with log := c.log ++ entries }

/-- The core with a report of its own added to its log. -/
def report (c : Core) (level : Level) (text : String) : Core := c.note [⟨c.sink, level, text⟩]

/-- The core with a stop requested. -/
def requestStop (c : Core) : Core := { c with stopped := true }

/-- The core without its log. -/
def clearLog (c : Core) : Core := { c with log := #[] }

/-- Counts instructions. At the threshold the core reports a heartbeat and starts again. -/
def clock (c : Core) (ticks : Nat) : Core :=
  if heartbeat ≤ c.ticks + ticks then
    { c.report .info (toString heartbeat ++ " ticks elapsed") with ticks := 0 }
  else { c with ticks := c.ticks + ticks }

/-- The view that goes with a new value of the status register. On the edge that isolates the cache
the fresh cache is told where to report; on the other edge memory comes back. -/
def viewFor (sink : Sink) (old new : Status) (v : View Ram) : View Ram :=
  if old.isolateCache = new.isolateCache then v
  else if new.isolateCache then ByteMemory.withSink v.isolate sink
  else v.unisolate

/-- Writes a register of the system control coprocessor. A number that names no register is
reported and nothing else happens. -/
def writeSystem (c : Core) (index : Nat) (w : Word) : Core :=
  if h : index < Bank.size .cop0 then
    let r : Register := ⟨.cop0, ⟨index, h⟩⟩
    let old := c.registers.status
    let c := { c with registers := c.registers.set r w }
    let c := c.report .debug ("writing " ++ hex w.toNat ++ " to " ++ r.name)
    -- Only a write to the status register itself can make a difference between the two.
    let new := c.registers.status
    { c with view? := c.view?.map (viewFor c.sink old new) }
  else
    c.report .warn ("ignoring write of " ++ hex w.toNat ++ " to nonexistent cop0 register " ++
      toString index)

/-- The core and the memory behind it, reporting to another sink. -/
def withSink (c : Core) (sink : Sink) : Core :=
  { c with sink := sink, view? := c.view?.map (ByteMemory.withSink · sink) }

/-- The core at power-on, with memory attached. What was reported before stays reported. -/
def reset (c : Core) (v : View Ram) : Core :=
  let v := ByteMemory.withSink v c.sink
  let c := c.note (ByteMemory.resetNotes v)
  { c with
    registers := .atReset
    view? := some (ByteMemory.reset v)
    stopped := false
    ticks := 0
    written := [] }

/-- Reads memory for the host, and reports what is read. -/
def readFrom {μ α : Type} [ByteMemory μ] (choose : View Ram → μ) (addresses : List Word)
    (spell : List UInt8 → α) : EStateM AccessError Core α := fun c =>
  match c.view? with
  | none => .error .detached c
  | some v =>
    let m := choose v
    let notes := ByteMemory.readNotes m addresses
    match ByteMemory.readBytes m addresses with
    | .ok bytes => .ok (spell bytes) (c.note notes)
    | .error e => .error (.memory e) (c.note notes)

/-- The bytes at addresses, as loads see them. -/
def peek (addresses : List Word) : EStateM AccessError Core (List UInt8) :=
  readFrom id addresses id

/-- The word at an address behind the cache, as the fetching of instructions sees it. -/
def peekBacking (address : Word) : EStateM AccessError Core Word :=
  readFrom View.backing (Address.run address 4) Word.ofBytes

/-- Writes bytes from an address on, as stores do, without a check against translations. -/
def poke (address : Word) (bytes : List UInt8) : EStateM AccessError Core Unit
  | ⟨registers, some v, stopped, ticks, sink, written, log⟩ =>
    let notes := ByteMemory.writeNotes v address bytes
    match ByteMemory.writeBytes address bytes v with
    | .ok () v => .ok () (note ⟨registers, some v, stopped, ticks, sink, written, log⟩ notes)
    | .error e v =>
      .error (.memory e) (note ⟨registers, some v, stopped, ticks, sink, written, log⟩ notes)
  | ⟨registers, none, stopped, ticks, sink, written, log⟩ =>
    .error .detached ⟨registers, none, stopped, ticks, sink, written, log⟩

/-- Resets what loads and stores reach, and reports it. -/
def resetView : EStateM AccessError Core Unit
  | ⟨registers, some v, stopped, ticks, sink, written, log⟩ =>
    let notes := ByteMemory.resetNotes v
    .ok () (note ⟨registers, some (ByteMemory.reset v), stopped, ticks, sink, written, log⟩ notes)
  | ⟨registers, none, stopped, ticks, sink, written, log⟩ =>
    .error .detached ⟨registers, none, stopped, ticks, sink, written, log⟩

/-- Stores bytes for an instruction. What was stored has to be checked against translations. -/
def store (address : Word) (bytes : List UInt8) : EStateM AccessError Core Unit := fun c =>
  match c.poke address bytes with
  | .ok () c => .ok () { c with written := address :: c.written }
  | .error e c => .error e c

end Core

end MipsMonitor
