import MipsMonitor.Diagnostics
import MipsMonitor.Memory.Map

/-!
# Byte memories

What can stand behind an address: a type whose values answer reads, take writes, can be reset, and
report some of this to a sink (`ByteMemory`). Reports are functions of their own, so that reading
and writing say nothing about them.

Halves and words are read and written byte by byte, lowest first. An access stops at the first byte
that is refused, and what was written before stays written (`writeBytes`).
-/

namespace MipsMonitor

/-- A memory that is addressed by the byte. -/
class ByteMemory (μ : Type) where
  /-- The byte at an address. -/
  readByte : μ → Word → Except MemoryError UInt8
  /-- Why a byte cannot be written at an address, if it cannot. -/
  refusal? : μ → Word → Option MemoryError
  /-- The memory with one byte replaced, where that is possible. -/
  put : μ → Word → UInt8 → μ
  /-- The memory at power-on. -/
  reset : μ → μ
  /-- The memory, reporting to a sink. -/
  withSink : μ → Sink → μ
  /-- What is reported when a byte is read. -/
  readNote? : μ → Word → Option Entry
  /-- What is reported when a byte is written. -/
  writeNote? : μ → Word → UInt8 → Option Entry
  /-- What is reported when the memory is reset. -/
  resetNotes : μ → List Entry

namespace ByteMemory

variable {μ : Type} [ByteMemory μ]

/-- The bytes at addresses, in order. -/
def readBytes (m : μ) (addresses : List Word) : Except MemoryError (List UInt8) :=
  addresses.mapM (readByte m)

/-- The number that the bytes at addresses spell. -/
def readNumber (m : μ) (addresses : List Word) : Except MemoryError Word :=
  (readBytes m addresses).map Word.ofBytes

/-- The word at an address. -/
def readWord (m : μ) (address : Word) : Except MemoryError Word :=
  readNumber m (Address.run address 4)

/-- What is reported when the bytes at addresses are read: nothing from the first one on that is
refused. -/
def readNotes (m : μ) (addresses : List Word) : List Entry :=
  (addresses.takeWhile fun a => (readByte m a).isOk).filterMap (readNote? m)

/-- Replaces bytes from an address on, up to the first one that is refused. -/
def writeBytes : Word → List UInt8 → EStateM MemoryError μ Unit
  | _, [], m => .ok () m
  | address, b :: bs, m =>
    match refusal? m address with
    -- The bytes before this one are in place.
    | some e => .error e m
    | none => writeBytes (address + 1) bs (put m address b)

/-- What is reported when bytes are written from an address on: nothing from the first one on that
is refused. -/
def writeNotes (m : μ) (address : Word) (bytes : List UInt8) : List Entry :=
  let writes := (Address.run address bytes.length).zip bytes
  (writes.takeWhile fun (a, _) => (refusal? m a).isNone).filterMap fun (a, b) => writeNote? m a b

end ByteMemory

end MipsMonitor
