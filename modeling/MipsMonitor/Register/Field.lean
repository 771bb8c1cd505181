import MipsMonitor.Exception
import MipsMonitor.Word

/-!
# Fields of the control registers

A bit field is a run of bits of a word that is read and written on its own (`BitField`). The status
and the cause register of the system control coprocessor are words made of such fields.
-/

namespace MipsMonitor

/-- A run of bits in a word. -/
structure BitField where
  /-- The lowest bit. -/
  low : Nat
  /-- The number of bits. -/
  width : Nat
deriving DecidableEq, Repr

namespace BitField

/-- The bits of a word that belong to the field. -/
def mask (f : BitField) : Word := Word.lowMask f.width <<< f.low.toUInt32

/-- The value of the field. -/
def get (f : BitField) (w : Word) : Word := Word.bits w f.low f.width

/-- The word with the field replaced; what does not fit in the field is dropped. -/
def set (f : BitField) (w value : Word) : Word :=
  (w &&& ~~~f.mask) ||| ((value <<< f.low.toUInt32) &&& f.mask)

/-- A field of one bit. -/
def bit (n : Nat) : BitField := ⟨n, 1⟩

/-- Whether a field holds anything but zero. -/
def test (f : BitField) (w : Word) : Bool := f.get w != 0

end BitField

/-- The single-bit fields of the status register. -/
inductive StatusFlag where
  /-- Interrupts are taken. -/
  | interruptEnable
  /-- The processor is in user mode. -/
  | userMode
  /-- `interruptEnable` before the last exception. -/
  | previousInterruptEnable
  /-- `userMode` before the last exception. -/
  | previousUserMode
  /-- `interruptEnable` before the last but one exception. -/
  | oldInterruptEnable
  /-- `userMode` before the last but one exception. -/
  | oldUserMode
  /-- Loads and stores touch the cache alone and never reach memory. -/
  | isolateCache
  /-- The two caches change places. -/
  | swapCaches
  /-- Parity bits are written as zero. -/
  | parityZero
  /-- The last access to an isolated cache missed. -/
  | cacheMiss
  /-- A parity error was seen. -/
  | parityError
  /-- The translation buffer is shut down. -/
  | tlbShutdown
  /-- Exceptions use the vectors in the boot ROM. -/
  | bootExceptionVectors
  /-- User mode has the other byte order. -/
  | reverseEndian
  /-- Coprocessor 0 may be used in user mode. -/
  | cop0Enable
  /-- Coprocessor 1 may be used. -/
  | cop1Enable
  /-- Coprocessor 2 may be used. -/
  | cop2Enable
  /-- Coprocessor 3 may be used. -/
  | cop3Enable
deriving DecidableEq, Repr

/-- The bit of a flag. -/
def StatusFlag.bit : StatusFlag → Nat
  | interruptEnable => 0
  | userMode => 1
  | previousInterruptEnable => 2
  | previousUserMode => 3
  | oldInterruptEnable => 4
  | oldUserMode => 5
  | isolateCache => 16
  | swapCaches => 17
  | parityZero => 18
  | cacheMiss => 19
  | parityError => 20
  | tlbShutdown => 21
  | bootExceptionVectors => 22
  | reverseEndian => 25
  | cop0Enable => 28
  | cop1Enable => 29
  | cop2Enable => 30
  | cop3Enable => 31

/-- The contents of the status register. -/
structure Status where
  /-- The whole word. -/
  raw : Word
deriving DecidableEq, Repr

namespace Status

/-- What the register holds after a reset: boot vectors, user mode. -/
def atReset : Status := ⟨0x00400002⟩

/-- The interrupt lines that may interrupt. -/
def interruptMaskField : BitField := ⟨8, 8⟩

/-- Whether a flag is set. -/
def get (s : Status) (f : StatusFlag) : Bool := (BitField.bit f.bit).test s.raw

/-- The status with a flag set or cleared. -/
def set (s : Status) (f : StatusFlag) (on : Bool) : Status :=
  ⟨(BitField.bit f.bit).set s.raw (if on then 1 else 0)⟩

/-- The interrupt lines that may interrupt, one bit each. -/
def interruptMask (s : Status) : Word := interruptMaskField.get s.raw

/-- The status with other interrupt lines allowed. -/
def setInterruptMask (s : Status) (mask : Word) : Status := ⟨interruptMaskField.set s.raw mask⟩

/-- Whether loads and stores are kept from memory. -/
def isolateCache (s : Status) : Bool := s.get .isolateCache

/-- The status after a return from an exception: the previous pair of mode bits becomes current and
the old pair previous. -/
def returnFromException (s : Status) : Status where
  -- The old pair stays in its place as well.
  raw := (s.raw &&& (0xFFFFFFF0 : Word)) ||| ((s.raw >>> 2) &&& (0xF : Word))

end Status

/-- The contents of the cause register. -/
structure Cause where
  /-- The whole word. -/
  raw : Word
deriving DecidableEq, Repr

namespace Cause

/-- The code of the last exception. -/
def codeField : BitField := ⟨2, 5⟩

/-- The interrupt lines that ask for attention. -/
def pendingField : BitField := ⟨8, 8⟩

/-- The coprocessor that an unusable coprocessor exception is about. -/
def coprocessorField : BitField := ⟨28, 2⟩

/-- Whether the exception arose in a delay slot. -/
def branchDelayField : BitField := .bit 31

/-- The exception that the code stands for, if it stands for one. -/
def exception? (c : Cause) : Option Exception := Exception.ofCode? (codeField.get c.raw).toNat

end Cause

/-- What the processor identification register holds after a reset. -/
def processorIdentity : Word := 0x230

end MipsMonitor
