import MipsMonitor.Register.Bank
import MipsMonitor.Register.Field
import MipsMonitor.Text.Hex

/-!
# The register file

All 114 registers in one vector of words, by slot. The file only stores: that the first general
register reads as zero is a rule of the instructions, not of the file. `get_set` says that writing
one register leaves all others alone.
-/

namespace MipsMonitor

open Text

/-- The contents of all registers. -/
structure RegisterFile where
  /-- The words, by slot. -/
  slots : Vector Word slotCount
deriving DecidableEq, Repr

namespace RegisterFile

/-- All registers zero. -/
def blank : RegisterFile := ⟨Vector.replicate slotCount 0⟩

instance : Inhabited RegisterFile := ⟨blank⟩

/-- The contents of a slot. -/
def read (f : RegisterFile) (slot : Fin slotCount) : Word := f.slots[slot]

/-- The file with one slot replaced. -/
def write (f : RegisterFile) (slot : Fin slotCount) (w : Word) : RegisterFile :=
  ⟨f.slots.set slot w⟩

/-- The contents of a register. -/
def get (f : RegisterFile) (r : Register) : Word := f.read r.slot

/-- The file with one register replaced. -/
def set (f : RegisterFile) (r : Register) (w : Word) : RegisterFile := f.write r.slot w

/-- The contents of a watched register. -/
def tracked (f : RegisterFile) (t : Tracked) : Word := f.read t.slot

/-- The file with one watched register replaced. -/
def setTracked (f : RegisterFile) (t : Tracked) (w : Word) : RegisterFile := f.write t.slot w

/-- What an instruction sees in a watched register: the first general register is zero whatever the
file holds. -/
def value (f : RegisterFile) (t : Tracked) : Word := if t = .zero then 0 else f.tracked t

/-- The contents of a watched register by number, if there is such a register. -/
def tracked? (f : RegisterFile) (index : Nat) : Option Word :=
  if h : index < 34 then some (f.tracked ⟨index, h⟩) else none

/-- The file with one watched register, given by number, replaced, if there is such a register. -/
def setTracked? (f : RegisterFile) (index : Nat) (w : Word) : Option RegisterFile :=
  if h : index < 34 then some (f.setTracked ⟨index, h⟩ w) else none

/-- The contents of a register of a bank by number, if the bank has such a register. -/
def get? (f : RegisterFile) (bank : Bank) (index : Nat) : Option Word :=
  if h : index < bank.size then some (f.get ⟨bank, ⟨index, h⟩⟩) else none

/-- What the registers hold after a reset. -/
def atReset : RegisterFile :=
  (blank.set .status Status.atReset.raw).set .processorId processorIdentity

/-- The contents of the status register. -/
def status (f : RegisterFile) : Status := ⟨f.get .status⟩

/-- One line for each register of a bank: its name and its contents. -/
def bankLines (f : RegisterFile) (bank : Bank) : List String :=
  (List.finRange bank.size).map fun i =>
    column 9 (bank.name i) ++ " = " ++ hexWord (f.get ⟨bank, i⟩)

/-- The general registers, the results and the system control registers as text. -/
def dump (f : RegisterFile) : String :=
  String.join ((
    ["", "general registers:"] ++ f.bankLines .general ++
    ["", "special registers:"] ++ f.bankLines .special ++
    ["", "coprocessor 0 registers:"] ++ f.bankLines .cop0).map (· ++ "\n"))

/-- A slot holds what was written to it last. -/
@[simp, grind =]
theorem read_write (f : RegisterFile) (s t : Fin slotCount) (w : Word) :
    (f.write s w).read t = if s = t then w else f.read t := by
  simp only [read, write, Fin.getElem_fin, Vector.getElem_set, Fin.ext_iff]

/-- A watched register holds what was written to it last. -/
@[simp, grind =]
theorem tracked_setTracked (f : RegisterFile) (s t : Tracked) (w : Word) :
    (f.setTracked s w).tracked t = if s = t then w else f.tracked t := by
  simp only [tracked, setTracked, read_write, Tracked.slot, Fin.ext_iff]

/-- A register holds what was written to it last, and other writes leave it alone. -/
@[simp, grind =]
theorem get_set (f : RegisterFile) (r s : Register) (w : Word) :
    (f.set r w).get s = if r = s then w else f.get s := by
  simp only [get, set, read_write]
  by_cases h : r = s
  · simp [h]
  · have hs : r.slot ≠ s.slot := fun hs => h (Register.slot_injective hs)
    simp [h, hs]

end RegisterFile

end MipsMonitor
