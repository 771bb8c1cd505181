import MipsMonitor.Text.Hex

/-!
# The memory map

Which cell an address designates. The top bits of an address select a segment; segments that alias
the low 512 MiB are stripped (`physical`), and what is left falls into one of six windows:

| window | first address | size |
|---|---|---|
| main memory, four times in a row | `00000000` | 4 × 2 MiB |
| expansion port, nothing plugged in | `1F000000` | 8 MiB |
| scratchpad | `1F800000` | 1 KiB |
| hardware ports | `1F801000` | 8 KiB |
| boot ROM | `1FC00000` | 512 KiB |
| cache control | `FFFE0000` | 512 bytes |

Two addresses share a cell exactly if `cell?` maps both to it. The map is fixed: whether an access
is refused does not depend on what the memory holds.
-/

namespace MipsMonitor

open Text

/-- Why an access to memory, or the loading of an image, is refused. -/
inductive MemoryError where
  /-- No window has the address. -/
  | unmapped (address : Word)
  /-- The address cannot be written to. -/
  | readOnly (address : Word)
  /-- An image of `size` bytes does not fit at the address. -/
  | outOfBounds (address : Word) (size : Nat)
deriving DecidableEq, Repr

/-- The wording of an error. -/
def MemoryError.message : MemoryError → String
  | .unmapped address => "unmapped address " ++ hexWord address
  | .readOnly address => "write to read-only address " ++ hexWord address
  | .outOfBounds address size =>
    "image of " ++ hex size ++ " bytes does not fit at " ++ hexWord address

/-- A byte that an address can designate. -/
inductive Cell where
  /-- A byte of main memory. -/
  | main (offset : Fin 0x200000)
  /-- Any byte of the expansion port. -/
  | expansion
  /-- A byte of the scratchpad. -/
  | scratchpad (offset : Fin 0x400)
  /-- A byte of the hardware ports. -/
  | port (offset : Fin 0x2000)
  /-- A byte of the boot ROM. -/
  | rom (offset : Fin 0x80000)
  /-- A byte of the cache control registers. -/
  | cacheControl (offset : Fin 0x200)
deriving DecidableEq, Repr

namespace Cell

/-- Whether the cell takes a new value. -/
def isWritable : Cell → Bool
  | expansion | rom _ => false
  | _ => true

end Cell

namespace Address

/-- The bits of an address that count, by its three top bits: the fifth of eight segments loses its
top bit, the sixth its three top bits, and all others are left alone. -/
def segmentMask (address : Word) : Word :=
  if address >>> 29 = 4 then 0x7FFFFFFF
  else if address >>> 29 = 5 then 0x1FFFFFFF
  else 0xFFFFFFFF

/-- An address without its segment. -/
def physical (address : Word) : Word := address &&& segmentMask address

/-- The first address of the boot ROM. -/
def romStart : Word := 0x1FC00000

/-- The cell at an address without segment. -/
def physicalCell? (p : Nat) : Option Cell :=
  -- Main memory repeats: the window is four times as large as the memory.
  if p < 0x800000 then some (.main ⟨p % 0x200000, Nat.mod_lt _ (by decide)⟩)
  else if 0x1F000000 ≤ p ∧ p < 0x1F800000 then some .expansion
  else if h : 0x1F800000 ≤ p ∧ p < 0x1F800400 then some (.scratchpad ⟨p - 0x1F800000, by omega⟩)
  else if h : 0x1F801000 ≤ p ∧ p < 0x1F803000 then some (.port ⟨p - 0x1F801000, by omega⟩)
  else if h : 0x1FC00000 ≤ p ∧ p < 0x1FC80000 then some (.rom ⟨p - 0x1FC00000, by omega⟩)
  else if h : 0xFFFE0000 ≤ p ∧ p < 0xFFFE0200 then
    some (.cacheControl ⟨p - 0xFFFE0000, by omega⟩)
  else none

/-- The cell that an address designates, if it lies in a window. -/
def cell? (address : Word) : Option Cell := physicalCell? (physical address).toNat

/-- Why a byte cannot be written at an address, if it cannot. -/
def refusal? (address : Word) : Option MemoryError :=
  match cell? address with
  | none => some (.unmapped address)
  | some c => if c.isWritable then none else some (.readOnly address)

/-- The `count` addresses from `address` on, wrapping around at the end. -/
def run (address : Word) (count : Nat) : List Word :=
  (List.range count).map fun i => address + UInt32.ofNat i

end Address

end MipsMonitor
