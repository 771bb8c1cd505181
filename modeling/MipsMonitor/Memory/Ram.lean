import MipsMonitor.Memory.Basic
import MipsMonitor.Memory.Cells

/-!
# Random access memory

The chips behind the memory map, with the program images that a reset puts back. The hardware ports
hold what is written to them; accesses to them are reported to the sink, if there is one.
`get_set` says that a write changes one cell.
-/

namespace MipsMonitor

open Text

/-- A program image and its place in main memory. -/
structure Image where
  /-- The first cell. -/
  offset : Nat
  /-- The bytes. -/
  bytes : ByteArray
  /-- The image ends within main memory. -/
  fits : offset + bytes.size ≤ 0x200000

/-- The chips of the memory map. -/
structure Ram where
  /-- Main memory. -/
  main : Cells 0x200000
  /-- The scratchpad. -/
  scratchpad : Cells 0x400
  /-- The hardware ports. -/
  ports : Cells 0x2000
  /-- The cache control registers. -/
  cacheControl : Cells 0x200
  /-- The boot ROM. -/
  rom : Cells 0x80000
  /-- The images that a reset puts back, in the order in which they were loaded. -/
  images : List Image
  /-- Where accesses to the ports are reported. -/
  sink? : Option Sink

namespace Ram

/-- Memory with nothing in it. -/
def blank : Ram :=
  ⟨.zero 0x200000, .zero 0x400, .zero 0x2000, .zero 0x200, .zero 0x80000, [], none⟩

instance : Inhabited Ram := ⟨blank⟩

/-- The byte in a cell. Nothing answers at the expansion port, which reads as all ones. -/
def get (r : Ram) : Cell → UInt8
  | .main i => r.main.get i
  | .expansion => 0xFF
  | .scratchpad i => r.scratchpad.get i
  | .port i => r.ports.get i
  | .rom i => r.rom.get i
  | .cacheControl i => r.cacheControl.get i

/-- The memory with one cell replaced; cells that cannot be written keep their byte. -/
def set (r : Ram) (c : Cell) (b : UInt8) : Ram :=
  match c with
  | .main i => { r with main := r.main.set i b }
  | .scratchpad i => { r with scratchpad := r.scratchpad.set i b }
  | .port i => { r with ports := r.ports.set i b }
  | .cacheControl i => { r with cacheControl := r.cacheControl.set i b }
  | .expansion | .rom _ => r

/-- A writable cell holds what was written to it last, and other cells keep their byte. -/
theorem get_set (r : Ram) (c d : Cell) (b : UInt8) :
    (r.set c b).get d = if c = d ∧ c.isWritable = true then b else r.get d := by
  cases c <;> cases d <;> simp [set, get, Cell.isWritable]

/-- Lays an image over the boot ROM, from its start. -/
def withRom (r : Ram) (image : ByteArray) : Except MemoryError Ram :=
  if h : image.size ≤ 0x80000 then
    .ok { r with rom := r.rom.overlay 0 image (by omega) }
  else .error (.outOfBounds Address.romStart image.size)

/-- Lays an image over main memory, now and after every reset. -/
def load (r : Ram) (address : Word) (bytes : ByteArray) : Except MemoryError Ram :=
  match Address.cell? address with
  | some (.main i) =>
    if fits : i.val + bytes.size ≤ 0x200000 then
      .ok { r with
        main := r.main.overlay i bytes fits
        images := r.images ++ [⟨i, bytes, fits⟩] }
    else .error (.outOfBounds address bytes.size)
  | _ => .error (.outOfBounds address bytes.size)

/-- Main memory as the images leave it when they are laid one after the other over zeros. -/
def replay (images : List Image) : Cells 0x200000 :=
  images.foldl (fun cells image => cells.overlay image.offset image.bytes image.fits)
    (.zero 0x200000)

/-- The memory at power-on: zero but for the boot ROM and the images. -/
def reset (r : Ram) : Ram :=
  { r with
    main := replay r.images
    scratchpad := .zero 0x400
    ports := .zero 0x2000
    cacheControl := .zero 0x200 }

/-- What is reported when the byte at an address is accessed. -/
def note? (r : Ram) (address : Word) (access : String) : Option Entry :=
  match Address.cell? address, r.sink? with
  | some (.port _), some sink => some ⟨sink, .trace, access ++ " at " ++ hexWord address⟩
  | _, _ => none

instance : ByteMemory Ram where
  readByte r address :=
    match Address.cell? address with
    | some c => .ok (r.get c)
    | none => .error (.unmapped address)
  refusal? _ address := Address.refusal? address
  put r address b :=
    match Address.cell? address with
    | some c => r.set c b
    | none => r
  reset := reset
  withSink r sink := { r with sink? := some sink }
  readNote? r address := r.note? address "I/O read"
  writeNote? r address b := r.note? address ("I/O write " ++ hexByte b)
  resetNotes _ := []

end Ram

end MipsMonitor
