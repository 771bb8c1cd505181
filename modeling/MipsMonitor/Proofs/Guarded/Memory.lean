import MipsMonitor.Proofs.Guarded.Basic
import MipsMonitor.Proofs.Memory.Fetching

/-!
# Guarded memory

The memory map with raw offsets. The mask of a segment is looked up in a table, the offset of an
address in its window is a difference, and chips and the cache are accessed by index. The windows
are as large as the chips behind them, or as a multiple of one, so that every address designates a
cell or none at all (`Guarded.region?_eq`), and accesses never break off (`Guarded.readBytes_eq`,
`Guarded.writeBytes_eq`).
-/

namespace MipsMonitor

open ByteMemory

namespace Guarded

/-- What an address designates, with its offset as a number. -/
inductive Region where
  /-- A byte of main memory. -/
  | main (offset : Nat)
  /-- Any byte of the expansion port. -/
  | expansion
  /-- A byte of the scratchpad. -/
  | scratchpad (offset : Nat)
  /-- A byte of the hardware ports. -/
  | port (offset : Nat)
  /-- A byte of the boot ROM. -/
  | rom (offset : Nat)
  /-- A byte of the cache control registers. -/
  | cacheControl (offset : Nat)

/-- A cell, with its offset as a number. -/
def Region.ofCell : Cell → Region
  | .main i => main i
  | .expansion => expansion
  | .scratchpad i => scratchpad i
  | .port i => port i
  | .rom i => rom i
  | .cacheControl i => cacheControl i

/-- The bits of an address that count, by its three top bits. -/
def segmentMasks : Vector Word 8 :=
  #v[0xFFFFFFFF, 0xFFFFFFFF, 0xFFFFFFFF, 0xFFFFFFFF, 0x7FFFFFFF, 0x1FFFFFFF, 0xFFFFFFFF, 0xFFFFFFFF]

/-- An address without its segment. -/
def physical (a : Word) : Guarded Word := do
  let segment ← shiftRight a 29
  let i ← index 8 segment.toNat
  pure (a &&& segmentMasks[i])

/-- The offset of an address in a window, if it lies there. -/
def offsetIn (first last p : Nat) : Guarded (Option Nat) :=
  if first ≤ p ∧ p < last then some <$> sub p first else pure none

/-- What an address designates, if it lies in a window. -/
def region? (a : Word) : Guarded (Option Region) := do
  let p := (← physical a).toNat
  if let some offset ← offsetIn 0 0x800000 p then pure (some (.main (offset % 0x200000)))
  else if let some _ ← offsetIn 0x1F000000 0x1F800000 p then pure (some .expansion)
  else if let some offset ← offsetIn 0x1F800000 0x1F800400 p then pure (some (.scratchpad offset))
  else if let some offset ← offsetIn 0x1F801000 0x1F803000 p then pure (some (.port offset))
  else if let some offset ← offsetIn 0x1FC00000 0x1FC80000 p then pure (some (.rom offset))
  else pure ((← offsetIn 0xFFFE0000 0xFFFE0200 p).map .cacheControl)

/-- The byte in a cell of a chip. -/
def cell {n : Nat} (chip : Cells n) (offset : Nat) : Guarded UInt8 := do
  let i ← index n offset
  pure (chip.get i)

/-- The chip with one cell replaced. -/
def setCell {n : Nat} (chip : Cells n) (offset : Nat) (b : UInt8) : Guarded (Cells n) := do
  let i ← index n offset
  pure (chip.set i b)

/-- The byte at an address of memory. -/
def readRam (r : Ram) (a : Word) : Guarded (Except MemoryError UInt8) := do
  match ← region? a with
  | none => pure (.error (.unmapped a))
  | some (.main offset) => .ok <$> cell r.main offset
  | some .expansion => pure (.ok 0xFF)
  | some (.scratchpad offset) => .ok <$> cell r.scratchpad offset
  | some (.port offset) => .ok <$> cell r.ports offset
  | some (.rom offset) => .ok <$> cell r.rom offset
  | some (.cacheControl offset) => .ok <$> cell r.cacheControl offset

/-- Replaces a byte of memory. -/
def writeRam (a : Word) (b : UInt8) : GuardedAction MemoryError Ram Unit := fun r => do
  match ← region? a with
  | none => pure (.error (.unmapped a) r)
  | some .expansion | some (.rom _) => pure (.error (.readOnly a) r)
  | some (.main offset) => do
    let main ← setCell r.main offset b
    pure (.ok () { r with main })
  | some (.scratchpad offset) => do
    let scratchpad ← setCell r.scratchpad offset b
    pure (.ok () { r with scratchpad })
  | some (.port offset) => do
    let ports ← setCell r.ports offset b
    pure (.ok () { r with ports })
  | some (.cacheControl offset) => do
    let cacheControl ← setCell r.cacheControl offset b
    pure (.ok () { r with cacheControl })

/-- The offset of an address in the cache. -/
def lineOffset (a : Word) : Nat := a.toNat &&& (0x1000 - 1)

/-- The byte at an address, as loads see it. -/
def readByte (v : View Ram) (a : Word) : Guarded (Except MemoryError UInt8) :=
  match v with
  | .direct r => readRam r a
  | .isolated c => .ok <$> cell c.lines (lineOffset a)

/-- Replaces a byte, as stores do. -/
def writeByte (a : Word) (b : UInt8) : GuardedAction MemoryError (View Ram) Unit := fun v =>
  match v with
  | .direct r => do
    match ← writeRam a b r with
    | .ok () r => pure (.ok () (.direct r))
    | .error e r => pure (.error e (.direct r))
  | .isolated c => do
    let lines ← setCell c.lines (lineOffset a) b
    pure (.ok () (.isolated { c with lines }))

/-- The bytes at addresses, up to the first one that is refused. -/
def readBytes (read : Word → Guarded (Except MemoryError UInt8)) :
    List Word → Guarded (Except MemoryError (List UInt8))
  | [] => pure (.ok [])
  | a :: as => do
    match ← read a with
    | .error e => pure (.error e)
    | .ok b => pure ((← readBytes read as).map (b :: ·))

/-- Replaces bytes from an address on, up to the first one that is refused. -/
def writeBytes : Word → List UInt8 → GuardedAction MemoryError (View Ram) Unit
  | _, [] => pure ()
  | a, b :: bs => do
    writeByte a b
    writeBytes (a + 1) bs

/-! ## Accesses to memory never break off -/

/-- The masks of the segments, by the three highest bits of an address. -/
theorem getElem_segmentMasks (i : Fin 8) : segmentMasks[i] =
    if UInt32.ofNat i = 4 then 0x7FFFFFFF
    else if UInt32.ofNat i = 5 then 0x1FFFFFFF else 0xFFFFFFFF := by
  revert i
  decide

/-- Masking the segment bits off stays within the table. -/
theorem physical_eq (a : Word) : physical a = .ok (Address.physical a) := by
  have hsegment : (a >>> 29).toNat < 8 := by
    have hlt := a.toNat_lt
    rw [UInt32.toNat_shiftRight, Nat.shiftRight_eq_div_pow]
    change a.toNat / 2 ^ 29 < 8
    omega
  unfold physical
  rw [shiftRight_of_lt (by decide), ok_bind]
  change (index 8 (a >>> 29).toNat >>= _) = _
  rw [index_of_lt hsegment, ok_bind, getElem_segmentMasks, UInt32.ofNat_toNat]
  rfl

/-- An offset into a region is taken only within the region. -/
theorem offsetIn_eq (first last p : Nat) :
    offsetIn first last p = .ok (if first ≤ p ∧ p < last then some (p - first) else none) := by
  unfold offsetIn
  split
  · next h =>
    rw [sub_of_le h.1]
    rfl
  · rfl

/-- Every address designates a cell, or none. -/
theorem region?_eq (a : Word) : region? a = .ok ((Address.cell? a).map Region.ofCell) := by
  unfold region? Address.cell? Address.physicalCell?
  rw [physical_eq, ok_bind]
  -- The guarded comparisons are made in the same order, with each offset below the place's size.
  generalize (Address.physical a).toNat = p
  simp only [offsetIn_eq, ok_bind, Nat.zero_le, true_and, Nat.sub_zero]
  by_cases hmain : p < 0x800000
  · simp only [if_pos hmain]
    rfl
  by_cases hexpansion : 0x1F000000 ≤ p ∧ p < 0x1F800000
  · simp only [if_neg hmain, if_pos hexpansion]
    rfl
  by_cases hscratchpad : 0x1F800000 ≤ p ∧ p < 0x1F800400
  · simp only [if_neg hmain, if_neg hexpansion, if_pos hscratchpad, dif_pos hscratchpad]
    rfl
  by_cases hport : 0x1F801000 ≤ p ∧ p < 0x1F803000
  · simp only [if_neg hmain, if_neg hexpansion, if_neg hscratchpad, dif_neg hscratchpad,
      if_pos hport, dif_pos hport]
    rfl
  by_cases hrom : 0x1FC00000 ≤ p ∧ p < 0x1FC80000
  · simp only [if_neg hmain, if_neg hexpansion, if_neg hscratchpad, dif_neg hscratchpad,
      if_neg hport, dif_neg hport, if_pos hrom, dif_pos hrom]
    rfl
  simp only [if_neg hmain, if_neg hexpansion, if_neg hscratchpad, dif_neg hscratchpad,
    if_neg hport, dif_neg hport, if_neg hrom, dif_neg hrom]
  split <;> rfl

/-- Every index of a chip can be read. -/
theorem cell_val {n : Nat} (chip : Cells n) (i : Fin n) : cell chip i = .ok (chip.get i) := by
  unfold cell
  rw [index_val]
  rfl

/-- Every index of a chip can be written. -/
theorem setCell_val {n : Nat} (chip : Cells n) (i : Fin n) (b : UInt8) :
    setCell chip i b = .ok (chip.set i b) := by
  unfold setCell
  rw [index_val]
  rfl

/-- Reading a byte of memory stays within its chip. -/
theorem readRam_eq (r : Ram) (a : Word) : readRam r a = .ok (ByteMemory.readByte r a) := by
  unfold readRam
  rw [region?_eq, ok_bind, Ram.readByte_eq]
  cases Address.cell? a with
  | none => rfl
  | some c =>
    cases c with
    | expansion => rfl
    | main i | scratchpad i | port i | rom i | cacheControl i =>
      simp only [Option.map_some, Region.ofCell, cell_val]
      rfl

/-- A byte of memory is replaced unless there is none or it cannot be. -/
theorem writeRam_agrees (a : Word) (b : UInt8) (r : Ram) :
    (writeRam a b).Agrees (ByteMemory.writeBytes a [b]) r := by
  have hrefusal : refusal? r a = Address.refusal? a := rfl
  have hput (c : Cell) (hc : Address.cell? a = some c) : put r a b = r.set c b := by
    simp only [put, hc]
  unfold GuardedAction.Agrees writeRam ByteMemory.writeBytes
  rw [region?_eq, ok_bind, hrefusal]
  unfold Address.refusal?
  cases hc : Address.cell? a with
  | none => rfl
  | some c =>
    rw [hput c hc]
    cases c with
    | expansion => rfl
    | rom i => rfl
    -- These four hold bytes, and each is written where the machine writes it.
    | main i | scratchpad i | port i | cacheControl i =>
      simp only [Option.map_some, Region.ofCell, setCell_val]
      rfl

/-- An address has a place in the cache. -/
theorem lineOffset_eq (a : Word) : lineOffset a = (Cached.line a).val :=
  Nat.and_two_pow_sub_one_eq_mod a.toNat 12

/-- Reading a byte of a view stays within the chip or the cache. -/
theorem readByte_eq (v : View Ram) (a : Word) : readByte v a = .ok (ByteMemory.readByte v a) := by
  cases v with
  | direct r => exact readRam_eq r a
  | isolated c =>
    unfold readByte
    simp only [lineOffset_eq, cell_val]
    rfl

/-- Writing a byte of a view stays within the chip or the cache. -/
theorem writeByte_agrees (a : Word) (b : UInt8) (v : View Ram) :
    (writeByte a b).Agrees (ByteMemory.writeBytes a [b]) v := by
  unfold GuardedAction.Agrees
  cases v with
  | direct r =>
    have hram := writeRam_agrees a b r
    unfold GuardedAction.Agrees at hram
    simp only [writeByte, hram, ok_bind, View.writeBytes_direct]
    cases ByteMemory.writeBytes a [b] r <;> rfl
  | isolated c =>
    simp only [writeByte, lineOffset_eq, setCell_val]
    rfl

/-- Bytes are read, or one of them is refused. -/
theorem readBytes_eq {μ : Type} [ByteMemory μ] (m : μ)
    {read : Word → Guarded (Except MemoryError UInt8)}
    (hread : ∀ a, read a = .ok (ByteMemory.readByte m a)) (as : List Word) :
    readBytes read as = .ok (ByteMemory.readBytes m as) := by
  unfold ByteMemory.readBytes
  induction as with
  | nil => rfl
  | cons a as ih =>
    rw [readBytes, hread, ok_bind, List.mapM_cons]
    cases ByteMemory.readByte m a with
    | error e => rfl
    | ok b =>
      simp only [ih, ok_bind]
      cases as.mapM (ByteMemory.readByte m) <;> rfl

/-- Bytes are written, or one of them is refused. -/
theorem writeBytes_agrees (a : Word) (bs : List UInt8) (v : View Ram) :
    (writeBytes a bs).Agrees (ByteMemory.writeBytes a bs) v := by
  induction bs generalizing a v with
  | nil => rfl
  | cons b bs ih =>
    have hbyte := writeByte_agrees a b v
    unfold GuardedAction.Agrees at hbyte ih ⊢
    rw [writeBytes, ByteMemory.writeBytes]
    rw [ByteMemory.writeBytes] at hbyte
    -- The first byte that is refused ends both writes.
    cases hrefusal : refusal? v a with
    | some e =>
      simp only [hrefusal] at hbyte
      exact GuardedAction.bind_error hbyte
    | none =>
      simp only [hrefusal] at hbyte
      rw [GuardedAction.bind_ok hbyte]
      exact ih (a + 1) (put v a b)

end Guarded

end MipsMonitor
