import MipsMonitor.Machine.Basic

/-!
# Power-on

What a reset leaves in main memory is an image laid over zeros. Spelled out as a list it can be
evaluated from its start, a byte at a time (`Cells.overlay_zero`), so that a statement about the
run of a small program from power-on is decided by computation (`Machine.powerOn_eq`).
-/

namespace MipsMonitor

namespace Cells

variable {n : Nat}

/-- A chip that holds an image between zeros. -/
def around (offset : Nat) (image : ByteArray) (fits : offset + image.size ≤ n) : Cells n where
  bytes :=
    ⟨⟨List.replicate offset 0 ++ image.data.toList ++
      List.replicate (n - (offset + image.size)) 0⟩⟩
  size_eq := by
    simp only [ByteArray.size] at fits ⊢
    simp only [List.size_toArray, List.length_append, List.length_replicate, Array.length_toList]
    omega

/-- An image laid over zeros stands between zeros. -/
theorem overlay_zero (offset : Nat) (image : ByteArray) (fits : offset + image.size ≤ n) :
    (zero n).overlay offset image fits = around offset image fits := by
  apply Cells.ext
  apply ByteArray.ext
  apply Array.ext'
  simp only [ByteArray.size] at fits
  simp only [overlay, zero, around, ByteArray.copySlice, ByteArray.size, data_zeroBytes,
    Array.toList_append, Array.toList_extract, Array.toList_replicate, Array.size_replicate,
    List.extract_eq_take_drop, List.drop_replicate, List.take_replicate, List.drop_zero,
    Nat.zero_add, Nat.sub_zero]
  rw [Nat.min_self, Nat.min_self, Nat.min_eq_left (by omega),
    List.take_of_length_le (Nat.le_of_eq Array.length_toList)]

end Cells

/-- Memory at power-on with one image in main memory. -/
def Ram.withImage (image : Image) : Ram :=
  { Ram.blank with main := .around image.offset image.bytes image.fits, images := [image] }

/-- A reset of memory that has one image leaves it there between zeros. -/
theorem Ram.reset_image (image : Image) (sink? : Option Sink) :
    Ram.reset { Ram.blank with images := [image], sink? } =
      { Ram.withImage image with sink? } := by
  simp only [reset, replay, List.foldl_cons, List.foldl_nil, Cells.overlay_zero, withImage]
  rfl

namespace Machine

variable {σ : Type}

/-- A machine at power-on with an image in main memory. -/
def powerOn (image : Image) (context : σ) : Machine σ :=
  reset (.direct { Ram.blank with images := [image] }) (.detached .standard context)

/-- What power-on leaves, spelled out. -/
theorem powerOn_eq (image : Image) (context : σ) : powerOn image context =
    ⟨⟨{ Core.detached .standard with
        registers := .atReset
        view? := some (.direct { Ram.withImage image with sink? := some .standard }) }, context⟩,
      ∅, none⟩ := by
  simp only [powerOn, reset, detached, Core.reset, ByteMemory.resetNotes, ByteMemory.withSink,
    ByteMemory.reset]
  rw [Ram.reset_image]
  rfl

end Machine

end MipsMonitor
