/-!
# Cells

Memory chips: a fixed number of bytes, all zero at first. `get_set` says that a write changes one
cell, `get_overlay` that laying an image over the cells replaces the cells that it covers and no
other.
-/

namespace MipsMonitor

/-- `n` zero bytes, made of two halves and perhaps one byte more. -/
def zeroBytes (n : Nat) : ByteArray :=
  if n = 0 then ByteArray.empty
  else
    let half := zeroBytes (n / 2)
    if n % 2 = 0 then half ++ half else (half ++ half).push 0
termination_by n
decreasing_by omega

/-- The zero bytes as an array. -/
theorem data_zeroBytes (n : Nat) : (zeroBytes n).data = Array.replicate n 0 := by
  fun_induction zeroBytes n with
  | case1 => rfl
  | case2 n _ half heven ih =>
    rw [ByteArray.data_append, ih, Array.replicate_append_replicate]
    congr 1
    omega
  | case3 n _ half hodd ih =>
    rw [ByteArray.data_push, ByteArray.data_append, ih, Array.replicate_append_replicate,
      ← Array.replicate_succ]
    congr 1
    omega

/-- There are as many zero bytes as asked for. -/
theorem size_zeroBytes (n : Nat) : (zeroBytes n).size = n := by
  simp only [ByteArray.size, data_zeroBytes, Array.size_replicate]

/-- A chip of `n` bytes. -/
structure Cells (n : Nat) where
  /-- The bytes. -/
  bytes : ByteArray
  /-- There are as many as the chip has cells. -/
  size_eq : bytes.size = n

namespace Cells

variable {n : Nat}

/-- Chips with the same bytes are the same. -/
@[ext]
theorem ext {c d : Cells n} (h : c.bytes = d.bytes) : c = d := by
  cases c; cases d; cases h; rfl

/-- All cells zero. -/
def zero (n : Nat) : Cells n := ⟨zeroBytes n, size_zeroBytes n⟩

/-- The byte in a cell. -/
def get (c : Cells n) (i : Fin n) : UInt8 :=
  c.bytes.get i.val (by rw [c.size_eq]; exact i.isLt)

/-- The chip with one cell replaced. -/
def set (c : Cells n) (i : Fin n) (b : UInt8) : Cells n where
  bytes := c.bytes.set i.val b (by rw [c.size_eq]; exact i.isLt)
  size_eq := by
    have h := c.size_eq
    simp only [ByteArray.size] at h
    simp only [ByteArray.size, ByteArray.set, Array.size_set, h]

/-- The chip with an image laid over the cells that start at `offset`. -/
def overlay (c : Cells n) (offset : Nat) (image : ByteArray) (fits : offset + image.size ≤ n) :
    Cells n where
  bytes := image.copySlice 0 c.bytes offset image.size
  size_eq := by
    have h := c.size_eq
    simp only [ByteArray.size] at h fits
    simp only [ByteArray.size, ByteArray.copySlice, Array.size_append, Array.size_extract, h]
    omega

/-- The byte at an index is the one that the array has there. -/
theorem get_eq (c : Cells n) (i : Fin n) :
    some (c.get i) = c.bytes.data[i.val]? := by
  have h : i.val < c.bytes.data.size := by
    have h := c.size_eq
    simp only [ByteArray.size] at h
    rw [h]
    exact i.isLt
  exact (Array.getElem?_eq_getElem h).symm

/-- A zeroed chip holds zeros. -/
@[simp, grind =]
theorem get_zero (i : Fin n) : (zero n).get i = 0 := by
  apply Option.some.inj
  rw [get_eq]
  simp only [zero, data_zeroBytes, Array.getElem?_replicate, i.isLt, if_true]

/-- A cell holds what was written to it last. -/
@[simp, grind =]
theorem get_set (c : Cells n) (i j : Fin n) (b : UInt8) :
    (c.set i b).get j = if i = j then b else c.get j := by
  apply Option.some.inj
  rw [get_eq]
  simp only [set, ByteArray.set, Array.getElem?_set, Fin.ext_iff]
  split
  · rfl
  · rw [get_eq]

/-- An image replaces the cells that it covers and no other. -/
theorem get_overlay (c : Cells n) (offset : Nat) (image : ByteArray)
    (fits : offset + image.size ≤ n) (i : Fin n) :
    some ((c.overlay offset image fits).get i) =
      if offset ≤ i ∧ i < offset + image.size then image.data[i.val - offset]?
      else some (c.get i) := by
  have h := c.size_eq
  have hi := i.isLt
  simp only [ByteArray.size] at h fits
  simp only [get_eq, overlay, ByteArray.copySlice, ByteArray.size, Array.getElem?_append,
    Array.size_append, Array.size_extract, Array.getElem?_extract, h]
  grind

end Cells

end MipsMonitor
