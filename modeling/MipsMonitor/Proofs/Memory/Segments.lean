import MipsMonitor.Machine.Basic

/-!
# Segments and mirrors

Addresses as numbers. Taking the segment off an address subtracts `80000000` or `A0000000` or
nothing (`Address.toNat_physical`), a cell answers at known distances from the start of its window
(`Cell.IsAt`), and the four bytes of an aligned word lie together in every one of these.

The main statement is `Address.mem_aliases_or_mirrors`. Where a store reaches a byte of an aligned
word through whatever address, the byte of that word that stands where the store begins is either
among the aliases of the address stored to, or the two reach main memory through different ones of
its four copies (`Address.Mirrors`). Segments are therefore looked after by the aliases alone, and
mirrors are not looked after at all.
-/

namespace MipsMonitor

/-- A cell answers at an address without segment. -/
def Cell.IsAt : Cell → Nat → Prop
  | main i, p => p < 0x800000 ∧ p % 0x200000 = i
  | expansion, p => 0x1F000000 ≤ p ∧ p < 0x1F800000
  | scratchpad i, p => p = 0x1F800000 + i
  | port i, p => p = 0x1F801000 + i
  | rom i, p => p = 0x1FC00000 + i
  | cacheControl i, p => p = 0xFFFE0000 + i

namespace Address

/-- A cell answers where the map finds it. -/
theorem isAt_of_physicalCell? {p : Nat} {c : Cell} (h : physicalCell? p = some c) : c.IsAt p := by
  unfold physicalCell? at h
  split at h
  · next hp => cases h; exact ⟨hp, rfl⟩
  split at h
  · next hp => cases h; exact hp
  split at h
  · cases h; simp only [Cell.IsAt]; omega
  split at h
  · cases h; simp only [Cell.IsAt]; omega
  split at h
  · cases h; simp only [Cell.IsAt]; omega
  split at h
  · cases h; simp only [Cell.IsAt]; omega
  · cases h

/-- The address without its segment, by the segment. -/
theorem toNat_physical (a : Word) :
    a.toNat / 0x20000000 = 4 ∧ (physical a).toNat = a.toNat - 0x80000000 ∨
      a.toNat / 0x20000000 = 5 ∧ (physical a).toNat = a.toNat - 0xA0000000 ∨
      a.toNat / 0x20000000 ≠ 4 ∧ a.toNat / 0x20000000 ≠ 5 ∧ (physical a).toNat = a.toNat := by
  -- The segment is the top three bits, and a mask keeps all that is below it.
  have hseg (n : Word) : a >>> 29 = n ↔ a.toNat / 0x20000000 = n.toNat := by
    rw [← UInt32.toNat_inj, UInt32.toNat_shiftRight, Nat.shiftRight_eq_div_pow]
    rfl
  have h31 : (a &&& (0x7FFFFFFF : Word)).toNat = a.toNat % 0x80000000 :=
    Nat.and_two_pow_sub_one_eq_mod a.toNat 31
  have h29 : (a &&& (0x1FFFFFFF : Word)).toNat = a.toNat % 0x20000000 :=
    Nat.and_two_pow_sub_one_eq_mod a.toNat 29
  have h32 : (a &&& (0xFFFFFFFF : Word)).toNat = a.toNat % 0x100000000 :=
    Nat.and_two_pow_sub_one_eq_mod a.toNat 32
  have hlt := a.toNat_lt
  simp only [physical, segmentMask, hseg, UInt32.reduceToNat]
  split
  · omega
  · split
    · omega
    · omega

/-- The bytes of an aligned word follow each other. -/
theorem toNat_add_ofNat {x : Word} (hx : x.toNat % 4 = 0) {j : Nat} (hj : j < 4) :
    (x + UInt32.ofNat j).toNat = x.toNat + j := by
  have hlt := x.toNat_lt
  rw [UInt32.toNat_add, UInt32.toNat_ofNat', Nat.mod_eq_of_lt (a := j) (by omega)]
  exact Nat.mod_eq_of_lt (by omega)

/-- Taking the segment off keeps the bytes of an aligned word together. -/
theorem toNat_physical_add {x : Word} (hx : x.toNat % 4 = 0) {j : Nat} (hj : j < 4) :
    (physical (x + UInt32.ofNat j)).toNat = (physical x).toNat + j := by
  have hp := toNat_physical x
  have hq := toNat_physical (x + UInt32.ofNat j)
  rw [toNat_add_ofNat hx hj] at hq
  omega

/-- The segment bits leave the alignment of an address alone. -/
theorem toNat_physical_mod {x : Word} (hx : x.toNat % 4 = 0) : (physical x).toNat % 4 = 0 := by
  have hp := toNat_physical x
  omega

/-- Two addresses reach one byte of main memory through different copies of it. -/
def Mirrors (a b : Word) : Prop :=
  (∃ i, cell? a = some (.main i) ∧ cell? b = some (.main i)) ∧ physical a ≠ physical b

/-- Segments are put on an address by adding them. -/
theorem toNat_or_segment {l : Nat} (hl : l < 0x20000000) (k : Nat) :
    l ||| (0x20000000 * k) = l + 0x20000000 * k := by
  rw [Nat.or_comm, ← Nat.two_pow_add_eq_or_of_lt (i := 29) hl k]
  omega

/-- The aliases of an address below the last segments share its low bits, in the first segment and in
the two that alias it. -/
theorem mem_aliases_iff {a y : Word} :
    y ∈ aliases a ↔ y = a ∨ a.toNat < 0xC0000000 ∧ y.toNat % 0x20000000 = a.toNat % 0x20000000 ∧
      (y.toNat / 0x20000000 = 0 ∨ y.toNat / 0x20000000 = 4 ∨ y.toNat / 0x20000000 = 5) := by
  have hly := y.toNat_lt
  have hla := a.toNat_lt
  -- Both spellings of an address come down to its remainder and the number of its segment.
  have hlow : (a &&& (0x1FFFFFFF : Word)).toNat = a.toNat % 0x20000000 :=
    Nat.and_two_pow_sub_one_eq_mod a.toNat 29
  have h8 : ((a &&& (0x1FFFFFFF : Word)) ||| (0x80000000 : Word)).toNat
      = a.toNat % 0x20000000 + 0x80000000 := by
    rw [UInt32.toNat_or, hlow]
    exact toNat_or_segment (Nat.mod_lt _ (by decide)) 4
  have hA : ((a &&& (0x1FFFFFFF : Word)) ||| (0xA0000000 : Word)).toNat
      = a.toNat % 0x20000000 + 0xA0000000 := by
    rw [UInt32.toNat_or, hlow]
    exact toNat_or_segment (Nat.mod_lt _ (by decide)) 5
  unfold aliases
  simp only [UInt32.le_iff_toNat_le]
  change (_ ∈ if 0xC0000000 ≤ a.toNat then _ else _) ↔ _
  split
  · rw [List.mem_singleton, ← UInt32.toNat_inj]
    omega
  · simp only [List.mem_cons, List.not_mem_nil, or_false, ← UInt32.toNat_inj, hlow, h8, hA]
    omega

/-- Addresses that agree without their segments are aliases. -/
theorem mem_aliases {a y : Word} (h : physical y = physical a) : y ∈ aliases a := by
  have h' := congrArg UInt32.toNat h
  have hpy := toNat_physical y
  have hpa := toNat_physical a
  rw [mem_aliases_iff, ← UInt32.toNat_inj]
  omega

/-- Windows lie in the first segment, in the two that alias it, and at the end of the address
space. -/
theorem segment_of_cell? {a : Word} {c : Cell} (h : cell? a = some c) :
    a.toNat / 0x20000000 = 0 ∨ a.toNat / 0x20000000 = 4 ∨ a.toNat / 0x20000000 = 5 ∨
      0xC0000000 ≤ a.toNat := by
  have hat := isAt_of_physicalCell? h
  have hp := toNat_physical a
  cases c with
  | main i => exact (by have := hat.1; omega)
  | expansion => exact (by have := hat.2; omega)
  | scratchpad i | port i | rom i | cacheControl i =>
    have hi := i.isLt
    simp only [Cell.IsAt] at hat
    omega

/-- Addresses of main memory that agree up to a mirror share their cell. -/
theorem cell?_eq_of_main {a b : Word} (ha : (physical a).toNat < 0x800000)
    (hb : (physical b).toNat < 0x800000)
    (h : (physical a).toNat % 0x200000 = (physical b).toNat % 0x200000) :
    cell? a = cell? b ∧ ∃ i, cell? a = some (.main i) := by
  simp only [cell?, physicalCell?, if_pos ha, if_pos hb, h]
  simp

/-- A store of bytes `k` to `k + i` of the aligned word `w` that reaches byte `j` of the aligned word
`x` is known by its first address to reach byte `k` of `x`, unless it goes through another mirror. -/
theorem mem_aliases_or_mirrors {x w : Word} (hx : x.toNat % 4 = 0) (hw : w.toNat % 4 = 0)
    {j k i : Nat} (hj : j < 4) (hk : k + i < 4) {c : Cell}
    (hc : cell? (x + UInt32.ofNat j) = some c) (hc' : cell? (w + UInt32.ofNat (k + i)) = some c)
    (hwritable : c.isWritable = true) :
    x + UInt32.ofNat k ∈ aliases (w + UInt32.ofNat k) ∨
      Mirrors (x + UInt32.ofNat k) (w + UInt32.ofNat k) := by
  have hat := isAt_of_physicalCell? hc
  have hat' := isAt_of_physicalCell? hc'
  have hpx := toNat_physical_add hx hj
  have hpw := toNat_physical_add hw hk
  have hpxk := toNat_physical_add hx (j := k) (by omega)
  have hpwk := toNat_physical_add hw (j := k) (by omega)
  have hx4 := toNat_physical_mod hx
  have hw4 := toNat_physical_mod hw
  by_cases hmain : ∃ i, c = .main i
  · -- Both words lie at the same place of main memory, if not in the same copy of it.
    obtain ⟨n, rfl⟩ := hmain
    obtain ⟨⟨hlx, hox⟩, hlw, how⟩ := And.intro hat hat'
    obtain ⟨hsame, m, hm⟩ := cell?_eq_of_main (a := x + UInt32.ofNat k) (b := w + UInt32.ofNat k)
      (by omega) (by omega) (by omega)
    by_cases hp : physical (x + UInt32.ofNat k) = physical (w + UInt32.ofNat k)
    · exact .inl (mem_aliases hp)
    · exact .inr ⟨⟨m, hm, hsame ▸ hm⟩, hp⟩
  · -- Every other writable cell has one place without segment.
    have hplace : (physical (x + UInt32.ofNat j)).toNat =
        (physical (w + UInt32.ofNat (k + i))).toNat := by
      cases c with
      | main n => exact absurd ⟨n, rfl⟩ hmain
      | scratchpad n => exact hat.trans hat'.symm
      | port n => exact hat.trans hat'.symm
      | cacheControl n => exact hat.trans hat'.symm
      | expansion => cases hwritable
      | rom n => cases hwritable
    exact .inl (mem_aliases (UInt32.toNat_inj.mp (by omega)))

end Address

end MipsMonitor
