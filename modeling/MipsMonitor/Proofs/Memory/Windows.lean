import MipsMonitor.Proofs.Memory.Accesses

/-!
# The table of the memory map

The memory map is documented by a table: each window stands there with the addresses at which it
begins, in the segment without a prefix and in the two segments that alias the low 512 MiB
(`Window.starts`). Decoding strips the segment off an address before anything is known about the
window, so every window answers in both aliasing segments, also where the table leaves a place
empty: the scratchpad is listed twice and answers three times (`Address.in_iff_lists`).

`Ram.answers_iff` compares the two over all addresses. Outside of that one place, which is
`Address.Stray`, memory answers exactly the addresses that the table lists, and all others are
unmapped for reads and for writes. At a stray address the byte of the scratchpad answers that the
cached segment reaches.

Windows that lie side by side answer without a gap between them. There is one such pair, and how far
it goes bounds every loop that reads word after word until it fails (`Address.exists_unmapped`).
-/

namespace MipsMonitor

open ByteMemory

namespace Window

/-- The addresses at which a window begins, as the table has them. -/
def starts : Window → List Nat
  | main => [0x00000000, 0x80000000, 0xA0000000]
  | expansion => [0x1F000000, 0x9F000000, 0xBF000000]
  | scratchpad => [0x1F800000, 0x9F800000]
  | ports => [0x1F801000, 0x9F801000, 0xBF801000]
  | rom => [0x1FC00000, 0x9FC00000, 0xBFC00000]
  | cacheControl => [0xFFFE0000]

/-- The table lists an address under a window. -/
def Lists (w : Window) (a : Word) : Prop := ∃ s ∈ w.starts, s ≤ a.toNat ∧ a.toNat < s + w.size

end Window

namespace Address

/-- The table lists an address. -/
def Listed (a : Word) : Prop := ∃ w : Window, w.Lists a

/-- The scratchpad through the uncached segment, a place that the table leaves empty. -/
def Stray (a : Word) : Prop := 0xBF800000 ≤ a.toNat ∧ a.toNat < 0xBF800400

variable {a : Word} {w : Window}

/-- A window answers where the table lists it, and the scratchpad at one more place. -/
theorem in_iff_lists : In a w ↔ w.Lists a ∨ (w = .scratchpad ∧ Stray a) := by
  have hp := toNat_physical a
  have hlt := a.toNat_lt
  unfold In Window.Lists Stray
  cases w <;>
    simp only [Window.first, Window.size, Window.starts, List.mem_cons, List.not_mem_nil, or_false,
      exists_eq_or_imp, exists_eq_left, reduceCtorEq, false_and, true_and] <;>
    omega

/-- Some window answers exactly where the table lists the address, or at the stray place. -/
theorem exists_in_iff : (∃ w, In a w) ↔ Listed a ∨ Stray a := by
  simp only [in_iff_lists, Listed, exists_or, exists_eq_left]

/-- The stray place is not listed. -/
theorem not_listed_of_stray (h : Stray a) : ¬Listed a := by
  rintro ⟨w, hw⟩
  unfold Window.Lists at hw
  unfold Stray at h
  cases w <;>
    simp only [Window.size, Window.starts, List.mem_cons, List.not_mem_nil, or_false,
      exists_eq_or_imp, exists_eq_left] at hw <;>
    omega

/-- A stray address differs from one of the cached segment by the segment alone. -/
theorem physical_of_stray (h : Stray a) : physical (a - 0x20000000) = physical a := by
  unfold Stray at h
  have hle : (0x20000000 : Word) ≤ a := by
    rw [UInt32.le_iff_toNat_le]
    change 0x20000000 ≤ a.toNat
    omega
  have hsub : (a - 0x20000000).toNat = a.toNat - 0x20000000 := UInt32.toNat_sub_of_le _ _ hle
  have hp := toNat_physical a
  have hq := toNat_physical (a - 0x20000000)
  rw [← UInt32.toNat_inj]
  omega

/-! ## Stretches -/

/-- The words of the longest stretch of addresses that windows answer without a gap: those of the
expansion port and of the scratchpad behind it. -/
def longestStretch : Nat := (Window.expansion.size + Window.scratchpad.size) / 4

/-- The address of a word behind another one. -/
def nthWord (a : Word) (k : Nat) : Word := a + 4 * UInt32.ofNat k

/-- The first word is where the words begin. -/
@[simp] theorem nthWord_zero (a : Word) : nthWord a 0 = a := UInt32.add_zero a

/-- The next word is four bytes further. -/
theorem nthWord_succ (a : Word) (k : Nat) : nthWord a (k + 1) = nthWord a k + 4 := by
  unfold nthWord
  rw [UInt32.ofNat_add, UInt32.mul_add, ← UInt32.add_assoc]
  rfl

/-- The next word is the one that as many words follow from the second one on. -/
theorem nthWord_succ_left (a : Word) (k : Nat) : nthWord a (k + 1) = nthWord (a + 4) k := by
  rw [nthWord_succ, nthWord, nthWord, UInt32.add_assoc, UInt32.add_assoc,
    UInt32.add_comm (4 * UInt32.ofNat k)]

/-- The address of a word as a number. -/
theorem toNat_nthWord (a : Word) (k : Nat) : (nthWord a k).toNat = (a.toNat + 4 * k) % 4294967296 := by
  rw [nthWord, UInt32.toNat_add, UInt32.toNat_mul, UInt32.toNat_ofNat']
  simp only [UInt32.reduceToNat]
  omega

/-- The end of the stretch that a window is part of, without a segment. Behind every window there is
a gap but behind the expansion port. -/
def stretchEnd : Window → Nat
  | .expansion => Window.scratchpad.first + Window.scratchpad.size
  | w => w.first + w.size

/-- Up to the end of a stretch neither a segment nor the address space ends. -/
theorem toNat_physical_nthWord {a : Word} {w : Window} {k : Nat} (hw : In a w)
    (hk : (physical a).toNat + 4 * k < stretchEnd w + 4) :
    (physical (nthWord a k)).toNat = (physical a).toNat + 4 * k := by
  have hp := toNat_physical a
  have hq := toNat_physical (nthWord a k)
  rw [toNat_nthWord] at hq
  have hlt := a.toNat_lt
  unfold In at hw
  cases w <;> simp only [stretchEnd, Window.first, Window.size] at hw hk <;> omega

/-- Right behind a stretch no window answers. -/
theorem not_in_behind {b : Word} {w : Window} (hfirst : stretchEnd w ≤ (physical b).toNat)
    (hlast : (physical b).toNat < stretchEnd w + 4) : ¬∃ w', In b w' := by
  rintro ⟨w', hw'⟩
  unfold In at hw'
  cases w <;> simp only [stretchEnd, Window.first, Window.size] at hfirst hlast <;>
    cases w' <;> simp only [Window.first, Window.size] at hw' <;> omega

/-- No stretch is longer than the longest one: within so many words from any address there is one that
no window answers. -/
theorem exists_unmapped (a : Word) : ∃ k ≤ longestStretch, ¬∃ w, In (nthWord a k) w := by
  by_cases h : ∃ w, In a w
  · obtain ⟨w, hw⟩ := h
    have hend : (physical a).toNat < stretchEnd w ∧
        stretchEnd w ≤ (physical a).toNat + 4 * longestStretch := by
      unfold In at hw
      cases w <;> simp only [stretchEnd, longestStretch, Window.first, Window.size] at hw ⊢ <;> omega
    -- The first word behind the end of the stretch; it may begin up to three bytes behind it.
    obtain ⟨k, hfirst, hlast⟩ : ∃ k, stretchEnd w ≤ (physical a).toNat + 4 * k ∧
        (physical a).toNat + 4 * k < stretchEnd w + 4 :=
      ⟨(stretchEnd w - (physical a).toNat + 3) / 4, by omega, by omega⟩
    have hplace := toNat_physical_nthWord hw hlast
    refine ⟨k, by omega, not_in_behind (w := w) ?_ ?_⟩
    · rwa [hplace]
    · rwa [hplace]
  · exact ⟨0, Nat.zero_le _, by rwa [nthWord_zero]⟩

/-- From the first address of the expansion port on, the longest stretch is answered. -/
theorem in_stretch {k : Nat} (h : k < longestStretch) : ∃ w, In (nthWord 0x1F000000 k) w := by
  have hk : k < 2097408 := h
  have hp := toNat_physical (nthWord 0x1F000000 k)
  rw [toNat_nthWord] at hp
  simp only [UInt32.reduceToNat] at hp
  by_cases hport : k < 0x200000
  · exact ⟨.expansion, by unfold In; simp only [Window.first, Window.size]; omega⟩
  · exact ⟨.scratchpad, by unfold In; simp only [Window.first, Window.size]; omega⟩

end Address

namespace Ram

open Address

variable {r : Ram} {a : Word}

/-- A byte is read where some window has the address. -/
theorem readByte_isOk_iff : (∃ b, readByte r a = .ok b) ↔ ∃ w, In a w := by
  rw [readByte_eq]
  cases hc : cell? a with
  | none =>
    have hno : ¬∃ w, In a w := fun ⟨w, hw⟩ => by
      obtain ⟨c, hsome, _⟩ := exists_cell? hw
      cases hc.symm.trans hsome
    simp only [hno, reduceCtorEq, exists_false]
  | some c => exact ⟨fun _ => ⟨_, in_window hc⟩, fun _ => ⟨_, rfl⟩⟩

/-- Where no window has the address, reading says so. -/
theorem readByte_eq_unmapped_iff : readByte r a = .error (.unmapped a) ↔ ¬∃ w, In a w := by
  rw [← readByte_isOk_iff (r := r), readByte_eq]
  cases cell? a <;> simp

/-- An address that a write reports as unmapped is in no window, whichever byte was refused. -/
theorem not_in_of_writeBytes {x : Word} {bs : List UInt8} {r' : Ram}
    (h : writeBytes x bs r = .error (.unmapped a) r') : ¬∃ w, In a w := by
  induction bs generalizing x r with
  | nil => cases h
  | cons b bs ih =>
    unfold writeBytes at h
    cases hrefusal : refusal? r x with
    | none =>
      rw [hrefusal] at h
      exact ih h
    | some e =>
      rw [hrefusal] at h
      obtain ⟨rfl, _⟩ := EStateM.Result.error.inj h
      -- An unmapped byte is refused for that reason only.
      obtain ⟨hax, hno⟩ | ⟨hax, _⟩ := refusal?_eq_some_iff.mp hrefusal
      · cases hax
        exact not_exists.mpr hno
      · cases hax

/-- Where no window has the address, writing says so and leaves memory alone. -/
theorem writeBytes_eq_unmapped_iff {b : UInt8} {bs : List UInt8} :
    writeBytes a (b :: bs) r = .error (.unmapped a) r ↔ ¬∃ w, In a w := by
  constructor
  · exact not_in_of_writeBytes
  · intro hno
    have hrefusal : refusal? r a = some (.unmapped a) :=
      refusal?_eq_some_iff.mpr (.inl ⟨rfl, not_exists.mp hno⟩)
    rw [writeBytes, hrefusal]

/-- At a stray address the scratchpad is read and written. -/
theorem accesses_of_stray (h : Stray a) :
    readByte r a = readByte r (a - 0x20000000) ∧ ∀ b, ∃ r', writeBytes a [b] r = .ok () r' := by
  obtain ⟨c, hc, hwindow⟩ := exists_cell? (in_iff_lists.mpr (.inr ⟨rfl, h⟩))
  obtain ⟨i, rfl⟩ : ∃ i, c = .scratchpad i := by
    cases c with
    | scratchpad i => exact ⟨i, rfl⟩
    | main | expansion | port | rom | cacheControl => cases hwindow
  have hcached : cell? (a - 0x20000000) = some (.scratchpad i) := by
    rw [← hc, cell?, cell?, physical_of_stray h]
  have hrefusal : refusal? r a = none := by
    refine Address.refusal?_eq_none.mpr ?_
    rw [hc]
    rfl
  refine ⟨by rw [readByte_eq, readByte_eq, hc, hcached], fun b => ⟨put r a b, ?_⟩⟩
  rw [writeBytes, hrefusal, writeBytes]

/-- Memory answers exactly the addresses that the table lists, and besides them the 1024 addresses
of the scratchpad in the uncached segment. Every other address is unmapped, for reads and for
writes, and in whatever state the memory is. -/
theorem answers_iff (r : Ram) (a : Word) :
    ((∃ b, readByte r a = .ok b) ↔ Listed a ∨ Stray a) ∧
    (readByte r a = .error (.unmapped a) ↔ ¬(Listed a ∨ Stray a)) ∧
    (∀ b bs, writeBytes a (b :: bs) r = .error (.unmapped a) r ↔ ¬(Listed a ∨ Stray a)) ∧
    (Stray a → ¬Listed a ∧ readByte r a = readByte r (a - 0x20000000) ∧
      ∀ b, ∃ r', writeBytes a [b] r = .ok () r') := by
  refine ⟨?_, ?_, fun b bs => ?_, fun hstray =>
    ⟨not_listed_of_stray hstray, accesses_of_stray hstray⟩⟩
  · rw [readByte_isOk_iff, exists_in_iff]
  · rw [readByte_eq_unmapped_iff, exists_in_iff]
  · rw [writeBytes_eq_unmapped_iff, exists_in_iff]

/-- The table leaves the first stray address out, and blank memory answers it with zero. -/
theorem stray_answered : ¬Listed 0xBF800000 ∧ readByte blank 0xBF800000 = .ok 0 := by
  have hstray : Stray 0xBF800000 := ⟨by decide, by decide⟩
  refine ⟨not_listed_of_stray hstray, ?_⟩
  change Except.ok (Cells.get (.zero 0x400) 0) = .ok 0
  rw [Cells.get_zero]

end Ram

end MipsMonitor
