import MipsMonitor.Proofs.Guarded.Memory

/-!
# Memory as a map over cells

Memory answers an address by what the address designates, and by nothing else. `Window` states the
memory map as a table of ranges, and `Address.SameCell` says by arithmetic alone when two addresses
designate the same byte: main memory repeats every 2 MiB, everywhere else the addresses have to
agree without their segments. `Ram.accesses_by_cell` describes every access in these terms. A byte
that is written is read back at all addresses of its cell and at no others, and is refused exactly
where there is none or where it cannot be replaced; a half or a word that is written is read back as
a whole, at any address.

Halves and words are written byte by byte. That a later byte does not fall on an earlier one is
`Address.not_sameCell_add`: neither a mirror nor the end of the address space brings an address back
to a cell within 2 MiB. So each byte is still in place when the last one is written
(`Ram.readByte_writeBytes`).
-/

namespace MipsMonitor

open ByteMemory

/-- A range of addresses, without their segments, that something answers. -/
inductive Window where
  /-- Main memory, four times in a row. -/
  | main
  /-- The expansion port. -/
  | expansion
  /-- The scratchpad. -/
  | scratchpad
  /-- The hardware ports. -/
  | ports
  /-- The boot ROM. -/
  | rom
  /-- The cache control registers. -/
  | cacheControl

namespace Window

/-- The first address. -/
def first : Window → Nat
  | main => 0
  | expansion => 0x1F000000
  | scratchpad => 0x1F800000
  | ports => 0x1F801000
  | rom => 0x1FC00000
  | cacheControl => 0xFFFE0000

/-- The number of addresses. -/
def size : Window → Nat
  | main => 4 * 0x200000
  | expansion => 0x800000
  | scratchpad => 0x400
  | ports => 0x2000
  | rom => 0x80000
  | cacheControl => 0x200

/-- Nothing can be written there. -/
def IsReadOnly : Window → Prop
  | expansion | rom => True
  | main | scratchpad | ports | cacheControl => False

end Window

/-- The window that a cell belongs to. -/
def Cell.window : Cell → Window
  | main _ => .main
  | expansion => .expansion
  | scratchpad _ => .scratchpad
  | port _ => .ports
  | rom _ => .rom
  | cacheControl _ => .cacheControl

namespace Address

/-- An address lies in a window. -/
def In (a : Word) (w : Window) : Prop :=
  w.first ≤ (physical a).toNat ∧ (physical a).toNat < w.first + w.size

/-- Two addresses designate the same byte, if they designate one at all. -/
def SameCell (a b : Word) : Prop :=
  (In a .main ∧ In b .main ∧ (physical a).toNat % 0x200000 = (physical b).toNat % 0x200000) ∨
    (¬(In a .main ∧ In b .main) ∧ physical a = physical b)

instance (a : Word) (w : Window) : Decidable (In a w) := inferInstanceAs (Decidable (_ ∧ _))

instance (a b : Word) : Decidable (SameCell a b) := inferInstanceAs (Decidable (_ ∨ _))

variable {a b : Word} {c : Cell}

/-- An address lies in main memory if it is physically below eight megabytes. -/
theorem in_main_iff : In a .main ↔ (physical a).toNat < 0x800000 := by
  simp only [In, Window.first, Window.size]
  omega

/-- A cell answers in its window. -/
theorem in_window (h : cell? a = some c) : In a c.window := by
  have hat := isAt_of_physicalCell? h
  cases c with
  | main i => exact in_main_iff.mpr hat.1
  | expansion =>
    simp only [Cell.IsAt] at hat
    simp only [In, Cell.window, Window.first, Window.size]
    omega
  | scratchpad i | port i | rom i | cacheControl i =>
    have hi := i.isLt
    simp only [Cell.IsAt] at hat
    simp only [In, Cell.window, Window.first, Window.size]
    omega

/-- In every window there is a cell. -/
theorem exists_cell? {w : Window} (h : In a w) : ∃ c, cell? a = some c ∧ c.window = w := by
  unfold In at h
  unfold cell? physicalCell?
  -- The windows do not overlap, so the one that the address lies in decides every test of the map.
  cases w <;> simp only [Window.first, Window.size] at h <;> repeat' split
  all_goals first | (exfalso; omega) | exact ⟨_, rfl, rfl⟩

/-- An address lies in the window of its cell. -/
theorem in_iff {w : Window} (h : cell? a = some c) : In a w ↔ c.window = w := by
  constructor
  · intro hin
    obtain ⟨d, hd, hw⟩ := exists_cell? hin
    obtain rfl : c = d := Option.some.inj (h.symm.trans hd)
    exact hw
  · rintro rfl
    exact in_window h

/-- Why a byte cannot be written, by the window of its address. -/
theorem refusal?_eq_some_iff {e : MemoryError} :
    refusal? a = some e ↔ (e = .unmapped a ∧ ∀ w, ¬In a w) ∨
      (e = .readOnly a ∧ ∃ w, w.IsReadOnly ∧ In a w) := by
  unfold refusal?
  cases hc : cell? a with
  | none =>
    have hno (w : Window) : ¬In a w := fun hw => by
      obtain ⟨c, hsome, _⟩ := exists_cell? hw
      cases hc.symm.trans hsome
    simp only [hno, Option.some.injEq, not_false_iff, implies_true, and_true, and_false,
      exists_false, or_false, eq_comm]
  | some c =>
    simp only [in_iff hc, exists_eq_right']
    cases c <;> simp [Cell.isWritable, Cell.window, Window.IsReadOnly, eq_comm]

/-- An address is of the same cell as itself. -/
theorem sameCell_refl (a : Word) : SameCell a a := by
  by_cases h : In a .main
  · exact .inl ⟨h, h, rfl⟩
  · exact .inr ⟨fun hmain => h hmain.1, rfl⟩

/-- Two addresses designate the same writable cell if the arithmetic says so. -/
theorem cell?_eq_some_iff (h : cell? a = some c) (hwritable : c.isWritable = true) :
    cell? b = some c ↔ SameCell a b := by
  constructor
  · intro hb
    have hat := isAt_of_physicalCell? h
    have hat' := isAt_of_physicalCell? hb
    -- Main memory is mirrored, and every other cell has one address in each segment.
    cases c with
    | main i => exact .inl ⟨in_window h, in_window hb, hat.2.trans hat'.2.symm⟩
    | expansion => cases hwritable
    | rom i => cases hwritable
    | scratchpad i | port i | cacheControl i =>
      have hno : ¬In a .main := fun hmain => by cases (in_iff h).mp hmain
      exact .inr ⟨fun hmain => hno hmain.1, UInt32.toNat_inj.mp (hat.trans hat'.symm)⟩
  · rintro (⟨ha, hb, hmod⟩ | ⟨_, heq⟩)
    · rw [← (cell?_eq_of_main (in_main_iff.mp ha) (in_main_iff.mp hb) hmod).1, h]
    · unfold cell? at h ⊢
      rw [← heq, h]

/-- A segment and a mirror lie between two addresses of one byte of main memory. -/
example : SameCell 0x80000004 0xA0200004 := by decide

/-- Bytes that are written together fall on different cells. -/
theorem not_sameCell_add (a : Word) {i : Nat} (hpos : 0 < i) (hi : i < 0x200000) :
    ¬SameCell (a + UInt32.ofNat i) a := by
  have hsum : (a + UInt32.ofNat i).toNat = (a.toNat + i) % 4294967296 := by
    rw [UInt32.toNat_add, UInt32.toNat_ofNat', Nat.add_mod_mod]
  have hp := toNat_physical a
  have hq := toNat_physical (a + UInt32.ofNat i)
  have hlt := a.toNat_lt
  rw [hsum] at hq
  -- Where a segment or the address space ends there is no main memory, and within a segment the two
  -- are less than a mirror apart.
  unfold SameCell In
  rw [← UInt32.toNat_inj]
  simp only [Window.first, Window.size]
  omega

end Address

/-- Bytes that are found one by one are read together. -/
theorem ByteMemory.readBytes_run {μ : Type} [ByteMemory μ] {m : μ} {a : Word} {bs : List UInt8}
    (h : ∀ i (hi : i < bs.length), readByte m (a + UInt32.ofNat i) = .ok bs[i]) :
    readBytes m (Address.run a bs.length) = .ok bs := by
  induction bs generalizing a with
  | nil => rfl
  | cons b bs ih =>
    have hfirst : readByte m a = .ok b := by
      rw [← show a + UInt32.ofNat 0 = a from UInt32.add_zero a]
      exact h 0 (Nat.succ_pos _)
    have hrest : readBytes m (Address.run (a + 1) bs.length) = .ok bs := ih fun i hi => by
      rw [← Address.add_ofNat_succ]
      exact h (i + 1) (Nat.succ_lt_succ hi)
    unfold readBytes at hrest ⊢
    rw [List.length_cons, Address.run_succ, List.mapM_cons, hfirst, hrest]
    rfl

/-- The low half of a word is spelled by its bytes. -/
theorem Word.ofBytes_halfToBytes (v : UInt16) : ofBytes (halfToBytes v.toUInt32) = v.toUInt32 := by
  apply UInt32.toNat_inj.mp
  have hv := v.toNat_lt
  simp only [halfToBytes, ofBytes, UInt32.toNat_add, UInt32.toNat_mul, UInt8.toNat_toUInt32,
    UInt32.toNat_toUInt8, UInt32.toNat_shiftRight, UInt32.toNat_ofNat, UInt16.toNat_toUInt32,
    Nat.shiftRight_eq_div_pow]
  simp only [Nat.reduceMod, Nat.reducePow] at *
  omega

/-- Reading for the host leaves memory as it is. -/
theorem Core.view?_peek (addresses : List Word) (c : Core) :
    Leads (fun c' => c'.view? = c.view?) (Core.peek addresses c) := by
  have hnote (entries : List Entry) : (c.note entries).view? = c.view? := by
    unfold Core.note
    split <;> rfl
  unfold Core.peek Core.readFrom
  split
  · exact rfl
  · dsimp only
    split <;> exact hnote _

namespace Ram

open Address

variable {a : Word}

/-- A byte that is written is what is read at all addresses of its cell. -/
theorem readByte_put (h : Address.refusal? a = none) (v : UInt8) (r : Ram) (b : Word) :
    readByte (put r a v) b = if SameCell a b then .ok v else readByte r b := by
  obtain ⟨c, hc, hwritable⟩ := Option.map_eq_some_iff.mp (Address.refusal?_eq_none.mp h)
  have hput : put r a v = r.set c v := by simp only [put, hc]
  rw [hput, readByte_eq, readByte_eq]
  cases hb : cell? b with
  | none =>
    have hother : ¬SameCell a b := fun hsame => by
      cases hb.symm.trans ((cell?_eq_some_iff hc hwritable).mpr hsame)
    rw [if_neg hother]
  | some d =>
    have hsame : SameCell a b ↔ c = d := by
      rw [← cell?_eq_some_iff hc hwritable, hb, Option.some.injEq, eq_comm]
    simp only [get_set, hwritable, and_true, hsame]
    split <;> rfl

/-- Bytes that are written are read back, and nothing else changes. -/
theorem readByte_writeBytes {bs : List UInt8} {r r' : Ram} (hlen : bs.length ≤ 0x200000)
    (h : writeBytes a bs r = .ok () r') :
    (∀ i (hi : i < bs.length), readByte r' (a + UInt32.ofNat i) = .ok bs[i]) ∧
      ∀ b, (∀ i < bs.length, ¬SameCell (a + UInt32.ofNat i) b) → readByte r' b = readByte r b := by
  induction bs generalizing a r with
  | nil =>
    cases h
    exact ⟨fun i hi => absurd hi (Nat.not_lt_zero i), fun _ _ => rfl⟩
  | cons v bs ih =>
    rw [List.length_cons] at hlen
    have hzero : a + UInt32.ofNat 0 = a := UInt32.add_zero a
    unfold writeBytes at h
    cases hrefusal : refusal? r a with
    | some e =>
      rw [hrefusal] at h
      cases h
    | none =>
      rw [hrefusal] at h
      obtain ⟨hvalues, hframe⟩ := ih (Nat.le_of_succ_le hlen) h
      have hbyte := readByte_put hrefusal v r
      refine ⟨fun i hi => ?_, fun b hb => ?_⟩
      · cases i with
        | zero =>
          -- The bytes that follow fall on other cells.
          have hlater : readByte r' a = readByte (put r a v) a := hframe a fun i hi => by
            rw [← add_ofNat_succ]
            exact not_sameCell_add a (Nat.succ_pos i) (by omega)
          rw [hzero, hlater, hbyte, if_pos (sameCell_refl a)]
          rfl
        | succ i =>
          rw [add_ofNat_succ]
          exact hvalues i (Nat.lt_of_succ_lt_succ hi)
      · have hfirst : ¬SameCell a b := hzero ▸ hb 0 (Nat.succ_pos _)
        have hrest := hframe b fun i hi => by
          rw [← add_ofNat_succ]
          exact hb (i + 1) (Nat.succ_lt_succ hi)
        rw [hrest, hbyte, if_neg hfirst]

/-- A byte is refused where there is none, or where it cannot be replaced, and nothing changes. -/
theorem writeByte_eq_error_iff {v : UInt8} {r r' : Ram} {e : MemoryError} :
    writeBytes a [v] r = .error e r' ↔ r' = r ∧ ((e = .unmapped a ∧ ∀ w, ¬In a w) ∨
      (e = .readOnly a ∧ ∃ w, w.IsReadOnly ∧ In a w)) := by
  have hrefusal : refusal? r a = Address.refusal? a := rfl
  rw [← refusal?_eq_some_iff, writeBytes, hrefusal]
  cases Address.refusal? a with
  | none => simp [writeBytes]
  | some e' => simp [eq_comm, and_comm]

/-- Behind a write, the cell holds the byte, and all others hold what they did. -/
theorem readByte_writeByte {v : UInt8} {r r' : Ram} (h : writeBytes a [v] r = .ok () r')
    (b : Word) : readByte r' b = if SameCell a b then .ok v else readByte r b := by
  unfold writeBytes at h
  cases hrefusal : refusal? r a with
  | some e =>
    rw [hrefusal] at h
    cases h
  | none =>
    rw [hrefusal] at h
    cases h
    exact readByte_put hrefusal v r b

/-- Memory is a map over the cells that addresses designate. Whatever it holds, no access breaks
off, reading changes nothing, and writing a byte fails just where no window has the address or the
window cannot be written. A byte that is written is read at every address of the same cell, and all
others stay as they were. A half or a word that is written is read back from the same address,
aligned or not, and no cells but those of its bytes change. -/
theorem accesses_by_cell (r : Ram) (a : Word) :
    (∀ n, Guarded.readBytes (Guarded.readRam r) (run a n) = .ok (readBytes r (run a n))) ∧
    (∀ bs, (Guarded.writeBytes a bs).Agrees (writeBytes a bs) (.direct r)) ∧
    (∀ n c, Leads (fun c' => c'.view? = c.view?) (Core.peek (run a n) c)) ∧
    (∀ v e r', writeBytes a [v] r = .error e r' ↔ r' = r ∧ ((e = .unmapped a ∧ ∀ w, ¬In a w) ∨
      (e = .readOnly a ∧ ∃ w, w.IsReadOnly ∧ In a w))) ∧
    (∀ v r', writeBytes a [v] r = .ok () r' →
      ∀ b, readByte r' b = if SameCell a b then .ok v else readByte r b) ∧
    (∀ (v : UInt16) r', writeBytes a (Word.halfToBytes v.toUInt32) r = .ok () r' →
      readNumber r' (run a 2) = .ok v.toUInt32 ∧
        ∀ b, (∀ i < 2, ¬SameCell (a + UInt32.ofNat i) b) → readByte r' b = readByte r b) ∧
    ∀ (v : Word) r', writeBytes a v.toBytes r = .ok () r' →
      readWord r' a = .ok v ∧
        ∀ b, (∀ i < 4, ¬SameCell (a + UInt32.ofNat i) b) → readByte r' b = readByte r b := by
  refine ⟨fun n => Guarded.readBytes_eq r (Guarded.readRam_eq r) _,
    fun bs => Guarded.writeBytes_agrees a bs _, fun n c => Core.view?_peek _ c,
    fun v e r' => writeByte_eq_error_iff, fun v r' => readByte_writeByte, fun v r' h => ?_,
    fun v r' h => ?_⟩
  -- So few bytes lie in cells of their own, and each of them is read back.
  · have hlen : (Word.halfToBytes v.toUInt32).length ≤ 0x200000 := Nat.le_of_ble_eq_true rfl
    obtain ⟨hvalues, hframe⟩ := readByte_writeBytes hlen h
    have hread : readBytes r' (run a 2) = .ok (Word.halfToBytes v.toUInt32) := readBytes_run hvalues
    refine ⟨?_, hframe⟩
    rw [readNumber, hread]
    exact congrArg Except.ok (Word.ofBytes_halfToBytes v)
  · have hlen : v.toBytes.length ≤ 0x200000 := Nat.le_of_ble_eq_true rfl
    obtain ⟨hvalues, hframe⟩ := readByte_writeBytes hlen h
    have hread : readBytes r' (run a 4) = .ok v.toBytes := readBytes_run hvalues
    refine ⟨?_, hframe⟩
    rw [readWord, readNumber, hread]
    exact congrArg Except.ok (Word.ofBytes_toBytes v)

end Ram

end MipsMonitor
