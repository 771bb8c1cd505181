import Mathlib.Data.List.Basic
import MipsMonitor.Machine.Effect
import MipsMonitor.Proofs.Guarded.Functions
import MipsMonitor.Proofs.Machine.Storing
import MipsMonitor.Proofs.Memory.Accesses

/-!
# Bytes of words

Filling a word from above or below takes whole bytes of another word, moved by a number of places
(`Word.byte_fillHigh`, `Word.byte_fillLow`). A word is read at an address, aligned or not, if its
bytes are found there one after the other (`ByteMemory.readWord_eq_ok_iff`), and a word that is
stored replaces these bytes and no other one (`View.exists_writeBytes`).
-/

namespace MipsMonitor

namespace Word

/-- The byte at a place of a word, counted from the lowest one. -/
def byte (w : Word) (j : Nat) : UInt8 := (w >>> (8 * UInt32.ofNat j)).toUInt8

variable {w old new : Word} {j m : Nat}

/-- A number of bytes below four, as an amount of bits. -/
theorem toNat_amount (h : m < 4) : ((8 * UInt32.ofNat m).toBitVec % 32).toNat = 8 * m := by
  decide +revert

/-- The bits of a byte are those of the word, from its place on. -/
theorem getLsbD_byte (hj : j < 4) {i : Nat} (hi : i < 8) :
    (byte w j).toBitVec.getLsbD i = w.toBitVec.getLsbD (8 * j + i) := by
  simp only [byte, UInt32.toBitVec_toUInt8, UInt32.toBitVec_shiftRight, BitVec.getLsbD_setWidth,
    BitVec.ushiftRight_eq', BitVec.getLsbD_ushiftRight, toNat_amount hj, hi, decide_true,
    Bool.true_and]

/-- Bytes are equal if their bits are. -/
theorem byte_eq_of_getLsbD {b b' : UInt8}
    (h : ∀ i < 8, b.toBitVec.getLsbD i = b'.toBitVec.getLsbD i) : b = b' :=
  UInt8.toBitVec_inj.mp (BitVec.eq_of_getLsbD_eq h)

/-- The word of all ones as a vector of bits. -/
theorem toBitVec_ones : (0xFFFFFFFF : Word).toBitVec = BitVec.allOnes 32 := rfl

/-- Below the place where the new bytes begin, the old ones stay. -/
theorem byte_fillHigh (hm : m < 4) (hj : j < 4) :
    byte (fillHigh (8 * UInt32.ofNat m) old new) j =
      if j < m then byte old j else byte new (j - m) := by
  -- Bit by bit, the mask decides which of the two words is read.
  have hbit : ∀ i < 8, (byte (fillHigh (8 * UInt32.ofNat m) old new) j).toBitVec.getLsbD i =
      if j < m then old.toBitVec.getLsbD (8 * j + i)
      else new.toBitVec.getLsbD (8 * (j - m) + i) := by
    intro i hi
    have hin : 8 * j + i < 32 := by omega
    rw [getLsbD_byte hj hi, fillHigh]
    simp only [UInt32.toBitVec_or, UInt32.toBitVec_and, UInt32.toBitVec_not,
      UInt32.toBitVec_shiftLeft, BitVec.shiftLeft_eq', toNat_amount hm, BitVec.getLsbD_or,
      BitVec.getLsbD_and, BitVec.getLsbD_not, BitVec.getLsbD_shiftLeft, toBitVec_ones,
      BitVec.getLsbD_allOnes, hin]
    split
    · have hbelow : 8 * j + i < 8 * m := by omega
      simp [hbelow]
    · have habove : ¬8 * j + i < 8 * m := by omega
      have hplace : 8 * j + i - 8 * m = 8 * (j - m) + i := by omega
      have hlt : 8 * (j - m) + i < 32 := by omega
      simp [habove, hplace, hlt]
  refine byte_eq_of_getLsbD fun i hi => (hbit i hi).trans ?_
  split
  · exact (getLsbD_byte hj hi).symm
  · exact (getLsbD_byte (by omega) hi).symm

/-- Above the place where the new bytes end, the old ones stay. -/
theorem byte_fillLow (hm : m < 4) (hj : j < 4) :
    byte (fillLow (8 * UInt32.ofNat m) old new) j =
      if j + m < 4 then byte new (j + m) else byte old j := by
  -- The shift brings the bits of the new word down, and above them those of the old one stay.
  have hbit : ∀ i < 8, (byte (fillLow (8 * UInt32.ofNat m) old new) j).toBitVec.getLsbD i =
      if j + m < 4 then new.toBitVec.getLsbD (8 * (j + m) + i)
      else old.toBitVec.getLsbD (8 * j + i) := by
    intro i hi
    have hin : 8 * j + i < 32 := by omega
    have hplace : 8 * m + (8 * j + i) = 8 * (j + m) + i := by omega
    rw [getLsbD_byte hj hi, fillLow]
    simp only [UInt32.toBitVec_or, UInt32.toBitVec_and, UInt32.toBitVec_not,
      UInt32.toBitVec_shiftRight, BitVec.ushiftRight_eq', toNat_amount hm, BitVec.getLsbD_or,
      BitVec.getLsbD_and, BitVec.getLsbD_not, BitVec.getLsbD_ushiftRight, toBitVec_ones,
      BitVec.getLsbD_allOnes, hin, hplace]
    split
    · have hbelow : 8 * (j + m) + i < 32 := by omega
      simp [hbelow]
    · have habove : ¬8 * (j + m) + i < 32 := by omega
      simp [habove, BitVec.getLsbD_of_ge _ _ (Nat.le_of_not_lt habove)]
  refine byte_eq_of_getLsbD fun i hi => (hbit i hi).trans ?_
  split
  · exact (getLsbD_byte (by omega) hi).symm
  · exact (getLsbD_byte hj hi).symm

/-- A word is spelled by its four bytes, the lowest one first. -/
theorem toBytes_eq : w.toBytes = [byte w 0, byte w 1, byte w 2, byte w 3] := by
  have hzero : byte w 0 = w.toUInt8 := congrArg UInt32.toUInt8 UInt32.shiftRight_zero
  rw [hzero]
  rfl

/-- Four bytes are spelled by the word that they make up. -/
theorem toBytes_ofBytes (b₀ b₁ b₂ b₃ : UInt8) :
    (ofBytes [b₀, b₁, b₂, b₃]).toBytes = [b₀, b₁, b₂, b₃] := by
  have h₀ := b₀.toNat_lt
  have h₁ := b₁.toNat_lt
  have h₂ := b₂.toNat_lt
  have h₃ := b₃.toNat_lt
  simp only [toBytes, ofBytes, List.cons.injEq, and_true, ← UInt8.toNat_inj,
    UInt32.toNat_toUInt8, UInt32.toNat_shiftRight, UInt32.toNat_add, UInt32.toNat_mul,
    UInt8.toNat_toUInt32, UInt32.toNat_ofNat, Nat.shiftRight_eq_div_pow]
  simp only [Nat.reduceMod, Nat.reducePow] at *
  omega

/-- Four bytes are those of the word that they spell. -/
theorem byte_ofBytes (bs : List UInt8) (hlen : bs.length = 4) (hj : j < bs.length) :
    byte (ofBytes bs) j = bs[j] := by
  obtain ⟨b₀, b₁, b₂, b₃, rfl⟩ := List.length_eq_four.mp hlen
  have hbytes := toBytes_ofBytes b₀ b₁ b₂ b₃
  rw [toBytes_eq] at hbytes
  simp only [List.cons.injEq, and_true] at hbytes
  obtain ⟨h₀, h₁, h₂, h₃⟩ := hbytes
  rcases j with _ | _ | _ | _ | j
  · exact h₀
  · exact h₁
  · exact h₂
  · exact h₃
  · exact absurd hj (by rw [hlen]; omega)

end Word

namespace ByteMemory

variable {μ : Type} [ByteMemory μ] {v : μ} {a w : Word}

/-- A word is read if its bytes are found one after the other. -/
theorem readWord_of_readByte
    (h : ∀ j < 4, readByte v (a + UInt32.ofNat j) = .ok (Word.byte w j)) :
    readWord v a = .ok w := by
  have hbytes : readBytes v (Address.run a w.toBytes.length) = .ok w.toBytes := by
    refine readBytes_run fun i hi => ?_
    have hi' : i < 4 := hi
    rw [h i hi']
    simp only [Word.toBytes_eq]
    match i, hi' with
    | 0, _ | 1, _ | 2, _ | 3, _ => rfl
  have hlen : w.toBytes.length = 4 := rfl
  rw [hlen] at hbytes
  rw [readWord, readNumber, hbytes]
  exact congrArg Except.ok (Word.ofBytes_toBytes w)

/-- Bytes that are read together are found one after the other. -/
theorem readByte_of_readBytes {n : Nat} {bs : List UInt8}
    (h : readBytes v (Address.run a n) = .ok bs) :
    ∃ hlen : bs.length = n, ∀ j (hj : j < n), readByte v (a + UInt32.ofNat j) = .ok bs[j] := by
  unfold readBytes at h
  induction n generalizing a bs with
  | zero =>
    cases h
    exact ⟨rfl, fun j hj => absurd hj (Nat.not_lt_zero j)⟩
  | succ n ih =>
    -- The induction follows the bytes, which are read from the first one on.
    rw [Address.run_succ, List.mapM_cons] at h
    cases hfirst : readByte v a with
    | error e =>
      rw [hfirst] at h
      cases h
    | ok b =>
      rw [hfirst] at h
      cases hrest : (Address.run (a + 1) n).mapM (readByte v) with
      | error e =>
        rw [hrest] at h
        cases h
      | ok rest =>
        rw [hrest] at h
        cases h
        obtain ⟨hlen, hread⟩ := ih hrest
        refine ⟨congrArg Nat.succ hlen, fun j hj => ?_⟩
        cases j with
        | zero => exact (congrArg (readByte v) (UInt32.add_zero a)).trans hfirst
        | succ j =>
          rw [Address.add_ofNat_succ]
          exact hread j (Nat.lt_of_succ_lt_succ hj)

/-- A word is read if each of its bytes is. -/
theorem readWord_eq_ok_iff :
    readWord v a = .ok w ↔ ∀ j < 4, readByte v (a + UInt32.ofNat j) = .ok (Word.byte w j) := by
  refine ⟨fun h j hj => ?_, readWord_of_readByte⟩
  unfold readWord readNumber at h
  cases hbytes : readBytes v (Address.run a 4) with
  | error e =>
    rw [hbytes] at h
    cases h
  | ok bs =>
    rw [hbytes] at h
    cases h
    obtain ⟨hlen, hread⟩ := readByte_of_readBytes hbytes
    rw [hread j hj, Word.byte_ofBytes bs hlen (hlen ▸ hj)]

/-- A word is readable if its bytes are. -/
theorem exists_readWord (h : ∀ j < 4, ∃ b, readByte v (a + UInt32.ofNat j) = .ok b) :
    ∃ w, readWord v a = .ok w := by
  obtain ⟨b₀, h₀⟩ := h 0 (by decide)
  obtain ⟨b₁, h₁⟩ := h 1 (by decide)
  obtain ⟨b₂, h₂⟩ := h 2 (by decide)
  obtain ⟨b₃, h₃⟩ := h 3 (by decide)
  have hbytes : readBytes v (Address.run a [b₀, b₁, b₂, b₃].length) = .ok [b₀, b₁, b₂, b₃] := by
    refine readBytes_run fun i hi => ?_
    match i, hi with
    | 0, _ => exact h₀
    | 1, _ => exact h₁
    | 2, _ => exact h₂
    | 3, _ => exact h₃
  exact ⟨_, congrArg (Except.map Word.ofBytes) hbytes⟩

end ByteMemory

namespace Address

variable {a b : Word} {i j : Nat}

/-- Sharing a cell is symmetric. -/
theorem sameCell_symm (h : SameCell a b) : SameCell b a := by
  rcases h with ⟨ha, hb, hmod⟩ | ⟨hother, heq⟩
  · exact .inl ⟨hb, ha, hmod.symm⟩
  · exact .inr ⟨fun hmain => hother hmain.symm, heq.symm⟩

/-- Addresses that share a cell have the same cell. -/
theorem cell?_eq_of_sameCell (h : SameCell a b) : cell? a = cell? b := by
  rcases h with ⟨ha, hb, hmod⟩ | ⟨-, heq⟩
  · exact (cell?_eq_of_main (in_main_iff.mp ha) (in_main_iff.mp hb) hmod).1
  · unfold cell?
    rw [heq]

end Address

namespace View

open ByteMemory

/-- Two addresses designate the same byte of what the processor addresses. -/
def SameByte : View Ram → Word → Word → Prop
  | direct _, x, y => Address.SameCell x y
  | isolated _, x, y => Cached.line x = Cached.line y

/-- One view holds bytes of a word at some places from an address on, and otherwise what another one
holds. -/
structure Replaced (v v' : View Ram) (a : Word) (places : Nat → Prop) (w : Word) : Prop where
  /-- Memory is hidden or not as before. -/
  isIsolated : v'.isIsolated = v.isIsolated
  /-- What is hidden stays. -/
  backing : v.isIsolated = true → v'.backing = v.backing
  /-- At the places are the bytes of the word. -/
  value : ∀ j, places j → readByte v' (a + UInt32.ofNat j) = .ok (Word.byte w j)
  /-- No other byte changes. -/
  frame : ∀ x, (∀ j, places j → ¬v.SameByte (a + UInt32.ofNat j) x) → readByte v' x = readByte v x

variable {v v' v'' : View Ram} {a w : Word} {places places' : Nat → Prop} {i j : Nat}

/-- Which addresses designate the same byte depends on the isolation alone. -/
theorem sameByte_congr (h : v'.isIsolated = v.isIsolated) : v'.SameByte = v.SameByte := by
  cases v <;> cases v' <;> first | rfl | cases h

/-- Which addresses are refused depends on the isolation alone. -/
theorem refusal?_congr (h : v'.isIsolated = v.isIsolated) (x : Word) :
    refusal? v' x = refusal? v x := by
  cases v <;> cases v' <;> first | rfl | cases h

/-- Where one byte is found, it is found at all addresses that designate it. -/
theorem readByte_of_sameByte {x y : Word} {b : UInt8} (h : v.SameByte x y)
    (hread : readByte v x = .ok b) : readByte v y = .ok b := by
  cases v with
  | direct r =>
    have hcell : Address.cell? x = Address.cell? y := Address.cell?_eq_of_sameCell h
    change readByte r x = _ at hread
    change readByte r y = _
    rw [Ram.readByte_eq, hcell] at hread
    rw [Ram.readByte_eq]
    cases hy : Address.cell? y with
    | none =>
      rw [hy] at hread
      cases hread
    | some c =>
      rw [hy] at hread
      exact hread
  | isolated c =>
    have hline : Cached.line x = Cached.line y := h
    change Except.ok (c.lines.get (Cached.line x)) = _ at hread
    rwa [hline] at hread

/-- Addresses that are close together designate different bytes. -/
theorem not_sameByte (hij : i ≠ j) (hi : i < 0x1000) (hj : j < 0x1000) :
    ¬v.SameByte (a + UInt32.ofNat i) (a + UInt32.ofNat j) := by
  cases v with
  | direct r =>
    -- Offsets below the size of a mirror reach different cells.
    have hmore : ∀ {i j : Nat}, i < j → j < 0x1000 →
        ¬Address.SameCell (a + UInt32.ofNat j) (a + UInt32.ofNat i) := by
      intro i j hij hj
      have hsum : a + UInt32.ofNat j = a + UInt32.ofNat i + UInt32.ofNat (j - i) := by
        rw [UInt32.add_assoc, ← UInt32.ofNat_add, Nat.add_sub_cancel' (Nat.le_of_lt hij)]
      rw [hsum]
      exact Address.not_sameCell_add _ (by omega) (by omega)
    rcases Nat.lt_or_gt_of_ne hij with hlt | hgt
    · exact fun h => hmore hlt hj (Address.sameCell_symm h)
    · exact hmore hgt hi
  | isolated c =>
    intro h
    -- A line is chosen by the lower bits, which differ.
    have hline : (Cached.line (a + UInt32.ofNat i)).val = (Cached.line (a + UInt32.ofNat j)).val :=
      congrArg Fin.val h
    simp only [Cached.line, Fin.val_ofNat, UInt32.toNat_add, UInt32.toNat_ofNat'] at hline
    omega

/-- What is put at a byte is found there, and elsewhere what was there. -/
theorem readByte_put {x y : Word} (b : UInt8) (h : refusal? v x = none) :
    (v.SameByte x y → readByte (put v x b) y = .ok b) ∧
      (¬v.SameByte x y → readByte (put v x b) y = readByte v y) := by
  cases v with
  | direct r =>
    have hput := Ram.readByte_put h b r y
    constructor
    · exact fun hsame => hput.trans (if_pos hsame)
    · exact fun hother => hput.trans (if_neg hother)
  | isolated c =>
    have hput : readByte (put (isolated c) x b) y =
        .ok (if Cached.line x = Cached.line y then b else c.lines.get (Cached.line y)) :=
      congrArg Except.ok (Cells.get_set ..)
    constructor
    · exact fun hsame => hput.trans (congrArg Except.ok (if_pos hsame))
    · exact fun hother => hput.trans (congrArg Except.ok (if_neg hother))

/-- An address designates the same byte as itself. -/
theorem sameByte_refl (v : View Ram) (x : Word) : v.SameByte x x := by
  cases v with
  | direct r => exact Address.sameCell_refl x
  | isolated c => rfl

namespace Replaced

/-- Where no byte of a word is replaced, the view is as it was. -/
theorem refl (v : View Ram) (a w : Word) : v.Replaced v a (fun _ => False) w where
  isIsolated := rfl
  backing _ := rfl
  value _ h := h.elim
  frame _ _ := rfl

/-- Putting one byte of a word replaces that byte. -/
theorem put (h : refusal? v (a + UInt32.ofNat j) = none) :
    v.Replaced (put v (a + UInt32.ofNat j) (Word.byte w j)) a (· = j) w where
  isIsolated := by cases v <;> rfl
  backing hisolated := by
    cases v with
    | direct r => cases hisolated
    | isolated c => rfl
  value := by
    rintro _ rfl
    exact (readByte_put _ h).1 (v.sameByte_refl _)
  frame x hx := (readByte_put _ h).2 (hx j rfl)

/-- Bytes that are replaced one set of places after the other are all replaced. -/
theorem trans (h : v.Replaced v' a places w) (h' : v'.Replaced v'' a places' w)
    (hplaces : ∀ j, places j → j < 4) (hplaces' : ∀ j, places' j → j < 4) :
    v.Replaced v'' a (fun j => places j ∨ places' j) w where
  isIsolated := h'.isIsolated.trans h.isIsolated
  backing hisolated := (h'.backing (h.isIsolated.trans hisolated)).trans (h.backing hisolated)
  value j hj := by
    -- The later write is the last word where both have one.
    by_cases hlast : places' j
    · exact h'.value j hlast
    · have hfirst : places j := hj.resolve_right hlast
      rw [← h.value j hfirst]
      refine h'.frame _ fun i hi => not_sameByte (fun hij => hlast (hij ▸ hi)) ?_ ?_
      · exact Nat.lt_trans (hplaces' i hi) (by decide)
      · exact Nat.lt_trans (hplaces j hfirst) (by decide)
  frame x hx := by
    have hlast : readByte v'' x = readByte v' x := h'.frame x fun j hj => by
      rw [sameByte_congr h.isIsolated]
      exact hx j (.inr hj)
    exact hlast.trans (h.frame x fun j hj => hx j (.inl hj))

/-- What is readable stays readable. -/
theorem readable (h : v.Replaced v' a places w) {x : Word} (hx : ∃ b, readByte v x = .ok b) :
    ∃ b, readByte v' x = .ok b := by
  by_cases hplace : ∃ j, places j ∧ v.SameByte (a + UInt32.ofNat j) x
  · obtain ⟨j, hj, hsame⟩ := hplace
    rw [← sameByte_congr h.isIsolated] at hsame
    exact ⟨_, readByte_of_sameByte hsame (h.value j hj)⟩
  · rw [h.frame x fun j hj hsame => hplace ⟨j, hj, hsame⟩]
    exact hx

/-- Bytes that are replaced may be described by any equivalent condition. -/
theorem congr (h : v.Replaced v' a places w) (hplaces : ∀ j, places j ↔ places' j) :
    v.Replaced v' a places' w := by
  have heq : places = places' := funext fun j => propext (hplaces j)
  exact heq ▸ h

end Replaced

/-- Bytes that are stored one after the other are replaced, where none of them is refused. -/
theorem exists_writeBytes_from (n : Nat) (hn : j + n ≤ 4)
    (h : ∀ i, j ≤ i → i < j + n → refusal? v (a + UInt32.ofNat i) = none) (w : Word) :
    ∃ v', writeBytes (a + UInt32.ofNat j) ((List.range' j n).map w.byte) v = .ok () v' ∧
      v.Replaced v' a (fun i => j ≤ i ∧ i < j + n) w := by
  induction n generalizing j v with
  | zero => exact ⟨v, rfl, (Replaced.refl v a w).congr fun i => iff_of_false id (by omega)⟩
  | succ n ih =>
    have hfirst : refusal? v (a + UInt32.ofNat j) = none := h j (Nat.le_refl j) (by omega)
    have hput := Replaced.put (w := w) hfirst
    obtain ⟨v', hok, hrest⟩ := ih (j := j + 1) (by omega) fun i hi hi' =>
      (refusal?_congr hput.isIsolated _).trans (h i (by omega) (by omega))
    have hall := hput.trans hrest (fun i hi => by omega) (fun i hi => by omega)
    refine ⟨v', ?_, hall.congr fun i => by omega⟩
    rw [List.range'_succ, List.map_cons, writeBytes, hfirst]
    have hnext : a + UInt32.ofNat j + 1 = a + UInt32.ofNat (j + 1) := by
      rw [UInt32.add_assoc, UInt32.ofNat_add]
      rfl
    rw [hnext]
    exact hok

/-- A word is stored as a whole where none of its bytes is refused. -/
theorem exists_writeBytes (h : ∀ j < 4, refusal? v (a + UInt32.ofNat j) = none) (w : Word) :
    ∃ v', writeBytes a w.toBytes v = .ok () v' ∧ v.Replaced v' a (· < 4) w := by
  obtain ⟨v', hok, hreplaced⟩ := exists_writeBytes_from (j := 0) 4 (Nat.le_refl 4)
    (fun i _ hi => h i (by omega)) w
  refine ⟨v', ?_, hreplaced.congr fun i => by omega⟩
  have hzero : a + UInt32.ofNat 0 = a := UInt32.add_zero a
  rw [hzero] at hok
  rw [Word.toBytes_eq]
  exact hok

end View

end MipsMonitor
