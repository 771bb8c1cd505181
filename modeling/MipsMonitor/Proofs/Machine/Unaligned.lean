import MipsMonitor.Proofs.Machine.Operands
import MipsMonitor.Proofs.Machine.Performing
import MipsMonitor.Proofs.Machine.PowerOn
import MipsMonitor.Proofs.Memory.Bytes

/-!
# Unaligned words

Four bytes that follow each other lie in one aligned word or in two. A pair of instructions moves
them: the left one is given the address of the last byte and takes the bytes that lie in its word,
the right one is given the address of the first byte and does the same there. Each takes its own
bytes and leaves the others of the register (`Part.byte_load`) or of memory
(`Part.exists_merged`), and between them they take all four (`Part.has_or_has`). So a pair loads or
stores the unaligned word exactly, in either order (`unaligned_pairs`).
-/

namespace MipsMonitor

open ByteMemory

/-- The parts in which the instructions of a pair move an unaligned word. -/
inductive Part where
  /-- The bytes in the aligned word that holds the last byte. -/
  | left
  /-- The bytes in the aligned word that holds the first byte. -/
  | right
deriving DecidableEq, Repr

namespace Part

/-- The instruction that loads a part. -/
def loads : Part → Mnemonic
  | left => .lwl
  | right => .lwr

/-- The instruction that stores a part. -/
def stores : Part → Mnemonic
  | left => .swl
  | right => .swr

/-- The load of a part. -/
def load : Part → Load
  | left => .left
  | right => .right

/-- The store of a part. -/
def store : Part → Store
  | left => .left
  | right => .right

/-- The address that the instruction for a part of the unaligned word at `a` is given. -/
def address : Part → Word → Word
  | left, a => a + 3
  | right, a => a

/-- The number of places by which a part is moved. -/
def shift : Part → Word → Nat
  | left, a => 3 - (a + 3).toNat % 4
  | right, a => a.toNat % 4

/-- A byte of the unaligned word at `a` belongs to a part. -/
def Has : Part → Word → Nat → Prop
  | left, a, j => shift left a ≤ j ∧ j < 4
  | right, a, j => j + shift right a < 4

/-- The place of a byte in the aligned word of its part. -/
def place : Part → Word → Nat → Nat
  | left, a, j => j - shift left a
  | right, a, j => j + shift right a

variable {p : Part} {a w old new : Word} {j k : Nat}

/-- A part of a word is shifted by less than four bytes. -/
theorem shift_lt (p : Part) (a : Word) : p.shift a < 4 := by
  cases p with
  | left => exact Nat.lt_of_le_of_lt (Nat.sub_le ..) (by decide)
  | right => exact Nat.mod_lt _ (by decide)

/-- A part has some of the four bytes of a word. -/
theorem lt_of_has (h : p.Has a j) : j < 4 := by
  cases p with
  | left => exact h.2
  | right => exact Nat.lt_of_le_of_lt (Nat.le_add_right ..) h

/-- A byte of a part has its place among the four of a word. -/
theorem place_lt (h : p.Has a j) : p.place a j < 4 := by
  cases p with
  | left => exact Nat.lt_of_le_of_lt (Nat.sub_le ..) h.2
  | right => exact h

/-- Every byte belongs to a part. -/
theorem has_or_has (a : Word) (h : j < 4) : left.Has a j ∨ right.Has a j := by
  -- Where the word is aligned each part has all bytes; else the last byte lies in the next word.
  have hsum : (a + 3).toNat = (a.toNat + 3) % 4294967296 := UInt32.toNat_add a 3
  simp only [Has, shift]
  omega

/-- What one part does not have, the other one has. -/
theorem has_or_has_of_ne {q : Part} (h : p ≠ q) (hj : j < 4) (a : Word) :
    p.Has a j ∨ q.Has a j := by
  cases p <;> cases q
  · exact absurd rfl h
  · exact has_or_has a hj
  · exact (has_or_has a hj).symm
  · exact absurd rfl h

/-- A byte of a part lies at its place in the aligned word that the instruction reaches. -/
theorem address_place (h : p.Has a j) :
    a + UInt32.ofNat j = Word.alignDown (p.address a) + UInt32.ofNat (p.place a j) := by
  have hlt := a.toNat_lt
  have hdown := Word.toNat_alignDown (p.address a)
  apply UInt32.toNat_inj.mp
  rw [UInt32.toNat_add, UInt32.toNat_add, UInt32.toNat_ofNat', UInt32.toNat_ofNat', hdown]
  -- The sums may wrap around, but not within an aligned word.
  cases p with
  | left =>
    have hsum : (a + 3).toNat = (a.toNat + 3) % 4294967296 := UInt32.toNat_add a 3
    simp only [Has, shift, place, address, Nat.reducePow] at h ⊢
    omega
  | right =>
    simp only [Has, shift, place, address, Nat.reducePow] at h ⊢
    omega

/-- The place of a byte is its address modulo four. -/
theorem place_eq (a : Word) : Guarded.place a = a.toNat % 4 :=
  Nat.and_two_pow_sub_one_eq_mod a.toNat 2

/-- The shift of the left part, in bits. -/
theorem bitsAbove_eq (a : Word) : Word.bitsAbove (a + 3) = 8 * UInt32.ofNat (shift left a) := by
  rw [Guarded.bitsAbove_eq, place_eq]
  rfl

/-- The shift of the right part, in bits. -/
theorem bitsBelow_eq (a : Word) : Word.bitsBelow a = 8 * UInt32.ofNat (shift right a) := by
  rw [Guarded.bitsBelow_eq, place_eq]
  rfl

/-- An address needs no alignment for a part to be moved. -/
theorem isAligned_one (x : Word) : Word.isAligned x 1 = true :=
  Word.isAligned_iff.mpr (Nat.mod_one _)

/-- Every address is aligned for a load of a part. -/
theorem isAligned_load (p : Part) (x : Word) : Word.isAligned x p.load.alignment = true := by
  cases p <;> exact isAligned_one x

/-- Every address is aligned for a store of a part. -/
theorem isAligned_store (p : Part) (x : Word) : Word.isAligned x p.store.alignment = true := by
  cases p <;> exact isAligned_one x

/-- A load of a part reads the whole word. -/
theorem span_load (p : Part) (x : Word) :
    p.load.span x = Address.run (Word.alignDown x) 4 := by cases p <;> rfl

/-- A store of a part reads the whole word. -/
theorem span_store (p : Part) (x : Word) :
    p.store.span x = Address.run (Word.alignDown x) 4 := by cases p <;> rfl

/-- The load of a part takes the bytes of the part from the aligned word, and leaves the others. -/
theorem byte_load (hj : j < 4) :
    (p.Has a j → Word.byte (p.load.result (p.address a) old w) j = Word.byte w (p.place a j)) ∧
      (¬p.Has a j → Word.byte (p.load.result (p.address a) old w) j = Word.byte old j) := by
  have hshift := p.shift_lt a
  -- Loading the left part fills the high bytes of the register, the right part the low ones.
  cases p with
  | left =>
    have hresult : (load left).result (address left a) old w =
        Word.fillHigh (8 * UInt32.ofNat (shift left a)) old w := by
      rw [← bitsAbove_eq]
      rfl
    rw [hresult, Word.byte_fillHigh hshift hj]
    simp only [Has, place]
    constructor
    · exact fun h => if_neg (by omega)
    · exact fun h => if_pos (by omega)
  | right =>
    have hresult : (load right).result (address right a) old w =
        Word.fillLow (8 * UInt32.ofNat (shift right a)) old w := by
      rw [← bitsBelow_eq]
      rfl
    rw [hresult, Word.byte_fillLow hshift hj]
    simp only [Has, place]
    constructor
    · exact fun h => if_pos h
    · exact fun h => if_neg h

/-- The store of a part puts the bytes of the part into the aligned word, and leaves the others. -/
theorem exists_merged (p : Part) (a old new : Word) :
    ∃ merged, p.store.result (p.address a) new old =
        .store (Word.alignDown (p.address a)) (Word.toBytes merged) ∧
      (∀ j, p.Has a j → Word.byte merged (p.place a j) = Word.byte new j) ∧
      ∀ k < 4, (∃ j, p.Has a j ∧ p.place a j = k) ∨ Word.byte merged k = Word.byte old k := by
  have hshift := p.shift_lt a
  -- The left part fills the low bytes of the word and the right part the high ones; the rest stays
  -- as it was.
  cases p with
  | left =>
    refine ⟨_, rfl, fun j hj => ?_, fun k hk => ?_⟩
    · have hplace := place_lt hj
      simp only [Has, place] at hj hplace ⊢
      rw [address, bitsAbove_eq, Word.byte_fillLow hshift hplace, if_pos (by omega),
        Nat.sub_add_cancel hj.1]
    · rw [address, bitsAbove_eq, Word.byte_fillLow hshift hk]
      simp only [Has, place]
      by_cases h : k + shift left a < 4
      · exact .inl ⟨k + shift left a, by omega, by omega⟩
      · exact .inr (if_neg h)
  | right =>
    refine ⟨_, rfl, fun j hj => ?_, fun k hk => ?_⟩
    · have hplace := place_lt hj
      simp only [Has, place] at hj hplace ⊢
      rw [address, bitsBelow_eq, Word.byte_fillHigh hshift hplace, if_neg (by omega),
        Nat.add_sub_cancel]
    · rw [address, bitsBelow_eq, Word.byte_fillHigh hshift hk]
      simp only [Has, place]
      by_cases h : k < shift right a
      · exact .inr (if_pos h)
      · exact .inl ⟨k - shift right a, by omega, by omega⟩

/-- The two loads of a pair, in any order, make up the unaligned word. -/
theorem readWord_of_loads {v : View Ram} {p q : Part} {words : Part → Word}
    (hwords : ∀ p, readWord v (Word.alignDown (Part.address p a)) = .ok (words p))
    (hall : ∀ j < 4, p.Has a j ∨ q.Has a j) (old : Word) :
    readWord v a = .ok (q.load.result (q.address a)
      (p.load.result (p.address a) old (words p)) (words q)) := by
  refine readWord_of_readByte fun j hj => ?_
  have hfound : ∀ p : Part, p.Has a j →
      readByte v (a + UInt32.ofNat j) = .ok (Word.byte (words p) (p.place a j)) := fun p hp => by
    rw [address_place hp]
    exact readWord_eq_ok_iff.mp (hwords p) _ (place_lt hp)
  -- What the second load does not have the first one has left in the register.
  by_cases hlast : q.Has a j
  · rw [(byte_load hj).1 hlast]
    exact hfound q hlast
  · rw [(byte_load hj).2 hlast, (byte_load hj).1 ((hall j hj).resolve_right hlast)]
    exact hfound p ((hall j hj).resolve_right hlast)

/-- What an aligned word is made to hold for a part is a change of the bytes of the part alone. -/
theorem replaced {v v' : View Ram} {merged : Word}
    (h : v.Replaced v' (Word.alignDown (p.address a)) (· < 4) merged)
    (hold : readWord v (Word.alignDown (p.address a)) = .ok old)
    (hnew : ∀ j, p.Has a j → Word.byte merged (p.place a j) = Word.byte new j)
    (hrest : ∀ k < 4, (∃ j, p.Has a j ∧ p.place a j = k) ∨ Word.byte merged k = Word.byte old k) :
    v.Replaced v' a (p.Has a) new where
  isIsolated := h.isIsolated
  backing := h.backing
  value j hj := by
    rw [address_place hj, ← hnew j hj]
    exact h.value _ (place_lt hj)
  frame x hx := by
    -- Bytes of the aligned word are stored and no other ones, and of those only the part changes.
    by_cases hword : ∃ k < 4, v.SameByte (Word.alignDown (p.address a) + UInt32.ofNat k) x
    · obtain ⟨k, hk, hsame⟩ := hword
      rcases hrest k hk with ⟨j, hj, rfl⟩ | hkept
      · rw [← address_place hj] at hsame
        exact absurd hsame (hx j hj)
      · -- The byte is stored, but it is what was there.
        have hbefore := View.readByte_of_sameByte hsame (readWord_eq_ok_iff.mp hold k hk)
        rw [← View.sameByte_congr h.isIsolated] at hsame
        rw [View.readByte_of_sameByte hsame (h.value k hk), hbefore, hkept]
    · exact h.frame x fun k hk hsame => hword ⟨k, hk, hsame⟩

end Part

/-- Different general registers are different watched ones. -/
theorem Tracked.ofGpr_injective : Function.Injective Tracked.ofGpr := fun _ _ h =>
  Fin.ext (congrArg (fun t : Tracked => t.val) h)

/-- The file with a register written twice. -/
theorem RegisterFile.setTracked_setTracked (f : RegisterFile) (t : Tracked) (w w' : Word) :
    (f.setTracked t w).setTracked t w' = f.setTracked t w' :=
  congrArg mk (Vector.set_set ..)

/-- An instruction finds in a register what was written to it, unless the register is always
zero. -/
theorem Operation.gpr_setTracked_self {r : Gpr} (h : r ≠ 0) (f : RegisterFile) (w : Word) :
    gpr (f.setTracked (.ofGpr r) w) r = w := by
  have hzero : Tracked.ofGpr r ≠ .zero := Tracked.ofGpr_injective.ne h
  rw [gpr, RegisterFile.value, if_neg hzero, RegisterFile.tracked_setTracked, if_pos rfl]

/-- An instruction moves between a register and an address. -/
structure Instruction.Moves (i : Instruction) (m : Mnemonic) (f : RegisterFile) (rt : Gpr)
    (address : Word) : Prop where
  /-- What it does. -/
  mnemonic : i.mnemonic = m
  /-- The register. -/
  target : i.gpr .target = rt
  /-- The address that it comes to with the registers as they are. -/
  location : Operation.address f i.location = address

namespace Instruction.Moves

variable {i : Instruction} {f : RegisterFile} {rt : Gpr} {p : Part} {a w : Word}

/-- An instruction that loads a part is lowered to the load of that part. -/
theorem operation_loads (h : i.Moves p.loads f rt a) (pc : Word) :
    i.operation pc = .load p.load rt i.location := by
  cases p <;> simp only [operation, h.mnemonic, Part.loads, Part.load, h.target]

/-- An instruction that stores a part is lowered to the store of that part. -/
theorem operation_stores (h : i.Moves p.stores f rt a) (pc : Word) :
    i.operation pc = .store p.store rt i.location := by
  cases p <;> simp only [operation, h.mnemonic, Part.stores, Part.store, h.target]

/-- An instruction comes to the same address if its base stays. -/
theorem setTracked {m : Mnemonic} (h : i.Moves m f rt a) {r : Gpr}
    (hbase : Tracked.ofGpr r ≠ .ofGpr i.location.base) (w : Word) :
    i.Moves m (f.setTracked (.ofGpr r) w) rt a :=
  ⟨h.mnemonic, h.target, (Operation.address_setTracked hbase f w).trans h.location⟩

end Instruction.Moves

/-- A store that memory takes is left to be checked against translations. -/
theorem Core.store_ok {c : Core} {v v' : View Ram} {x : Word} {bs : List UInt8}
    (hv : c.view? = some v) (h : writeBytes x bs v = .ok () v') :
    ∃ more, c.store x bs = .ok ()
      { c with view? := some v', written := x :: c.written, log := c.log ++ more } := by
  obtain ⟨registers, view?, stopped, ticks, sink, written, log⟩ := c
  cases hv
  obtain ⟨more, hmore⟩ := exists_note ⟨registers, some v', stopped, ticks, sink, written, log⟩
    (writeNotes v x bs)
  refine ⟨more, ?_⟩
  simp only [store, poke, h, hmore]

namespace Guest

variable {σ : Type} {observer : Observer σ} {g : Guest σ} {v : View Ram} {p q : Part} {a w : Word}
  {rt : Gpr} {l : Location} {i i' : Instruction}

/-- What is fetched from the four bytes of a word is the word. -/
theorem fetch_run (h : readWord v a = .ok w) (pc : Word) :
    Operation.fetch (some v) pc (Address.run a 4) = .ok w := by
  rw [readWord] at h
  simp only [Operation.fetch, h]

/-- A load of a part writes what the part and the word make of the register. -/
theorem effect_load {f : RegisterFile} (haddress : Operation.address f l = p.address a)
    (hread : readWord v (Word.alignDown (p.address a)) = .ok w) (rt : Gpr) (pc : Word) :
    (Operation.load p.load rt l).effect pc f (some v) =
      .ok { writes := [(.ofGpr rt, p.load.result (p.address a) (Operation.gpr f rt) w)] } := by
  simp only [Operation.effect, haddress, Part.isAligned_load, if_true, Part.span_load,
    fetch_run hread]

/-- A store of a part stores what the part and the register make of the word. -/
theorem effect_store {f : RegisterFile} (haddress : Operation.address f l = p.address a)
    (hread : readWord v (Word.alignDown (p.address a)) = .ok w) (rt : Gpr) (pc : Word) :
    (Operation.store p.store rt l).effect pc f (some v) =
      .ok { change? := some (p.store.result (p.address a) (Operation.gpr f rt) w) } := by
  simp only [Operation.effect, haddress, Part.isAligned_store, if_true, Part.span_store,
    fetch_run hread]

/-- The load of a part changes its register, and nothing else. -/
theorem perform_load (ho : observer.Obeys) (hv : g.core.view? = some v)
    (hi : i.Moves p.loads g.core.registers rt (p.address a))
    (hread : readWord v (Word.alignDown (p.address a)) = .ok w) (hrt : rt ≠ 0) (pc : Word) :
    ∃ more context, g.perform observer pc (i.operation pc) =
      .ok .next ⟨{ g.core with
        registers := g.core.registers.setTracked (.ofGpr rt)
          (p.load.result (p.address a) (Operation.gpr g.core.registers rt) w)
        log := g.core.log ++ more }, context⟩ := by
  have hzero : Tracked.ofGpr rt ≠ .zero := Tracked.ofGpr_injective.ne hrt
  have heffect := effect_load hi.location hread rt pc
  rw [← hv] at heffect
  obtain ⟨more, context, hperform⟩ := perform_of_effect ho heffect
  refine ⟨more, context, ?_⟩
  rw [hi.operation_loads, hperform, settleEffect, RegisterFile.writeAll_cons, if_neg hzero]
  rfl

/-- The store of a part changes the bytes of the part in memory, and nothing else. -/
theorem perform_store (observer : Observer σ) (hv : g.core.view? = some v)
    (hi : i.Moves p.stores g.core.registers rt (p.address a))
    (hread : readWord v (Word.alignDown (p.address a)) = .ok w)
    (hwritable : ∀ j < 4,
      refusal? v (Word.alignDown (p.address a) + UInt32.ofNat j) = none) (pc : Word) :
    ∃ v' more, g.perform observer pc (i.operation pc) =
        .ok .next ⟨{ g.core with
          view? := some v'
          written := Word.alignDown (p.address a) :: g.core.written
          log := g.core.log ++ more }, g.context⟩ ∧
      v.Replaced v' a (p.Has a) (Operation.gpr g.core.registers rt) := by
  -- The merged word holds the bytes of the register in its part, and those of memory elsewhere.
  obtain ⟨merged, hresult, hnew, hrest⟩ := p.exists_merged a w (Operation.gpr g.core.registers rt)
  obtain ⟨v', hwrite, hreplaced⟩ := View.exists_writeBytes hwritable merged
  have heffect := effect_store hi.location hread rt pc
  rw [hresult, ← hv] at heffect
  obtain ⟨more, hperform⟩ := perform_eq observer heffect
  obtain ⟨more', hstore⟩ :=
    Core.store_ok (c := { g.core with log := g.core.log ++ more }) hv hwrite
  refine ⟨v', more ++ more', ?_, p.replaced hreplaced hread hnew hrest⟩
  rw [hi.operation_stores, hperform]
  simp only [settleEffect, List.foldl_nil, change, hstore, Array.append_assoc]

/-- Performs two instructions one after the other. -/
def inTurn (observer : Observer σ) (pc : Word) (i : Instruction) (pc' : Word) (i' : Instruction) :
    EStateM Signal (Guest σ) Flow := do
  let _ ← perform observer pc (i.operation pc)
  perform observer pc' (i'.operation pc')

/-- The two loads of a pair, in any order, leave the unaligned word in the register. -/
theorem inTurn_loads (ho : observer.Obeys) (hv : g.core.view? = some v) {words : Part → Word}
    (hwords : ∀ p, readWord v (Word.alignDown (Part.address p a)) = .ok (words p)) (hne : p ≠ q)
    (hi : i.Moves p.loads g.core.registers rt (p.address a))
    (hi' : i'.Moves q.loads g.core.registers rt (q.address a)) (hrt : rt ≠ 0)
    (hbase : i'.gpr .base ≠ rt) (pc pc' : Word) :
    ∃ word more context, readWord v a = .ok word ∧ inTurn observer pc i pc' i' g =
      .ok .next ⟨{ g.core with
        registers := g.core.registers.setTracked (.ofGpr rt) word
        log := g.core.log ++ more }, context⟩ := by
  obtain ⟨more, context, hfirst⟩ := perform_load ho hv hi (hwords p) hrt pc
  -- The first load leaves the base of the second one alone.
  have hstays : Tracked.ofGpr rt ≠ .ofGpr i'.location.base :=
    Tracked.ofGpr_injective.ne (Ne.symm hbase)
  obtain ⟨more', context', hlast⟩ := perform_load ho (g := ⟨{ g.core with
      registers := g.core.registers.setTracked (.ofGpr rt) _
      log := g.core.log ++ more }, context⟩) hv (hi'.setTracked hstays _) (hwords q) hrt pc'
  rw [Operation.gpr_setTracked_self hrt, RegisterFile.setTracked_setTracked, Array.append_assoc]
    at hlast
  exact ⟨_, more ++ more', context',
    Part.readWord_of_loads hwords (fun j hj => Part.has_or_has_of_ne hne hj a) _,
    bind_eq_ok.mpr ⟨_, _, hfirst, hlast⟩⟩

/-- The two stores of a pair, in any order, leave the register as an unaligned word in memory. -/
theorem inTurn_stores (hv : g.core.view? = some v)
    (hreadable : ∀ p : Part, ∃ w, readWord v (Word.alignDown (p.address a)) = .ok w)
    (hwritable : ∀ p : Part, ∀ j < 4,
      refusal? v (Word.alignDown (p.address a) + UInt32.ofNat j) = none) (hne : p ≠ q)
    (hi : i.Moves p.stores g.core.registers rt (p.address a))
    (hi' : i'.Moves q.stores g.core.registers rt (q.address a)) (pc pc' : Word) :
    ∃ v' more, inTurn observer pc i pc' i' g =
        .ok .next ⟨{ g.core with
          view? := some v'
          written := Word.alignDown (q.address a) :: Word.alignDown (p.address a) :: g.core.written
          log := g.core.log ++ more }, g.context⟩ ∧
      v.Replaced v' a (· < 4) (Operation.gpr g.core.registers rt) := by
  obtain ⟨w, hw⟩ := hreadable p
  obtain ⟨v₁, more, hfirst, hreplaced⟩ :=
    perform_store observer hv hi hw (hwritable p) pc
  -- Behind the first store the word of the second one is readable and writable as before.
  obtain ⟨w₁, hw₁⟩ : ∃ w, readWord v₁ (Word.alignDown (q.address a)) = .ok w := by
    obtain ⟨w', hw'⟩ := hreadable q
    exact exists_readWord fun j hj => hreplaced.readable ⟨_, readWord_eq_ok_iff.mp hw' j hj⟩
  obtain ⟨v₂, more', hlast, hreplaced'⟩ := perform_store observer
    (g := ⟨{ g.core with
      view? := some v₁
      written := Word.alignDown (p.address a) :: g.core.written
      log := g.core.log ++ more }, g.context⟩) rfl hi' hw₁
    (fun j hj => (View.refusal?_congr hreplaced.isIsolated _).trans (hwritable q j hj)) pc'
  rw [Array.append_assoc] at hlast
  refine ⟨v₂, more ++ more', bind_eq_ok.mpr ⟨_, _, hfirst, hlast⟩, ?_⟩
  have hboth := hreplaced.trans hreplaced' (fun _ => Part.lt_of_has) fun _ => Part.lt_of_has
  refine hboth.congr fun j => ⟨fun h => ?_, fun hj => Part.has_or_has_of_ne hne hj a⟩
  exact h.elim Part.lt_of_has Part.lt_of_has

/-- Where the two aligned words that hold the first and the last byte of an unaligned word are
readable, the two loads of a pair leave the unaligned word in their register, and the two stores put
their register there if the words are writable, whichever comes first. Nothing else changes, but
that reports may be added to the log, that the observer is told of writes to registers, and that
the addresses of stores are left to be checked against translations. -/
theorem unaligned_pairs (ho : observer.Obeys) (hv : g.core.view? = some v) {a : Word}
    (hreadable : ∀ p : Part, ∃ w, readWord v (Word.alignDown (p.address a)) = .ok w) (hne : p ≠ q)
    (rt : Gpr) (i i' : Instruction) (pc pc' : Word) :
    (i.Moves p.loads g.core.registers rt (p.address a) →
      i'.Moves q.loads g.core.registers rt (q.address a) →
      rt ≠ 0 → i'.gpr .base ≠ rt →
      ∃ word more context, readWord v a = .ok word ∧ inTurn observer pc i pc' i' g =
        .ok .next ⟨{ g.core with
          registers := g.core.registers.setTracked (.ofGpr rt) word
          log := g.core.log ++ more }, context⟩) ∧
      ((∀ p : Part, ∀ j < 4,
          refusal? v (Word.alignDown (p.address a) + UInt32.ofNat j) = none) →
        i.Moves p.stores g.core.registers rt (p.address a) →
        i'.Moves q.stores g.core.registers rt (q.address a) →
        ∃ v' more, inTurn observer pc i pc' i' g =
            .ok .next ⟨{ g.core with
              view? := some v'
              written :=
                Word.alignDown (q.address a) :: Word.alignDown (p.address a) :: g.core.written
              log := g.core.log ++ more }, g.context⟩ ∧
          v.Replaced v' a (· < 4) (Operation.gpr g.core.registers rt)) := by
  refine ⟨fun hi hi' hrt hbase => ?_, fun hwritable hi hi' => ?_⟩
  · -- The two words that the unaligned one lies in, one for each part.
    obtain ⟨words, hwords⟩ := Classical.skolem.mp hreadable
    exact inTurn_loads ho hv hwords hne hi hi' hrt hbase pc pc'
  · exact inTurn_stores hv hreadable hwritable hne hi hi' pc pc'

end Guest

namespace Straddling

/-- Two words in main memory. -/
def image : Image := ⟨0, ⟨#[0x11, 0x22, 0x33, 0x44, 0x55, 0x66, 0x77, 0x88]⟩, by decide⟩

/-- Memory that holds the two words. -/
def memory : View Ram := .direct (.withImage image)

/-- A processor with the two words in memory and a third one in the register `ra`. -/
def guest : Guest Unit :=
  ⟨{ Core.detached .standard with
    registers := RegisterFile.atReset.setTracked .returnAddress 0xAABBCCDD
    view? := some memory }, ()⟩

/-- A word that is found in the memory of the example is read. -/
theorem readWord_memory {a w : Word} (h : (readWord memory a).toOption = some w) :
    readWord memory a = .ok w := by
  cases hread : readWord memory a with
  | error e =>
    rw [hread] at h
    cases h
  | ok w' =>
    rw [hread] at h
    cases h
    rfl

/-- The pair `lwl ra, 4(t0)` and `lwr ra, 1(t0)` loads the word at address one, and the pair
`swr ra, 1(t0)` and `swl ra, 4(t0)` stores there. -/
theorem pairs_at_one :
    (∃ more context, guest.inTurn (.silent Unit) 0 ⟨.lwl, 0x891F0004⟩ 4 ⟨.lwr, 0x991F0001⟩ =
      .ok .next ⟨{ guest.core with
        registers := guest.core.registers.setTracked .returnAddress 0x55443322
        log := guest.core.log ++ more }, context⟩) ∧
      ∃ v' more, guest.inTurn (.silent Unit) 0 ⟨.swr, 0xB91F0001⟩ 4 ⟨.swl, 0xA91F0004⟩ =
          .ok .next ⟨{ guest.core with
            view? := some v'
            written := [4, 0]
            log := guest.core.log ++ more }, ()⟩ ∧
        memory.Replaced v' 1 (· < 4) 0xAABBCCDD := by
  have hreadable : ∀ p : Part, ∃ w, readWord memory (Word.alignDown (p.address 1)) = .ok w := by
    rintro (_ | _)
    · exact ⟨0x88776655, readWord_memory (by decide +kernel)⟩
    · exact ⟨0x44332211, readWord_memory (by decide +kernel)⟩
  have hwritable : ∀ p : Part, ∀ j < 4,
      refusal? memory (Word.alignDown (p.address 1) + UInt32.ofNat j) = none := by
    rintro (_ | _) <;> decide +kernel
  have hword : readWord memory 1 = .ok 0x55443322 := readWord_memory (by decide +kernel)
  -- The pair of loads reads the word across the boundary; the pair of stores writes it there.
  constructor
  · obtain ⟨word, more, context, hread, heq⟩ := (Guest.unaligned_pairs (g := guest)
      Observer.obeys_silent rfl hreadable (p := .left) (q := .right) (by decide) 31
      ⟨.lwl, 0x891F0004⟩ ⟨.lwr, 0x991F0001⟩ 0 4).1
      ⟨rfl, by decide +kernel, by decide +kernel⟩ ⟨rfl, by decide +kernel, by decide +kernel⟩
      (by decide) (by decide +kernel)
    cases hread.symm.trans hword
    exact ⟨more, context, heq⟩
  · exact (Guest.unaligned_pairs (g := guest)
      Observer.obeys_silent rfl hreadable (p := .right) (q := .left) (by decide) 31
      ⟨.swr, 0xB91F0001⟩ ⟨.swl, 0xA91F0004⟩ 0 4).2 hwritable
      ⟨rfl, by decide +kernel, by decide +kernel⟩ ⟨rfl, by decide +kernel, by decide +kernel⟩

end Straddling

end MipsMonitor
