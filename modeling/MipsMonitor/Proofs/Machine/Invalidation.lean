import Mathlib.Logic.Relation
import MipsMonitor.Proofs.Machine.DelaySlots
import MipsMonitor.Proofs.Machine.Shapes

/-!
# Invalidation is exact

Dropping the translations that cover an address goes through four segments, and in each it looks at
those alone that are entered a fixed distance below. Neither leaves one out. The search reaches as far
down as the longest translation (`Translations.finds_eq_covers`), and no translation covers an alias in
another segment, as it covers nothing but what designates a cell (`Block.exists_cell?_of_covers`). So
what is left are the translations that cover no alias of the address at all
(`Machine.Translated.getElem?_invalidate`), and the order does not matter in which several addresses
are gone through (`Machine.foldl_invalidate_congr`).

All of this takes translations that were made of memory, which are the only ones that a machine ever
keeps (`Machine.Handling.translated`). The main statement is `Machine.invalidate_is_exact`.
-/

namespace MipsMonitor

variable {σ : Type}

namespace Address

/-- Two addresses are the same, or they lie below the last two segments and share their low 29 bits. -/
def Alias (a x : Word) : Prop :=
  x = a ∨ a.toNat < 0xC0000000 ∧ x.toNat < 0xC0000000 ∧ x.toNat % 0x20000000 = a.toNat % 0x20000000

variable {a x : Word}

/-- The aliases that an invalidation goes through are aliases. -/
theorem alias_of_mem_aliases (h : x ∈ aliases a) : Alias a x := by
  rw [mem_aliases_iff] at h
  rw [Alias, ← UInt32.toNat_inj] at *
  omega

/-- An alias that designates a cell lies in one of the segments that are gone through. -/
theorem Alias.mem_aliases (h : Alias a x) {c : Cell} (hc : cell? x = some c) : x ∈ aliases a := by
  have hsegment := segment_of_cell? hc
  rw [mem_aliases_iff, ← UInt32.toNat_inj]
  rw [Alias, ← UInt32.toNat_inj] at h
  omega

/-- The bytes of an aligned word all designate cells, or none does. -/
theorem exists_cell?_add {w : Word} (hw : w.toNat % 4 = 0) {c : Cell} (hc : cell? w = some c) {j : Nat}
    (hj : j < 4) : ∃ c', cell? (w + UInt32.ofNat j) = some c' := by
  have hwritable := isWritable_cell?_add hw hj
  rw [hc] at hwritable
  obtain ⟨c', hc', -⟩ := Option.map_eq_some_iff.mp hwritable
  exact ⟨c', hc'⟩

end Address

namespace Block

variable {r : Ram} {choose : Word → Option Instruction → List Action} {extent : Extent}
  {start a x : Word} {b : Block}

/-- A translation covers nothing but what designates a cell. -/
theorem exists_cell?_of_covers (h : translate r choose extent start = .ok b)
    (hx : b.covers x = true) : ∃ c, Address.cell? x = some c := by
  obtain ⟨-, hend⟩ := length_of_translate h
  obtain ⟨is, -, rfl, hlaid, haligned, -⟩ := laid_of_translate h
  rw [covers_iff hend] at hx
  simp only [length, List.length_map] at hx hend
  -- The instruction that the address lies in was fetched.
  have hk : (x.toNat - start.toNat) / 4 < is.length := by omega
  obtain ⟨haddress, w, hw, -⟩ := hlaid.of_getElem? (List.getElem?_eq_getElem hk)
  rw [haddress] at hw
  obtain ⟨c, hc⟩ := Ram.exists_cell?_of_fetched hw
  obtain ⟨y, hy, hxy⟩ := Address.exists_aligned x
  have hword : y = Address.nthWord start ((x.toNat - start.toNat) / 4) := by
    have hsum := Address.toNat_add_ofNat hy (Nat.mod_lt x.toNat (by decide))
    rw [← hxy] at hsum
    rw [← UInt32.toNat_inj, Address.toNat_nthWord]
    omega
  rw [hxy]
  exact Address.exists_cell?_add hy (hword ▸ hc) (Nat.mod_lt _ (by decide))

/-- A translation that covers an alias of an address is found through one of the segments that are
gone through. -/
theorem forall_aliases_iff (h : translate r choose extent start = .ok b) :
    (∀ x ∈ Address.aliases a, Translations.finds x start b = false) ↔
      ∀ x, Address.Alias a x → b.covers x = false := by
  simp only [Translations.finds_eq_covers h]
  refine ⟨fun hclear x hx => ?_, fun hclear x hx => hclear x (Address.alias_of_mem_aliases hx)⟩
  cases hcovers : b.covers x with
  | false => rfl
  | true =>
    obtain ⟨c, hc⟩ := exists_cell?_of_covers h hcovers
    exact hcovers.symm.trans (hclear x (hx.mem_aliases hc))

end Block

namespace Machine

variable {m n : Machine σ} {observer : Observer σ}

/-! ## The translations that a machine keeps -/

/-- One thing that happens to the translations of a machine. Its processor and its memory are changed
in any way, it looks a block up, it runs or steps under any observer, and it is reset, given another
injector, or told to drop translations. -/
inductive Handling : Machine σ → Machine σ → Prop where
  /-- The processor, its memory or the context are changed. -/
  | guest (guest : Guest σ) (m : Machine σ) : Handling m { m with guest }
  /-- A block is looked up, and translated if there is none. -/
  | blockAt {pc : Word} {m n : Machine σ} {b : Block} (h : blockAt pc m = .ok b n) : Handling m n
  /-- The machine runs until a routine returns, as far as it is let to. -/
  | execute (observer : Observer σ) (fuel : Nat) (pc : Word) (m : Machine σ) :
      Handling m (endState (execute observer fuel pc m))
  /-- The machine makes a single step. -/
  | executeOne (observer : Observer σ) (pc : Word) (m : Machine σ) :
      Handling m (endState (executeOne observer pc m))
  /-- The machine is reset. -/
  | reset (v : View Ram) (m : Machine σ) : Handling m (m.reset v)
  /-- Another injector is installed. -/
  | withInjector (injector? : Option (Injector σ)) (m : Machine σ) :
      Handling m (m.withInjector injector?)
  /-- Translations of an address are dropped. -/
  | invalidate (address : Word) (m : Machine σ) : Handling m (m.invalidate address)
  /-- All translations are dropped. -/
  | invalidateAll (m : Machine σ) : Handling m m.invalidateAll

/-- What is left of translations are those that are found through none of the segments. -/
theorem getElem?_invalidate {a start : Word} {b : Block} :
    (m.invalidate a).blocks[start]? = some b ↔
      m.blocks[start]? = some b ∧ ∀ x ∈ Address.aliases a, Translations.finds x start b = false :=
  Translations.getElem?_foldl_dropAt

/-- Whatever happens, the blocks that are kept were translated. -/
theorem Handling.translated (h : Handling m n) (hm : m.Translated) : n.Translated := by
  cases h with
  | guest g => exact hm.congr fun _ _ hb => hb
  | blockAt hblock => exact (hm.blockAt hblock).1
  | execute observer fuel pc => exact (hm.execute fuel pc).endState
  | executeOne observer pc => exact (hm.executeOne pc).endState
  | reset v => exact translated_of_empty _ _
  | withInjector injector? => exact translated_of_empty _ _
  | invalidate address =>
    exact hm.congr fun start b hb => (getElem?_invalidate.mp hb).1
  | invalidateAll => exact translated_of_empty _ _

/-- Translations that a machine ever has were made of memory. -/
theorem translated_of_handled {sink : Sink} {context : σ}
    (h : Relation.ReflTransGen Handling (.detached sink context) m) : m.Translated := by
  induction h with
  | refl => exact translated_of_empty _ _
  | tail _ hstep ih => exact hstep.translated ih

/-! ## What is left -/

/-- What is left of translations are those that cover no alias of the address. -/
theorem Translated.getElem?_invalidate (h : m.Translated) {a start : Word} {b : Block} :
    (m.invalidate a).blocks[start]? = some b ↔
      m.blocks[start]? = some b ∧ ∀ x, Address.Alias a x → b.covers x = false := by
  rw [Machine.getElem?_invalidate]
  refine and_congr_right fun hb => ?_
  obtain ⟨r, choose, htranslate⟩ := h start b hb
  exact Block.forall_aliases_iff htranslate

/-- Going through addresses drops translations alone. -/
theorem foldl_invalidate (as : List Word) (m : Machine σ) :
    as.foldl (fun m a => m.invalidate a) m =
      ⟨m.guest, as.foldl Translations.invalidate m.blocks, m.injector?⟩ := by
  induction as generalizing m with
  | nil => rfl
  | cons a as ih => exact ih (m.invalidate a)

/-- It does not matter in which order addresses are gone through, nor how often. -/
theorem foldl_invalidate_congr (m : Machine σ) {as bs : List Word} (h : ∀ a, a ∈ as ↔ a ∈ bs) :
    as.foldl (fun m a => m.invalidate a) m = bs.foldl (fun m a => m.invalidate a) m := by
  have hblocks : as.foldl Translations.invalidate m.blocks =
      bs.foldl Translations.invalidate m.blocks := by
    refine Std.ExtTreeMap.ext_getElem? fun start => Option.ext fun b => ?_
    simp only [Translations.getElem?_foldl_invalidate, h]
  rw [foldl_invalidate, foldl_invalidate, hblocks]

/-- Of translations exactly those are dropped that cover an alias of an address. -/
structure DropsExactly (a : Word) (before after : Translations) : Prop where
  /-- None that covers an alias is left. -/
  clear : ∀ (start : Word) (b : Block), after[start]? = some b →
    ∀ x, Address.Alias a x → b.covers x = false
  /-- Each that was removed covered one. -/
  covered : ∀ (start : Word) (b : Block), before[start]? = some b → after[start]? = none →
    ∃ x, Address.Alias a x ∧ b.covers x = true
  /-- Each other one is kept. -/
  kept : ∀ (start : Word) (b : Block), before[start]? = some b →
    (∀ x, Address.Alias a x → b.covers x = false) → after[start]? = some b
  /-- None is new. -/
  old : ∀ (start : Word) (b : Block), after[start]? = some b → before[start]? = some b

/-- Invalidation is exact. Whatever has happened to a machine, of its translations exactly those are
dropped that cover the address, or for one below the last two segments any address that shares its low
29 bits; and of a set of addresses it is the same ones in whatever order. -/
theorem invalidate_is_exact {sink : Sink} {context : σ} {m : Machine σ}
    (h : Relation.ReflTransGen Handling (.detached sink context) m) :
    (∀ a, DropsExactly a m.blocks (m.invalidate a).blocks) ∧
      ∀ as bs : List Word, (∀ a, a ∈ as ↔ a ∈ bs) →
        as.foldl (fun m a => m.invalidate a) m = bs.foldl (fun m a => m.invalidate a) m := by
  have htranslated := translated_of_handled h
  refine ⟨fun a => ?_, fun as bs hsame => foldl_invalidate_congr m hsame⟩
  -- What remains are the blocks that cover no alias, from which all four parts follow.
  have hleft {start : Word} {b : Block} : (m.invalidate a).blocks[start]? = some b ↔
      m.blocks[start]? = some b ∧ ∀ x, Address.Alias a x → b.covers x = false :=
    htranslated.getElem?_invalidate
  exact {
    clear := fun start b hb => (hleft.mp hb).2
    covered := fun start b hb hnone => by
      by_contra hcovers
      push Not at hcovers
      have hkept := hleft.mpr ⟨hb, fun x hx => Bool.eq_false_iff.mpr (hcovers x hx)⟩
      rw [hnone] at hkept
      cases hkept
    kept := fun start b hb hclear => hleft.mpr ⟨hb, hclear⟩
    old := fun start b hb => (hleft.mp hb).1 }

end Machine

namespace Long

/-- `j 0x00` in the last word that a block from address zero has room for, behind words that encode
`nop`. -/
def image : Image := ⟨252, ⟨#[0, 0, 0, 0x08]⟩, by decide⟩

/-- Behind a run from power-on whose first block ends with the delay slot of the last instruction that
there is room for. -/
def executed : Machine Unit := endState ((Machine.powerOn image ()).execute (.silent Unit) 1 0)

/-- The machine comes about by a reset and a run. -/
theorem handled_executed :
    Relation.ReflTransGen Machine.Handling (.detached .standard ()) executed :=
  .tail (.single (.reset _ _)) (.execute _ 1 0 _)

/-- The block is dropped for the last byte of the delay slot, through another segment, and kept for the
byte behind that. -/
theorem drops_slot : (executed.blocks[(0 : Word)]?).map Block.length = some 65 ∧
    (executed.invalidate 0xA0000103).blocks[(0 : Word)]? = none ∧
    (executed.invalidate 0xA0000104).blocks[(0 : Word)]? = executed.blocks[(0 : Word)]? := by
  obtain ⟨hexact, -⟩ := Machine.invalidate_is_exact handled_executed
  have hblock : (executed.blocks[(0 : Word)]?).map (fun b => (b.start, b.length)) = some (0, 65) := by
    unfold executed
    rw [Machine.powerOn_eq]
    decide +kernel
  obtain ⟨b, hb, hshape⟩ := Option.map_eq_some_iff.mp hblock
  obtain ⟨hstart, hlength⟩ := Prod.mk.inj hshape
  have hcovers (a : Word) : b.covers a = true ↔ a.toNat < 260 := by
    rw [Block.covers_iff (by rw [hstart, hlength]; decide), hstart, hlength]
    exact and_iff_right (Nat.zero_le _)
  refine ⟨by rw [hb]; exact congrArg some hlength, ?_, ?_⟩
  · -- Through its own segment the byte is the last one that the block covers.
    cases hkept : (executed.invalidate 0xA0000103).blocks[(0 : Word)]? with
    | none => rfl
    | some c =>
      obtain rfl : b = c := Option.some.inj (hb.symm.trans ((hexact _).old 0 c hkept))
      have hclear := (hexact 0xA0000103).clear 0 b hkept 0x103 (.inr (by decide))
      cases hclear.symm.trans ((hcovers 0x103).mpr (by decide))
  · rw [hb]
    refine (hexact 0xA0000104).kept 0 b hb fun x hx => ?_
    rw [← Bool.not_eq_true, hcovers, Nat.not_lt]
    obtain rfl | ⟨-, -, hlow⟩ := hx
    · decide
    · change x.toNat % 0x20000000 = 0x104 at hlow
      omega

end Long

end MipsMonitor
