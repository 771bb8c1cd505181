import MipsMonitor.Proofs.Machine.Storing

/-!
# What a translation depends on

A translation reads the words of its own instructions and nothing else: where those are the same,
and the same actions are chosen before them, translating again gives the same block
(`Block.translate_congr`). The words that end a block because they cannot be fetched do not count,
for no store makes an address fetchable.

The instructions of a block stand one behind the other without wrapping around, so a block covers
every byte of every one of them (`Block.covers_of_mem_steps`). And there are few of them, so the search
for the translations that cover an address, which begins at a fixed distance below it, overlooks none
(`Translations.finds_eq_covers`).
-/

namespace MipsMonitor

open ByteMemory

namespace Address

/-- No window reaches the end of the address space. -/
theorem toNat_lt_of_cell? {a : Word} {c : Cell} (h : cell? a = some c) : a.toNat < 0xFFFE0200 := by
  have hat := isAt_of_physicalCell? h
  have hp := toNat_physical a
  have hlt := a.toNat_lt
  cases c with
  | main i => exact (by have := hat.1; omega)
  | expansion => exact (by have := hat.2; omega)
  | scratchpad i | port i | rom i | cacheControl i =>
    have hi := i.isLt
    simp only [Cell.IsAt] at hat
    omega

end Address

/-- What is fetched from memory at an address, where something can be fetched. -/
def Ram.fetched (r : Ram) (a : Word) : Option Word := (readWord r a).toOption

namespace Ram

/-- What is fetched is read where there is a cell. -/
theorem exists_cell?_of_fetched {r : Ram} {a w : Word} (h : r.fetched a = some w) :
    ∃ c, Address.cell? a = some c := by
  unfold fetched at h
  cases hw : readWord r a with
  | error e =>
    rw [hw] at h
    cases h
  | ok w' => exact exists_cell?_of_readWord hw

/-- What can be fetched lies below the control register of the cache. -/
theorem toNat_lt_of_fetched {r : Ram} {a w : Word} (h : r.fetched a = some w) :
    a.toNat < 0xFFFE0200 := by
  obtain ⟨c, hc⟩ := exists_cell?_of_fetched h
  exact Address.toNat_lt_of_cell? hc

/-- Whether something can be fetched from an address does not depend on what memory holds. -/
theorem isSome_fetched (r r' : Ram) (a : Word) :
    (r'.fetched a).isSome = (r.fetched a).isSome := by
  unfold fetched
  cases h : readWord r a with
  | error e => rw [show readWord r' a = .error e from readWord_error h]
  | ok w =>
    cases h' : readWord r' a with
    | error e =>
      rw [show readWord r a = .error e from readWord_error h'] at h
      cases h
    | ok w' => rfl

end Ram

namespace Block

/-- What the translation of an instruction at an address is followed by in its block. -/
inductive Behind (fetch : Word → Option Word) (room : Nat) (a : Word) (i? : Option Instruction) :
    List (Word × Option Instruction) → Prop where
  /-- The block ends. A delay slot is missing only if it cannot be fetched. -/
  | nothing (h : i?.any Instruction.hasDelaySlot = true → fetch (a + Instruction.size) = none) :
      Behind fetch room a i? []
  /-- The block ends with the delay slot of a transfer of control. -/
  | slot {w : Word} (h : i?.any Instruction.hasDelaySlot = true)
      (hw : fetch (a + Instruction.size) = some w) :
      Behind fetch room a i? [(a + Instruction.size, Instruction.decode? w)]
  /-- The block goes on. -/
  | more (h : i?.any Instruction.hasDelaySlot = false) :
      Behind fetch room a i? (instructionsFrom fetch room (a + Instruction.size))

/-- A block has its first instruction and what follows that. -/
theorem instructionsFrom_succ {fetch : Word → Option Word} (room : Nat) {a w : Word}
    (hw : fetch a = some w) :
    ∃ rest, Behind fetch room a (Instruction.decode? w) rest ∧
      instructionsFrom fetch (room + 1) a = (a, Instruction.decode? w) :: rest := by
  simp only [instructionsFrom, hw]
  -- A word that is no instruction ends the block, and so does the want of a delay slot.
  cases Instruction.decode? w with
  | none => exact ⟨[], .nothing fun h => (by cases h), rfl⟩
  | some i =>
    cases hdelay : i.hasDelaySlot with
    | true =>
      have hany : (some i).any Instruction.hasDelaySlot = true := hdelay
      refine ⟨_, ?_, rfl⟩
      simp only [hdelay, if_true]
      cases hslot : fetch (a + Instruction.size) with
      | none => exact .nothing fun _ => hslot
      | some slot => exact .slot hany hslot
    | false =>
      have hany : (some i).any Instruction.hasDelaySlot = false := hdelay
      refine ⟨_, ?_, rfl⟩
      simp only [hdelay, Bool.false_eq_true, if_false]
      cases i.endsBlock with
      | true => exact .nothing fun h => absurd (hany.symm.trans h) Bool.false_ne_true
      | false => exact .more hany

/-- Where nothing can be fetched, there are no instructions. -/
theorem instructionsFrom_none {fetch : Word → Option Word} {a : Word} (hw : fetch a = none)
    (room : Nat) : instructionsFrom fetch room a = [] := by
  cases room with
  | zero => rfl
  | succ room => simp only [instructionsFrom, hw]

/-- Instructions stand one behind the other from an address on, each where its word was fetched. -/
def Laid (fetch : Word → Option Word) : Word → List (Word × Option Instruction) → Prop
  | _, [] => True
  | start, p :: rest =>
    p.1 = start ∧ (∃ w, fetch start = some w ∧ p.2 = Instruction.decode? w) ∧
      Laid fetch (start + Instruction.size) rest

/-- The instructions of a block are laid one behind the other. -/
theorem laid_instructionsFrom (fetch : Word → Option Word) (room : Nat) (start : Word) :
    Laid fetch start (instructionsFrom fetch room start) := by
  induction room generalizing start with
  | zero => trivial
  | succ room ih =>
    cases hw : fetch start with
    | none =>
      rw [instructionsFrom_none hw]
      trivial
    | some w =>
      obtain ⟨rest, hbehind, heq⟩ := instructionsFrom_succ room hw
      rw [heq]
      refine ⟨rfl, ⟨w, hw, rfl⟩, ?_⟩
      -- The addresses follow each other, in the slot as well as in the rest.
      cases hbehind with
      | nothing => trivial
      | @slot slot _ hslot => exact ⟨rfl, ⟨slot, hslot, rfl⟩, trivial⟩
      | more => exact ih (start + Instruction.size)

/-- Where memory ends before the address space does, instructions do not wrap around. -/
theorem Laid.bounds {fetch : Word → Option Word}
    (hfetch : ∀ a w, fetch a = some w → a.toNat < 0xFFFE0200) {start : Word}
    {is : List (Word × Option Instruction)} (hstart : start.toNat % 4 = 0)
    (h : Laid fetch start is) :
    start.toNat + 4 * is.length < 0x100000000 ∧
      ∀ p ∈ is, start.toNat ≤ p.1.toNat ∧ p.1.toNat + 4 ≤ start.toNat + 4 * is.length ∧
        p.1.toNat % 4 = 0 := by
  have hlt := start.toNat_lt
  induction is generalizing start with
  | nil => exact ⟨by simp only [List.length_nil]; omega, fun p hp => by cases hp⟩
  | cons p rest ih =>
    obtain ⟨hp, ⟨w, hw, -⟩, hrest⟩ := h
    have hbound := hfetch start w hw
    -- What can be fetched lies well below the end of the address space, so the next address does
    -- not wrap around.
    have hnext : (start + Instruction.size).toNat = start.toNat + 4 := by
      rw [UInt32.toNat_add]
      exact Nat.mod_eq_of_lt (by change start.toNat + 4 < 2 ^ 32; omega)
    obtain ⟨hend, hall⟩ := ih (by omega) hrest (by omega)
    rw [List.length_cons]
    refine ⟨by omega, fun q hq => ?_⟩
    rcases List.mem_cons.mp hq with rfl | hq
    · rw [hp]
      omega
    · have := hall q hq
      omega

/-- The instructions of a block are determined by the words at their addresses, and by where there
are words at all. -/
theorem instructionsFrom_congr {fetch fetch' : Word → Option Word} {room : Nat} {start : Word}
    (hmapped : ∀ a, (fetch' a).isSome = (fetch a).isSome)
    (h : ∀ p ∈ instructionsFrom fetch room start, fetch' p.1 = fetch p.1) :
    instructionsFrom fetch' room start = instructionsFrom fetch room start := by
  induction room generalizing start with
  | zero => rfl
  | succ room ih =>
    -- What could not be fetched before still cannot be.
    have hnone (a : Word) (ha : fetch a = none) : fetch' a = none := by
      rw [← Option.not_isSome_iff_eq_none, hmapped a, ha]
      exact Bool.false_ne_true
    cases hw : fetch start with
    | none => simp only [instructionsFrom, hw, hnone start hw]
    | some w =>
      unfold instructionsFrom at h
      simp only [hw, List.forall_mem_cons] at h
      obtain ⟨hfirst, hrest⟩ := h
      simp only [instructionsFrom, hw, hfirst]
      congr 1
      cases hi : Instruction.decode? w with
      | none => rfl
      | some i =>
        simp only [hi] at hrest ⊢
        split
        · next hslot =>
          rw [if_pos hslot] at hrest
          cases hs : fetch (start + Instruction.size) with
          | none => rw [hnone _ hs]
          | some slot =>
            rw [hs] at hrest
            rw [hrest _ (List.mem_singleton_self _), hs]
        · next hslot =>
          rw [if_neg hslot] at hrest
          split
          · rfl
          · next hends =>
            rw [if_neg hends] at hrest
            exact ih hrest

/-- An instruction ready to be executed. -/
def stepFor (choose : Word → Option Instruction → List Action) (extent : Extent)
    (p : Word × Option Instruction) : Step :=
  ⟨p.1, (choose p.1 p.2).filter extent.admits, .ofInstruction? p.2 p.1⟩

/-- When translating succeeds, and what it gives, wherever the words are read from. -/
theorem translateBy_eq_ok {read : Word → Except MemoryError Word}
    {choose : Word → Option Instruction → List Action} {extent : Extent} {start : Word} {b : Block} :
    translateBy read choose extent start = .ok b ↔
      start.toNat % 4 = 0 ∧ (read start).toOption.isSome = true ∧
        b = ⟨start, (instructionsFrom (fun a => (read a).toOption) extent.room start).map
          (stepFor choose extent)⟩ := by
  have halign : Word.isAligned start Instruction.size = true ↔ start.toNat % 4 = 0 :=
    Word.isAligned_iff
  unfold translateBy
  rw [← halign]
  split
  · next h =>
    cases hw : read start with
    | error e => exact ⟨fun h' => (by cases h'), fun ⟨_, h', _⟩ => (by cases h')⟩
    | ok w =>
      refine ⟨fun h' => ?_, fun ⟨_, _, h'⟩ => h' ▸ rfl⟩
      cases h'
      exact ⟨h, rfl, rfl⟩
  · next h => exact ⟨fun h' => (by cases h'), fun ⟨h', _⟩ => absurd h' h⟩

/-- When translating memory succeeds, and what it gives. -/
theorem translate_eq_ok {r : Ram} {choose : Word → Option Instruction → List Action}
    {extent : Extent} {start : Word} {b : Block} :
    translate r choose extent start = .ok b ↔
      start.toNat % 4 = 0 ∧ (r.fetched start).isSome = true ∧
        b = ⟨start, (instructionsFrom r.fetched extent.room start).map (stepFor choose extent)⟩ :=
  translateBy_eq_ok

/-- What is translated fails for its first word alone, however much is translated. -/
theorem translate_error {r : Ram} {choose choose' : Word → Option Instruction → List Action}
    {extent extent' : Extent} {start : Word} {t : Trap}
    (h : translate r choose extent start = .error t) :
    translate r choose' extent' start = .error t := by
  unfold translate translateBy at h ⊢
  split at h
  · next haligned =>
    rw [if_pos haligned]
    cases hw : readWord r start with
    | error e =>
      rw [hw] at h
      exact h
    | ok w =>
      rw [hw] at h
      cases h
  · next haligned =>
    rw [if_neg haligned]
    exact h

/-- The instructions of a translation stand where their words were fetched. -/
theorem laid_of_translate {r : Ram} {choose : Word → Option Instruction → List Action}
    {extent : Extent} {start : Word} {b : Block} (h : translate r choose extent start = .ok b) :
    ∃ is, is = instructionsFrom r.fetched extent.room start ∧
      b = ⟨start, is.map (stepFor choose extent)⟩ ∧ Laid r.fetched start is ∧
      start.toNat % 4 = 0 ∧ (r.fetched start).isSome = true := by
  obtain ⟨haligned, hsome, hb⟩ := translate_eq_ok.mp h
  exact ⟨_, rfl, hb, laid_instructionsFrom _ _ _, haligned, hsome⟩

/-- Where the words of its instructions are the same and the same actions are chosen before them, a
block is translated the same. -/
theorem translate_congr {r r' : Ram} {choose choose' : Word → Option Instruction → List Action}
    {extent : Extent} {start : Word} {b : Block} (h : translate r choose extent start = .ok b)
    (hword : ∀ s ∈ b.steps, readWord r' s.address = readWord r s.address)
    (hchoose : ∀ s ∈ b.steps, ∀ i?, choose' s.address i? = choose s.address i?) :
    translate r' choose' extent start = .ok b := by
  obtain ⟨haligned, hsome, rfl⟩ := translate_eq_ok.mp h
  simp only [List.forall_mem_map, stepFor] at hword hchoose
  have his : instructionsFrom r'.fetched extent.room start =
      instructionsFrom r.fetched extent.room start :=
    instructionsFrom_congr (r.isSome_fetched r') fun p hp => congrArg Except.toOption (hword p hp)
  refine translate_eq_ok.mpr ⟨haligned, (r.isSome_fetched r' start).trans hsome, ?_⟩
  rw [his]
  congr 1
  refine List.map_congr_left fun p hp => ?_
  simp only [stepFor, hchoose p hp]

/-- A block has room for its instructions and a delay slot. -/
theorem length_instructionsFrom (fetch : Word → Option Word) (room : Nat) (start : Word) :
    (instructionsFrom fetch room start).length ≤ room + 1 := by
  induction room generalizing start with
  | zero => exact Nat.zero_le 1
  | succ room ih =>
    cases hw : fetch start with
    | none =>
      rw [instructionsFrom_none hw]
      exact Nat.zero_le _
    | some w =>
      obtain ⟨rest, hbehind, heq⟩ := instructionsFrom_succ room hw
      rw [heq, List.length_cons]
      cases hbehind with
      | nothing | slot => simp only [List.length_cons, List.length_nil]; omega
      | more => exact Nat.succ_le_succ (ih _)

/-- A translation is short, and does not wrap around. -/
theorem length_of_translate {r : Ram} {choose : Word → Option Instruction → List Action}
    {extent : Extent} {start : Word} {b : Block} (h : translate r choose extent start = .ok b) :
    b.length ≤ 65 ∧ b.start.toNat + 4 * b.length < 0x100000000 := by
  obtain ⟨is, his, rfl, hlaid, haligned, -⟩ := laid_of_translate h
  have hroom : extent.room ≤ 64 := by cases extent <;> decide
  have hlength := length_instructionsFrom r.fetched extent.room start
  have hbound := (hlaid.bounds (fun _ _ => Ram.toNat_lt_of_fetched) haligned).1
  rw [← his] at hlength
  simp only [length, List.length_map]
  exact ⟨by omega, hbound⟩

/-- What a block covers, as numbers. -/
theorem covers_iff {b : Block} (h : b.start.toNat + 4 * b.length < 0x100000000) {a : Word} :
    b.covers a = true ↔ b.start.toNat ≤ a.toNat ∧ a.toNat < b.start.toNat + 4 * b.length := by
  have hlen : (UInt32.ofNat b.length * Instruction.size).toNat = 4 * b.length := by
    rw [UInt32.toNat_mul, UInt32.toNat_ofNat']
    change b.length % 2 ^ 32 * 4 % 2 ^ 32 = _
    omega
  have hstop : b.stop.toNat = b.start.toNat + 4 * b.length := by
    rw [stop, UInt32.toNat_add, hlen]
    exact Nat.mod_eq_of_lt h
  rw [covers, Bool.and_eq_true, decide_eq_true_iff, decide_eq_true_iff, UInt32.le_iff_toNat_le,
    UInt32.lt_iff_toNat_lt, hstop]

/-- A block covers every byte of its instructions, which are aligned. -/
theorem covers_of_mem_steps {r : Ram} {choose : Word → Option Instruction → List Action}
    {extent : Extent} {start : Word} {b : Block} (h : translate r choose extent start = .ok b)
    {s : Step} (hs : s ∈ b.steps) :
    s.address.toNat % 4 = 0 ∧ ∀ k < 4, b.covers (s.address + UInt32.ofNat k) = true := by
  obtain ⟨is, -, rfl, hlaid, haligned, -⟩ := laid_of_translate h
  obtain ⟨hend, hall⟩ := hlaid.bounds (fun _ _ => Ram.toNat_lt_of_fetched) haligned
  obtain ⟨p, hp, rfl⟩ := List.mem_map.mp hs
  obtain ⟨hle, hlt, hmod⟩ := hall p hp
  refine ⟨hmod, fun k hk => ?_⟩
  rw [covers_iff (by simpa only [length, List.length_map] using hend)]
  change _ ≤ (p.1 + UInt32.ofNat k).toNat ∧ (p.1 + UInt32.ofNat k).toNat < _
  rw [Address.toNat_add_ofNat hmod hk]
  simp only [length, List.length_map]
  omega

/-- A block has no step at an address that it does not cover. -/
theorem address_ne_of_covers {r : Ram} {choose : Word → Option Instruction → List Action}
    {extent : Extent} {start : Word} {b : Block} (h : translate r choose extent start = .ok b)
    {s : Step} (hs : s ∈ b.steps) {a : Word} (hclear : b.covers a = false) : s.address ≠ a := by
  intro he
  have hcovers := (covers_of_mem_steps h hs).2 0 (by omega)
  rw [show UInt32.ofNat 0 = 0 from rfl, UInt32.add_zero, he, hclear] at hcovers
  cases hcovers

end Block

/-- The search for the translations that cover an address overlooks none: no block that is entered
below the place where it begins reaches as far. -/
theorem Translations.finds_eq_covers {r : Ram} {choose : Word → Option Instruction → List Action}
    {extent : Extent} {start : Word} {b : Block} (h : Block.translate r choose extent start = .ok b)
    (a : Word) : finds a start b = b.covers a := by
  obtain ⟨hshort, hend⟩ := Block.length_of_translate h
  obtain ⟨-, -, rfl⟩ := Block.translate_eq_ok.mp h
  rw [Bool.eq_iff_iff, finds, Bool.and_eq_true, Bool.and_eq_true, decide_eq_true_iff,
    decide_eq_true_iff, UInt32.le_iff_toNat_le, and_iff_right_iff_imp, Block.covers_iff hend]
  change _ → a.toNat - 260 ≤ start.toNat ∧ _
  simp only
  omega

end MipsMonitor
