import MipsMonitor.Proofs.Machine.Translation
import MipsMonitor.Proofs.Memory.Windows

/-!
# The shape of a translation

The instructions of a block can be gathered by a loop without a counter: it reads the word at an
address, adds what the word encodes, and goes on behind it (`Gathering.turn`). It is left in five ways.
Where nothing can be read it ends before the address, or fails if nothing was gathered yet; it ends
behind a delay slot, behind a word that must trap, and behind the last instruction that there is room
for. A transfer of control makes the next turn that of its delay slot, whatever room is left.

`instructionsFrom` counts the room down instead. Both gather the same, so the loop comes to its end
with the turn behind the last one that there is room for, whatever it reads (`Gathering.run_start`).
What is gathered ends in one of five ways as well (`Gathered`), and the index of an instruction tells
what it can be (`Shape`). The main statement is `Block.translation_shape`.
-/

namespace MipsMonitor

/-- There is room for one instruction at least. -/
theorem Extent.exists_room (extent : Extent) : ∃ room, extent.room = room + 1 :=
  ⟨extent.room - 1, by cases extent <;> rfl⟩

namespace Block

/-- A word must trap: it encodes nothing, or `syscall` or `break`. -/
def MustTrap : Option Instruction → Prop
  | none => True
  | some i => i.mnemonic = .syscall ∨ i.mnemonic = .breakpoint

/-- A word encodes a jump or a branch. -/
def Transfers (i? : Option Instruction) : Prop := i?.any Instruction.hasDelaySlot = true

/-- A word encodes an instruction behind which a block goes on if it can. -/
def Plain (i? : Option Instruction) : Prop := ¬Transfers i? ∧ ¬MustTrap i?

/-- What transfers control is an instruction that has a delay slot. -/
theorem transfers_iff {i? : Option Instruction} :
    Transfers i? ↔ ∃ i, i? = some i ∧ i.hasDelaySlot = true := by
  cases i? <;> simp [Transfers]

/-- Which words must trap, as translating tells them. -/
theorem mustTrap_iff {i? : Option Instruction} :
    MustTrap i? ↔ ∀ i, i? = some i → i.hasDelaySlot = false ∧ i.endsBlock = true := by
  cases i? with
  | none => simp [MustTrap]
  | some i =>
    have hsyscall : Mnemonic.syscall.hasDelaySlot = false := rfl
    have hbreak : Mnemonic.breakpoint.hasDelaySlot = false := rfl
    -- What ends a block either transfers control or is one of the two that trap.
    simp only [MustTrap, Option.some.injEq, forall_eq', Instruction.hasDelaySlot,
      Instruction.endsBlock, Mnemonic.endsBlock, Bool.or_eq_true, beq_iff_eq]
    constructor
    · rintro (h | h)
      · exact ⟨h ▸ hsyscall, .inl (.inr h)⟩
      · exact ⟨h ▸ hbreak, .inr h⟩
    · rintro ⟨hplain, (h | h) | h⟩
      · cases hplain.symm.trans h
      · exact .inl h
      · exact .inr h

/-- Which words encode a plain instruction, as translating tells them. -/
theorem plain_iff {i? : Option Instruction} :
    Plain i? ↔ ∃ i, i? = some i ∧ i.hasDelaySlot = false ∧ i.endsBlock = false := by
  rw [Plain, transfers_iff, mustTrap_iff]
  cases i? with
  | none => simp
  | some i => cases hdelay : i.hasDelaySlot <;> cases hends : i.endsBlock <;> simp [hdelay, hends]

/-- What transfers control does not trap in any case. -/
theorem Transfers.not_mustTrap {i? : Option Instruction} (h : Transfers i?) : ¬MustTrap i? := by
  obtain ⟨i, rfl, hdelay⟩ := transfers_iff.mp h
  intro htrap
  cases hdelay.symm.trans (mustTrap_iff.mp htrap i rfl).1

/-! ## The loop -/

/-- The state of the loop that gathers the instructions of a block. -/
structure Gathering where
  /-- What was gathered, the last one first. -/
  gathered : List (Word × Option Instruction)
  /-- Where the next word is read. -/
  address : Word
  /-- Whether that is the delay slot of what was gathered last. -/
  inSlot : Bool

/-- What a turn of the loop leads to. -/
inductive Turn where
  /-- Another turn. -/
  | again (g : Gathering)
  /-- The end of the loop. -/
  | leave (result : Except MemoryError (List (Word × Option Instruction)))

namespace Gathering

variable (read : Word → Except MemoryError Word) (extent : Extent)

/-- A turn of the loop. -/
def turn (g : Gathering) : Turn :=
  match read g.address with
  | .error e => .leave (if g.gathered.isEmpty then .error e else .ok g.gathered.reverse)
  | .ok w =>
    let i? := Instruction.decode? w
    let gathered := (g.address, i?) :: g.gathered
    let next := g.address + Instruction.size
    if g.inSlot then .leave (.ok gathered.reverse)
    else
      match i? with
      | none => .leave (.ok gathered.reverse)
      | some i =>
        if i.hasDelaySlot then .again ⟨gathered, next, true⟩
        else if i.endsBlock then .leave (.ok gathered.reverse)
        else if extent = .single ∨ Extent.block.room ≤ gathered.length then
          .leave (.ok gathered.reverse)
        else .again ⟨gathered, next, false⟩

/-- The loop, which may not come to its end within a number of turns. -/
def run : (turns : Nat) → Gathering → Option (Except MemoryError (List (Word × Option Instruction)))
  | 0, _ => none
  | turns + 1, g =>
    match g.turn read extent with
    | .again g => run turns g
    | .leave result => some result

end Gathering

/-! ## Where it ends -/

/-- Gathering instructions from an address on comes to one of its ends. -/
inductive Gathered (fetch : Word → Option Word) :
    (room : Nat) → (a : Word) → List (Word × Option Instruction) → Prop where
  /-- The end is behind a word that must trap. -/
  | trap {room : Nat} {a w : Word} (hw : fetch a = some w) (h : MustTrap (Instruction.decode? w)) :
      Gathered fetch (room + 1) a [(a, Instruction.decode? w)]
  /-- The end is behind a transfer of control whose delay slot cannot be fetched. -/
  | edge {room : Nat} {a w : Word} (hw : fetch a = some w) (h : Transfers (Instruction.decode? w))
      (hnext : fetch (a + Instruction.size) = none) :
      Gathered fetch (room + 1) a [(a, Instruction.decode? w)]
  /-- The end is behind a delay slot. -/
  | slot {room : Nat} {a w w' : Word} (hw : fetch a = some w) (h : Transfers (Instruction.decode? w))
      (hnext : fetch (a + Instruction.size) = some w') :
      Gathered fetch (room + 1) a
        [(a, Instruction.decode? w), (a + Instruction.size, Instruction.decode? w')]
  /-- The end is where no room is left. -/
  | full {a w : Word} (hw : fetch a = some w) (h : Plain (Instruction.decode? w)) :
      Gathered fetch 1 a [(a, Instruction.decode? w)]
  /-- The end is before a word that cannot be fetched, with room left. -/
  | unread {room : Nat} {a w : Word} (hw : fetch a = some w) (h : Plain (Instruction.decode? w))
      (hnext : fetch (a + Instruction.size) = none) :
      Gathered fetch (room + 2) a [(a, Instruction.decode? w)]
  /-- There is more behind a plain instruction. -/
  | more {room : Nat} {a w : Word} {rest : List (Word × Option Instruction)} (hw : fetch a = some w)
      (h : Plain (Instruction.decode? w))
      (hrest : Gathered fetch (room + 1) (a + Instruction.size) rest) :
      Gathered fetch (room + 2) a ((a, Instruction.decode? w) :: rest)

section

variable {fetch : Word → Option Word} {a w : Word} (hw : fetch a = some w) (room : Nat)

include hw

/-- A block ends with an instruction that traps in any case. -/
theorem instructionsFrom_of_mustTrap (h : MustTrap (Instruction.decode? w)) :
    instructionsFrom fetch (room + 1) a = [(a, Instruction.decode? w)] := by
  rw [mustTrap_iff] at h
  simp only [instructionsFrom, hw]
  split
  · rfl
  · next i hi =>
    rw [(h i hi).1, (h i hi).2]
    rfl

/-- A block ends with a transfer and its delay slot, if that can be fetched. -/
theorem instructionsFrom_of_transfers (h : Transfers (Instruction.decode? w)) :
    instructionsFrom fetch (room + 1) a = (a, Instruction.decode? w) ::
      (fetch (a + Instruction.size)).toList.map fun slot =>
        (a + Instruction.size, Instruction.decode? slot) := by
  obtain ⟨i, hi, hdelay⟩ := transfers_iff.mp h
  simp only [instructionsFrom, hw, hi, hdelay, if_true]

/-- A block goes on behind a plain instruction. -/
theorem instructionsFrom_of_plain (h : Plain (Instruction.decode? w)) :
    instructionsFrom fetch (room + 1) a =
      (a, Instruction.decode? w) :: instructionsFrom fetch room (a + Instruction.size) := by
  obtain ⟨i, hi, hdelay, hends⟩ := plain_iff.mp h
  simp only [instructionsFrom, hw, hi, hdelay, hends, Bool.false_eq_true, if_false]

end

/-- Where the first instruction can be fetched, those of a block come to one of the ends. -/
theorem gathered_instructionsFrom {fetch : Word → Option Word} {a w : Word} (hw : fetch a = some w)
    (room : Nat) : Gathered fetch (room + 1) a (instructionsFrom fetch (room + 1) a) := by
  by_cases htransfers : Transfers (Instruction.decode? w)
  · rw [instructionsFrom_of_transfers hw room htransfers]
    cases hnext : fetch (a + Instruction.size) with
    | none => exact .edge hw htransfers hnext
    | some slot => exact .slot hw htransfers hnext
  · by_cases htrap : MustTrap (Instruction.decode? w)
    · rw [instructionsFrom_of_mustTrap hw room htrap]
      exact .trap hw htrap
    · rw [instructionsFrom_of_plain hw room ⟨htransfers, htrap⟩]
      -- Room for one more decides whether the block is full or the next word is asked for.
      cases room with
      | zero => exact .full hw ⟨htransfers, htrap⟩
      | succ room =>
        cases hnext : fetch (a + Instruction.size) with
        | none =>
          rw [instructionsFrom_none hnext]
          exact .unread hw ⟨htransfers, htrap⟩ hnext
        | some next => exact .more hw ⟨htransfers, htrap⟩ (gathered_instructionsFrom hnext room)

namespace Gathering

variable {read : Word → Except MemoryError Word} {extent : Extent} {g : Gathering} {w : Word}

/-! ## The turns that lead there -/

/-- A word that must trap ends the loop. -/
theorem turn_trap (hplain : g.inSlot = false) (hread : read g.address = .ok w)
    (h : MustTrap (Instruction.decode? w)) :
    turn read extent g = .leave (.ok ((g.address, Instruction.decode? w) :: g.gathered).reverse) := by
  rw [mustTrap_iff] at h
  simp only [turn, hread, hplain, Bool.false_eq_true, if_false]
  split
  · rfl
  · next i hi => rw [(h i hi).1, (h i hi).2]; rfl

/-- A transfer of control is followed by the turn of its delay slot. -/
theorem turn_transfers (hplain : g.inSlot = false) (hread : read g.address = .ok w)
    (h : Transfers (Instruction.decode? w)) :
    turn read extent g = .again
      ⟨(g.address, Instruction.decode? w) :: g.gathered, g.address + Instruction.size, true⟩ := by
  obtain ⟨i, hi, hdelay⟩ := transfers_iff.mp h
  simp only [turn, hread, hplain, Bool.false_eq_true, if_false, hi, hdelay, if_true]

/-- A plain instruction is followed by another turn if there is room left. -/
theorem turn_plain (hplain : g.inSlot = false) (hread : read g.address = .ok w)
    (h : Plain (Instruction.decode? w)) {room : Nat}
    (hroom : g.gathered.length + (room + 1) = extent.room) :
    turn read extent g =
      if room = 0 then .leave (.ok ((g.address, Instruction.decode? w) :: g.gathered).reverse)
      else .again
        ⟨(g.address, Instruction.decode? w) :: g.gathered, g.address + Instruction.size, false⟩ := by
  obtain ⟨i, hi, hdelay, hends⟩ := plain_iff.mp h
  have hused : extent = .single ∨ Extent.block.room ≤ g.gathered.length + 1 ↔ room = 0 := by
    cases extent <;> simp only [Extent.room, reduceCtorEq, false_or, true_or, true_iff] at hroom ⊢ <;>
      omega
  simp only [turn, hread, hplain, Bool.false_eq_true, if_false, hi, hdelay, hends, List.length_cons,
    hused]

/-- Where nothing can be read the loop ends with what was gathered. -/
theorem turn_unread {e : MemoryError} (hread : read g.address = .error e) (hsome : g.gathered ≠ []) :
    turn read extent g = .leave (.ok g.gathered.reverse) := by
  have hempty : g.gathered.isEmpty = false := List.isEmpty_eq_false_iff.mpr hsome
  simp only [turn, hread, hempty, Bool.false_eq_true, if_false]

/-- The loop ends with the turn of a delay slot. -/
theorem turn_slot (hslot : g.inSlot = true) (hread : read g.address = .ok w) :
    turn read extent g = .leave (.ok ((g.address, Instruction.decode? w) :: g.gathered).reverse) := by
  simp only [turn, hread, hslot, if_true]

/-- A turn that ends the loop. -/
theorem run_leave {result : Except MemoryError (List (Word × Option Instruction))}
    (h : turn read extent g = .leave result) {turns : Nat} (hturns : 0 < turns) :
    run read extent turns g = some result := by
  obtain ⟨turns, rfl⟩ : ∃ n, turns = n + 1 := ⟨turns - 1, by omega⟩
  simp only [run, h]

/-- A turn with another one behind it. -/
theorem run_again {g' : Gathering} (h : turn read extent g = .again g') (turns : Nat) :
    run read extent (turns + 1) g = run read extent turns g' := by
  simp only [run, h]

/-- What the loop reads, as it is fetched. -/
theorem read_of_toOption {a w : Word} (h : (read a).toOption = some w) : read a = .ok w := by
  cases hread : read a <;> rw [hread] at h <;> cases h
  rfl

/-- What is read without success fails with an error. -/
theorem unread_of_toOption {a : Word} (h : (read a).toOption = none) : ∃ e, read a = .error e := by
  cases hread : read a with
  | error e => exact ⟨e, rfl⟩
  | ok w =>
    rw [hread] at h
    cases h

/-- The loop ends where gathering does, with the turn behind the last one that there is room for or
before that. -/
theorem run_of_gathered {room turns : Nat} {a : Word} {gathered is : List (Word × Option Instruction)}
    (h : Gathered (fun a => (read a).toOption) room a is)
    (hroom : gathered.length + room = extent.room) (hturns : room < turns) :
    run read extent turns ⟨gathered, a, false⟩ = some (.ok (gathered.reverse ++ is)) := by
  -- Along the gathering: each instruction gathered takes one turn, and the room bounds the turns.
  induction h generalizing gathered turns with
  | trap hw htrap =>
    rw [run_leave (turn_trap rfl (read_of_toOption hw) htrap) (by omega), List.reverse_cons]
  | edge hw h hnext =>
    obtain ⟨e, he⟩ := unread_of_toOption hnext
    obtain ⟨turns, rfl⟩ : ∃ n, turns = n + 1 := ⟨turns - 1, by omega⟩
    rw [run_again (turn_transfers rfl (read_of_toOption hw) h),
      run_leave (turn_unread he (List.cons_ne_nil _ _)) (by omega), List.reverse_cons]
  | slot hw h hnext =>
    obtain ⟨turns, rfl⟩ : ∃ n, turns = n + 1 := ⟨turns - 1, by omega⟩
    rw [run_again (turn_transfers rfl (read_of_toOption hw) h),
      run_leave (turn_slot rfl (read_of_toOption hnext)) (by omega), List.reverse_cons,
      List.reverse_cons, List.append_assoc, List.singleton_append]
  | full hw h =>
    rw [run_leave ((turn_plain rfl (read_of_toOption hw) h hroom).trans (if_pos rfl)) (by omega),
      List.reverse_cons]
  | unread hw h hnext =>
    obtain ⟨e, he⟩ := unread_of_toOption hnext
    obtain ⟨turns, rfl⟩ : ∃ n, turns = n + 1 := ⟨turns - 1, by omega⟩
    rw [run_again ((turn_plain rfl (read_of_toOption hw) h hroom).trans (if_neg (Nat.succ_ne_zero _))),
      run_leave (turn_unread he (List.cons_ne_nil _ _)) (by omega), List.reverse_cons]
  | more hw h hrest ih =>
    obtain ⟨turns, rfl⟩ : ∃ n, turns = n + 1 := ⟨turns - 1, by omega⟩
    rw [run_again ((turn_plain rfl (read_of_toOption hw) h hroom).trans (if_neg (Nat.succ_ne_zero _))),
      ih (by simp only [List.length_cons]; omega) (by omega), List.reverse_cons, List.append_assoc,
      List.singleton_append]

/-- From nothing gathered the loop gathers the instructions of a block, if it can read the first one,
and it always comes to its end. -/
theorem run_start {start : Word} {turns : Nat} (h : extent.room < turns) :
    run read extent turns ⟨[], start, false⟩ =
      some ((read start).map fun _ =>
        instructionsFrom (fun a => (read a).toOption) extent.room start) := by
  obtain ⟨room, hroom⟩ := extent.exists_room
  cases hread : read start with
  | error e =>
    have hturn : turn read extent ⟨[], start, false⟩ = .leave (.error e) := by
      simp only [turn, hread, List.isEmpty_nil, if_true]
    exact run_leave hturn (by omega)
  | ok w =>
    have hw : (read start).toOption = some w := congrArg Except.toOption hread
    rw [run_of_gathered (gathered_instructionsFrom hw room) (by rw [hroom]; exact Nat.zero_add _)
      (by omega), hroom]
    rfl

end Gathering

/-- Translates as `translateBy` does, with the loop, if that ends within a number of turns. -/
def translateWithin (turns : Nat) (read : Word → Except MemoryError Word)
    (choose : Word → Option Instruction → List Action) (extent : Extent) (start : Word) :
    Option (Except Trap Block) :=
  if Word.isAligned start Instruction.size then
    (Gathering.run read extent turns ⟨[], start, false⟩).map fun
      | .ok is => .ok ⟨start, is.map (stepFor choose extent)⟩
      | .error e => .error (.fetch e start)
  else some (.error (.architectural .addressLoadError start))

/-- The loop translates as counting the room down does. -/
theorem translateWithin_eq {turns : Nat} {read : Word → Except MemoryError Word}
    {choose : Word → Option Instruction → List Action} {extent : Extent} {start : Word}
    (h : extent.room < turns) :
    translateWithin turns read choose extent start = some (translateBy read choose extent start) := by
  unfold translateWithin translateBy
  split
  · rw [Gathering.run_start h]
    cases read start <;> rfl
  · rfl

/-! ## The shape -/

/-- The `i`-th of instructions is the delay slot of the one before it. -/
def InSlot (is : List (Word × Option Instruction)) (i : Nat) : Prop :=
  ∃ k p, i = k + 1 ∧ is[k]? = some p ∧ Transfers p.2

/-- The shape of the instructions of a translation. -/
structure Shape (read : Word → Except MemoryError Word) (extent : Extent) (start : Word)
    (is : List (Word × Option Instruction)) : Prop where
  /-- They stand behind each other without a gap, and each is what its word encodes. -/
  words : ∀ i p, is[i]? = some p →
    p.1 = Address.nthWord start i ∧ ∃ w, read p.1 = .ok w ∧ p.2 = Instruction.decode? w
  /-- There is one at least. -/
  nonempty : 1 ≤ is.length
  /-- There are at most as many as there is room for, and a delay slot. -/
  short : is.length ≤ extent.room + 1
  /-- Before the last one nothing must trap. -/
  traps : ∀ i p, is[i]? = some p → i + 1 < is.length → ¬MustTrap p.2
  /-- Before the second to last one nothing is a transfer of control. -/
  transfers : ∀ i p, is[i]? = some p → i + 2 < is.length → ¬Transfers p.2
  /-- A transfer of control that is second to last is followed by its delay slot and nothing else. -/
  slot : ∀ i p, is[i]? = some p → i + 2 = is.length → Transfers p.2 →
    ∃ w, read (p.1 + Instruction.size) = .ok w ∧
      is.drop (i + 1) = [(p.1 + Instruction.size, Instruction.decode? w)]
  /-- A transfer of control that comes last is a delay slot, or its own cannot be read. -/
  edge : ∀ i p, is[i]? = some p → i + 1 = is.length → Transfers p.2 →
    InSlot is i ∨ ∃ e, read (Address.nthWord start is.length) = .error e
  /-- Behind a plain instruction that is no delay slot there is no room left, or nothing can be read. -/
  full : ∀ i p, is[i]? = some p → i + 1 = is.length → Plain p.2 → ¬InSlot is i →
    is.length = extent.room ∨ ∃ e, read (Address.nthWord start is.length) = .error e

/-- What stands at an index is what the word there encodes. -/
theorem Laid.of_getElem? {fetch : Word → Option Word} {start : Word}
    {is : List (Word × Option Instruction)} (h : Laid fetch start is) {i : Nat}
    {p : Word × Option Instruction} (hp : is[i]? = some p) :
    p.1 = Address.nthWord start i ∧ ∃ w, fetch p.1 = some w ∧ p.2 = Instruction.decode? w := by
  induction is generalizing start i with
  | nil => cases hp
  | cons q rest ih =>
    obtain ⟨hq, ⟨w, hw, hi⟩, hrest⟩ := h
    cases i with
    | zero =>
      obtain rfl := Option.some.inj hp
      exact ⟨hq.trans (Address.nthWord_zero start).symm, w, hq ▸ hw, hi⟩
    | succ i =>
      obtain ⟨haddress, hword⟩ := ih hrest hp
      exact ⟨haddress.trans (Address.nthWord_succ_left start i).symm, hword⟩

/-- What stands in a slot does so with an instruction in front of the block. -/
theorem InSlot.cons {is : List (Word × Option Instruction)} {i : Nat} (h : InSlot is i)
    (q : Word × Option Instruction) : InSlot (q :: is) (i + 1) := by
  obtain ⟨k, p, rfl, hp, htransfers⟩ := h
  exact ⟨k + 1, p, rfl, hp, htransfers⟩

namespace Gathered

variable {fetch : Word → Option Word} {room i : Nat} {a : Word}
  {is : List (Word × Option Instruction)} {p : Word × Option Instruction}

/-- A block that was gathered has an instruction. -/
theorem length_pos (h : Gathered fetch room a is) : 1 ≤ is.length := by
  cases h <;> exact Nat.succ_pos _

/-- Only the last of the instructions can be one that must trap. -/
theorem not_mustTrap (h : Gathered fetch room a is) (hp : is[i]? = some p) (hi : i + 1 < is.length) :
    ¬MustTrap p.2 := by
  induction h generalizing i with
  | trap | edge | full | unread => exact absurd hi (by simp)
  | slot _ htransfers =>
    obtain rfl : i = 0 := Nat.lt_one_iff.mp (Nat.lt_of_succ_lt_succ hi)
    obtain rfl := Option.some.inj hp
    exact htransfers.not_mustTrap
  | more _ hplain _ ih =>
    cases i with
    | zero =>
      obtain rfl := Option.some.inj hp
      exact hplain.2
    | succ i => exact ih hp (Nat.lt_of_succ_lt_succ hi)

/-- Only the last two of the instructions can be transfers of control. -/
theorem not_transfers (h : Gathered fetch room a is) (hp : is[i]? = some p) (hi : i + 2 < is.length) :
    ¬Transfers p.2 := by
  induction h generalizing i with
  | trap | edge | full | unread | slot => exact absurd hi (by simp)
  | more _ hplain _ ih =>
    cases i with
    | zero =>
      obtain rfl := Option.some.inj hp
      exact hplain.1
    | succ i => exact ih hp (Nat.lt_of_succ_lt_succ hi)

/-- Behind a transfer of control that is second to last its delay slot is all that is left. -/
theorem drop_eq (h : Gathered fetch room a is) (hp : is[i]? = some p) (hi : i + 2 = is.length)
    (htransfers : Transfers p.2) : ∃ w, fetch (p.1 + Instruction.size) = some w ∧
      is.drop (i + 1) = [(p.1 + Instruction.size, Instruction.decode? w)] := by
  induction h generalizing i with
  | trap | edge | full | unread => cases hi
  | slot _ _ hnext =>
    obtain rfl : i = 0 := by simpa using hi
    obtain rfl := Option.some.inj hp
    exact ⟨_, hnext, rfl⟩
  | more _ hplain _ ih =>
    cases i with
    | zero =>
      obtain rfl := Option.some.inj hp
      exact absurd htransfers hplain.1
    | succ i => exact ih hp (Nat.succ.inj hi)

/-- What the last instruction is, and what is behind it. -/
theorem last (h : Gathered fetch room a is) (hp : is[i]? = some p) (hi : i + 1 = is.length) :
    MustTrap p.2 ∨ InSlot is i ∨ fetch (Address.nthWord a is.length) = none ∨
      Plain p.2 ∧ is.length = room := by
  -- However gathering ended, it says which instruction came last.
  induction h generalizing i with
  | trap _ htrap =>
    obtain rfl : i = 0 := by simpa using hi
    obtain rfl := Option.some.inj hp
    exact .inl htrap
  | edge _ _ hnext | unread _ _ hnext => exact .inr (.inr (.inl hnext))
  | slot _ htransfers =>
    obtain rfl : i = 1 := by simpa using hi
    exact .inr (.inl ⟨0, _, rfl, rfl, htransfers⟩)
  | full _ hplain =>
    obtain rfl : i = 0 := by simpa using hi
    obtain rfl := Option.some.inj hp
    exact .inr (.inr (.inr ⟨hplain, rfl⟩))
  | more _ _ hrest ih =>
    cases i with
    | zero => exact absurd hrest.length_pos (by simpa using hi)
    | succ i =>
      rw [List.length_cons, Address.nthWord_succ_left]
      obtain htrap | hslot | hnext | ⟨hplain, hroom⟩ := ih hp (Nat.succ.inj hi)
      · exact .inl htrap
      · exact .inr (.inl (hslot.cons _))
      · exact .inr (.inr (.inl hnext))
      · exact .inr (.inr (.inr ⟨hplain, congrArg Nat.succ hroom⟩))

end Gathered

/-- What is gathered has the shape of a translation. -/
theorem shape_instructionsFrom {read : Word → Except MemoryError Word} {start w : Word}
    (hread : read start = .ok w) (extent : Extent) :
    Shape read extent start
      (instructionsFrom (fun a => (read a).toOption) extent.room start) := by
  obtain ⟨room, hroom⟩ := extent.exists_room
  have hgathered : Gathered (fun a => (read a).toOption) (room + 1) start _ :=
    gathered_instructionsFrom (congrArg Except.toOption hread) room
  have hlaid := laid_instructionsFrom (fun a => (read a).toOption) extent.room start
  have hlength := length_instructionsFrom (fun a => (read a).toOption) extent.room start
  rw [← hroom] at hgathered
  generalize instructionsFrom _ extent.room start = is at hgathered hlaid hlength ⊢
  -- How gathering ends decides which clause the last instruction falls under.
  exact {
    words := fun i p hp => by
      obtain ⟨haddress, v, hv, hi⟩ := hlaid.of_getElem? hp
      exact ⟨haddress, v, Gathering.read_of_toOption hv, hi⟩
    nonempty := hgathered.length_pos
    short := hlength
    traps := fun i p hp hi => hgathered.not_mustTrap hp hi
    transfers := fun i p hp hi => hgathered.not_transfers hp hi
    slot := fun i p hp hi htransfers => by
      obtain ⟨v, hv, hdrop⟩ := hgathered.drop_eq hp hi htransfers
      exact ⟨v, Gathering.read_of_toOption hv, hdrop⟩
    edge := fun i p hp hi htransfers => by
      obtain htrap | hslot | hnext | ⟨hplain, -⟩ := hgathered.last hp hi
      · exact absurd htrap htransfers.not_mustTrap
      · exact .inl hslot
      · exact .inr (Gathering.unread_of_toOption hnext)
      · exact absurd htransfers hplain.1
    full := fun i p hp hi hplain hnot => by
      obtain htrap | hslot | hnext | ⟨-, hfull⟩ := hgathered.last hp hi
      · exact absurd htrap hplain.2
      · exact absurd hslot hnot
      · exact .inr (Gathering.unread_of_toOption hnext)
      · exact .inl hfull }

/-- Whatever is read, from whatever address, and whichever actions are chosen, translating comes to
its end, within one turn more of the loop than there is room for instructions. It succeeds if the
address is aligned and the word there can be read, and then the steps are those of instructions that
have the shape of a translation. -/
theorem translation_shape (read : Word → Except MemoryError Word)
    (choose : Word → Option Instruction → List Action) (extent : Extent) (start : Word) :
    (∀ turns, extent.room < turns →
        translateWithin turns read choose extent start =
          some (translateBy read choose extent start)) ∧
      ((∃ b, translateBy read choose extent start = .ok b) ↔
        start.toNat % 4 = 0 ∧ ∃ w, read start = .ok w) ∧
      ∀ b, translateBy read choose extent start = .ok b →
        ∃ is, b = ⟨start, is.map (stepFor choose extent)⟩ ∧ Shape read extent start is := by
  -- Termination, success and shape are facts about the gathering, put together.
  refine ⟨fun turns h => translateWithin_eq h, ⟨?_, ?_⟩, ?_⟩
  · rintro ⟨b, hb⟩
    obtain ⟨haligned, hsome, -⟩ := translateBy_eq_ok.mp hb
    obtain ⟨w, hw⟩ := Option.isSome_iff_exists.mp hsome
    exact ⟨haligned, w, Gathering.read_of_toOption hw⟩
  · rintro ⟨haligned, w, hw⟩
    exact ⟨_, translateBy_eq_ok.mpr ⟨haligned, by rw [hw]; rfl, rfl⟩⟩
  · intro b hb
    obtain ⟨-, hsome, rfl⟩ := translateBy_eq_ok.mp hb
    obtain ⟨w, hw⟩ := Option.isSome_iff_exists.mp hsome
    exact ⟨_, rfl, shape_instructionsFrom (Gathering.read_of_toOption hw) extent⟩

end Block

namespace Long

/-- Words that encode `j 0x00` at the last place that a block from address zero has room for, and `nop`
everywhere else. -/
def read (a : Word) : Except MemoryError Word := .ok (if a = 252 then 0x08000000 else 0)

/-- The delay slot of the last instruction that there is room for makes the longest block, for which
the loop takes as many turns. -/
theorem takes_slot_along : ∃ is, Block.translateWithin 65 read (fun _ _ => []) .block 0 =
      some (.ok ⟨0, is.map (Block.stepFor (fun _ _ => []) .block)⟩) ∧
    Block.Shape read .block 0 is ∧ is.length = 65 := by
  obtain ⟨hloop, hok, hshape⟩ := Block.translation_shape read (fun _ _ => []) .block 0
  obtain ⟨b, hb⟩ := hok.mpr ⟨rfl, 0, rfl⟩
  have hlength : (Block.translateBy read (fun _ _ => []) .block 0).toOption.map Block.length =
      some 65 := by decide +kernel
  obtain ⟨is, rfl, his⟩ := hshape b hb
  refine ⟨is, (hloop 65 (by decide)).trans (congrArg some hb), his, ?_⟩
  rw [hb] at hlength
  exact (List.length_map _).symm.trans (Option.some.inj hlength)

end Long

end MipsMonitor
