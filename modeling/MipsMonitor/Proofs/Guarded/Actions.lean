import MipsMonitor.Machine.Step
import MipsMonitor.Proofs.Guarded.Decoding
import MipsMonitor.Proofs.Guarded.Functions
import MipsMonitor.Proofs.Guarded.Memory
import MipsMonitor.Proofs.Guarded.Registers

/-!
# Guarded actions

What instructions do, as guarded actions that work on the registers by raw numbers: one definition
for each family of instructions, with the members' numbers, constants and functions as parameters.
Where the numbers are those of registers, an action never breaks off and does in every state what
the operation does under an observer that keeps silent.
-/

namespace MipsMonitor

open ByteMemory

namespace Guarded

/-- An action on the processor. -/
abbrev Acting (σ : Type) := GuardedAction Signal (Guest σ)

variable {σ : Type}

/-! ## Parts of actions -/

/-- Raises an exception of the instruction at `pc`. -/
def raise {α : Type} (e : Exception) (pc : Word) : Acting σ α :=
  .fail (.trap (.architectural e pc))

/-- What an instruction sees in a watched register. -/
def gpr (i : Nat) : Acting σ Word := fun g => do
  let w ← value g.core.registers i
  pure (.ok w g)

/-- Writes a watched register. Writes to the register that is always zero are dropped. -/
def setGpr (i : Nat) (w : Word) : Acting σ Unit := fun g =>
  if i = 0 then pure (.ok () g)
  else do
    let registers? ← setTracked? g.core.registers i w
    let registers := registers?.getD g.core.registers
    pure (.ok () ⟨{ g.core with registers }, g.context⟩)

/-- The machine gives up the instruction at `pc`, because there is no memory. -/
def giveUp {α : Type} (pc : Word) : Acting σ α := fun g =>
  .ok (.error (.trap (.detached pc)) ⟨g.core.requestStop, g.context⟩)

/-- The number that the bytes at addresses spell. -/
def load (pc : Word) (span : List Word) : Acting σ Word := fun g =>
  match g.core.view? with
  | none => giveUp pc g
  | some v => do
    let bytes ← readBytes (readByte v) span
    let g := ⟨g.core.note (readNotes v span), g.context⟩
    match bytes with
    | .ok bs => pure (.ok (Word.ofBytes bs) g)
    | .error e => pure (.error (.trap (.memory e pc)) g)

/-- Stores bytes from an address on and goes on with the next instruction. -/
def store (pc a : Word) (bs : List UInt8) : Acting σ Flow := fun g =>
  match g.core.view? with
  | none => giveUp pc g
  | some v => do
    let notes := writeNotes v a bs
    match ← writeBytes a bs v with
    | .ok () v =>
      let core := { g.core with view? := some v }.note notes
      pure (.ok .next ⟨{ core with written := a :: core.written }, g.context⟩)
    | .error e v =>
      pure (.error (.trap (.memory e pc)) ⟨{ g.core with view? := some v }.note notes, g.context⟩)

/-- The address of a load or store, which has to be a multiple of a number. -/
def effectiveAddress (base : Nat) (offset alignment : Word) (misaligned : Exception) (pc : Word) :
    Acting σ Word := do
  let start ← gpr base
  let rest ← remainder (start + offset) alignment
  if rest ≠ 0 then raise misaligned pc else pure (start + offset)

/-! ## Families of instructions -/

/-- The second operand of an arithmetic operation. -/
inductive Source where
  /-- What a register holds. -/
  | register (i : Nat)
  /-- A constant. -/
  | constant (w : Word)

/-- The value of a second operand. -/
def Source.value : Source → Acting σ Word
  | register i => gpr i
  | constant w => pure w

/-- Puts a function of two words into a register. -/
def binary (dest lhs : Nat) (rhs : Source) (f : Word → Word → Guarded Word) : Acting σ Flow := do
  let a ← gpr lhs
  let b ← rhs.value
  let w ← f a b
  setGpr dest w
  pure .next

/-- Puts a sum or difference into a register, unless it overflows. -/
def checked (f : Trapping) (dest lhs : Nat) (rhs : Source) (pc : Word) : Acting σ Flow := do
  let a ← gpr lhs
  let b ← rhs.value
  match f.value? a b with
  | some w =>
    setGpr dest w
    pure .next
  | none => raise .overflow pc

/-- Puts a product, or a remainder and a quotient, into the two result registers. -/
def longArithmetic (f : LongArithmetic) (lhs rhs : Nat) : Acting σ Flow := do
  let a ← gpr lhs
  let b ← gpr rhs
  let (high, low) ← long f a b
  setGpr 32 high
  setGpr 33 low
  pure .next

/-- Copies one watched register to another. -/
def move (dest source : Nat) : Acting σ Flow := do
  let w ← gpr source
  setGpr dest w
  pure .next

/-- What a load makes of what the register held and of memory. -/
def loaded (what : Load) (pc a old : Word) : Acting σ Word := do
  match what with
  | .byteSigned => pure (Word.signExtendByte (← load pc (Address.run a 1)))
  | .byte => load pc (Address.run a 1)
  | .halfSigned => pure (Word.signExtendHalf (← load pc (Address.run a 2)))
  | .half => load pc (Address.run a 2)
  | .word => load pc (Address.run a 4)
  | .left =>
    let w ← load pc (Address.run (Word.alignDown a) 4)
    fillHigh (3 - place a) old w
  | .right =>
    let w ← load pc (Address.run (Word.alignDown a) 4)
    fillLow (place a) old w

/-- Loads into a general register. -/
def loadRegister (what : Load) (dest base : Nat) (offset pc : Word) : Acting σ Flow := do
  let a ← effectiveAddress base offset what.alignment .addressLoadError pc
  let old ← gpr dest
  let w ← loaded what pc a old
  setGpr dest w
  pure .next

/-- What a store does with the number to be stored. -/
def stored (what : Store) (pc a w : Word) : Acting σ Flow := do
  match what with
  | .byte => store pc a [w.toUInt8]
  | .half => store pc a (Word.halfToBytes w)
  | .word => store pc a (Word.toBytes w)
  | .left =>
    let old ← load pc (Address.run (Word.alignDown a) 4)
    let merged ← fillLow (3 - place a) old w
    store pc (Word.alignDown a) (Word.toBytes merged)
  | .right =>
    let old ← load pc (Address.run (Word.alignDown a) 4)
    let merged ← fillHigh (place a) old w
    store pc (Word.alignDown a) (Word.toBytes merged)

/-- Stores a general register. -/
def storeRegister (what : Store) (source base : Nat) (offset pc : Word) : Acting σ Flow := do
  let a ← effectiveAddress base offset what.alignment .addressStoreError pc
  let w ← gpr source
  stored what pc a w

/-- Writes a register of the geometry coprocessor. -/
def setGeometry (b : Bank) (i : Nat) (w : Word) : Acting σ Unit := fun g => do
  let registers ← setBank g.core.registers b i w
  pure (.ok () ⟨{ g.core with registers }, g.context⟩)

/-- The contents of a register of a coprocessor, or zero if it has none of that number. -/
def coprocessor (b : Bank) (i : Nat) : Acting σ Word := fun g => do
  let w? ← bank? g.core.registers b i
  pure (.ok (w?.getD 0) g)

/-- Writes a register for system control. -/
def setSystem (i : Nat) (w : Word) : Acting σ Unit := fun g => do
  let core ← writeSystem g.core i w
  pure (.ok () ⟨core, g.context⟩)

/-- Loads a word into a data register of the geometry coprocessor. -/
def loadGeometry (dest base : Nat) (offset pc : Word) : Acting σ Flow := do
  let a ← effectiveAddress base offset 4 .addressLoadError pc
  let w ← load pc (Address.run a 4)
  setGeometry .cop2Data dest w
  pure .next

/-- Stores a data register of the geometry coprocessor. -/
def storeGeometry (source base : Nat) (offset pc : Word) : Acting σ Flow := do
  let a ← effectiveAddress base offset 4 .addressStoreError pc
  let w ← coprocessor .cop2Data source
  store pc a (Word.toBytes w)

/-- Transfers control if a condition holds. The return address, if there is one, is left whether or
not it holds. -/
def branch (condition : Condition) (lhs rhs : Nat) (target : Word) (link? : Option Word) :
    Acting σ Flow := do
  let a ← gpr lhs
  let b ← gpr rhs
  if let some link := link? then setGpr 31 link
  if condition.holds a b then pure (.jump target (if link?.isSome then .enter else .plain))
  else pure .next

/-- Transfers control to a fixed address, and leaves the return address. -/
def call (target link : Word) : Acting σ Flow := do
  setGpr 31 link
  pure (.jump target .enter)

/-- Transfers control to the address in a register. -/
def jumpRegister (source : Nat) : Acting σ Flow := do
  let target ← gpr source
  pure (.jump target (if source = 31 then .leave else .plain))

/-- Transfers control to the address in a register and leaves the return address in another. -/
def callRegister (source dest : Nat) (link : Word) : Acting σ Flow := do
  -- The target is read first: the two may be one register.
  let target ← gpr source
  setGpr dest link
  pure (.jump target .enter)

/-- Copies a register of a coprocessor. -/
def moveFrom (dest : Nat) (b : Bank) (i : Nat) : Acting σ Flow := do
  let w ← coprocessor b i
  setGpr dest w
  pure .next

/-- Writes a register of the system control coprocessor. -/
def moveToSystem (i source : Nat) : Acting σ Flow := do
  let w ← gpr source
  setSystem i w
  pure .next

/-- Writes a register of the geometry coprocessor. -/
def moveToGeometry (b : Bank) (i source : Nat) : Acting σ Flow := do
  let w ← gpr source
  setGeometry b i w
  pure .next

/-- The status register. -/
def status : Acting σ Status := fun g => do
  let w ← readSlot g.core.registers (Bank.cop0.base + 12)
  pure (.ok ⟨w⟩ g)

/-- Takes back the mode bits of before the last exception. -/
def returnFromException : Acting σ Flow := do
  let old ← status
  setSystem 12 old.returnFromException.raw
  pure .next

/-! ## Actions do what operations do -/

open GuardedAction

variable (g : Guest σ)

/-- A watched register is read by its number. -/
theorem gpr_val (t : Tracked) : gpr t.val g = .ok (.ok (g.core.registers.value t) g) := by
  unfold gpr
  rw [value_val]
  rfl

/-- A general register is read by its number. -/
theorem gpr_gpr (r : Gpr) : gpr r.val g = .ok (.ok (Operation.gpr g.core.registers r) g) :=
  gpr_val g (.ofGpr r)

/-- A watched register is written by its number. -/
theorem setGpr_val (t : Tracked) (w : Word) :
    setGpr t.val w g = .ok (.ok () (g.write (.silent σ) t w)) := by
  have hzero : t = .zero ↔ t.val = 0 := Fin.ext_iff
  unfold setGpr Guest.write
  simp only [hzero, setTracked?_val, ok_bind]
  split <;> rfl

/-- A second operand with its register as a number. -/
def Source.of : MipsMonitor.Source → Source
  | .register r => register r
  | .constant w => constant w

/-- The right operand is read, be it a register or a constant. -/
theorem value_of (s : MipsMonitor.Source) :
    (Source.of s).value g = .ok (.ok (Operation.operand g.core.registers s) g) := by
  cases s with
  | register r => exact gpr_gpr g r
  | constant w => rfl

/-- The processor with the report of a read. -/
def noted (span : List Word) (g : Guest σ) : Guest σ :=
  match g.core.view? with
  | some v => ⟨g.core.note (readNotes v span), g.context⟩
  | none => g

/-- What is read is noted byte by byte, as the operation notes its span. -/
theorem noteReads_noted (op : Operation) :
    g.noteReads op = noted (op.span g.core.registers) g := by
  unfold Guest.noteReads noted Core.note
  cases g.core.view? with
  | none => rfl
  | some v =>
    simp only
    split <;> rfl

/-- Noting what is read leaves the registers alone. -/
@[simp]
theorem registers_noted (span : List Word) : (noted span g).core.registers = g.core.registers := by
  unfold noted
  split
  · exact Core.registers_note _ _
  · rfl

/-- Noting what is read leaves the memory alone. -/
@[simp]
theorem view?_noted (span : List Word) : (noted span g).core.view? = g.core.view? := by
  unfold noted
  split
  · exact Core.view?_note _ _
  · rfl

/-- Where nothing is read, nothing is noted. -/
theorem noted_nil : noted [] g = g := by
  unfold noted
  split <;> rfl

/-- Lets an effect take place, or the trap that stands in its place. -/
def carryOut (pc : Word) (e : Except Trap Effect) (g : Guest σ) :
    EStateM.Result Signal (Guest σ) Flow :=
  match e with
  | .error t => Guest.trap t g
  | .ok e =>
    let g := e.writes.foldl (fun g (t, w) => g.write (.silent σ) t w) g
    match e.change? with
    | none => .ok e.flow g
    | some what => Guest.change pc what e.flow g

/-- An operation comes to its effect behind the report of what it reads. -/
theorem perform_noted (op : Operation) (pc : Word) :
    g.perform (.silent σ) pc op =
      carryOut pc (op.effect pc g.core.registers g.core.view?)
        (noted (op.span g.core.registers) g) := by
  have hperform : g.perform (.silent σ) pc op =
      carryOut pc (op.effect pc (g.noteReads op).core.registers (g.noteReads op).core.view?)
        (g.noteReads op) := rfl
  rw [hperform, noteReads_noted, registers_noted, view?_noted]

/-- An operation that reads no memory comes to its effect. -/
theorem perform_eq {op : Operation} (hspan : op.span g.core.registers = []) (pc : Word) :
    g.perform (.silent σ) pc op =
      carryOut pc (op.effect pc g.core.registers g.core.view?) g := by
  rw [perform_noted, hspan, noted_nil]

/-- A load of bytes that are there gives their number. -/
theorem load_ok {pc w : Word} {span : List Word}
    (h : Operation.fetch g.core.view? pc span = .ok w) :
    load pc span g = .ok (.ok w (noted span g)) := by
  unfold Operation.fetch readNumber at h
  unfold load noted
  cases hview : g.core.view? with
  | none =>
    rw [hview] at h
    cases h
  | some v =>
    simp only [hview] at h
    simp only [readBytes_eq v (readByte_eq v), ok_bind]
    cases hbytes : ByteMemory.readBytes v span with
    | ok bs =>
      rw [hbytes] at h
      cases h
      rfl
    | error e =>
      rw [hbytes] at h
      cases h

/-- A load of bytes that are not there traps. -/
theorem load_error {pc : Word} {span : List Word} {t : Trap}
    (h : Operation.fetch g.core.view? pc span = .error t) :
    ∃ e g', load pc span g = .ok (.error e g') ∧ Guest.trap t (noted span g) = .error e g' := by
  unfold Operation.fetch readNumber at h
  unfold load noted
  cases hview : g.core.view? with
  | none =>
    rw [hview] at h
    cases h
    exact ⟨_, _, rfl, rfl⟩
  | some v =>
    simp only [hview] at h
    simp only [readBytes_eq v (readByte_eq v), ok_bind]
    cases hbytes : ByteMemory.readBytes v span with
    | ok bs =>
      rw [hbytes] at h
      cases h
    | error e =>
      rw [hbytes] at h
      cases h
      exact ⟨_, _, rfl, rfl⟩

/-- Storing bytes changes the guest as the operation does. -/
theorem store_agrees (pc a : Word) (bs : List UInt8) :
    (store pc a bs).Agrees (Guest.change pc (.store a bs) .next) g := by
  obtain ⟨⟨registers, view?, stopped, ticks, sink, written, log⟩, context⟩ := g
  unfold Agrees
  cases view? with
  | none => rfl
  | some v =>
    have hbytes := writeBytes_agrees a bs v
    unfold Agrees at hbytes
    simp only [store, hbytes, ok_bind, Guest.change, Core.store, Core.poke]
    cases ByteMemory.writeBytes a bs v <;> rfl

/-- The address of a load or store is found by a division that has a result. -/
theorem effectiveAddress_eq (l : Location) {alignment : Word} (hne : alignment ≠ 0) (e : Exception)
    (pc : Word) : effectiveAddress l.base l.offset alignment e pc g =
      .ok (if Word.isAligned (Operation.address g.core.registers l) alignment = true then
        .ok (Operation.address g.core.registers l) g
      else .error (.trap (.architectural e pc)) g) := by
  have haligned : Word.isAligned (Operation.address g.core.registers l) alignment = true ↔
      (Operation.gpr g.core.registers l.base + l.offset) % alignment = 0 := beq_iff_eq
  unfold effectiveAddress
  rw [bind_ok (gpr_gpr g l.base), remainder_of_ne hne, bind_ok (lift_ok _ g)]
  simp only [haligned]
  by_cases hrest : (Operation.gpr g.core.registers l.base + l.offset) % alignment = 0
  · rw [if_neg (not_not_intro hrest), if_pos hrest]
    rfl
  · rw [if_pos hrest, if_neg hrest]
    rfl

/-- An aligned address is found. -/
theorem effectiveAddress_ok {l : Location} {alignment : Word} (hne : alignment ≠ 0)
    (h : Word.isAligned (Operation.address g.core.registers l) alignment = true) (e : Exception)
    (pc : Word) : effectiveAddress l.base l.offset alignment e pc g =
      .ok (.ok (Operation.address g.core.registers l) g) := by
  rw [effectiveAddress_eq g l hne, if_pos h]

/-- An address that is not aligned raises the exception of the access. -/
theorem effectiveAddress_error {l : Location} {alignment : Word} (hne : alignment ≠ 0)
    (h : ¬Word.isAligned (Operation.address g.core.registers l) alignment = true) (e : Exception)
    (pc : Word) : effectiveAddress l.base l.offset alignment e pc g =
      .ok (.error (.trap (.architectural e pc)) g) := by
  rw [effectiveAddress_eq g l hne, if_neg h]

/-- What is loaded is filled into what the register held. -/
theorem loaded_ok {what : Load} {pc a w : Word}
    (h : Operation.fetch g.core.view? pc (what.span a) = .ok w) (old : Word) :
    loaded what pc a old g = .ok (.ok (what.result a old w) (noted (what.span a) g)) := by
  unfold loaded
  cases what with
  | byteSigned | halfSigned => exact bind_ok (load_ok g h)
  | byte | half | word => exact load_ok g h
  | left =>
    refine (bind_ok (load_ok g h)).trans ?_
    rw [fillHigh_eq (by omega), ← bitsAbove_eq]
    rfl
  | right =>
    refine (bind_ok (load_ok g h)).trans ?_
    rw [fillLow_eq (place_lt a), ← bitsBelow_eq]
    rfl

/-- A load whose span cannot be read traps as the operation does. -/
theorem loaded_error {what : Load} {pc a : Word} {t : Trap}
    (h : Operation.fetch g.core.view? pc (what.span a) = .error t) (old : Word) :
    ∃ e g', loaded what pc a old g = .ok (.error e g') ∧
      Guest.trap t (noted (what.span a) g) = .error e g' := by
  obtain ⟨e, g', hload, htrap⟩ := load_error g h
  refine ⟨e, g', ?_, htrap⟩
  cases what with
  | byte | half | word => exact hload
  | byteSigned | halfSigned | left | right => exact bind_error hload

/-- What is stored is what the operation stores. -/
theorem stored_ok {what : Store} {pc a w old : Word}
    (h : Operation.fetch g.core.view? pc (what.span a) = .ok old) :
    stored what pc a w g =
      .ok (Guest.change pc (what.result a w old) .next (noted (what.span a) g)) := by
  cases what with
  | byte | half | word =>
    rw [show Store.span _ a = [] from rfl, noted_nil]
    exact store_agrees g pc a _
  | left =>
    refine (bind_ok (load_ok g h)).trans ?_
    rw [fillLow_eq (by omega), ← bitsAbove_eq, bind_ok (lift_ok _ _)]
    exact store_agrees _ pc _ _
  | right =>
    refine (bind_ok (load_ok g h)).trans ?_
    rw [fillHigh_eq (place_lt a), ← bitsBelow_eq, bind_ok (lift_ok _ _)]
    exact store_agrees _ pc _ _

/-- A store whose span cannot be read traps as the operation does. -/
theorem stored_error {what : Store} {pc a w : Word} {t : Trap}
    (h : Operation.fetch g.core.view? pc (what.span a) = .error t) :
    stored what pc a w g = .ok (Guest.trap t (noted (what.span a) g)) := by
  cases what with
  | byte | half | word =>
    -- Nothing is read, so there is no memory at all.
    rw [show Store.span _ a = [] from rfl] at h ⊢
    rw [noted_nil]
    cases hview : g.core.view? with
    | some v =>
      rw [hview] at h
      cases h
    | none =>
      rw [hview] at h
      cases h
      simp only [stored, store, hview]
      rfl
  | left | right =>
    obtain ⟨e, g', hload, htrap⟩ := load_error g h
    exact (bind_error hload).trans (congrArg Except.ok htrap.symm)

section Families

variable (pc : Word)

/-- Instructions that combine two operands do what the operation does, if the check of the function
passes. -/
theorem binary_agrees (dest lhs : Gpr) (s : MipsMonitor.Source) {f : Word → Word → Guarded Word}
    {h : Arithmetic} (hf : ∀ a, f a (Operation.operand g.core.registers s) =
      .ok (h.apply a (Operation.operand g.core.registers s))) :
    (binary dest lhs (.of s) f).Agrees (Guest.perform (.silent σ) pc (.arithmetic h dest lhs s))
      g := by
  unfold Agrees binary
  rw [bind_ok (gpr_gpr g lhs), bind_ok (value_of g s), hf, bind_ok (lift_ok _ g), perform_eq g rfl]
  exact bind_ok (setGpr_val g (.ofGpr dest) _)

/-- Instructions that trap on overflow do what the operation does. -/
theorem checked_agrees (f : Trapping) (dest lhs : Gpr) (s : MipsMonitor.Source) :
    (checked f dest lhs (.of s) pc).Agrees (Guest.perform (.silent σ) pc (.trapping f dest lhs s))
      g := by
  unfold Agrees checked
  rw [bind_ok (gpr_gpr g lhs), bind_ok (value_of g s), perform_eq g rfl]
  simp only [Operation.effect]
  cases f.value? (Operation.gpr g.core.registers lhs) (Operation.operand g.core.registers s) with
  | none => rfl
  | some w => exact bind_ok (setGpr_val g (.ofGpr dest) w)

/-- Multiplications and divisions do what the operation does. -/
theorem longArithmetic_agrees (f : LongArithmetic) (lhs rhs : Gpr) :
    (longArithmetic f lhs rhs).Agrees (Guest.perform (.silent σ) pc (.long f lhs rhs)) g := by
  unfold Agrees longArithmetic
  rw [bind_ok (gpr_gpr g lhs), bind_ok (gpr_gpr g rhs), long_eq, bind_ok (lift_ok _ g),
    perform_eq g rfl]
  exact (bind_ok (setGpr_val g .hi _)).trans (bind_ok (setGpr_val _ .lo _))

/-- Moves between watched registers do what the operation does. -/
theorem move_agrees (dest source : Tracked) :
    (move dest source).Agrees (Guest.perform (.silent σ) pc (.move dest source)) g := by
  unfold Agrees move
  rw [bind_ok (gpr_val g source), perform_eq g rfl]
  exact bind_ok (setGpr_val g dest _)

/-- Loads do what the operation does. -/
theorem loadRegister_agrees (what : Load) (dest : Gpr) (l : Location) :
    (loadRegister what dest l.base l.offset pc).Agrees
      (Guest.perform (.silent σ) pc (.load what dest l)) g := by
  have hne : what.alignment ≠ 0 := by cases what <;> decide
  unfold Agrees loadRegister
  rw [perform_noted]
  by_cases haligned : Word.isAligned (Operation.address g.core.registers l) what.alignment = true
  · rw [bind_ok (effectiveAddress_ok g hne haligned _ pc), bind_ok (gpr_gpr g dest)]
    simp only [Operation.effect, Operation.span, if_pos haligned]
    cases hw : Operation.fetch g.core.view? pc (what.span _) with
    | ok w =>
      rw [bind_ok (loaded_ok g hw _)]
      exact bind_ok (setGpr_val _ (.ofGpr dest) _)
    | error t =>
      obtain ⟨e, g', hloaded, htrap⟩ := loaded_error g hw (Operation.gpr g.core.registers dest)
      rw [bind_error hloaded]
      exact congrArg Except.ok htrap.symm
  · -- A misaligned address traps before anything is read.
    rw [bind_error (effectiveAddress_error g hne haligned _ pc)]
    simp only [Operation.effect, Operation.span, if_neg haligned, noted_nil]
    rfl

/-- Stores do what the operation does. -/
theorem storeRegister_agrees (what : Store) (source : Gpr) (l : Location) :
    (storeRegister what source l.base l.offset pc).Agrees
      (Guest.perform (.silent σ) pc (.store what source l)) g := by
  have hne : what.alignment ≠ 0 := by cases what <;> decide
  unfold Agrees storeRegister
  rw [perform_noted]
  by_cases haligned : Word.isAligned (Operation.address g.core.registers l) what.alignment = true
  · rw [bind_ok (effectiveAddress_ok g hne haligned _ pc), bind_ok (gpr_gpr g source)]
    simp only [Operation.effect, Operation.span, if_pos haligned]
    cases hw : Operation.fetch g.core.view? pc (what.span _) with
    | ok w => exact stored_ok g hw
    | error t => exact stored_error g hw
  · rw [bind_error (effectiveAddress_error g hne haligned _ pc)]
    simp only [Operation.effect, Operation.span, if_neg haligned, noted_nil]
    rfl

/-- Branches do what the operation does, with a link or without. -/
theorem branch_agrees (condition : Condition) (lhs rhs : Gpr) (target : Word)
    (link? : Option Word) : (branch condition lhs rhs target link?).Agrees
      (Guest.perform (.silent σ) pc (.branch condition lhs rhs target link?)) g := by
  unfold Agrees branch
  rw [bind_ok (gpr_gpr g lhs), bind_ok (gpr_gpr g rhs), perform_eq g rfl]
  simp only [Operation.effect, Operation.transfer]
  cases link? with
  | none =>
    simp only
    split <;> rfl
  | some link =>
    simp only
    refine (bind_ok (setGpr_val g .returnAddress link)).trans ?_
    split <;> rfl

/-- Jumps do what the operation does. -/
theorem jump_agrees (target : Word) :
    (pure (.jump target .plain) : Acting σ Flow).Agrees
      (Guest.perform (.silent σ) pc (.jump target none)) g := by
  unfold Agrees
  rw [perform_eq g rfl]
  rfl

/-- Calls do what the operation does. -/
theorem call_agrees (target link : Word) :
    (call target link).Agrees (Guest.perform (.silent σ) pc (.jump target (some link))) g := by
  unfold Agrees call
  rw [perform_eq g rfl]
  exact bind_ok (setGpr_val g .returnAddress link)

/-- Jumps to a register do what the operation does. -/
theorem jumpRegister_agrees (source : Gpr) :
    (jumpRegister source).Agrees (Guest.perform (.silent σ) pc (.jumpRegister source)) g := by
  have hreturn : Tracked.ofGpr source = .returnAddress ↔ source.val = 31 := Fin.ext_iff
  unfold Agrees jumpRegister
  rw [bind_ok (gpr_gpr g source), perform_eq g rfl]
  simp only [Operation.effect, hreturn]
  rfl

/-- Calls of a register do what the operation does. -/
theorem callRegister_agrees (source dest : Gpr) (link : Word) :
    (callRegister source dest link).Agrees
      (Guest.perform (.silent σ) pc (.callRegister source dest link)) g := by
  unfold Agrees callRegister
  rw [bind_ok (gpr_gpr g source), perform_eq g rfl]
  exact bind_ok (setGpr_val g (.ofGpr dest) link)

/-- A register of a coprocessor is read by its number; one that the bank does not have reads as
zero. -/
theorem coprocessor_eq (b : Bank) (i : Nat) :
    coprocessor b i g = .ok (.ok ((g.core.registers.get? b i).getD 0) g) := by
  unfold coprocessor
  rw [bank?_eq]
  rfl

/-- A register of the geometry engine is written by its number. -/
theorem setGeometry_val (r : Register) (w : Word) : setGeometry r.bank r.index w g =
    .ok (.ok () ⟨{ g.core with registers := g.core.registers.set r w }, g.context⟩) := by
  unfold setGeometry
  rw [setBank_val]
  rfl

/-- Loads into the geometry engine do what the operation does. -/
theorem loadGeometry_agrees (dest : Fin 32) (l : Location) :
    (loadGeometry dest l.base l.offset pc).Agrees
      (Guest.perform (.silent σ) pc (.loadGeometry dest l)) g := by
  have hne : (4 : Word) ≠ 0 := by decide
  unfold Agrees loadGeometry
  rw [perform_noted]
  by_cases haligned : Word.isAligned (Operation.address g.core.registers l) 4 = true
  · rw [bind_ok (effectiveAddress_ok g hne haligned _ pc)]
    simp only [Operation.effect, Operation.span, if_pos haligned]
    cases hw : Operation.fetch g.core.view? pc (Address.run _ 4) with
    | ok w =>
      rw [bind_ok (load_ok g hw)]
      exact bind_ok (setGeometry_val _ ⟨.cop2Data, dest⟩ w)
    | error t =>
      obtain ⟨e, g', hload, htrap⟩ := load_error g hw
      rw [bind_error hload]
      exact congrArg Except.ok htrap.symm
  · rw [bind_error (effectiveAddress_error g hne haligned _ pc)]
    simp only [Operation.effect, Operation.span, if_neg haligned, noted_nil]
    rfl

/-- Stores from the geometry engine do what the operation does. -/
theorem storeGeometry_agrees (source : Fin 32) (l : Location) :
    (storeGeometry source l.base l.offset pc).Agrees
      (Guest.perform (.silent σ) pc (.storeGeometry source l)) g := by
  have hne : (4 : Word) ≠ 0 := by decide
  have hget : g.core.registers.get? .cop2Data source =
      some (g.core.registers.get ⟨.cop2Data, source⟩) := dif_pos source.isLt
  unfold Agrees storeGeometry
  rw [perform_eq g rfl]
  by_cases haligned : Word.isAligned (Operation.address g.core.registers l) 4 = true
  · rw [bind_ok (effectiveAddress_ok g hne haligned _ pc), bind_ok (coprocessor_eq g _ _), hget]
    simp only [Operation.effect, if_pos haligned]
    exact store_agrees g pc _ _
  · rw [bind_error (effectiveAddress_error g hne haligned _ pc)]
    simp only [Operation.effect, if_neg haligned]
    rfl

/-- Moves from a coprocessor do what the operation does, whatever the number of the register. -/
theorem moveFrom_agrees (dest : Gpr) (b : Bank) (i : Nat) :
    (moveFrom dest b i).Agrees (Guest.perform (.silent σ) pc (.moveFrom dest b i)) g := by
  unfold Agrees moveFrom
  rw [bind_ok (coprocessor_eq g b i), perform_eq g rfl]
  exact bind_ok (setGpr_val g (.ofGpr dest) _)

/-- A register for system control is written by its number, be there one or not. -/
theorem setSystem_eq (i : Nat) (w : Word) :
    setSystem i w g = .ok (.ok () ⟨g.core.writeSystem i w, g.context⟩) := by
  unfold setSystem
  rw [writeSystem_eq]
  rfl

/-- Moves into system control do what the operation does, whatever the number of the register. -/
theorem moveToSystem_agrees (i : Nat) (source : Gpr) :
    (moveToSystem i source).Agrees (Guest.perform (.silent σ) pc (.moveToSystem i source)) g := by
  unfold Agrees moveToSystem
  rw [bind_ok (gpr_gpr g source), perform_eq g rfl]
  exact bind_ok (setSystem_eq g i _)

/-- Moves into the geometry engine do what the operation does. -/
theorem moveToGeometry_agrees (dest : Register) (source : Gpr) :
    (moveToGeometry dest.bank dest.index source).Agrees
      (Guest.perform (.silent σ) pc (.moveToGeometry dest source)) g := by
  unfold Agrees moveToGeometry
  rw [bind_ok (gpr_gpr g source), perform_eq g rfl]
  exact bind_ok (setGeometry_val g dest _)

/-- The status register is read as it is. -/
theorem status_eq : status g = .ok (.ok g.core.registers.status g) := by
  have hstatus : readSlot g.core.registers (Bank.cop0.base + 12) =
      .ok (g.core.registers.get .status) := readSlot_slot _ .status
  unfold status
  rw [hstatus]
  rfl

/-- The return from an exception does what the operation does. -/
theorem returnFromException_agrees :
    returnFromException.Agrees (Guest.perform (.silent σ) pc .returnFromException) g := by
  unfold Agrees returnFromException
  rw [bind_ok (status_eq g), perform_eq g rfl]
  exact bind_ok (setSystem_eq g 12 _)

/-- A command of the geometry engine does nothing, as the operation does. -/
theorem next_agrees :
    (pure .next : Acting σ Flow).Agrees (Guest.perform (.silent σ) pc .geometryCommand) g := by
  unfold Agrees
  rw [perform_eq g rfl]
  rfl

/-- Raising an exception does what the operation does. -/
theorem raise_agrees (e : Exception) :
    (raise e pc : Acting σ Flow).Agrees (Guest.perform (.silent σ) pc (.raise e)) g := by
  unfold Agrees
  rw [perform_eq g rfl]
  rfl

end Families

end Guarded

end MipsMonitor
