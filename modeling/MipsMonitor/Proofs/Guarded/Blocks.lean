import Mathlib.Data.List.Forall2
import MipsMonitor.Proofs.Guarded.Lowering
import MipsMonitor.Proofs.Machine.Translation

/-!
# Guarded blocks

Translations whose instructions are lowered to guarded actions. The place where a block ends is a
product of words, which fits because blocks are short (`Block.length_of_translate`); it is worked
out whenever a block is run, and whenever it is asked whether the block covers an address.

Translating never breaks off and gives a block that implements what the translation is otherwise
(`Guarded.translate_eq`), and such a block runs as that one does (`Guarded.Block.Implements.run`).
-/

namespace MipsMonitor

open ByteMemory

namespace Guarded

/-- A translated instruction. -/
structure Step (σ : Type) where
  /-- The address of the instruction. -/
  address : Word
  /-- The actions before it. -/
  actions : List Action
  /-- What it does. -/
  op : Acting σ Flow

/-- A translation. -/
structure Block (σ : Type) where
  /-- Where it is entered. -/
  start : Word
  /-- Its instructions. -/
  steps : List (Step σ)

variable {σ : Type}

namespace Block

/-- The address behind the last instruction. -/
def stop (b : Block σ) : Guarded Word := do
  let size ← mul (UInt32.ofNat b.steps.length) Instruction.size
  pure (b.start + size)

/-- Whether an address lies in a block. -/
def covers (b : Block σ) (a : Word) : Guarded Bool := do
  let stop ← b.stop
  pure (b.start ≤ a && a < stop)

/-- Executes steps. -/
def runSteps : Exit → List (Step σ) → Acting σ Exit
  | exit, [] => pure exit
  | exit, s :: rest => do
    .unguarded (Guest.actAll (.silent σ) s.address s.actions)
    match ← s.op with
    | .next => runSteps exit rest
    | .jump target transfer => runSteps ⟨target, transfer⟩ rest

/-- Executes a block. -/
def run (b : Block σ) : Acting σ Exit := do
  let stop ← b.stop
  runSteps ⟨stop, .plain⟩ b.steps

end Block

/-- The word at an address of memory. -/
def readWord (r : Ram) (a : Word) : Guarded (Except MemoryError Word) := do
  let bytes ← readBytes (readRam r) (Address.run a 4)
  pure (bytes.map Word.ofBytes)

/-- The instructions from an address on that belong to one block. -/
def instructionsFrom (r : Ram) :
    (room : Nat) → (address : Word) → Guarded (List (Word × Option Instruction))
  | 0, _ => pure []
  | room + 1, address => do
    match ← readWord r address with
    | .error _ => pure []
    | .ok w =>
      let next := address + Instruction.size
      match ← decode? w with
      | none => pure [(address, none)]
      | some i =>
        if i.hasDelaySlot then
          match ← readWord r next with
          | .error _ => pure [(address, some i)]
          | .ok slot => do pure [(address, some i), (next, ← decode? slot)]
        else if i.endsBlock then pure [(address, some i)]
        else do pure ((address, some i) :: (← instructionsFrom r room next))

/-- An instruction ready to be executed. -/
def stepFor (choose : Word → Option Instruction → List Action) (extent : Extent)
    (p : Word × Option Instruction) : Guarded (Step σ) := do
  let op ← lower p.2 p.1
  pure ⟨p.1, (choose p.1 p.2).filter extent.admits, op⟩

/-- Translates the instructions from an address on. -/
def translate (r : Ram) (choose : Word → Option Instruction → List Action) (extent : Extent)
    (start : Word) : Guarded (Except Trap (Block σ)) := do
  let rest ← remainder start Instruction.size
  if rest ≠ 0 then pure (.error (.architectural .addressLoadError start))
  else
    match ← readWord r start with
    | .error e => pure (.error (.fetch e start))
    | .ok _ =>
      let is ← instructionsFrom r extent.room start
      let steps ← is.mapM (stepFor choose extent)
      pure (.ok ⟨start, steps⟩)

/-! ## Blocks run as they do otherwise -/

open GuardedAction

/-- A step with a guarded action stands where another one does, and does the same. -/
structure Step.Implements (s : Step σ) (s' : MipsMonitor.Step) : Prop where
  /-- They are the same instruction. -/
  address : s.address = s'.address
  /-- The same actions come before it. -/
  actions : s.actions = s'.actions
  /-- The action does what the operation does. -/
  op : ∀ g, s.op.Agrees (Guest.perform (.silent σ) s'.address s'.operation) g

/-- A block of guarded actions has the steps of another one, which is short and does not wrap
around. -/
structure Block.Implements (b : Block σ) (b' : MipsMonitor.Block) : Prop where
  /-- They are entered at the same address. -/
  start : b.start = b'.start
  /-- The steps do the same one by one. -/
  steps : List.Forall₂ Step.Implements b.steps b'.steps
  /-- There are few of them. -/
  short : b'.length ≤ 65
  /-- The block ends before the address space does. -/
  bound : b'.start.toNat + 4 * b'.length < 0x100000000

namespace Block.Implements

variable {b : Block σ} {b' : MipsMonitor.Block}

/-- Blocks that do the same are of the same length. -/
theorem length (h : b.Implements b') : b.steps.length = b'.length := h.steps.length_eq

/-- The end of a block is in the range of words. -/
theorem stop (h : b.Implements b') : b.stop = .ok b'.stop := by
  have hshort := h.short
  have hcount : (UInt32.ofNat b'.length).toNat = b'.length :=
    UInt32.toNat_ofNat_of_lt' (by change _ < 4294967296; omega)
  have hfits : (UInt32.ofNat b'.length).toNat * Instruction.size.toNat < 4294967296 := by
    rw [hcount]
    change b'.length * 4 < 4294967296
    omega
  unfold Block.stop MipsMonitor.Block.stop
  rw [h.length, h.start, mul_of_lt hfits]
  rfl

/-- Asking whether a block covers an address overflows nowhere. -/
theorem covers (h : b.Implements b') (a : Word) : b.covers a = .ok (b'.covers a) := by
  unfold Block.covers MipsMonitor.Block.covers
  rw [h.stop, h.start]
  rfl

/-- Steps that do the same do so one after the other. -/
theorem runSteps {steps : List (Step σ)} {steps' : List MipsMonitor.Step}
    (h : List.Forall₂ Step.Implements steps steps') (exit : Exit) (g : Guest σ) :
    (Block.runSteps exit steps).Agrees (MipsMonitor.Block.runSteps (.silent σ) exit steps') g := by
  induction h generalizing exit g with
  | nil => rfl
  | @cons s s' rest rest' hstep _ ih =>
    have hactions : (GuardedAction.unguarded (Guest.actAll (.silent σ) s.address s.actions)).Agrees
        (Guest.actAll (.silent σ) s'.address s'.actions) g := by
      rw [hstep.address, hstep.actions]
      rfl
    unfold Block.runSteps MipsMonitor.Block.runSteps MipsMonitor.Step.run
    rw [bind_assoc]
    refine hactions.bind fun _ g₁ => (hstep.op g₁).bind fun flow g₂ => ?_
    cases flow with
    | next => exact ih exit g₂
    | jump target transfer => exact ih ⟨target, transfer⟩ g₂

/-- A block of guarded actions runs as the other block does. -/
theorem run (h : b.Implements b') (g : Guest σ) : b.run.Agrees (b'.run (.silent σ)) g := by
  unfold Agrees Block.run
  rw [h.stop, bind_ok (lift_ok _ g)]
  exact runSteps h.steps _ g

/-- What is reported when the words of a block are fetched. -/
theorem fetchNotes (h : b.Implements b') (r : Ram) :
    (b.steps.flatMap fun s => ByteMemory.readNotes r (Address.run s.address 4)) =
      b'.fetchNotes r := by
  have hsteps := h.steps
  unfold MipsMonitor.Block.fetchNotes
  generalize b.steps = steps at hsteps
  generalize b'.steps = steps' at hsteps
  induction hsteps with
  | nil => rfl
  | cons hstep _ ih => rw [List.flatMap_cons, List.flatMap_cons, hstep.address, ih]

end Block.Implements

/-! ## Translating never breaks off -/

/-- Reading a word of memory never breaks off. -/
theorem readWord_eq (r : Ram) (a : Word) : readWord r a = .ok (ByteMemory.readWord r a) := by
  unfold readWord ByteMemory.readWord ByteMemory.readNumber
  rw [readBytes_eq r (readRam_eq r)]
  rfl

/-- Collecting the instructions of a block never breaks off. -/
theorem instructionsFrom_eq (r : Ram) (room : Nat) (a : Word) :
    instructionsFrom r room a = .ok (MipsMonitor.Block.instructionsFrom r.fetched room a) := by
  induction room generalizing a with
  | zero => rfl
  | succ room ih =>
    unfold instructionsFrom MipsMonitor.Block.instructionsFrom Ram.fetched
    simp only [readWord_eq, decode?_eq, ok_bind, ih]
    cases ByteMemory.readWord r a with
    | error e => rfl
    | ok w =>
      simp only [Except.toOption]
      cases Instruction.decode? w with
      | none => rfl
      | some i =>
        simp only
        -- Behind a transfer the slot is gathered if it can be read; otherwise the block goes on or
        -- ends.
        split
        · cases ByteMemory.readWord r (a + Instruction.size) <;> rfl
        · split <;> rfl

/-- Every word becomes a step. -/
theorem stepFor_implements (choose : Word → Option Instruction → List Action) (extent : Extent)
    (p : Word × Option Instruction) : ∃ s : Step σ, stepFor choose extent p = .ok s ∧
      s.Implements (MipsMonitor.Block.stepFor choose extent p) := by
  obtain ⟨op, hlower, hop⟩ := lower_agrees (σ := σ) p.2 p.1
  refine ⟨⟨p.1, (choose p.1 p.2).filter extent.admits, op⟩, ?_, rfl, rfl, hop⟩
  unfold stepFor
  rw [hlower]
  rfl

/-- Making the steps of a block never breaks off, and they do what the others do. -/
theorem mapM_stepFor (choose : Word → Option Instruction → List Action) (extent : Extent)
    (is : List (Word × Option Instruction)) : ∃ steps : List (Step σ),
      is.mapM (stepFor choose extent) = .ok steps ∧
      List.Forall₂ Step.Implements steps (is.map (MipsMonitor.Block.stepFor choose extent)) := by
  induction is with
  | nil => exact ⟨[], rfl, .nil⟩
  | cons p is ih =>
    obtain ⟨s, hs, hstep⟩ := stepFor_implements (σ := σ) choose extent p
    obtain ⟨steps, hsteps, hall⟩ := ih
    refine ⟨s :: steps, ?_, .cons hstep hall⟩
    rw [List.mapM_cons, hs, ok_bind, hsteps]
    rfl

/-- What is translated with guarded actions is what is translated otherwise: the same trap, or a
block with the same steps. -/
inductive Translated : Except Trap (Block σ) → Except Trap MipsMonitor.Block → Prop where
  /-- Both trap. -/
  | error (t : Trap) : Translated (.error t) (.error t)
  /-- Both give a block. -/
  | ok {b : Block σ} {b' : MipsMonitor.Block} (h : b.Implements b') : Translated (.ok b) (.ok b')

/-- Memory is translated whatever it holds, from every address. -/
theorem translate_eq (r : Ram) (choose : Word → Option Instruction → List Action) (extent : Extent)
    (start : Word) :
    ∃ result : Except Trap (Block σ), translate r choose extent start = .ok result ∧
      Translated result (MipsMonitor.Block.translate r choose extent start) := by
  have hsize : Instruction.size ≠ 0 := by decide
  unfold translate
  rw [remainder_of_ne hsize, ok_bind]
  by_cases haligned : start % Instruction.size = 0
  · rw [if_neg (not_not_intro haligned), readWord_eq, ok_bind]
    have halign : Word.isAligned start Instruction.size = true := beq_iff_eq.mpr haligned
    cases hw : ByteMemory.readWord r start with
    | error e =>
      refine ⟨_, rfl, ?_⟩
      unfold MipsMonitor.Block.translate MipsMonitor.Block.translateBy
      rw [if_pos halign, hw]
      exact .error _
    | ok w =>
      -- Each gathered instruction is lowered to a step that agrees with its own.
      obtain ⟨steps, hsteps, hall⟩ := mapM_stepFor (σ := σ) choose extent
        (MipsMonitor.Block.instructionsFrom r.fetched extent.room start)
      have hok : MipsMonitor.Block.translate r choose extent start = .ok ⟨start, _⟩ :=
        MipsMonitor.Block.translate_eq_ok.mpr
          ⟨Word.isAligned_iff.mp halign, by rw [Ram.fetched, hw]; rfl, rfl⟩
      obtain ⟨hshort, hbound⟩ := MipsMonitor.Block.length_of_translate hok
      refine ⟨.ok ⟨start, steps⟩, ?_, ?_⟩
      · simp only [instructionsFrom_eq, ok_bind, hsteps]
        rfl
      · rw [hok]
        exact .ok ⟨rfl, hall, hshort, hbound⟩
  · have halign : ¬Word.isAligned start Instruction.size = true := fun h => haligned (eq_of_beq h)
    rw [if_pos haligned]
    refine ⟨_, rfl, ?_⟩
    unfold MipsMonitor.Block.translate MipsMonitor.Block.translateBy
    rw [if_neg halign]
    exact .error _

end Guarded

end MipsMonitor
