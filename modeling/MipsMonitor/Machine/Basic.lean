import MipsMonitor.Machine.Block
import Std.Data.ExtTreeMap

/-!
# The machine

A processor, the context of its observer, the injector, and the translations made so far, by the
address where they are entered. Running a routine goes from block to block until the routine
returns (`Machine.execute`); a single instruction runs in a translation of its own that is not kept
(`Machine.executeOne`). Stores drop the translations of what they overwrite, at the end of the block
that made them.

A routine may never return, so `execute` takes the greatest number of blocks to run; its answer is
`none` if that does not suffice, and more of them keep any other answer.
-/

namespace MipsMonitor

open Text

/-- Translations by the address where they are entered. -/
abbrev Translations := Std.ExtTreeMap Word Block compare

namespace Address

/-- The addresses that designate the same byte through the segments that alias low memory. -/
def aliases (address : Word) : List Word :=
  if (0xC0000000 : Word) ≤ address then [address]
  else
    let low := address &&& (0x1FFFFFFF : Word)
    [address, low, low ||| (0x80000000 : Word), low ||| (0xA0000000 : Word)]

end Address

namespace Translations

/-- Whether the translation entered at `start` is found where those that cover an address are searched
for. The search begins as far below the address as the longest block reaches. -/
def finds (address start : Word) (b : Block) : Bool :=
  address.toNat - Block.longest ≤ start.toNat && start ≤ address && b.covers address

/-- Drops the translations that cover an address, through its own segment. -/
def dropAt (blocks : Translations) (address : Word) : Translations :=
  blocks.filter fun start b => !finds address start b

/-- Drops the translations that cover an address, through any segment. -/
def invalidate (blocks : Translations) (address : Word) : Translations :=
  (Address.aliases address).foldl dropAt blocks

end Translations

/-- A processor with its translations and what watches it. -/
structure Machine (σ : Type) where
  /-- The processor and the context of its observer. -/
  guest : Guest σ
  /-- The translations made so far. -/
  blocks : Translations
  /-- Chooses the actions in new translations. -/
  injector? : Option (Injector σ)

namespace Machine

variable {σ : Type}

/-- A machine without memory. -/
def detached (sink : Sink) (context : σ) : Machine σ := ⟨⟨.detached sink, context⟩, ∅, none⟩

/-- The processor. -/
def core (m : Machine σ) : Core := m.guest.core

/-- The context of the observer. -/
def context (m : Machine σ) : σ := m.guest.context

/-- The machine with its processor replaced by the value of a function. -/
def onCore (f : Core → Core) : Machine σ → Machine σ
  | ⟨⟨core, context⟩, blocks, injector?⟩ => ⟨⟨f core, context⟩, blocks, injector?⟩

/-- The machine with its context replaced by the value of a function. -/
def onContext (f : σ → σ) : Machine σ → Machine σ
  | ⟨⟨core, context⟩, blocks, injector?⟩ => ⟨⟨core, f context⟩, blocks, injector?⟩

/-- Attaches memory and brings the machine to power-on, without translations. -/
def reset (v : View Ram) : Machine σ → Machine σ
  | ⟨⟨core, context⟩, _, injector?⟩ => ⟨⟨core.reset v, context⟩, ∅, injector?⟩

/-- The machine with another injector. The translations made for the old one are dropped. -/
def withInjector (injector? : Option (Injector σ)) : Machine σ → Machine σ
  | ⟨guest, _, _⟩ => ⟨guest, ∅, injector?⟩

/-- Drops the translations that cover an address, through any segment. -/
def invalidate (address : Word) : Machine σ → Machine σ
  | ⟨guest, blocks, injector?⟩ => ⟨guest, Translations.invalidate blocks address, injector?⟩

/-- Drops all translations. -/
def invalidateAll : Machine σ → Machine σ
  | ⟨guest, _, injector?⟩ => ⟨guest, ∅, injector?⟩

/-- The actions that the injector chooses before an instruction. -/
def choose (m : Machine σ) (address : Word) (i? : Option Instruction) : List Action :=
  match m.injector? with
  | some injector => injector m.context address i?
  | none => []

/-- Translates the instructions from an address on, and reports what is fetched. -/
def translate (extent : Extent) (start : Word) : EStateM Signal (Machine σ) Block := fun m =>
  match m.core.view? with
  | none => .error (.trap (.detached start)) (m.onCore Core.requestStop)
  | some v =>
    match Block.translate v.backing m.choose extent start with
    | .error t => .error (.trap t) m
    | .ok b =>
      let notes := b.fetchNotes v.backing
      .ok b (if notes.isEmpty then m else m.onCore (Core.note · notes))

/-- The translation entered at an address, made now if there is none. -/
def blockAt (start : Word) : EStateM Signal (Machine σ) Block := fun m =>
  match m.blocks[start]? with
  | some b => .ok b m
  | none =>
    match translate .block start m with
    | .error s m => .error s m
    | .ok b ⟨guest, blocks, injector?⟩ => .ok b ⟨guest, blocks.insert start b, injector?⟩

/-- What follows every block, however it ends: translations of what was stored to are dropped, and
the clock counts the instructions of the block. -/
def settle (ticks : Nat) : Machine σ → Machine σ
  | ⟨⟨core, context⟩, blocks, injector?⟩ =>
    -- A block that overwrites itself runs to its end as it was translated.
    let blocks := core.written.foldl Translations.invalidate blocks
    ⟨⟨{ core with written := [] }.clock ticks, context⟩, blocks, injector?⟩

/-- Executes a block. -/
def runBlock (observer : Observer σ) (b : Block) : EStateM Signal (Machine σ) Exit
  | ⟨guest, blocks, injector?⟩ =>
    match b.run observer guest with
    | .ok exit guest => .ok exit (settle b.length ⟨guest, blocks, injector?⟩)
    | .error s guest => .error s (settle b.length ⟨guest, blocks, injector?⟩)

/-- Executes blocks from `pc` on until the routine returns that is `depth` calls up. The answer is
where it returns to. -/
def invoke (observer : Observer σ) : (fuel : Nat) → (pc : Word) → (depth : Nat) →
    EStateM Signal (Machine σ) (Option Word)
  | 0, _, _ => pure none
  | fuel + 1, pc, depth => do
    if (← get).core.stopped then throw (.stopped pc)
    let b ← blockAt pc
    let exit ← runBlock observer b
    match exit.transfer, depth with
    | .plain, depth => invoke observer fuel exit.target depth
    | .enter, depth => invoke observer fuel exit.target (depth + 1)
    -- Only the return of the outermost routine ends the run.
    | .leave, 0 => pure (some exit.target)
    | .leave, depth + 1 => invoke observer fuel exit.target depth

/-- Runs from an address until the routine there returns. Requests to stop from before are
forgotten. -/
def execute (observer : Observer σ) (fuel : Nat) (pc : Word) :
    EStateM Signal (Machine σ) (Option Word) := do
  modify (onCore fun core => { core with stopped := false })
  invoke observer fuel pc 0

/-- Executes the instruction at an address and its delay slot, and says where control goes. -/
def executeOne (observer : Observer σ) (pc : Word) : EStateM Signal (Machine σ) Word := do
  let b ← translate .single pc
  let exit ← runBlock observer b
  pure exit.target

/-- Runs an action on the processor. -/
def atCore {ε α : Type} (action : EStateM ε Core α) : EStateM ε (Machine σ) α
  | ⟨⟨core, context⟩, blocks, injector?⟩ =>
    match action core with
    | .ok a core => .ok a ⟨⟨core, context⟩, blocks, injector?⟩
    | .error e core => .error e ⟨⟨core, context⟩, blocks, injector?⟩

/-- The instruction word at an address, which is read behind the cache. -/
def readInstruction (address : Word) : EStateM AccessError (Machine σ) Word :=
  if Word.isAligned address Instruction.size then atCore (Core.peekBacking address)
  else throw (.misaligned address)

end Machine

end MipsMonitor
