import MipsMonitor.Machine.Effect
import MipsMonitor.Machine.Observer

/-!
# Steps

One instruction of a translation, ready to be executed: where it stands, the actions before it, and
its operation. Executing it carries out the actions in order and then lets the effect of the
operation take place.
-/

namespace MipsMonitor

/-- A translated instruction. -/
structure Step where
  /-- The address of the instruction. -/
  address : Word
  /-- The actions before it. -/
  actions : List Action
  /-- What it asks for. -/
  operation : Operation
deriving DecidableEq, Repr

namespace Guest

variable {σ : Type}

/-- The end of the instruction at `pc` by a trap. A machine that gives up also stops. -/
def trap (t : Trap) : EStateM Signal (Guest σ) Flow
  | ⟨core, context⟩ =>
    .error (.trap t) ⟨if t.cause?.isNone then core.requestStop else core, context⟩

/-- Lets a change outside of the watched registers take place, for the instruction at `pc`. -/
def change (pc : Word) (what : Change) (flow : Flow) : EStateM Signal (Guest σ) Flow
  | ⟨core, context⟩ =>
    match what with
    | .system index w => .ok flow ⟨core.writeSystem index w, context⟩
    | .geometry dest w =>
      .ok flow ⟨{ core with registers := core.registers.set dest w }, context⟩
    | .store address bytes =>
      match core.store address bytes with
      | .ok () core => .ok flow ⟨core, context⟩
      | .error e core => trap (e.trap pc) ⟨core, context⟩

/-- Reports what an operation reads. -/
def noteReads (op : Operation) (g : Guest σ) : Guest σ :=
  match g.core.view? with
  | some v =>
    let notes := ByteMemory.readNotes v (op.span g.core.registers)
    if notes.isEmpty then g else { g with core := g.core.note notes }
  | none => g

/-- Executes the operation of the instruction at `pc`. -/
def perform (observer : Observer σ) (pc : Word) (op : Operation) : EStateM Signal (Guest σ) Flow :=
  fun g =>
    let g := g.noteReads op
    match op.effect pc g.core.registers g.core.view? with
    | .error t => trap t g
    | .ok e =>
      let g := e.writes.foldl (fun g (t, w) => g.write observer t w) g
      match e.change? with
      | none => .ok e.flow g
      | some what => change pc what e.flow g

/-- Carries out actions in order, up to the first one that stops the program. -/
def actAll (observer : Observer σ) (address : Word) : List Action → EStateM Signal (Guest σ) Unit
  | [] => pure ()
  | a :: as => do
    act observer address a
    actAll observer address as

end Guest

namespace Step

variable {σ : Type}

/-- Executes a step. -/
def run (observer : Observer σ) (s : Step) : EStateM Signal (Guest σ) Flow := do
  Guest.actAll observer s.address s.actions
  Guest.perform observer s.address s.operation

end Step

end MipsMonitor
