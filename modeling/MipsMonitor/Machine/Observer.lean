import MipsMonitor.Instruction.Basic
import MipsMonitor.Machine.Core

/-!
# Observers

What watches a program while it runs. Before each instruction of a translation stand the actions
that an injector asked for when the instruction was translated; when they are reached they are told
to an observer, together with every write to a watched register. An observer keeps what it learns in
a context of its own, decides whether a breakpoint stops the program, carries out the register
writes, and may request a stop or report something.
-/

namespace MipsMonitor

/-- Work to be done before an instruction is executed. -/
inductive Action where
  /-- Tell the address of the instruction. -/
  | sync
  /-- Stop if there is a breakpoint on the instruction. -/
  | check
  /-- Tell that a routine is entered from the call at an address. -/
  | enter (callSite : Word)
  /-- Tell that the routine is left. -/
  | leave
deriving DecidableEq, Repr

/-- What an observer asks of the core. -/
inductive Notice where
  /-- To stop at the end of the translation that runs. -/
  | stop
  /-- To add an entry to its log. -/
  | report (entry : Entry)
deriving DecidableEq, Repr

/-- The core after it was asked for something. -/
def Core.heed (c : Core) : Notice → Core
  | .stop => c.requestStop
  | .report entry => c.note [entry]

/-- Chooses the actions before an instruction from the context, the address, and what the word
there encodes. -/
abbrev Injector (σ : Type) := σ → Word → Option Instruction → List Action

/-- What watches a program, with a context of type `σ`. -/
structure Observer (σ : Type) where
  /-- The program has come to an address. -/
  sync : σ → Word → σ × List Notice
  /-- There may be a breakpoint on the instruction at an address; a signal stops the program. -/
  check : σ → Word → σ × List Notice × Option Signal
  /-- A routine is entered from the call at an address. -/
  enter : σ → Word → σ × List Notice
  /-- A routine is left. -/
  leave : σ → σ × List Notice
  /-- A register is written. -/
  write : σ → RegisterFile → Tracked → Word → σ × List Notice × RegisterFile

namespace Observer

/-- The observer that learns nothing. It stops at every breakpoint. -/
def silent (σ : Type) : Observer σ where
  sync s _ := (s, [])
  check s address := (s, [], some (.breakpoint address))
  enter s _ := (s, [])
  leave s := (s, [])
  write s f t w := (s, [], f.setTracked t w)

end Observer

/-- A processor and the context of what watches it. -/
structure Guest (σ : Type) where
  /-- The processor. -/
  core : Core
  /-- The context. -/
  context : σ

namespace Guest

variable {σ : Type}

/-- Carries out an action before the instruction at an address. -/
def act (observer : Observer σ) (address : Word) (action : Action) :
    EStateM Signal (Guest σ) Unit
  | ⟨core, context⟩ =>
    match action with
    | .sync =>
      let (context, notices) := observer.sync context address
      .ok () ⟨notices.foldl Core.heed core, context⟩
    | .check =>
      let (context, notices, signal?) := observer.check context address
      match signal? with
      | none => .ok () ⟨notices.foldl Core.heed core, context⟩
      | some s => .error s ⟨notices.foldl Core.heed core, context⟩
    | .enter callSite =>
      let (context, notices) := observer.enter context callSite
      .ok () ⟨notices.foldl Core.heed core, context⟩
    | .leave =>
      let (context, notices) := observer.leave context
      .ok () ⟨notices.foldl Core.heed core, context⟩

/-- Writes a watched register through the observer. Writes to the register that is always zero are
dropped. -/
def write (observer : Observer σ) (t : Tracked) (w : Word) (g : Guest σ) : Guest σ :=
  if t = .zero then g
  else
    match g with
    | ⟨core, context⟩ =>
      let (context, notices, registers) := observer.write context core.registers t w
      ⟨notices.foldl Core.heed { core with registers }, context⟩

end Guest

end MipsMonitor
