import Mathlib.Logic.Relation
import MipsMonitor.Proofs.Debug.Commands

/-!
# Moves

Whatever a debugger is told to do, it does by a few moves: it reports, tells its listeners, moves its
program counter, pushes and drops frames, writes a register or memory, changes breakpoints, and lets
the machine make a pass or a single step (`Debugger.Move`). A command is a sequence of moves, however
it ends (`Command.moves_of_perform`), so that what every move keeps every command keeps. The two
commands that replace the processor or its memory from outside are not made of moves
(`Command.Inner`).
-/

namespace MipsMonitor.Debug

open Machine

namespace Debugger

/-- One thing that a debugger does. -/
inductive Move : Debugger → Debugger → Prop where
  /-- It reports. -/
  | note (entries : List Entry) (d : Debugger) : Move d (d.onCore (Core.note · entries))
  /-- It lets an event occur. -/
  | emit (event : Event) (d : Debugger) : Move d (emit event d)
  /-- It moves the program counter. -/
  | moveTo (pc : Word) (d : Debugger) : Move d (moveTo pc d)
  /-- It stays at a breakpoint. -/
  | stayAt (address : Word) (d : Debugger) : Move d (d.onContext (Session.stayAt · address))
  /-- It expects a return. -/
  | push (back : Word) (d : Debugger) :
      Move d (d.onContext fun s => { s with frames := back :: s.frames })
  /-- It expects the innermost return no more. -/
  | pop (d : Debugger) : Move d (d.onContext fun s => { s with frames := s.frames.tail })
  /-- It replaces its listeners. -/
  | listeners (ls : Listeners) (d : Debugger) :
      Move d (d.onContext fun s => { s with listeners := ls })
  /-- It forgets where execution stopped last. -/
  | forgetHit (d : Debugger) : Move d (d.onContext fun s => { s with lastHit? := none })
  /-- It changes the breakpoint at an address. -/
  | breakpoints (address : Word) (f : Breakpoints → Breakpoints) (d : Debugger) :
      Move d (changeBreakpoints address f d)
  /-- It writes a watched register. -/
  | record (pc : Word) (t : Tracked) (w : Word) (d : Debugger) : Move d (recordAt pc t w d)
  /-- It writes a register for system control. -/
  | system (index : Nat) (w : Word) (d : Debugger) : Move d (d.onCore (Core.writeSystem · index w))
  /-- It writes memory, as far as that is possible. -/
  | poke (address : Word) (bytes : List UInt8) (d : Debugger) :
      Move d (endState (atCore (Core.poke address bytes) d))
  /-- It drops the translations that cover an address. -/
  | invalidate (address : Word) (d : Debugger) : Move d (d.invalidate address)
  /-- It forgets requests to stop. -/
  | resume (d : Debugger) : Move d (resumed d)
  /-- The machine makes a pass. -/
  | pass (pc : Word) (d : Debugger) : Move d (endState (Machine.pass Session.observer pc d))
  /-- The machine makes a single step. -/
  | single (pc : Word) (d : Debugger) :
      Move d (endState (Machine.executeOne Session.observer pc d))

/-- Moves one behind the other. -/
abbrev Moves : Debugger → Debugger → Prop := Relation.ReflTransGen Move

variable {d d' d'' : Debugger}

/-- What every move keeps, moves keep. -/
theorem Moves.keeps {P : Debugger → Prop} (hmove : ∀ {d d'}, Move d d' → P d → P d')
    (h : Moves d d') (hd : P d) : P d' := by
  induction h with
  | refl => exact hd
  | tail _ hlast ih => exact hmove hlast ih

namespace Moves

/-- One request behind another. -/
theorem bind {α β ε : Type} {x : EStateM ε Debugger α} {f : α → EStateM ε Debugger β}
    (hx : Leads (Moves d) (x d)) (hf : ∀ a d', Leads (Moves d') (f a d')) :
    Leads (Moves d) ((x >>= f) d) :=
  Leads.bind hx (fun _ h => h) fun a d' h => (hf a d').mono fun _ h' => h.trans h'

/-- A request that passes on an answer or an error. -/
theorem ofExcept {α : Type} (x : Except RequestError α) (d : Debugger) :
    Leads (Moves d) ((MonadExcept.ofExcept x : Request α) d) := by
  cases x <;> exact .refl

/-- A look at the debugger. -/
theorem get (d : Debugger) : Leads (Moves d) ((MonadState.get : Request Debugger) d) :=
  Relation.ReflTransGen.refl

/-- A request that only changes the debugger, by moves. -/
theorem modify {f : Debugger → Debugger} (h : Moves d (f d)) :
    Leads (Moves d) ((MonadState.modifyGet fun s => ((), f s) : Request Unit) d) := h

/-- Actions made of moves, one behind the other, are made of moves. -/
theorem foldl {α : Type} {f : Debugger → α → Debugger} (hf : ∀ d x, Moves d (f d x)) (xs : List α)
    (d : Debugger) : Moves d (xs.foldl f d) := by
  induction xs generalizing d with
  | nil => exact .refl
  | cons x xs ih => exact (hf d x).trans (ih (f d x))

/-! ### Coming to a stand -/

/-- Coming to a stand. -/
theorem halt (e : Signal) (d : Debugger) : Moves d (halt e d).2 := by
  cases e with
  | breakpoint address =>
    exact .tail (.tail (.tail .refl (.stayAt address d)) (.note _ _)) (.emit .stepped _)
  | trap t => exact .tail (.tail (.tail .refl (.note _ d)) (.moveTo t.pc _)) (.emit .stepped _)
  | stopped pc => exact .tail (.tail .refl (.note _ d)) (.moveTo pc _)

/-- Leaving a frame. -/
theorem leaveFrame (d : Debugger) : Moves d (leaveFrame d) :=
  .tail (.tail .refl (.pop d)) (.emit .steppedOut _)

/-! ### Steps -/

/-- The check that memory is attached. -/
theorem requireMemory (d : Debugger) : Leads (Moves d) (requireMemory d) := by
  rw [requireMemory_eq]
  split <;> exact .refl

/-- Reading an instruction is reported at most. -/
theorem readInstruction (address : Word) (d : Debugger) :
    Leads (Moves d) (Machine.readInstruction address d) := by
  obtain ⟨⟨core, session⟩, blocks, injector?⟩ := d
  unfold Machine.readInstruction
  split
  · simp only [atCore, Core.peekBacking, Core.readFrom]
    cases core.view? with
    | none => exact .refl
    | some v =>
      simp only
      cases ByteMemory.readBytes v.backing (Address.run address 4) with
      | ok bytes => exact .single (.note _ ⟨⟨core, session⟩, blocks, injector?⟩)
      | error e => exact .single (.note _ ⟨⟨core, session⟩, blocks, injector?⟩)
  · exact .refl

/-- The instruction at which execution stands. -/
theorem currentInstruction (d : Debugger) : Leads (Moves d) (currentInstruction d) := by
  have hread := readInstruction (Debugger.pc d) d
  unfold Debugger.currentInstruction
  cases hr : Machine.readInstruction (Debugger.pc d) d with
  | ok w d' =>
    rw [hr] at hread
    exact hread
  | error e d' =>
    rw [hr] at hread
    exact hread

/-- One step of the machine, and what the debugger does behind it. -/
theorem executeThen {next : Word → Debugger → Debugger} (hnext : ∀ target d, Moves d (next target d))
    (address : Word) (d : Debugger) : Leads (Moves d) (executeThen address next d) := by
  have hone : Moves d (endState (Machine.executeOne Session.observer address d)) :=
    .single (.single address d)
  unfold Debugger.executeThen
  cases hexecute : Machine.executeOne Session.observer address d with
  | ok target d' =>
    rw [hexecute] at hone
    exact hone.trans (hnext target d')
  | error e d' =>
    rw [hexecute] at hone
    exact hone.trans (halt e d')

/-- A step over. -/
theorem stepOver (d : Debugger) : Leads (Moves d) (stepOver d) := by
  refine bind (requireMemory d) fun _ d => bind (get d) fun _ d => ?_
  refine bind (currentInstruction d) fun i? d => ?_
  cases i?.filter (·.mnemonic == .jr) with
  | some i =>
    refine bind (get d) fun d₀ d => executeThen (fun _ d => ?_) _ d
    -- Behind the delay slot, the step moves on and leaves the routine if it returns.
    have hmove : Moves d (moveTo (d₀.core.registers.tracked (.ofGpr (i.gpr .source))) d) :=
      .single (.moveTo _ d)
    refine .tail ?_ (.emit .stepped _)
    split
    · exact hmove.trans (leaveFrame _)
    · exact hmove
  | none => exact executeThen (fun next d => .tail (.single (.moveTo next d)) (.emit .stepped _)) _ d

/-- The entry into a called routine. -/
theorem enter (pc target : Word) (link : Tracked) (back : Word) (d : Debugger) :
    Leads (Moves d) (stepInto.enter pc target link back d) := by
  have hone : Moves d (endState (Machine.executeOne Session.observer (pc + Instruction.size) d)) :=
    .single (.single _ d)
  unfold stepInto.enter
  cases hexecute : Machine.executeOne Session.observer (pc + Instruction.size) d with
  | error e d' =>
    rw [hexecute] at hone
    exact (hone.tail (.pop d')).trans (halt e _)
  | ok _ d' =>
    rw [hexecute] at hone
    have hlinked : Moves d (if link = .zero then d' else Debugger.recordAt pc link back d') := by
      split
      · exact hone
      · exact hone.tail (.record pc link back d')
    exact ((hlinked.tail (.moveTo target _)).tail (.emit .steppedInto _)).tail (.emit .stepped _)

/-- A step into. -/
theorem stepInto (d : Debugger) : Leads (Moves d) (stepInto d) := by
  have hcall : Leads (Moves d) (currentCall d) :=
    bind (currentInstruction d) fun _ _ => Relation.ReflTransGen.refl
  refine bind hcall fun i? d => ?_
  cases i? with
  | none => exact Relation.ReflTransGen.refl
  | some i =>
    refine bind (get d) fun _ d => bind (get d) fun _ d => ?_
    refine bind (modify (.single (.push _ d))) fun _ d => ?_
    exact bind (enter _ _ _ _ d) fun _ _ => Relation.ReflTransGen.refl

/-! ### Runs -/

/-- A routine, with all calls that it makes. -/
theorem invoke (fuel : Nat) (pc : Word) (depth : Nat) (d : Debugger) :
    Leads (Moves d) (invoke Session.observer fuel pc depth d) := by
  have hpass {d' : Debugger} (pc : Word) (h : Moves d d') :
      Leads (Moves d) (Machine.pass Session.observer pc d') :=
    Leads.of_endState (h.tail (.pass pc d'))
  exact leads_invoke hpass Relation.ReflTransGen.refl fuel pc depth

/-- Code that is executed, once requests to stop are forgotten. -/
theorem execute (fuel : Nat) (pc : Word) (d : Debugger) :
    Leads (Moves d) (execute Session.observer fuel pc d) := by
  rw [execute_eq]
  exact (invoke fuel pc 0 d.resumed).mono fun _ h => .head (.resume d) h

/-- A step out. -/
theorem stepOut (fuel : Nat) (d : Debugger) : Leads (Moves d) (stepOut fuel d) := by
  refine bind (requireMemory d) fun _ d => ?_
  have hrun := execute fuel (Debugger.pc d) d
  unfold stepOut.finish
  cases hexecute : Machine.execute Session.observer fuel (Debugger.pc d) d with
  | ok target? d' =>
    rw [hexecute] at hrun
    cases target? with
    | none => exact hrun
    | some target => exact (Relation.ReflTransGen.tail hrun (.moveTo target d')).tail (.emit .stepped _)
  | error e d' =>
    rw [hexecute] at hrun
    exact Relation.ReflTransGen.trans hrun (halt e d')

/-- A program that is resumed until it comes to a stand. -/
theorem resume (blocks fuel : Nat) (d : Debugger) : Moves d (resume blocks fuel d).2 := by
  induction fuel generalizing d with
  | zero => exact .refl
  | succ fuel ih =>
    have hrun := execute blocks (Debugger.pc d) d
    unfold Debugger.resume
    cases hexecute : Machine.execute Session.observer blocks (Debugger.pc d) d with
    | ok target? d' =>
      rw [hexecute] at hrun
      cases target? with
      | none => exact hrun
      | some target => exact Relation.ReflTransGen.trans (.tail hrun (.moveTo _ d')) (ih _)
    | error e d' =>
      rw [hexecute] at hrun
      exact Relation.ReflTransGen.trans hrun (halt e d')

/-- A run. -/
theorem run (fuel : Nat) (d : Debugger) : Leads (Moves d) (run fuel d) :=
  bind (requireMemory d) fun _ d => resume fuel fuel d

/-! ### Breakpoints and runs up to an address -/

/-- Removing a breakpoint. -/
theorem dropBreakpoint (address : Word) (d : Debugger) : Moves d (dropBreakpoint address d) := by
  unfold Debugger.dropBreakpoint
  split
  · refine .tail ?_ (.breakpoints address _ _)
    obtain ⟨⟨core, s⟩, blocks, injector?⟩ := d
    by_cases hlast : s.lastHit? = some address
    · simp only [onContext, if_pos hlast]
      exact .single (.forgetHit ⟨⟨core, s⟩, blocks, injector?⟩)
    · simp only [onContext, if_neg hlast]
      exact .refl
  · exact .refl

/-- A run up to an address. -/
theorem runUntil (address : Word) (fuel : Nat) (d : Debugger) :
    Leads (Moves d) (runUntil address fuel d) := by
  have hplaced : Moves d (changeBreakpoints address (·.place address) d) :=
    .single (.breakpoints address _ d)
  have hrun := (run fuel (changeBreakpoints address (·.place address) d)).mono fun _ h =>
    hplaced.trans h
  unfold Debugger.runUntil
  cases hr : Debugger.run fuel (changeBreakpoints address (·.place address) d) with
  | ok reason? d' =>
    rw [hr] at hrun
    exact Relation.ReflTransGen.trans hrun (dropBreakpoint address d')
  | error e d' =>
    rw [hr] at hrun
    exact Relation.ReflTransGen.trans hrun (dropBreakpoint address d')

/-! ### Registers and memory -/

/-- Writing a register. -/
theorem writeRegister (index : Nat) (w : Word) (d : Debugger) :
    Leads (Moves d) (writeRegister index w d) :=
  bind (ofExcept _ d) fun t d => modify (.single (.record (Debugger.pc d) t w d))

/-- Entering a register as text. -/
theorem enterRegister (index : Nat) (input : String) (d : Debugger) :
    Leads (Moves d) (enterRegister index input d) :=
  bind (ofExcept _ d) fun _ d => bind (ofExcept _ d) fun w d => writeRegister index w d

/-- Entering a system register as text. -/
theorem enterSystem (index : Nat) (input : String) (d : Debugger) :
    Leads (Moves d) (enterSystem index input d) := by
  have hread : Leads (Moves d) (readSystem index d) := by
    refine bind (get d) fun d₀ d => ?_
    cases d₀.core.registers.get? .cop0 index <;> exact Relation.ReflTransGen.refl
  exact bind hread fun _ d => bind (ofExcept _ d) fun w d => modify (.single (.system index w d))

/-- Writing memory, and dropping what was translated from it. -/
theorem writeMemory (address : Word) (bytes : List UInt8) (d : Debugger) :
    Leads (Moves d) (writeMemory address bytes d) := by
  have haccess : Leads (Moves d) (access (atCore (Core.poke address bytes)) d) := by
    have hpoke : Moves d (endState (atCore (Core.poke address bytes) d)) :=
      .single (.poke address bytes d)
    unfold access
    cases h : atCore (Core.poke address bytes) d <;> rw [h] at hpoke <;> exact hpoke
  have hdropped (d : Debugger) :
      Moves d ((wordsOf address bytes.length).foldl (fun d a => d.invalidate a) d) :=
    foldl (fun d a => .single (.invalidate a d)) _ d
  exact bind haccess fun _ d => modify (hdropped d)

/-- Writing a register image. -/
theorem writeImage (image : Remote.RegisterImage) (d : Debugger) : Moves d (image.write d) := by
  unfold Remote.RegisterImage.write
  extract_lets pc d₁ d₂
  have htracked : Moves d d₁ := by
    refine foldl (fun d write => ?_) image.tracked d
    obtain ⟨t, w⟩ := write
    exact .single (.record pc t w d)
  have hsystem : Moves d₁ d₂ := by
    refine foldl (fun d write => ?_) image.system d₁
    obtain ⟨index, w⟩ := write
    exact .single (.system index w d)
  split
  · exact htracked.trans hsystem
  · exact (htracked.trans hsystem).tail (.moveTo image.pc d₂)

end Moves

end Debugger

open Debugger

/-- The command neither attaches memory nor changes the processor from outside. -/
def Command.Inner : Command → Prop
  | reset .. | outside .. => False
  | _ => True

/-- What is left of a debugger that comes to a stand was left by its moves. -/
theorem Debugger.Moves.of_stood {α : Type} {d d' : Debugger}
    {r : EStateM.Result RequestError Debugger (Option α)} (h : Leads (Moves d) r)
    (hstood : stood r = some d') : Moves d d' := by
  cases r with
  | ok a? d₁ =>
    cases a? with
    | none => cases hstood
    | some a => exact Option.some.inj hstood ▸ h
  | error e d₁ => exact Option.some.inj hstood ▸ h

/-- A command that does not replace the processor or its memory is a sequence of moves. -/
theorem Command.moves_of_perform {command : Command} (hinner : command.Inner) {d d' : Debugger}
    (hperform : command.perform d = some d') : Moves d d' := by
  -- A session begins with a reset, and what is done outside is no move of the debugger; every other
  -- command is made of moves.
  cases command with
  | reset pc v => cases hinner
  | outside f => cases hinner
  | moveTo pc => exact Option.some.inj hperform ▸ .single (.moveTo pc d)
  | setBreakpoint address =>
    cases hperform
    exact .single (.breakpoints address (·.place address) d)
  | switchBreakpoint address on =>
    cases hperform
    exact .single (.breakpoints address (·.setEnabled address on) d)
  | removeBreakpoint address => exact Option.some.inj hperform ▸ Moves.dropBreakpoint address d
  | listen event respond => exact Option.some.inj hperform ▸ .single (.listeners _ d)
  | unlisten number =>
    cases hperform
    exact .single (.listeners (d.session.listeners.remove number) d)
  | writeRegister index w =>
    exact Option.some.inj hperform ▸ (Moves.writeRegister index w d).endState
  | enterRegister index input =>
    exact Option.some.inj hperform ▸ (Moves.enterRegister index input d).endState
  | enterSystem index input =>
    exact Option.some.inj hperform ▸ (Moves.enterSystem index input d).endState
  | writeImage image => exact Option.some.inj hperform ▸ Moves.writeImage image d
  | writeMemory address bytes =>
    exact Option.some.inj hperform ▸ (Moves.writeMemory address bytes d).endState
  | stepOver => exact Option.some.inj hperform ▸ (Moves.stepOver d).endState
  | stepInto => exact Option.some.inj hperform ▸ (Moves.stepInto d).endState
  | stepOut fuel => exact Moves.of_stood (Moves.stepOut fuel d) hperform
  | run fuel => exact Moves.of_stood (Moves.run fuel d) hperform
  | runUntil address fuel => exact Moves.of_stood (Moves.runUntil address fuel d) hperform

end MipsMonitor.Debug
