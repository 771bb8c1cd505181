import MipsMonitor.Proofs.Debug.Signals
import MipsMonitor.Remote.RegisterImage

/-!
# Commands

What changes a debugger is a command (`Command`). A command may be refused, and one that lets the
program run may never answer; a debugger is reachable if answered and refused commands lead to it
(`Debugger.Reachable`).

What holds of a debugger between commands may fail while the program runs and be made up for when
the program comes to a stand. An invariant therefore has two parts, the second one for running
programs (`Debugger.Invariant`). It is given by what happens to breakpoints, to the place where
execution stands, and to translations; what commands do beside that is of no account
(`Debugger.Beside`). Every command keeps an invariant (`Debugger.Invariant.perform`), so it holds of
every debugger reachable from where it holds (`Debugger.Invariant.reachable`).
-/

namespace MipsMonitor.Debug

open Machine

namespace Debugger

variable {d d' : Debugger}

/-! ## What is of no account -/

/-- The second debugger stands where the first one does, with the same breakpoints, and has no
translations but those of the first one. -/
structure Beside (d d' : Debugger) : Prop where
  /-- They stand at the same address. -/
  pc : Debugger.pc d' = Debugger.pc d
  /-- Execution stopped last at the same breakpoint. -/
  lastHit? : (session d').lastHit? = (session d).lastHit?
  /-- There are the same breakpoints. -/
  breakpoints : (session d').breakpoints = (session d).breakpoints
  /-- The injectors are the same. -/
  injector? : d'.injector? = d.injector?
  /-- Translations may have been dropped. -/
  blocks : ∀ (start : Word) (b : Block), d'.blocks[start]? = some b → d.blocks[start]? = some b

namespace Beside

/-- A debugger stands beside itself. -/
theorem refl (d : Debugger) : Beside d d := ⟨rfl, rfl, rfl, rfl, fun _ _ h => h⟩

/-- To stand beside is transitive. -/
theorem trans {d'' : Debugger} (h : Beside d d') (h' : Beside d' d'') : Beside d d'' :=
  ⟨h'.pc.trans h.pc, h'.lastHit?.trans h.lastHit?, h'.breakpoints.trans h.breakpoints,
    h'.injector?.trans h.injector?, fun start b hb => h.blocks start b (h'.blocks start b hb)⟩

/-- Telling listeners. -/
theorem emit (event : Event) (d : Debugger) : Beside d (emit event d) :=
  ⟨rfl, rfl, rfl, rfl, fun _ _ h => h⟩

/-- A change of the core. -/
theorem onCore (f : Core → Core) (d : Debugger) : Beside d (d.onCore f) :=
  ⟨rfl, rfl, rfl, rfl, fun _ _ h => h⟩

/-- A change of the frames. -/
theorem frames (f : List Word → List Word) (d : Debugger) :
    Beside d (d.onContext fun s => { s with frames := f s.frames }) :=
  ⟨rfl, rfl, rfl, rfl, fun _ _ h => h⟩

/-- A change of the listeners. -/
theorem listeners (f : Listeners → Listeners) (d : Debugger) :
    Beside d (d.onContext fun s => { s with listeners := f s.listeners }) :=
  ⟨rfl, rfl, rfl, rfl, fun _ _ h => h⟩

/-- A writing of a watched register. -/
theorem recordAt (pc : Word) (t : Tracked) (w : Word) (d : Debugger) :
    Beside d (recordAt pc t w d) := ⟨rfl, rfl, rfl, rfl, fun _ _ h => h⟩

/-- Leaving a frame. -/
theorem leaveFrame (d : Debugger) : Beside d (leaveFrame d) :=
  (frames List.tail d).trans (.emit .steppedOut _)

/-- Actions beside, one behind the other, are beside. -/
theorem foldl {α : Type} {f : Debugger → α → Debugger} (hf : ∀ d x, Beside d (f d x)) (xs : List α)
    (d : Debugger) : Beside d (xs.foldl f d) := by
  induction xs generalizing d with
  | nil => exact .refl d
  | cons x xs ih => exact (hf d x).trans (ih (f d x))

/-- Translations that are dropped. -/
theorem invalidate (d : Debugger) (a : Word) : Beside d (d.invalidate a) :=
  ⟨rfl, rfl, rfl, rfl, fun start b hb => by
    have hkept : ([a].foldl Translations.invalidate d.blocks)[start]? = some b := hb
    exact (Translations.getElem?_foldl_invalidate.mp hkept).1⟩

/-- An action on the core is beside. -/
theorem atCore {ε α : Type} (action : EStateM ε Core α) (d : Debugger) :
    Leads (Beside d) (atCore action d) := by
  obtain ⟨⟨core, session⟩, blocks, injector?⟩ := d
  simp only [Machine.atCore]
  cases action core <;> exact ⟨rfl, rfl, rfl, rfl, fun _ _ h => h⟩

end Beside

/-! ## Invariants -/

/-- What holds of a debugger between commands, and what holds while the program runs. -/
structure Invariant (I J : Debugger → Prop) : Prop where
  /-- A program may be run between commands. -/
  run : ∀ {d}, I d → J d
  /-- What is beside is of no account between commands. -/
  beside : ∀ {d d'}, I d → Beside d d' → I d'
  /-- What is beside is of no account while the program runs. -/
  besideRunning : ∀ {d d'}, J d → Beside d d' → J d'
  /-- It holds afresh behind a reset. -/
  reset : ∀ {d} pc v, I d → I (reset pc v d)
  /-- It holds again where execution moves on. -/
  moveTo : ∀ {d} pc, J d → I (moveTo pc d)
  /-- It holds again where execution stays at a breakpoint. -/
  stayAt : ∀ {d} address, J d → (session d).breakpoints[address]?.isSome = true →
    I (d.onContext (Session.stayAt · address))
  /-- It is kept when a breakpoint is placed. -/
  place : ∀ {d} address, I d → I (changeBreakpoints address (·.place address) d)
  /-- It is kept when a breakpoint is switched on or off. -/
  setEnabled : ∀ {d} address on, I d → I (changeBreakpoints address (·.setEnabled address on) d)
  /-- It is kept when a breakpoint is removed. -/
  drop : ∀ {d} address, I d → I (dropBreakpoint address d)
  /-- A pass keeps it. -/
  pass : ∀ {d} pc, J d → Leads J (pass Session.observer pc d)
  /-- A single step keeps it. -/
  executeOne : ∀ {d} pc, J d → Leads J (executeOne Session.observer pc d)

/-- The debugger that a command leaves if the program comes to a stand. -/
def stood {α : Type} : EStateM.Result RequestError Debugger (Option α) → Option Debugger
  | .ok none _ => none
  | .ok (some _) d => some d
  | .error _ d => some d

/-- The breakpoint at the address is removed behind the run however that ended. -/
theorem stood_runUntil (address : Word) (fuel : Nat) (d : Debugger) :
    stood (runUntil address fuel d) =
      (stood (run fuel (changeBreakpoints address (·.place address) d))).map
        (dropBreakpoint address) := by
  unfold runUntil
  cases run fuel (changeBreakpoints address (·.place address) d) with
  | ok reason? d₁ => cases reason? <;> rfl
  | error e d₁ => rfl

namespace Invariant

variable {I J : Debugger → Prop} (hI : Invariant I J)
include hI

/-- It holds again where the program comes to a stand. -/
theorem halt {e : Signal} (h : J d) (he : (session d).Backs e) : I (halt e d).2 := by
  have hreport (level : Level) (text : String) : J (d.onCore (Core.report · level text)) :=
    hI.besideRunning h (.onCore _ d)
  cases e with
  | breakpoint address =>
    have hstay := hI.stayAt address (hreport .info ("stopped at " ++ Text.hexWord address))
      (he address rfl)
    exact hI.beside hstay (.emit .stepped _)
  | trap t =>
    have hmove := hI.moveTo t.pc (hreport .error ((t.cause?.map Fault.text).getD t.message))
    exact hI.beside hmove (.emit .stepped _)
  | stopped pc =>
    exact hI.moveTo pc (hreport .warn ("execution stopped before " ++ Text.hexWord pc))

/-! ### Steps -/

/-- A step of the machine restores an invariant, whether it ends well or comes to a stand. -/
theorem executeThen {next : Word → Debugger → Debugger} (hnext : ∀ target d, J d → I (next target d))
    (h : J d) (address : Word) : Leads I (executeThen address next d) := by
  have hone := hI.executeOne address h
  have hraises := raises_executeOne address d
  unfold Debugger.executeThen
  cases hexecute : Machine.executeOne Session.observer address d with
  | ok target d' => exact hnext target d' (hone.of_ok hexecute)
  | error e d' =>
    rw [hexecute] at hone
    exact hI.halt hone (hraises.of_error hexecute).backs

/-- A look at the next instruction keeps an invariant. -/
theorem currentInstruction (h : I d) : Leads I (currentInstruction d) := by
  have hread : Leads (Beside d) (Machine.readInstruction (Debugger.pc d) d) := by
    unfold Machine.readInstruction
    split
    · exact Beside.atCore _ d
    · exact Beside.refl d
  unfold Debugger.currentInstruction
  cases hr : Machine.readInstruction (Debugger.pc d) d <;> rw [hr] at hread <;>
    exact hI.beside h hread

/-- A step over keeps an invariant. -/
theorem stepOver (h : I d) : Leads I (stepOver d) := by
  have hmemory : Leads I (requireMemory d) := by
    rw [requireMemory_eq]
    split <;> exact h
  refine Leads.bind hmemory (fun _ h => h) fun _ d h => ?_
  refine Leads.bind (P := I) h (fun _ h => h) fun d₀ d h => ?_
  refine Leads.bind (hI.currentInstruction h) (fun _ h => h) fun i? d h => ?_
  cases i?.filter (·.mnemonic == .jr) with
  | some i =>
    refine Leads.bind (P := I) h (fun _ h => h) fun d₁ d h => ?_
    refine hI.executeThen (fun _ d h => hI.beside ?_ (.emit .stepped _)) (hI.run h) _
    -- The jump is the debugger's own, and a return is left as well.
    have hmove := hI.moveTo ((core d₁).registers.tracked (.ofGpr (i.gpr .source))) h
    split
    · exact hI.beside hmove (.leaveFrame _)
    · exact hmove
  | none =>
    refine hI.executeThen (fun next d h => ?_) (hI.run h) _
    exact hI.beside (hI.moveTo next h) (.emit .stepped _)

/-- The entry into a called routine restores an invariant. -/
theorem enter (h : J d) (pc target : Word) (link : Tracked) (back : Word) :
    Leads I (stepInto.enter pc target link back d) := by
  have hone := hI.executeOne (pc + Instruction.size) h
  have hraises := raises_executeOne (pc + Instruction.size) d
  unfold stepInto.enter
  cases hexecute : Machine.executeOne Session.observer (pc + Instruction.size) d with
  | error e d' =>
    rw [hexecute] at hone
    have hsignal := hraises.of_error hexecute
    -- The routine is not entered: the return that was expected is dropped before the stand.
    exact hI.halt (hI.besideRunning hone (.frames List.tail d')) hsignal.backs
  | ok _ d' =>
    have hlinked : J (if link = .zero then d' else Debugger.recordAt pc link back d') := by
      split
      · exact hone.of_ok hexecute
      · exact hI.besideRunning (hone.of_ok hexecute) (.recordAt pc link back d')
    have hentered := hI.beside (hI.moveTo target hlinked) (.emit .steppedInto _)
    exact hI.beside hentered (.emit .stepped _)

/-- A step into keeps an invariant. -/
theorem stepInto (h : I d) : Leads I (stepInto d) := by
  have hcall : Leads I (currentCall d) :=
    Leads.bind (hI.currentInstruction h) (fun _ h => h) fun _ _ h => h
  refine Leads.bind hcall (fun _ h => h) fun i? d h => ?_
  cases i? with
  | none => exact h
  | some i =>
    refine Leads.bind (P := I) h (fun _ h => h) fun d₀ d h => ?_
    refine Leads.bind (P := I) h (fun _ h => h) fun d₁ d h => ?_
    refine Leads.bind (P := I) (hI.beside h (.frames (_ :: ·) d)) (fun _ h => h) fun _ d h => ?_
    refine Leads.bind (hI.enter (hI.run h) _ _ _ _) (fun _ h => h) fun _ _ h => h

/-! ### Runs -/

/-- What holds while the program runs holds through all calls. -/
theorem execute (h : J d) (fuel : Nat) (pc : Word) : Leads J (execute Session.observer fuel pc d) := by
  have hresumed : J d.resumed := hI.besideRunning h (.onCore _ d)
  rw [execute_eq]
  exact leads_invoke (fun pc h => hI.pass pc h) hresumed fuel pc 0

/-- A run of a routine that comes to a stand keeps an invariant. -/
theorem stepOut {fuel : Nat} (h : I d) (hstood : stood (stepOut fuel d) = some d') : I d' := by
  rw [stepOut_eq] at hstood
  by_cases hview : d.core.view?.isSome = true
  · have hrun := hI.execute (hI.run h) fuel (Debugger.pc d)
    have hbacks := backs_invoke fuel (Debugger.pc d) 0 d.resumed
    rw [← execute_eq] at hbacks
    rw [if_pos hview] at hstood
    -- The run returns to the caller, is interrupted for want of fuel, or is halted.
    unfold stepOut.finish at hstood
    cases hexecute : Machine.execute Session.observer fuel (Debugger.pc d) d with
    | ok target? d₂ =>
      rw [hexecute] at hrun hstood
      cases target? with
      | none => cases hstood
      | some target =>
        obtain rfl := Option.some.inj hstood
        exact hI.beside (hI.moveTo target hrun) (.emit .stepped _)
    | error e d₂ =>
      rw [hexecute] at hrun hstood hbacks
      obtain rfl := Option.some.inj hstood
      exact hI.halt hrun hbacks
  · rw [if_neg hview] at hstood
    exact Option.some.inj hstood ▸ h

/-- Routines that are run one behind the other keep an invariant if they come to a stand. -/
theorem resume {blocks fuel : Nat} (h : I d) {r : StopReason}
    (hresume : resume blocks fuel d = (some r, d')) : I d' := by
  induction fuel generalizing d with
  | zero => cases hresume
  | succ fuel ih =>
    have hrun := hI.execute (hI.run h) blocks (Debugger.pc d)
    have hbacks := backs_invoke blocks (Debugger.pc d) 0 d.resumed
    rw [← execute_eq] at hbacks
    unfold Debugger.resume at hresume
    cases hexecute : Machine.execute Session.observer blocks (Debugger.pc d) d with
    | ok target? d₂ =>
      rw [hexecute] at hrun hresume
      cases target? with
      | none => cases hresume
      | some target =>
        -- The outermost routine has returned, and what called it is run in turn.
        exact ih (hI.moveTo _ hrun) hresume
    | error e d₂ =>
      rw [hexecute] at hrun hresume hbacks
      have hhalt := hI.halt hrun hbacks
      simp only [Prod.mk.injEq] at hresume
      exact hresume.2 ▸ hhalt

/-- A run that comes to a stand keeps an invariant. -/
theorem run_stood {fuel : Nat} (h : I d) (hstood : stood (Debugger.run fuel d) = some d') :
    I d' := by
  by_cases hview : d.core.view?.isSome = true
  · rw [run_eq hview] at hstood
    cases hresume : Debugger.resume fuel fuel d with
    | mk reason? d₁ =>
      rw [hresume] at hstood
      cases reason? with
      | none => cases hstood
      | some r =>
        obtain rfl := Option.some.inj hstood
        exact hI.resume h hresume
  · rw [run_refused hview] at hstood
    exact Option.some.inj hstood ▸ h

/-- A run up to an address that comes to a stand keeps an invariant. -/
theorem runUntil {address : Word} {fuel : Nat} (h : I d)
    (hstood : stood (runUntil address fuel d) = some d') : I d' := by
  rw [stood_runUntil] at hstood
  obtain ⟨d₁, hrun, rfl⟩ := Option.map_eq_some_iff.mp hstood
  exact hI.drop address (hI.run_stood (hI.place address h) hrun)

end Invariant

end Debugger

/-! ## Commands -/

/-- What can be done with a debugger that changes it. -/
inductive Command where
  /-- Memory is attached, and the program starts afresh. -/
  | reset (pc : Word) (v : View Ram)
  /-- The program counter is moved. -/
  | moveTo (pc : Word)
  /-- A breakpoint is placed. -/
  | setBreakpoint (address : Word)
  /-- A breakpoint is switched on or off. -/
  | switchBreakpoint (address : Word) (on : Bool)
  /-- A breakpoint is removed. -/
  | removeBreakpoint (address : Word)
  /-- A listener is added. -/
  | listen (event : Event) (respond : Nat → StepInfo → List Notice)
  /-- A listener is removed. -/
  | unlisten (number : Nat)
  /-- A watched register is written. -/
  | writeRegister (index : Nat) (w : Word)
  /-- A watched register is written as a user typed it. -/
  | enterRegister (index : Nat) (input : String)
  /-- A system control register is written as a user typed it. -/
  | enterSystem (index : Nat) (input : String)
  /-- A remote client writes all registers. -/
  | writeImage (image : Remote.RegisterImage)
  /-- Memory is written. -/
  | writeMemory (address : Word) (bytes : List UInt8)
  /-- The processor is changed from outside, as by another thread that requests a stop. -/
  | outside (f : Core → Core)
  /-- One instruction is executed. -/
  | stepOver
  /-- A routine is entered. -/
  | stepInto
  /-- A routine is run until it returns. -/
  | stepOut (fuel : Nat)
  /-- The program is run until it comes to a stand. -/
  | run (fuel : Nat)
  /-- The program is run until it comes to an address, or to a stand before. -/
  | runUntil (address : Word) (fuel : Nat)

/-- The debugger that a command leaves, whether it is served or refused; nothing if the program is
still running. -/
def Command.perform : Command → Debugger → Option Debugger
  | reset pc v, d => some (Debugger.reset pc v d)
  | moveTo pc, d => some (Debugger.moveTo pc d)
  | setBreakpoint address, d => some (endState (Debugger.setBreakpoint address d))
  | switchBreakpoint address on, d => some (endState (Debugger.switchBreakpoint address on d))
  | removeBreakpoint address, d => some (endState (Debugger.removeBreakpoint address d))
  | listen event respond, d => some (endState (Debugger.listen event respond d))
  | unlisten number, d => some (endState (Debugger.unlisten number d))
  | writeRegister index w, d => some (endState (Debugger.writeRegister index w d))
  | enterRegister index input, d => some (endState (Debugger.enterRegister index input d))
  | enterSystem index input, d => some (endState (Debugger.enterSystem index input d))
  | writeImage image, d => some (image.write d)
  | writeMemory address bytes, d => some (endState (Debugger.writeMemory address bytes d))
  | outside f, d => some (d.onCore f)
  | stepOver, d => some (endState (Debugger.stepOver d))
  | stepInto, d => some (endState (Debugger.stepInto d))
  | stepOut fuel, d => Debugger.stood (Debugger.stepOut fuel d)
  | run fuel, d => Debugger.stood (Debugger.run fuel d)
  | runUntil address fuel, d => Debugger.stood (Debugger.runUntil address fuel d)

namespace Debugger

/-- The debuggers that commands lead to, one behind the other, from some debuggers. -/
inductive Reachable (start : Debugger → Prop) : Debugger → Prop where
  /-- A debugger to start from. -/
  | start {d : Debugger} (h : start d) : Reachable start d
  /-- What a command leaves. -/
  | perform {d d' : Debugger} (h : Reachable start d) (command : Command)
      (hperform : command.perform d = some d') : Reachable start d'

namespace Beside

/-- One request behind another. -/
theorem bind {α β : Type} {x : Request α} {f : α → Request β} {d : Debugger}
    (hx : Leads (Beside d) (x d)) (hf : ∀ a d', Leads (Beside d') (f a d')) :
    Leads (Beside d) ((x >>= f) d) :=
  Leads.bind hx (fun _ h => h) fun a d' h => (hf a d').mono fun _ h' => h.trans h'

/-- A request that passes on an answer or an error. -/
theorem ofExcept {α : Type} (x : Except RequestError α) (d : Debugger) :
    Leads (Beside d) ((MonadExcept.ofExcept x : Request α) d) := by
  cases x <;> exact .refl d

/-- Writing a register. -/
theorem writeRegister (index : Nat) (w : Word) (d : Debugger) :
    Leads (Beside d) (writeRegister index w d) :=
  bind (ofExcept _ d) fun t d' => Beside.recordAt (Debugger.pc d') t w d'

/-- Entering a register as text. -/
theorem enterRegister (index : Nat) (input : String) (d : Debugger) :
    Leads (Beside d) (enterRegister index input d) :=
  bind (ofExcept _ d) fun _ d' => bind (ofExcept _ d') fun w d'' => writeRegister index w d''

/-- Entering a system register as text. -/
theorem enterSystem (index : Nat) (input : String) (d : Debugger) :
    Leads (Beside d) (enterSystem index input d) := by
  have hread : Leads (Beside d) (readSystem index d) := by
    refine bind (x := get) (Beside.refl d) fun d₀ d => ?_
    cases d₀.core.registers.get? .cop0 index <;> exact Beside.refl d
  refine bind hread fun _ d => bind (ofExcept _ d) fun w d => ?_
  exact Beside.onCore (Core.writeSystem · index w) d

/-- Writing memory, and dropping what was translated from it. -/
theorem writeMemory (address : Word) (bytes : List UInt8) (d : Debugger) :
    Leads (Beside d) (writeMemory address bytes d) := by
  have haccess : Leads (Beside d) (access (Machine.atCore (Core.poke address bytes)) d) := by
    have hcore := Beside.atCore (Core.poke address bytes) d
    unfold access
    cases h : Machine.atCore (Core.poke address bytes) d <;> rw [h] at hcore <;> exact hcore
  exact bind haccess fun _ d => Beside.foldl Beside.invalidate (wordsOf address bytes.length) d

/-- All that a remote client writes is beside, but for the program counter. -/
theorem writeImage (image : Remote.RegisterImage) (d : Debugger) :
    Beside d (image.write d) ∨ ∃ d', Beside d d' ∧ image.write d = Debugger.moveTo image.pc d' := by
  unfold Remote.RegisterImage.write
  extract_lets pc d₁ d₂
  have htracked : Beside d d₁ := by
    refine Beside.foldl (fun d write => ?_) image.tracked d
    obtain ⟨t, w⟩ := write
    exact Beside.recordAt pc t w d
  have hsystem : Beside d₁ d₂ := by
    refine Beside.foldl (fun d write => ?_) image.system d₁
    obtain ⟨index, w⟩ := write
    exact Beside.onCore (Core.writeSystem · index w) d
  have hwritten := htracked.trans hsystem
  -- Only the program counter of the image can move the debugger.
  by_cases hpc : image.pc = pc
  · rw [if_pos hpc]
    exact .inl hwritten
  · rw [if_neg hpc]
    exact .inr ⟨d₂, hwritten, rfl⟩

end Beside

namespace Invariant

variable {I J : Debugger → Prop} {d d' : Debugger} (hI : Invariant I J)
include hI

/-- Every command keeps an invariant. -/
theorem perform (h : I d) (command : Command) (hperform : command.perform d = some d') : I d' := by
  have hbeside {r : EStateM.Result RequestError Debugger PUnit} (hr : Leads (Beside d) r) :
      I (endState r) := hI.beside h hr.endState
  -- What only writes registers or memory, or concerns listeners, acts beside the session; the other
  -- commands have a clause of their own.
  cases command with
  | reset pc v =>
    cases hperform
    exact hI.reset pc v h
  | moveTo pc =>
    cases hperform
    exact hI.moveTo pc (hI.run h)
  | setBreakpoint address =>
    cases hperform
    exact hI.place address h
  | switchBreakpoint address on =>
    cases hperform
    exact hI.setEnabled address on h
  | removeBreakpoint address =>
    cases hperform
    exact hI.drop address h
  | listen event respond =>
    cases hperform
    exact hI.beside h (.listeners (fun ls => (ls.add event respond).1) d)
  | unlisten number =>
    cases hperform
    exact hI.beside h (.listeners (·.remove number) d)
  | writeRegister index w =>
    cases hperform
    exact hbeside (Beside.writeRegister index w d)
  | enterRegister index input =>
    cases hperform
    exact hbeside (Beside.enterRegister index input d)
  | enterSystem index input =>
    cases hperform
    exact hbeside (Beside.enterSystem index input d)
  | writeImage image =>
    cases hperform
    rcases Beside.writeImage image d with hwritten | ⟨d₁, hwritten, heq⟩
    · exact hI.beside h hwritten
    · exact heq ▸ hI.moveTo image.pc (hI.run (hI.beside h hwritten))
  | writeMemory address bytes =>
    cases hperform
    exact hbeside (Beside.writeMemory address bytes d)
  | outside f =>
    cases hperform
    exact hI.beside h (.onCore f d)
  | stepOver =>
    cases hperform
    exact (hI.stepOver h).endState
  | stepInto =>
    cases hperform
    exact (hI.stepInto h).endState
  | stepOut fuel => exact hI.stepOut h hperform
  | run fuel => exact hI.run_stood h hperform
  | runUntil address fuel => exact hI.runUntil h hperform

/-- An invariant holds of every debugger that is reachable from where it holds. -/
theorem reachable {start : Debugger → Prop} (hstart : ∀ d, start d → I d)
    (h : Reachable start d) : I d := by
  induction h with
  | start h => exact hstart _ h
  | perform _ command hperform ih => exact hI.perform ih command hperform

/-- An invariant that a reset brings about holds of every debugger since a reset. -/
theorem of_reset (hreset : ∀ pc v d₀, I (Debugger.reset pc v d₀))
    (h : Reachable (fun d => ∃ pc v d₀, d = Debugger.reset pc v d₀) d) : I d :=
  hI.reachable (fun _ ⟨pc, v, d₀, hd⟩ => hd ▸ hreset pc v d₀) h

end Invariant

end Debugger

namespace Pausing

open Debugger

/-- Three instructions: `nop`, `nop`, `syscall`. -/
def image : Image := ⟨0, ⟨#[0, 0, 0, 0, 0, 0, 0, 0, 0x0C, 0, 0, 0]⟩, by decide⟩

/-- A debugger that was reset to the first instruction, with a breakpoint at the second one. -/
def start : Debugger := changeBreakpoints 4 (·.place 4) (atReset image)

end Pausing

end MipsMonitor.Debug
