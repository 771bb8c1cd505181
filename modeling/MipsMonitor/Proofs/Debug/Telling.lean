import MipsMonitor.Proofs.Debug.CallStack

/-!
# What listeners know of the call stack

An event tells how many routines had not returned when it occurred (`StepInfo.depth`). An observer
that pushes a return address, or pops one, lets an event occur at once, so while the program runs the
event that occurred last agrees with the call stack (`Session.Told`, `Session.keeps_told`). A step
into a call does not: its frame is there before the delay slot is executed, and it is told of when
the routine is entered, or taken back when the slot traps (`Debugger.told_enter`). As a single step is
never ended by a request to stop, which is the one stand that no event tells of, there is an event in
either case. So every command leaves a debugger whose last event agrees with its call stack
(`Debugger.Told.perform`), and since a reset listeners know the depth (`Debugger.depth_of_last_event`).
-/

namespace MipsMonitor.Debug

open Machine

namespace Session

/-- The event that occurred last tells how many routines have not returned. -/
def Told (s : Session) : Prop := ∃ info, s.events.back? = some info ∧ info.depth = s.frames.length

/-- Whatever was told before, an event tells the depth. -/
theorem told_emit (event : Event) (s : Session) : (s.emit event).1.Told := by
  refine ⟨⟨event, s.pc, s.frames.length⟩, ?_, rfl⟩
  exact Array.back?_push

/-- The observer changes the frames only where it lets an event occur behind the change. -/
theorem keeps_told : observer.Keeps Told where
  sync _ _ h := h
  check _ _ h := h
  enter _ _ _ := told_emit .steppedInto _
  leave _ _ := told_emit .steppedOut _
  write _ _ _ _ h := h

end Session

namespace Debugger

variable {d d' : Debugger}

/-- The event that occurred last tells how many routines have not returned. -/
abbrev Told (d : Debugger) : Prop := (session d).Told

/-- Whatever was told before, an event tells the depth. -/
theorem told_emit (event : Event) (d : Debugger) : Told (emit event d) :=
  Session.told_emit event (session d)

/-- What is told depends on the accounts alone. -/
theorem Told.congr (h : Told d) (haccounts : accounts d' = accounts d) : Told d' := by
  obtain ⟨info, hlast, hdepth⟩ := h
  obtain ⟨hframes, hevents⟩ := Prod.mk.inj haccounts
  refine ⟨info, ?_, ?_⟩
  · rw [hevents]
    exact hlast
  · exact hdepth.trans (congrArg List.length hframes.symm)

/-- To move on tells nothing, and changes no frame. -/
theorem Told.moveTo (h : Told d) (pc : Word) : Told (moveTo pc d) := h.congr (accounts_moveTo pc d)

/-- A look at the next instruction tells nothing, and changes no frame. -/
theorem Told.looked (h : Told d) : Told (looked d) := by
  obtain ⟨i?, entries, heq⟩ := currentInstruction_ok d
  rw [Debugger.looked, heq]
  exact h

/-- A stand is told of, but for one on request, which leaves the call stack alone. -/
theorem Told.halt (h : Told d) (e : Signal) : Told (halt e d).2 := by
  cases e with
  | breakpoint address => exact told_emit .stepped _
  | trap t => exact told_emit .stepped _
  | stopped pc => exact Told.moveTo h pc

/-- Behind a reset the depth is told, whatever was known before. -/
theorem told_reset (pc : Word) (v : View Ram) (d : Debugger) : Told (reset pc v d) :=
  told_emit .steppedInto _

/-! ## Steps -/

/-- A step of the machine, if the debugger tells of the depth behind it. -/
theorem Told.executeThen (h : Told d) {next : Word → Debugger → Debugger}
    (hnext : ∀ target d', Told (next target d')) (address : Word) :
    Leads Told (executeThen address next d) := by
  have hone : Leads Told (executeOne Session.observer address d) :=
    keeps_executeOne Session.keeps_told h address
  unfold Debugger.executeThen
  cases hexecute : executeOne Session.observer address d with
  | ok target d' => exact hnext target d'
  | error e d' =>
    rw [hexecute] at hone
    exact Told.halt hone e

/-- A jump of the debugger tells of the depth behind it. -/
theorem told_jumpTo (i : Instruction) (target : Word) (d : Debugger) : Told (jumpTo i target d) := by
  unfold jumpTo
  split <;> exact told_emit .stepped _

/-- A step over is told of behind all that it does. -/
theorem Told.stepOver (h : Told d) : Leads Told (stepOver d) := by
  by_cases hview : d.core.view?.isSome = true
  case neg =>
    rw [stepOver_refused hview]
    exact h
  rw [stepOver_served hview]
  cases (current? d).filter (·.mnemonic == .jr) with
  | some i => exact h.looked.executeThen (fun _ d' => told_jumpTo i _ d') _
  | none => exact h.looked.executeThen (fun _ _ => told_emit .stepped _) _

/-- Whether a call is completed or taken back, the depth is told behind it, even though the frame of
the call is not told of while the delay slot is executed. -/
theorem told_enter (pc target : Word) (link : Tracked) (back : Word) (d : Debugger) :
    Leads Told (stepInto.enter pc target link back d) := by
  have htraps := traps_executeOne (pc + Instruction.size) d
  unfold stepInto.enter
  cases hexecute : executeOne Session.observer (pc + Instruction.size) d with
  | ok next d' => exact told_emit .stepped _
  | error e d' =>
    -- A request to stop would leave a popped frame without an event, but it is no trap.
    obtain ⟨t, rfl⟩ := htraps.of_error hexecute
    exact told_emit .stepped _

/-- A step into. -/
theorem Told.stepInto (h : Told d) : Leads Told (stepInto d) := by
  rw [stepInto_eq]
  cases (current? d).filter Instruction.isCall with
  | none => exact h.looked
  | some i => exact (told_enter _ _ _ _ (calling d)).endState

/-! ## Runs -/

/-- While a routine is run the depth is known between its passes, and so it is where the run ends. -/
theorem Told.execute (h : Told d) (fuel : Nat) (pc : Word) :
    Leads Told (execute Session.observer fuel pc d) := by
  have hpass {d : Debugger} (pc : Word) (h : Told d) : Leads Told (pass Session.observer pc d) :=
    keeps_pass Session.keeps_told h pc
  have hresumed : Told d.resumed := h
  rw [execute_eq]
  exact leads_invoke hpass hresumed fuel pc 0

/-- A step out. -/
theorem Told.stepOut (h : Told d) (fuel : Nat) : Leads Told (stepOut fuel d) := by
  rw [stepOut_eq]
  split
  case isFalse => exact h
  case isTrue =>
    have hrun := h.execute fuel (Debugger.pc d)
    unfold stepOut.finish
    cases hexecute : Machine.execute Session.observer fuel (Debugger.pc d) d with
    | error e d' =>
      rw [hexecute] at hrun
      exact Told.halt hrun e
    | ok target? d' =>
      cases target? with
      | none => exact hrun.of_ok hexecute
      | some target => exact told_emit .stepped _

/-- Where the outermost routine returns, the program goes on behind it without an event, and the
frames stay as they were told. -/
theorem Told.resume (h : Told d) (blocks fuel : Nat) : Told (resume blocks fuel d).2 := by
  induction fuel generalizing d with
  | zero => exact h
  | succ fuel ih =>
    have hrun := h.execute blocks (Debugger.pc d)
    unfold Debugger.resume
    cases hexecute : Machine.execute Session.observer blocks (Debugger.pc d) d with
    | error e d' =>
      rw [hexecute] at hrun
      exact Told.halt hrun e
    | ok target? d' =>
      have hreturned : Told d' := hrun.of_ok hexecute
      cases target? with
      | none => exact hreturned
      | some target => exact ih (hreturned.moveTo _)

/-- A run. -/
theorem Told.run (h : Told d) (fuel : Nat) : Leads Told (run fuel d) := by
  by_cases hview : d.core.view?.isSome = true
  · rw [run_eq hview]
    exact h.resume fuel fuel
  · rw [run_refused hview]
    exact h

/-- A run up to an address. -/
theorem Told.runUntil (h : Told d) (address : Word) (fuel : Nat) :
    Leads Told (runUntil address fuel d) := by
  have hplaced : Told (changeBreakpoints address (·.place address) d) := h
  have hrun := hplaced.run fuel
  unfold Debugger.runUntil
  cases hend : Debugger.run fuel (changeBreakpoints address (·.place address) d) with
  | ok reason? d' => exact (hrun.of_ok hend).congr (accounts_dropBreakpoint address d')
  | error e d' =>
    rw [hend] at hrun
    exact Told.congr hrun (accounts_dropBreakpoint address d')

/-! ## Commands -/

/-- Every command leaves a debugger whose last event tells the depth, whether it is served or
refused, and however the program came to a stand. -/
theorem Told.perform (h : Told d) {command : Command} (hperform : command.perform d = some d') :
    Told d' := by
  cases command with
  | reset pc v => exact Option.some.inj hperform ▸ told_reset pc v d
  | stepOver => exact Option.some.inj hperform ▸ h.stepOver.endState
  | stepInto => exact Option.some.inj hperform ▸ h.stepInto.endState
  | stepOut fuel => exact eq_of_stood hperform ▸ (h.stepOut fuel).endState
  | run fuel => exact eq_of_stood hperform ▸ (h.run fuel).endState
  | runUntil address fuel => exact eq_of_stood hperform ▸ (h.runUntil address fuel).endState
  | _ => exact h.congr (accounts_of_idle hperform trivial)

end Debugger

namespace Visiting

open Debugger

end Visiting

end MipsMonitor.Debug
