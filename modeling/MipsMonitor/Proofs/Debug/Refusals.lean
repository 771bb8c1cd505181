import MipsMonitor.Proofs.Debug.Arming
import MipsMonitor.Proofs.Debug.CallStack
import MipsMonitor.Proofs.Debug.Calls

/-!
# Refused calls

A call is refused because of what it asks for, and that is found before anything is changed: a request
looks first (`Debugger.Inspects`), and what it does behind that is not refused (`Debugger.Refuses`). So a
refused call leaves the processor, its memory and the session as they were, whatever commands were
given before (`Debugger.refused_unchanged`); only reports are added and translations dropped.

There are two exceptions (`Call.Clean`). Memory is written byte by byte, and the bytes before the first
one that is refused stay written. And a run up to an address places its breakpoint before it looks for
memory, and removes it when there is none, even if the breakpoint was there before
(`Partway.refusals_change`).
-/

namespace MipsMonitor.Debug

open Machine

namespace Debugger

variable {α β : Type} {d d' d'' : Debugger} {x : Request α} {f : α → Request β}

/-- The second debugger is the first one, but for what it has reported and for the translations that it
keeps. -/
structure Unchanged (d d' : Debugger) : Prop where
  /-- The processor and its memory are the same. -/
  core : ∃ log, Machine.core d' = { Machine.core d with log }
  /-- The session is the same. -/
  session : Debugger.session d' = Debugger.session d

namespace Unchanged

/-- A debugger is unchanged if nothing happens. -/
theorem refl (d : Debugger) : d.Unchanged d := ⟨⟨_, rfl⟩, rfl⟩

/-- A debugger that stays unchanged twice is unchanged. -/
theorem trans (h : d.Unchanged d') (h' : d'.Unchanged d'') : d.Unchanged d'' := by
  obtain ⟨log, hcore⟩ := h.core
  obtain ⟨log', hcore'⟩ := h'.core
  exact ⟨⟨log', by rw [hcore', hcore]⟩, h'.session.trans h.session⟩

/-- A report leaves the debugger unchanged. -/
theorem note (entries : List Entry) (d : Debugger) :
    d.Unchanged (d.onCore (Core.note · entries)) := by
  refine ⟨?_, rfl⟩
  change ∃ log, d.core.note entries = _
  unfold Core.note
  split <;> exact ⟨_, rfl⟩

end Unchanged

/-- A request only inspects: it changes nothing, however it ends. -/
abbrev Inspects (x : Request α) : Prop := ∀ d, Leads (Unchanged d) (x d)

/-- A request that is refused has changed nothing. -/
abbrev Refuses (x : Request α) : Prop := ∀ d, Fails (fun _ d' => d.Unchanged d') (x d)

namespace Inspects

/-- A request that only answers. -/
theorem pure (a : α) : Inspects (Pure.pure a : Request α) := Unchanged.refl

/-- A request that passes on an answer or an error. -/
theorem ofExcept (r : Except RequestError α) : Inspects (MonadExcept.ofExcept r : Request α) := fun d => by
  cases r <;> exact .refl d

/-- One inspection behind another. -/
theorem bind (hx : Inspects x) (hf : ∀ a, Inspects (f a)) : Inspects (x >>= f) := fun d =>
  Leads.bind (hx d) (fun _ h => h) fun a d' h => (hf a d').mono fun _ h' => h.trans h'

/-- An inspection that is refused has changed nothing. -/
theorem refuses (hx : Inspects x) : Refuses x := fun d => by
  have hlooked := hx d
  cases h : x d with
  | ok a d' => trivial
  | error e d' =>
    rw [h] at hlooked
    exact hlooked

/-- Memory is read without a change. -/
theorem access {μ : Type} [ByteMemory μ] (choose : View Ram → μ) (addresses : List Word)
    (spell : List UInt8 → α) : Inspects (access (atCore (Core.readFrom choose addresses spell))) := by
  rintro ⟨⟨core, session⟩, blocks, injector?⟩
  simp only [Debugger.access, atCore, Core.readFrom]
  cases core.view? with
  | none => exact .refl _
  | some v =>
    simp only
    cases ByteMemory.readBytes (choose v) addresses <;>
      exact Unchanged.note (ByteMemory.readNotes (choose v) addresses)
        ⟨⟨core, session⟩, blocks, injector?⟩

/-- Reading an instruction. -/
theorem readInstruction (address : Word) :
    Inspects (Debugger.access (Machine.readInstruction address)) := by
  unfold Machine.readInstruction
  split
  · exact access View.backing _ Word.ofBytes
  · exact Unchanged.refl

/-- The check that memory is attached. -/
theorem requireMemory : Inspects requireMemory := fun d => by
  rw [requireMemory_eq]
  split <;> exact .refl d

/-- The instruction at which execution stands. -/
theorem currentInstruction : Inspects currentInstruction := fun d => by
  obtain ⟨i?, entries, heq⟩ := currentInstruction_ok d
  rw [heq]
  exact .note entries d

/-- Reading a register. -/
theorem readRegister (index : Nat) : Inspects (readRegister index) :=
  (ofExcept _).bind fun _ d => Unchanged.refl d

/-- Reading a system register. -/
theorem readSystem (index : Nat) : Inspects (readSystem index) := by
  refine bind (x := get) Unchanged.refl fun d₀ d => ?_
  cases d₀.core.registers.get? .cop0 index <;> exact Unchanged.refl d

end Inspects

namespace Refuses

/-- What looks first is refused only while it looks, or as the rest is. -/
theorem bind (hx : Inspects x) (hf : ∀ a, Refuses (f a)) : Refuses (x >>= f) := fun d =>
  Fails.bind (hx.refuses d) fun a d' hok =>
    (hf a d').mono fun _ _ h => ((hx d).of_ok hok).trans h

/-- What is never refused changes nothing when it is refused. -/
theorem of_served (h : ∀ d, ∃ a d', x d = .ok a d') : Refuses x := fun d => by
  obtain ⟨a, d', heq⟩ := h d
  rw [heq]
  trivial

/-- An answer put in words. -/
theorem answered (hx : Refuses x) (reply : α → Reply) : Refuses (Call.answered reply x) := fun d =>
  Fails.bind (hx d) fun _ _ _ => trivial

/-- An answer put in words, where there may be none. -/
theorem awaited {x : Request (Option α)} (hx : Refuses x) (reply : α → Reply) :
    Refuses (Call.awaited reply x) := fun d =>
  Fails.bind (hx d) fun _ _ _ => trivial

/-- Writing a register is refused before anything is written. -/
theorem writeRegister (index : Nat) (w : Word) : Refuses (writeRegister index w) :=
  bind (.ofExcept _) fun _ _ => trivial

/-- Entering a register is refused before anything is written. -/
theorem enterRegister (index : Nat) (input : String) : Refuses (enterRegister index input) :=
  bind (.ofExcept _) fun _ => bind (.ofExcept _) fun w => writeRegister index w

/-- Entering a system register is refused before anything is written. -/
theorem enterSystem (index : Nat) (input : String) : Refuses (enterSystem index input) :=
  bind (.readSystem index) fun _ => bind (.ofExcept _) fun _ _ => trivial

/-- Disassembling an instruction. -/
theorem disassemble (address : Word) : Refuses (disassemble address) :=
  bind (.readInstruction address) fun w _ => by
    cases Instruction.decode? w <;> trivial

/-- A step of the machine is not refused: it comes to a stand where it fails. -/
theorem executeThen (address : Word) (next : Word → Debugger → Debugger) :
    Refuses (executeThen address next) :=
  of_served fun d => by
    unfold Debugger.executeThen
    cases executeOne Session.observer address d <;> exact ⟨_, _, rfl⟩

/-- A step over is refused only where there is no memory. -/
theorem stepOver : Refuses stepOver := by
  refine bind .requireMemory fun _ => bind (x := get) Unchanged.refl fun _ =>
    bind .currentInstruction fun i? => ?_
  -- All that can be refused is behind; an exception only brings the program to a stand.
  cases i?.filter (·.mnemonic == .jr) with
  | none => exact executeThen _ _
  | some i => exact bind (x := get) Unchanged.refl fun _ => executeThen _ _

/-- Whether there is a call to step into. -/
theorem canStepInto : Refuses canStepInto :=
  bind (Inspects.bind .currentInstruction fun _ => .pure _) fun _ _ => trivial

/-- A step into is not refused once the instruction has been read. -/
theorem stepInto : Refuses stepInto :=
  of_served fun d => by
    rw [stepInto_eq]
    split <;> exact ⟨_, _, rfl⟩

/-- A step out is refused only where there is no memory. -/
theorem stepOut (fuel : Nat) : Refuses (stepOut fuel) :=
  bind .requireMemory fun _ => of_served fun d => by
    unfold stepOut.finish
    cases execute Session.observer fuel (Debugger.pc d) d with
    | error e d' => exact ⟨_, _, rfl⟩
    | ok target? d' => cases target? <;> exact ⟨_, _, rfl⟩

/-- A run is refused only where there is no memory. -/
theorem run (fuel : Nat) : Refuses (run fuel) :=
  bind .requireMemory fun _ => of_served fun _ => ⟨_, _, rfl⟩

end Refuses

/-! ## The two that do something first -/

/-- A write that memory refuses at its first byte changes nothing. -/
theorem Refuses.writeMemory {address : Word} {bytes : List UInt8}
    (hfirst : ∀ v, d.core.view? = some v → (ByteMemory.refusal? v address).isSome = true) :
    Fails (fun _ d' => d.Unchanged d') (writeMemory address bytes d) := by
  refine Fails.bind ?_ fun _ _ _ => trivial
  obtain ⟨⟨⟨registers, view?, stopped, ticks, sink, written, log⟩, session⟩, blocks, injector?⟩ := d
  simp only [access, atCore]
  cases view? with
  | none => exact .refl _
  | some v =>
    obtain ⟨e, he⟩ := Option.isSome_iff_exists.mp (hfirst v rfl)
    cases bytes with
    | nil => trivial
    | cons b bs =>
      simp only [Core.poke, ByteMemory.writeBytes, he]
      exact Unchanged.note _ ⟨⟨⟨registers, some v, stopped, ticks, sink, written, log⟩, session⟩,
        blocks, injector?⟩

/-- A breakpoint that is placed and removed again leaves nothing behind, where there was none. -/
theorem unchanged_place_drop {address : Word} (hnone : d.breakpoints[address]? = none)
    (hlast : (session d).lastHit? ≠ some address) :
    d.Unchanged (dropBreakpoint address (changeBreakpoints address (·.place address) d)) := by
  have hbreakpoints : (d.breakpoints.place address).erase address = d.breakpoints := by
    refine Std.ExtTreeMap.ext_getElem? fun a => ?_
    rw [Breakpoints.getElem?_erase, Breakpoints.getElem?_place]
    split
    · next ha => rw [← ha, hnone]
    · rfl
  obtain ⟨hmissing, -⟩ | ⟨lastHit?, heq, hiff⟩ :=
    dropBreakpoint_eq address (changeBreakpoints address (·.place address) d)
  · -- The breakpoint is there, as it was just placed.
    have hplaced := Breakpoints.getElem?_place d.breakpoints address address
    rw [if_pos rfl] at hplaced
    cases hplaced.symm.trans hmissing
  · have hstays : lastHit? = (session d).lastHit? :=
      Option.ext fun a => (hiff a).trans ⟨And.left, fun h => ⟨h, fun he => hlast (he ▸ h)⟩⟩
    rw [heq]
    refine ⟨⟨_, rfl⟩, ?_⟩
    change { session d with breakpoints := (d.breakpoints.place address).erase address, lastHit? } = _
    rw [hbreakpoints, hstays]
    rfl

/-- A run up to an address where there is no breakpoint is refused without a change. -/
theorem Refuses.runUntil {address : Word} (hnone : d.breakpoints[address]? = none)
    (hlast : (session d).lastHit? ≠ some address) (fuel : Nat) :
    Fails (fun _ d' => d.Unchanged d') (runUntil address fuel d) := by
  unfold Debugger.runUntil
  by_cases hview : d.core.view?.isSome = true
  · -- With memory the run is served, whatever its outcome.
    have hserved := run_eq (d := changeBreakpoints address (·.place address) d) hview fuel
    rw [hserved]
    trivial
  · have hplaced : ¬ (changeBreakpoints address (·.place address) d).core.view?.isSome = true := hview
    rw [run_refused hplaced]
    exact unchanged_place_drop hnone hlast

end Debugger

/-- Nothing is done for a call before it can be refused: a write to memory is not refused behind its
first byte, and there is no breakpoint where a run is to go. -/
def Call.Clean (d : Debugger) : Call → Prop
  | writeMemory address _ =>
    ∀ v, d.core.view? = some v → (ByteMemory.refusal? v address).isSome = true
  | runUntil address _ => d.breakpoints.contains address = false
  | _ => True

namespace Debugger

variable {d d' : Debugger}

/-- Whatever commands were given to a debugger that began afresh, a call that is refused leaves the
processor, its memory and the session as they were, if nothing is done for it before it can be
refused. -/
theorem refused_unchanged (hd : Reachable (fun d => session d = .fresh) d) {call : Call}
    (hclean : call.Clean d) {e : RequestError} (hrefused : call.serve d = .error e d') :
    d.Unchanged d' := by
  refine Fails.of_error (P := fun _ d' => d.Unchanged d') ?_ hrefused
  have hserved {α : Type} {x : Request α} (h : ∀ d, ∃ a d', x d = .ok a d') (reply : α → Reply) :=
    (Refuses.of_served h).answered reply d
  cases call with
  | reset pc v => exact hserved (fun d => ⟨(), _, rfl⟩) _
  | moveTo pc => exact hserved (fun d => ⟨(), _, rfl⟩) _
  | requestStop => exact hserved (fun d => ⟨(), _, rfl⟩) _
  | listen event respond => exact hserved (fun d => ⟨_, _, rfl⟩) _
  | unlisten number => exact hserved (fun d => ⟨_, _, rfl⟩) _
  | setBreakpoint address => exact hserved (fun d => ⟨_, _, rfl⟩) _
  | switchBreakpoint address on => exact hserved (fun d => ⟨_, _, rfl⟩) _
  | removeBreakpoint address => exact hserved (fun d => ⟨_, _, rfl⟩) _
  | lastWrite index => exact hserved (fun d => ⟨_, _, rfl⟩) _
  | readRegister index => exact (Inspects.readRegister index).refuses.answered _ d
  | registerText index =>
    exact ((Inspects.readRegister index).bind fun _ => .pure _).refuses.answered _ d
  | writeRegister index w => exact (Refuses.writeRegister index w).answered _ d
  | enterRegister index input => exact (Refuses.enterRegister index input).answered _ d
  | systemText index =>
    exact ((Inspects.readSystem index).bind fun _ => .pure _).refuses.answered _ d
  | enterSystem index input => exact (Refuses.enterSystem index input).answered _ d
  | disassemble address => exact (Refuses.disassemble address).answered _ d
  | readMemory address count => exact (Inspects.access id _ id).refuses.answered _ d
  | writeMemory address bytes => exact Fails.bind (Refuses.writeMemory hclean) fun _ _ _ => trivial
  | stepOver => exact Refuses.stepOver.answered _ d
  | canStepInto => exact Refuses.canStepInto.answered _ d
  | stepInto => exact Refuses.stepInto.answered _ d
  | stepOut fuel => exact (Refuses.stepOut fuel).awaited _ d
  | run fuel => exact (Refuses.run fuel).awaited _ d
  | runUntil address fuel =>
    -- Removing a breakpoint forgets that execution stopped there. But it stopped last at a breakpoint,
    -- so not where there is none.
    have hnone : d.breakpoints[address]? = none := Std.ExtTreeMap.getElem?_eq_none_of_contains_eq_false hclean
    have hlast : (session d).lastHit? ≠ some address := fun hlast => by
      have harmed := ((poised_of_reachable hd).armed address).mpr hlast
      obtain ⟨b, hb, -⟩ := (Option.any_eq_true _ _).mp harmed
      cases hnone.symm.trans hb
    exact Fails.bind (Refuses.runUntil hnone hlast fuel) fun _ _ _ => trivial

/-- What can be observed of a debugger behind a call that it refuses. -/
def behindRefusal {α : Type} (observe : Debugger → α) (call : Call) (d : Debugger) : Option α :=
  match call.serve d with
  | .error _ d' => some (observe d')
  | .ok _ _ => none

/-- What was observed behind a refusal belongs to a call that was refused. -/
theorem of_behindRefusal {α : Type} {observe : Debugger → α} {call : Call} {a : α}
    (h : behindRefusal observe call d = some a) :
    ∃ e d', call.serve d = .error e d' ∧ observe d' = a := by
  unfold behindRefusal at h
  split at h
  · next e d' hrefused => exact ⟨e, d', hrefused, Option.some.inj h⟩
  · cases h

end Debugger

namespace Partway

open Debugger

/-- A debugger without memory, with a breakpoint at an address. -/
def waiting : Debugger := changeBreakpoints 4 (·.place 4) (detached .standard)

/-- A debugger that was reset to a single `break`. -/
def standing : Debugger := atReset ⟨0, ⟨#[0x0D, 0, 0, 0]⟩, by decide⟩

/-- A debugger without memory is reachable. -/
theorem reachable_detached : Reachable (fun d => session d = .fresh) (detached .standard) := .start rfl

/-- A debugger without memory that has a breakpoint is reachable. -/
theorem reachable_waiting : Reachable (fun d => session d = .fresh) waiting :=
  reachable_detached.perform (.setBreakpoint 4) rfl

/-- A debugger that was reset is reachable. -/
theorem reachable_standing : Reachable (fun d => session d = .fresh) standing :=
  reachable_detached.perform (.reset 0 _) rfl

/-- A run up to an address without breakpoint is refused where there is no memory, and a write to the
boot ROM is refused, both without a change. -/
theorem refused_partway :
    (∃ e d', (Call.runUntil 8 1).serve waiting = .error e d' ∧ waiting.Unchanged d') ∧
      ∃ e d', (Call.writeMemory 0xBFC00000 [1, 2]).serve standing = .error e d' ∧
        standing.Unchanged d' := by
  -- No breakpoint was there to be dropped, and the first byte already cannot be written.
  constructor
  · have hrefused : behindRefusal (fun _ => ()) (.runUntil 8 1) waiting = some () := by decide +kernel
    have hclean : (Call.runUntil 8 1).Clean waiting := by
      change waiting.breakpoints.contains 8 = false
      decide +kernel
    obtain ⟨e, d', hserve, -⟩ := of_behindRefusal hrefused
    exact ⟨e, d', hserve, refused_unchanged reachable_waiting hclean hserve⟩
  · have hrefused : behindRefusal (fun _ => ()) (.writeMemory 0xBFC00000 [1, 2]) standing = some () := by
      unfold standing
      rw [atReset_eq]
      decide +kernel
    have hfirst : standing.core.view?.all
        (fun v => (ByteMemory.refusal? v 0xBFC00000).isSome) = true := by
      unfold standing
      rw [atReset_eq]
      decide +kernel
    have hclean : (Call.writeMemory 0xBFC00000 [1, 2]).Clean standing := fun v hv => by
      rw [hv] at hfirst
      exact hfirst
    obtain ⟨e, d', hserve, -⟩ := of_behindRefusal hrefused
    exact ⟨e, d', hserve, refused_unchanged reachable_standing hclean hserve⟩

/-- A run up to an address is refused where there is no memory, but the breakpoint that was there is
gone. And a write that reaches beyond the scratchpad is refused, but its first byte is in memory. -/
theorem refusals_change :
    (Reachable (fun d => session d = .fresh) waiting ∧
      ∃ e d', (Call.runUntil 4 1).serve waiting = .error e d' ∧
        waiting.breakpoints.contains 4 = true ∧ d'.breakpoints.contains 4 = false) ∧
    Reachable (fun d => session d = .fresh) standing ∧
      ∃ e d', (Call.writeMemory 0x1F8003FF [1, 2]).serve standing = .error e d' ∧
        answer? (readMemory 0x1F8003FF 1 standing) = some [0] ∧
        answer? (readMemory 0x1F8003FF 1 d') = some [1] := by
  refine ⟨⟨reachable_waiting, ?_⟩, reachable_standing, ?_⟩
  · have hrefused : behindRefusal (·.breakpoints.contains 4) (.runUntil 4 1) waiting = some false := by
      decide +kernel
    obtain ⟨e, d', hserve, hgone⟩ := of_behindRefusal hrefused
    exact ⟨e, d', hserve, by decide +kernel, hgone⟩
  · have hrefused : behindRefusal (fun d => answer? (readMemory 0x1F8003FF 1 d))
        (.writeMemory 0x1F8003FF [1, 2]) standing = some (some [1]) := by
      unfold standing
      rw [atReset_eq]
      decide +kernel
    have hbefore : answer? (readMemory 0x1F8003FF 1 standing) = some [0] := by
      unfold standing
      rw [atReset_eq]
      decide +kernel
    obtain ⟨e, d', hserve, hwritten⟩ := of_behindRefusal hrefused
    exact ⟨e, d', hserve, hbefore, hwritten⟩

end Partway

end MipsMonitor.Debug
