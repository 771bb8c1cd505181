import MipsMonitor.Proofs.Debug.Moves
import MipsMonitor.Proofs.Debug.Soundness
import MipsMonitor.Proofs.Machine.Isolation
import MipsMonitor.Proofs.Machine.Operands

/-!
# The isolated cache of a debugger

Moves of a debugger keep its view of memory with the status register (`Debugger.Move.isolates`), and
so do its commands. Whatever is done to a debugger since a reset onto memory itself, by commands or
by what the host does to the machine under it (`Debugger.Done`), memory is hidden exactly while
bit 16 of the status register is set (`Debugger.isIsolated_iff_testBit`).
-/

namespace MipsMonitor

open Relation

/-- Memory is attached, and it is hidden if and only if bit 16 of the status register is set. -/
def Core.HidesByBit (c : Core) : Prop :=
  ∃ v, c.view? = some v ∧
    (v.isIsolated = true ↔ (c.registers.get .status).toNat.testBit 16 = true)

/-- A core that isolates hides memory exactly while the bit is set. -/
theorem Core.Isolates.hidesByBit {c : Core} (h : c.Isolates) : c.HidesByBit := by
  obtain ⟨v, hv, hisolated⟩ := h
  exact ⟨v, hv, (iff_of_eq (congrArg (· = true) hisolated)).trans c.registers.status.isolateCache_iff⟩

namespace Debug

open Machine

/-- A session writes no register for system control. -/
theorem Session.sparesSystem : Session.observer.SparesSystem := fun _ f t _ i _ =>
  f.get_cop0_setTracked _ t i

namespace Debugger

variable {d d' : Debugger}

/-- Notices and changes of the session leave the isolation of memory. -/
theorem isolating_heed (h : d.Isolating) (notices : List Notice) (f : Session → Session) :
    Isolating (onContext f (d.onCore (notices.foldl Core.heed))) :=
  ⟨Core.keeps_isolates.heed h.core notices, h.genuine⟩

/-- An event leaves the isolation of memory. -/
theorem isolating_emit (h : d.Isolating) (event : Event) : Isolating (emit event d) := by
  obtain ⟨notices, listeners, events, heq⟩ := emit_eq event d
  rw [heq]
  exact isolating_heed h notices fun _ => { session d with listeners, events }

/-- A reset onto memory itself isolates it as the bit says. -/
theorem isolating_reset (pc : Word) (memory : Ram) (d : Debugger) :
    Isolating (reset pc (.direct memory) d) := by
  unfold reset
  refine isolating_emit (isolating_emit ?_ .stepped) .steppedInto
  exact ⟨d.core.isolates_reset memory, genuine_of_empty _ _⟩

/-- A debugger does nothing that parts the view from the status register. -/
theorem Move.isolates (h : Move d d') (hd : d.Isolating) : d'.Isolating := by
  have hkeeps := Core.keeps_isolates.machine Session.sparesSystem d.injector?
  -- Most moves are about the session alone; the others write a part of the core or run.
  cases h with
  | note entries =>
    exact hd.onCore (hd.core.congr (congrArg (·.get .status) (Core.registers_note _ _))
      (Core.view?_note _ _))
  | emit event => exact isolating_emit hd event
  | moveTo pc => exact ⟨hd.core, hd.genuine⟩
  | stayAt address => exact ⟨hd.core, hd.genuine⟩
  | push back => exact ⟨hd.core, hd.genuine⟩
  | pop => exact ⟨hd.core, hd.genuine⟩
  | listeners ls => exact ⟨hd.core, hd.genuine⟩
  | forgetHit => exact ⟨hd.core, hd.genuine⟩
  | breakpoints address f =>
    exact ⟨hd.core, Translations.Every.foldl_invalidate hd.genuine [address]⟩
  | record pc t w =>
    exact ⟨hd.core.congr (RegisterFile.get_cop0_setTracked _ _ t _) rfl, hd.genuine⟩
  | system index w => exact hd.onCore (hd.core.writeSystem index w)
  | poke address bytes => exact hd.atCore (hd.core.poke address bytes)
  | invalidate address =>
    exact ⟨hd.core, Translations.Every.foldl_invalidate hd.genuine [address]⟩
  | resume => exact hd.onCore (hd.core.congr rfl rfl)
  | pass pc => exact .of_leads (hkeeps.pass hd.holds pc)
  | single pc => exact .of_leads (hkeeps.executeOne hd.holds pc)

/-- One thing that is done to a debugger: a reset onto memory itself, any other command that does not
change the processor from outside, or what the host does to the machine. -/
inductive Done : Debugger → Debugger → Prop where
  /-- The debugger is reset. -/
  | reset (pc : Word) (memory : Ram) (d : Debugger) : Done d (reset pc (.direct memory) d)
  /-- A command is served or refused. -/
  | command {d d' : Debugger} (command : Command) (hinner : command.Inner)
      (hperform : command.perform d = some d') : Done d d'
  /-- Something is done to the machine. -/
  | host {d d' : Debugger} (h : Machine.Host d d') : Done d d'

/-- Whatever is done keeps the isolation of memory. -/
theorem Done.isolates (h : Done d d') (hd : d.Isolating) : d'.Isolating := by
  cases h with
  | reset pc memory => exact isolating_reset pc memory d
  | command command hinner hperform =>
    exact (command.moves_of_perform hinner hperform).keeps Move.isolates hd
  | host h => exact h.isolates hd

/-- Whatever is done to a machine or to a debugger since a reset onto memory itself, memory is hidden
if and only if bit 16 of the status register is set. -/
theorem isIsolated_iff_testBit :
    (∀ (σ : Type) (m₀ m : Machine σ) (memory : Ram),
        ReflTransGen Machine.Host (m₀.reset (.direct memory)) m → m.core.HidesByBit) ∧
      ∀ (d₀ d : Debugger) (pc : Word) (memory : Ram),
        ReflTransGen Done (reset pc (.direct memory) d₀) d → d.core.HidesByBit := by
  constructor
  · intro σ m₀ m memory h
    -- The bit and the view change together, so what is kept is that they agree.
    have hm : m.Isolating := by
      induction h with
      | refl => exact Machine.isolating_reset memory m₀
      | tail _ hlast ih => exact hlast.isolates ih
    exact hm.core.hidesByBit
  · intro d₀ d pc memory h
    have hd : d.Isolating := by
      induction h with
      | refl => exact isolating_reset pc memory d₀
      | tail _ hlast ih => exact hlast.isolates ih
    exact hd.core.hidesByBit

end Debugger

namespace Hiding

open Debugger

/-- A program that isolates the cache: `lui $t0, 1`, `mtc0 $t0, sr`. -/
def image : Image := ⟨0, ⟨#[0x01, 0, 0x08, 0x3C, 0, 0x60, 0x88, 0x40]⟩, by decide⟩

/-- A bare machine and a debugger that have run the program. -/
def machine : Machine Unit :=
  endState (executeOne (.silent Unit) 4 (endState (executeOne (.silent Unit) 0 (powerOn image ()))))

def debugger : Debugger := endState (stepOver (endState (stepOver (atReset image))))

/-- Behind the program memory is hidden from the machine and from the debugger. -/
theorem isIsolated_hiding :
    (ReflTransGen Machine.Host (powerOn image ()) machine ∧
        ∃ v, machine.core.view? = some v ∧ v.isIsolated = true) ∧
      ReflTransGen Done (atReset image) debugger ∧
        ∃ v, debugger.core.view? = some v ∧ v.isIsolated = true := by
  have hmachine : ReflTransGen Machine.Host (powerOn image ()) machine :=
    .tail (.single (.executeOne _ Observer.sparesSystem_silent 0 _))
      (.executeOne _ Observer.sparesSystem_silent 4 _)
  have hdebugger : ReflTransGen Done (atReset image) debugger :=
    .tail (.single (.command .stepOver trivial rfl)) (.command .stepOver trivial rfl)
  have hbit : (machine.core.registers.get .status).toNat.testBit 16 = true := by
    unfold machine
    rw [powerOn_eq]
    decide +kernel
  have hbit' : (debugger.core.registers.get .status).toNat.testBit 16 = true := by
    unfold debugger
    rw [atReset_eq]
    decide +kernel
  obtain ⟨v, hv, hiff⟩ := isIsolated_iff_testBit.1 Unit _ machine _ hmachine
  obtain ⟨v', hv', hiff'⟩ := isIsolated_iff_testBit.2 _ debugger 0 _ hdebugger
  exact ⟨⟨hmachine, v, hv, hiff.mpr hbit⟩, hdebugger, v', hv', hiff'.mpr hbit'⟩

end Hiding

end Debug

end MipsMonitor
