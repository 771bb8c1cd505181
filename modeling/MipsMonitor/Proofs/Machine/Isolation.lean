import Mathlib.Logic.Relation
import MipsMonitor.Proofs.Machine.Keeping
import MipsMonitor.Proofs.Machine.Operands

/-!
# The isolated cache

Memory is hidden behind the cache exactly while a bit of the status register says so
(`Core.Isolates`). Every way to the status register goes through `Core.writeSystem`, which changes
the view on the edges of the bit (`Core.Isolates.writeSystem`); loads, stores and resets of the view
keep memory hidden or not, as it is. So instructions keep the two together
(`Core.keeps_isolates`), and so does whatever the host does without writing the registers itself
(`Machine.Host.isolates`).
-/

namespace MipsMonitor

open ByteMemory

/-- The cache is isolated if bit 16 is set. -/
theorem Status.isolateCache_iff (s : Status) :
    s.isolateCache = true ↔ s.raw.toNat.testBit 16 = true := by
  have hbit : (Word.bits s.raw 16 1).toNat = (s.raw.toNat >>> 16) % 2 :=
    Word.toNat_bits s.raw (by omega) (by omega)
  have hne : s.isolateCache = true ↔ Word.bits s.raw 16 1 ≠ 0 := bne_iff_ne
  rw [hne, ne_eq, ← UInt32.toNat_inj, hbit, Nat.testBit_eq_decide_div_mod_eq, decide_eq_true_iff,
    Nat.shiftRight_eq_div_pow]
  change ¬ s.raw.toNat / 2 ^ 16 % 2 = 0 ↔ _
  omega

namespace View

variable (v : View Ram)

/-- An isolated view is isolated. -/
theorem isIsolated_isolate : v.isolate.isIsolated = true := by cases v <;> rfl

/-- A view whose isolation was ended is not isolated. -/
theorem isIsolated_unisolate : v.unisolate.isIsolated = false := by cases v <;> rfl

/-- A new sink does not isolate a view. -/
theorem isIsolated_withSink (sink : Sink) : (withSink v sink).isIsolated = v.isIsolated := by
  cases v <;> rfl

/-- A reset does not isolate a view. -/
theorem isIsolated_reset : (ByteMemory.reset v).isIsolated = v.isIsolated := by cases v <;> rfl

/-- A write does not isolate a view. -/
theorem isIsolated_put (a : Word) (b : UInt8) : (put v a b).isIsolated = v.isIsolated := by
  cases v <;> rfl

/-- Writing bytes leaves memory hidden or not, as it is. -/
theorem isIsolated_writeBytes (a : Word) (bs : List UInt8) :
    Leads (fun v' => v'.isIsolated = v.isIsolated) (writeBytes a bs v) := by
  induction bs generalizing a v with
  | nil => exact rfl
  | cons b bs ih =>
    unfold writeBytes
    cases refusal? v a with
    | some e => exact rfl
    | none => exact (ih (put v a b) (a + 1)).mono fun _ h => h.trans (v.isIsolated_put a b)

end View

namespace Core

/-- Memory is attached, and it is hidden exactly while the status register isolates the cache. -/
def Isolates (c : Core) : Prop :=
  ∃ v, c.view? = some v ∧ v.isIsolated = c.registers.status.isolateCache

/-- The view changes with the bit. -/
theorem isIsolated_viewFor (sink : Sink) {old new : Status} {v : View Ram}
    (h : v.isIsolated = old.isolateCache) :
    (viewFor sink old new v).isIsolated = new.isolateCache := by
  unfold viewFor
  split
  · -- Off the edges of the bit the view stays as it is.
    next hsame => exact h.trans hsame
  · split
    · next hnew => exact ((v.isolate).isIsolated_withSink sink).trans (v.isIsolated_isolate.trans hnew.symm)
    · next hnew => exact v.isIsolated_unisolate.trans (Bool.not_eq_true _ ▸ hnew).symm

namespace Isolates

variable {c c' : Core}

/-- The tie between status and isolation depends on these two. -/
theorem congr (h : c.Isolates) (hstatus : c'.registers.get .status = c.registers.get .status)
    (hview : c'.view? = c.view?) : c'.Isolates := by
  obtain ⟨v, hv, hisolated⟩ := h
  refine ⟨v, hview.trans hv, hisolated.trans ?_⟩
  rw [RegisterFile.status, RegisterFile.status, hstatus]

/-- A write to a register for system control changes the view with the status register. -/
theorem writeSystem (h : c.Isolates) (index : Nat) (w : Word) : (c.writeSystem index w).Isolates := by
  obtain ⟨v, hv, hisolated⟩ := h
  unfold Core.writeSystem
  split
  · refine ⟨viewFor c.sink c.registers.status _ v, ?_, isIsolated_viewFor c.sink hisolated⟩
    simp only [report, registers_note, view?_note, sink_note, hv, Option.map_some]
  · exact ⟨v, (view?_note _ _).trans hv, by simpa only [report, registers_note] using hisolated⟩

/-- A write to memory keeps the tie. -/
theorem poke (h : c.Isolates) (a : Word) (bs : List UInt8) : Leads Isolates (c.poke a bs) := by
  obtain ⟨registers, view?, stopped, ticks, sink, written, log⟩ := c
  obtain ⟨v, rfl, hisolated⟩ := h
  have hbytes := v.isIsolated_writeBytes a bs
  simp only [Core.poke]
  cases hw : writeBytes a bs v with
  | ok u v' =>
    rw [hw] at hbytes
    refine ⟨v', view?_note _ _, ?_⟩
    rw [registers_note]
    exact Eq.trans hbytes hisolated
  | error e v' =>
    rw [hw] at hbytes
    refine ⟨v', view?_note _ _, ?_⟩
    rw [registers_note]
    exact Eq.trans hbytes hisolated

/-- A reset of the view keeps the tie. -/
theorem resetView (h : c.Isolates) : Leads Isolates c.resetView := by
  obtain ⟨registers, view?, stopped, ticks, sink, written, log⟩ := c
  obtain ⟨v, rfl, hisolated⟩ := h
  refine ⟨ByteMemory.reset v, view?_note _ _, ?_⟩
  rw [registers_note]
  exact v.isIsolated_reset.trans hisolated

end Isolates

/-- A reset onto memory itself leaves memory in sight, and the bit clear. -/
theorem isolates_reset (c : Core) (memory : Ram) : (c.reset (.direct memory)).Isolates := by
  have hclear : RegisterFile.atReset.status.isolateCache = false := by decide
  exact ⟨_, rfl, hclear.symm⟩

/-- Instructions keep the view and the status register together. -/
theorem keeps_isolates : Keeps Isolates where
  beside h hregisters hview _ := h.congr (congrArg (·.get .status) hregisters) hview
  registers h hf := h.congr (hf Register.status.index) rfl
  system index w h := h.writeSystem index w
  poke a bs h := h.poke a bs

end Core

/-- An observer that keeps silent writes no register. -/
theorem Observer.sparesSystem_silent {σ : Type} : (Observer.silent σ).SparesSystem :=
  fun _ f t w i _ => f.get_cop0_setTracked w t i

namespace Machine

variable {σ : Type}

/-- One thing that is done to a machine from outside. The host resets it onto memory itself, writes
registers for system control, reads, writes and resets memory through the view, and lets the machine
execute under observers that leave those registers alone. It may also do what concerns neither the
registers nor the memory. -/
inductive Host : Machine σ → Machine σ → Prop where
  /-- The machine is reset. -/
  | reset (memory : Ram) (m : Machine σ) : Host m (m.reset (.direct memory))
  /-- A register for system control is written, if there is one of that number. -/
  | system (index : Nat) (w : Word) (m : Machine σ) : Host m (m.onCore (Core.writeSystem · index w))
  /-- Memory is read. -/
  | peek (addresses : List Word) (m : Machine σ) :
      Host m (endState (atCore (Core.peek addresses) m))
  /-- Memory is written. -/
  | poke (address : Word) (bytes : List UInt8) (m : Machine σ) :
      Host m (endState (atCore (Core.poke address bytes) m))
  /-- The view is reset. -/
  | resetView (m : Machine σ) : Host m (endState (atCore Core.resetView m))
  /-- An instruction is read. -/
  | readInstruction (address : Word) (m : Machine σ) :
      Host m (endState (readInstruction address m))
  /-- The machine runs until a routine returns, as far as it is let to. -/
  | execute (observer : Observer σ) (ho : observer.SparesSystem) (fuel : Nat) (pc : Word)
      (m : Machine σ) : Host m (endState (execute observer fuel pc m))
  /-- The machine makes a single step. -/
  | executeOne (observer : Observer σ) (ho : observer.SparesSystem) (pc : Word) (m : Machine σ) :
      Host m (endState (executeOne observer pc m))
  /-- A stop is requested. -/
  | requestStop (m : Machine σ) : Host m (m.onCore Core.requestStop)
  /-- The clock goes on. -/
  | clock (ticks : Nat) (m : Machine σ) : Host m (m.onCore (Core.clock · ticks))
  /-- The machine is told where to report. -/
  | withSink (sink : Sink) (m : Machine σ) : Host m (m.onCore (Core.withSink · sink))
  /-- The log is cleared. -/
  | clearLog (m : Machine σ) : Host m (m.onCore Core.clearLog)
  /-- The context is changed. -/
  | context (f : σ → σ) (m : Machine σ) : Host m (m.onContext f)
  /-- Another injector is installed. -/
  | withInjector (injector? : Option (Injector σ)) (m : Machine σ) : Host m (m.withInjector injector?)
  /-- Translations of an address are dropped. -/
  | invalidate (address : Word) (m : Machine σ) : Host m (m.invalidate address)
  /-- All translations are dropped. -/
  | invalidateAll (m : Machine σ) : Host m m.invalidateAll

/-- A genuine machine whose view goes with the status register. -/
structure Isolating (m : Machine σ) : Prop where
  /-- The view goes with the status register. -/
  core : m.core.Isolates
  /-- The translations were made for the injector. -/
  genuine : m.Genuine

namespace Isolating

variable {m n : Machine σ}

/-- A machine is isolating behind what leads to the tie. -/
theorem of_leads {ε α : Type} {r : EStateM.Result ε (Machine σ) α}
    (h : Leads (Holds m.injector? fun g => g.core.Isolates) r) : (endState r).Isolating :=
  ⟨h.endState.guest, h.endState.genuine⟩

/-- An isolating machine has the tie, with genuine translations. -/
theorem holds (h : m.Isolating) : Holds m.injector? (fun g => g.core.Isolates) m :=
  ⟨h.core, h.genuine, rfl⟩

/-- A change of the core that keeps the tie leaves the machine isolating. -/
theorem onCore (h : m.Isolating) {f : Core → Core} (hf : (f m.core).Isolates) :
    (m.onCore f).Isolating := ⟨hf, h.genuine⟩

/-- What an action on the core keeps, the machine keeps. -/
theorem atCore {ε α : Type} {action : EStateM ε Core α} (h : m.Isolating)
    (haction : Leads Core.Isolates (action m.core)) :
    (endState (Machine.atCore action m)).Isolating := by
  obtain ⟨⟨core, context⟩, blocks, injector?⟩ := m
  obtain ⟨-, hgenuine⟩ := h
  have haction : Leads Core.Isolates (action core) := haction
  simp only [Machine.atCore]
  cases ha : action core with
  | ok a c =>
    rw [ha] at haction
    exact ⟨haction, hgenuine⟩
  | error e c =>
    rw [ha] at haction
    exact ⟨haction, hgenuine⟩

/-- Reading memory for the host adds to the log alone. -/
theorem readFrom {μ α : Type} [ByteMemory μ] (h : m.Isolating) (choose : View Ram → μ)
    (addresses : List Word) (spell : List UInt8 → α) :
    Leads Core.Isolates (Core.readFrom choose addresses spell m.core) := by
  have hcore := h.core
  have hnote (entries : List Entry) : (m.core.note entries).Isolates :=
    hcore.congr (congrArg (·.get .status) (Core.registers_note _ _)) (Core.view?_note _ _)
  unfold Core.readFrom
  cases m.core.view? with
  | none => exact hcore
  | some v =>
    simp only
    cases readBytes (choose v) addresses <;> exact hnote _

end Isolating

/-- A reset machine has memory in sight, and no translations. -/
theorem isolating_reset (memory : Ram) (m : Machine σ) : (m.reset (.direct memory)).Isolating :=
  ⟨m.core.isolates_reset memory, genuine_of_empty _ _⟩

/-- What the host does, executing instructions included, keeps the view with the status register. -/
theorem Host.isolates {m n : Machine σ} (h : Host m n) (hm : m.Isolating) : n.Isolating := by
  have hcore := hm.core
  -- A reset starts afresh, and a run keeps what its steps keep; the other calls change one part of
  -- the machine.
  cases h with
  | reset memory => exact ⟨m.core.isolates_reset memory, genuine_of_empty _ _⟩
  | system index w => exact hm.onCore (hcore.writeSystem index w)
  | peek addresses => exact hm.atCore (hm.readFrom id addresses id)
  | poke address bytes => exact hm.atCore (hcore.poke address bytes)
  | resetView => exact hm.atCore hcore.resetView
  | readInstruction address =>
    unfold Machine.readInstruction
    split
    · exact hm.atCore (hm.readFrom View.backing _ Word.ofBytes)
    · exact hm
  | execute observer ho fuel pc =>
    exact .of_leads ((Core.keeps_isolates.machine ho m.injector?).execute hm.holds fuel pc)
  | executeOne observer ho pc =>
    exact .of_leads ((Core.keeps_isolates.machine ho m.injector?).executeOne hm.holds pc)
  | requestStop => exact hm.onCore (hcore.congr rfl rfl)
  | clock ticks =>
    exact hm.onCore (hcore.congr (congrArg (·.get .status) (Core.registers_clock _ _))
      (Core.view?_clock _ _))
  | withSink sink =>
    obtain ⟨v, hv, hisolated⟩ := hcore
    refine hm.onCore ⟨ByteMemory.withSink v sink, ?_, (v.isIsolated_withSink sink).trans hisolated⟩
    exact congrArg (Option.map (ByteMemory.withSink · sink)) hv
  | clearLog => exact hm.onCore (hcore.congr rfl rfl)
  | context f => exact ⟨hcore, hm.genuine⟩
  | withInjector injector? => exact ⟨hcore, genuine_of_empty _ _⟩
  | invalidate address =>
    exact ⟨hcore, Translations.Every.foldl_invalidate hm.genuine [address]⟩
  | invalidateAll => exact ⟨hcore, genuine_of_empty _ _⟩

end Machine

end MipsMonitor
