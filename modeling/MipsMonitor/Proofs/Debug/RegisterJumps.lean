import MipsMonitor.Proofs.Debug.SteppingInto
import MipsMonitor.Proofs.Machine.DelaySlots

/-!
# Jumps to registers

A step over a jump to a register does not leave the jump to the machine: the debugger reads the
register itself, lets the machine execute the delay slot alone, and moves on. The machine would go
through the jump and its slot in one translation. As the jump changes neither registers nor memory,
the slot does the same either way (`Debugger.executeOne_slot`), so both come to the same registers,
memory and program counter (`Debugger.stepOver_matches`), whatever the injector asks for.

The two differ where the debugger reads what the machine does not: a host can store a word for the
register that is always zero, and the debugger jumps there. And where nothing can be fetched behind
the jump, the machine jumps without a slot, while the debugger reports that there is none
(`Bouncing.stepOver_departs`).
-/

namespace MipsMonitor.Debug

open Machine

/-- Any two sessions. -/
abbrev anyhow : Session → Session → Prop := fun _ _ => True

namespace Session

variable {g g' : Guest Session}

/-- What is written to a register does not depend on the session. -/
theorem writesAlike_anyhow : observer.WritesAlike (fun _ _ => True) anyhow :=
  Observer.writesAlike_of_registers fun _ _ _ _ _ _ => ⟨trivial, rfl⟩

/-- Steps that look at no breakpoint do the same if they ask for the same operation. -/
theorem alike_run_unchecked (h : g.Like anyhow g') {s s' : Step} (haddress : s.address = s'.address)
    (hoperation : s.operation = s'.operation) (hs : .check ∉ s.actions) (hs' : .check ∉ s'.actions) :
    Alike (Guest.Like anyhow) (s.run observer g) (s'.run observer g') := by
  obtain ⟨g₁, hacts, hlike⟩ := actAll_unchecked g s.address hs
  obtain ⟨g₁', hacts', hlike'⟩ := actAll_unchecked g' s'.address hs'
  have hbehind : g₁.Like anyhow g₁' :=
    (hlike.trans h fun _ _ _ _ _ => trivial).trans (hlike'.symm fun _ _ _ => trivial)
      fun _ _ _ _ _ => trivial
  unfold Step.run
  rw [bind_apply, bind_apply, hacts, hacts', haddress, hoperation]
  exact Guest.alike_perform Aside.kept_true writesAlike_anyhow hbehind _ _

end Session

namespace Debugger

variable {d d' : Debugger}

/-- A jump to a register goes where the register says, and leaves registers and memory alone. -/
theorem run_jumpsToRegister {i : Instruction} (hjr : i.mnemonic = .jr)
    (choose : Word → Option Instruction → List Action) (a : Word) (g : Guest Session) :
    ∃ transfer g', (Block.stepFor choose .single (a, some i)).run Session.observer g =
        .ok (.jump (g.core.registers.value (.ofGpr (i.gpr .source))) transfer) g' ∧
      g'.Like anyhow g := by
  have hop : i.operation a = .jumpRegister (i.gpr .source) := by
    obtain ⟨m, raw⟩ := i
    cases hjr
    rfl
  obtain ⟨g₁, hacts, hlike⟩ :=
    Session.actAll_unchecked g a (check_notMem_single choose (a, some i))
  -- The jump reads its register once, behind the actions, which leave registers alone.
  obtain ⟨transfer, entries, hperform⟩ := perform_jumpRegister (i.gpr .source) a g₁
  refine ⟨transfer, ⟨g₁.core.note entries, g₁.context⟩, ?_, hlike.core.note entries [], trivial⟩
  rw [← hop, hlike.core.registers] at hperform
  have hrun : Step.run Session.observer
      ⟨a, (Block.stepFor choose .single (a, some i)).actions, i.operation a⟩ g =
        g₁.perform Session.observer a (i.operation a) := by
    unfold Step.run
    rw [bind_apply, hacts]
  exact hrun.trans hperform

/-- A single step executes the instructions that belong to it. -/
theorem runSteps_alike_executeOne {v : View Ram} (hv : d.core.view? = some v) {a w : Word}
    (haligned : a.toNat % 4 = 0) (hw : v.backing.fetched a = some w)
    {is : List (Word × Option Instruction)} (his : Block.instructionsFrom v.backing.fetched 1 a = is) :
    ∃ stop entries, Alike (fun g (n : Debugger) => g.Like (· = ·) n.guest)
      ((Block.runSteps Session.observer ⟨stop, .plain⟩ (is.map (Block.stepFor d.choose .single)) >>=
        fun exit => pure exit.target) ⟨d.core.note entries, d.context⟩)
      (executeOne Session.observer a d) := by
  let b : Block := ⟨a, is.map (Block.stepFor d.choose .single)⟩
  have htranslate : Block.translate v.backing d.choose .single a = .ok b :=
    Block.translate_eq_ok.mpr ⟨haligned, Option.isSome_of_eq_some hw, by subst his; rfl⟩
  obtain ⟨entries, hone⟩ : ∃ entries, executeOne Session.observer a d = _ :=
    executeOne_of_translate hv htranslate
  refine ⟨b.stop, entries, ?_⟩
  rw [hone]
  exact Alike.bind_pure (run_alike_runBlock Session.observer b (d.onCore (Core.note · entries)))
    Exit.target

/-- Behind a step that transfers no control, control goes where the exit says. -/
theorem runSteps_plain {s : Step} (hplain : s.operation.transfers = false) (exit : Exit)
    (g : Guest Session) :
    (Block.runSteps Session.observer exit [s] >>= fun exit => pure exit.target) g =
      match s.run Session.observer g with
      | .ok _ g' => .ok exit.target g'
      | .error e g' => .error e g' := by
  rw [bind_apply, Block.runSteps_cons]
  cases hrun : s.run Session.observer g with
  | ok flow g' =>
    obtain rfl := Step.flow_of_run hplain hrun
    rfl
  | error e g' => rfl

/-- There is a jump to a register at an address, and behind it a delay slot that can be fetched and
transfers no control itself. -/
structure JumpsAt (a : Word) (i : Instruction) (v : View Ram) : Prop where
  /-- The address is that of an instruction. -/
  aligned : a.toNat % 4 = 0
  /-- The instruction is what the word there encodes. -/
  decoded : ∃ w, v.backing.fetched a = some w ∧ Instruction.decode? w = some i
  /-- It is a jump to a register. -/
  jr : i.mnemonic = .jr
  /-- The word behind it can be fetched, and is no transfer of control. -/
  slot : ∃ w, v.backing.fetched (a + Instruction.size) = some w ∧
    (Instruction.decode? w).any Instruction.hasDelaySlot = false

/-- A translation of the jump takes the delay slot along, which is translated alone as well. -/
theorem JumpsAt.exists_slot {a : Word} {i : Instruction} {v : View Ram} (h : JumpsAt a i v) :
    ∃ i?, Option.any Instruction.hasDelaySlot i? = false ∧
      Block.instructionsFrom v.backing.fetched 1 (a + Instruction.size) = [(a + Instruction.size, i?)] ∧
      Block.instructionsFrom v.backing.fetched 1 a = [(a, some i), (a + Instruction.size, i?)] := by
  obtain ⟨-, ⟨w, hw, hi⟩, hjr, w', hw', hplain⟩ := h
  have hdelay : (Instruction.decode? w).any Instruction.hasDelaySlot = true := by
    rw [hi]
    exact hasDelaySlot_of_jr hjr
  refine ⟨Instruction.decode? w', hplain, ?_, ?_⟩
  · rw [Block.instructionsFrom_one hw', hplain]
    rfl
  · rw [Block.instructionsFrom_one hw, hdelay, hw', hi]
    rfl

/-- The delay slot of a jump to a register does the same on its own and behind the jump, and the jump
goes where the register says. -/
theorem executeOne_slot (h : d.guest.Like anyhow d'.guest) {v : View Ram} (hv : d'.core.view? = some v)
    {a : Word} {i : Instruction} (hjump : JumpsAt a i v) :
    Alike (fun m n : Debugger => m.guest.Like anyhow n.guest)
      ((executeOne Session.observer (a + Instruction.size) >>= fun _ =>
        pure (d'.core.registers.value (.ofGpr (i.gpr .source)))) d)
      (executeOne Session.observer a d') := by
  obtain ⟨i?, hplain, hslot, hboth⟩ := hjump.exists_slot
  obtain ⟨haligned, ⟨w, hw, -⟩, hjr, w', hw', -⟩ := hjump
  obtain ⟨stop, entries, hslot⟩ := runSteps_alike_executeOne (h.core.view?.trans hv)
    (Block.toNat_add_size a haligned) hw' hslot
  obtain ⟨stop', entries', hboth⟩ := runSteps_alike_executeOne hv haligned hw hboth
  -- The jump comes first, and its target is the exit that the slot is executed with.
  obtain ⟨transfer, g, hrun, hlike⟩ := run_jumpsToRegister hjr d'.choose a
    ⟨d'.core.note entries', d'.context⟩
  have htransfers (choose : Word → Option Instruction → List Action) :
      (Block.stepFor choose .single (a + Instruction.size, i?)).operation.transfers = false :=
    (Block.transfers_stepFor choose .single (a + Instruction.size) i?).trans hplain
  rw [List.map_cons, Block.runSteps_cons_bind, hrun, Core.registers_note] at hboth
  simp only [List.map_singleton, runSteps_plain (htransfers _)] at hslot hboth
  have hnoted : Guest.Like anyhow ⟨d.core.note entries, d.context⟩ ⟨d'.core.note entries', d'.context⟩ :=
    ⟨h.core.note entries entries', trivial⟩
  have hstart : Guest.Like anyhow ⟨d.core.note entries, d.context⟩ g :=
    Guest.Like.trans hnoted (hlike.symm fun _ _ _ => trivial) fun _ _ _ _ _ => trivial
  -- What the slot does depends on neither the actions nor the session.
  have hsteps : Alike (Guest.Like anyhow)
      ((Block.stepFor d.choose .single (a + Instruction.size, i?)).run _ _)
      ((Block.stepFor d'.choose .single (a + Instruction.size, i?)).run _ _) :=
    Session.alike_run_unchecked hstart rfl rfl (check_notMem_single _ _) (check_notMem_single _ _)
  have hjoin {g g' : Guest Session} {n n' : Debugger} (h : g.Like anyhow g')
      (hn : g.Like (· = ·) n.guest) (hn' : g'.Like (· = ·) n'.guest) : n.guest.Like anyhow n'.guest :=
    ((hn.symm fun _ _ h => h.symm).trans h fun _ _ _ _ _ => trivial).trans hn' fun _ _ _ _ _ => trivial
  obtain ⟨flow, g₁, g₁', hfirst, hsecond, hends⟩ | ⟨e, g₁, g₁', hfirst, hsecond, hends⟩ :=
    hsteps.exists_eq
  · rw [hfirst] at hslot
    rw [hsecond] at hboth
    obtain ⟨n, hone, hn⟩ := (hslot.symm fun _ _ h => h).of_ok
    obtain ⟨n', hone', hn'⟩ := (hboth.symm fun _ _ h => h).of_ok
    rw [bind_apply, hone, hone']
    exact .ok _ (hjoin hends hn hn')
  · rw [hfirst] at hslot
    rw [hsecond] at hboth
    obtain ⟨n, hone, hn⟩ := (hslot.symm fun _ _ h => h).of_error
    obtain ⟨n', hone', hn'⟩ := (hboth.symm fun _ _ h => h).of_error
    rw [bind_apply, hone, hone']
    exact .error e (hjoin hends hn hn')

/-- Two debuggers stand at the same address, with the same registers and the same memory. -/
structure Matches (d d' : Debugger) : Prop where
  /-- They stand at the same address. -/
  pc : Debugger.pc d = Debugger.pc d'
  /-- The registers hold the same. -/
  registers : d.core.registers = d'.core.registers
  /-- The memories and caches hold the same. -/
  view? : d.core.view? = d'.core.view?

/-- What is left when the machine executes the instruction at the program counter: control goes on
where the instruction says, or stays at the one that could not be executed. -/
def executedOne (d : Debugger) : Debugger :=
  match executeOne Session.observer (Debugger.pc d) d with
  | .ok target d' => moveTo target d'
  | .error e d' => moveTo e.pc d'

/-- A step over a jump to a register leaves the registers, the memory and the program counter that the
machine leaves, which goes through the jump itself, if a delay slot can be fetched that transfers no
control, and the register that is always zero holds zero where the jump goes through it. Nothing but a
trap keeps the machine from it. -/
theorem stepOver_matches {v : View Ram} (hv : d.core.view? = some v) {i : Instruction}
    (hjump : JumpsAt (Debugger.pc d) i v)
    (hzero : Tracked.ofGpr (i.gpr .source) = .zero → d.core.registers.tracked .zero = 0) :
    (∃ d', stepOver d = .ok () d' ∧ d'.Matches (executedOne d)) ∧
      Fails (fun e _ => ∃ t, e = .trap t) (executeOne Session.observer (Debugger.pc d) d) := by
  have hcurrent : current? d = some i := by
    obtain ⟨w, hw, hi⟩ := hjump.decoded
    obtain ⟨entries, heq⟩ := currentInstruction_eq hv hjump.aligned hw
    rw [current?, heq, hi]
    rfl
  have hlooked : (looked d).guest.Like anyhow d.guest := by
    obtain ⟨entries, heq⟩ := looked_eq d
    have hself := Core.Agree.refl d.core
    rw [heq]
    exact ⟨hself.note entries [], trivial⟩
  have halike := executeOne_slot hlooked hv hjump
  refine ⟨?_, traps_executeOne _ d⟩
  -- The debugger takes the target from the register file, and the machine takes the value that an
  -- instruction reads. They differ in the register that is always zero alone.
  have htarget : (looked d).core.registers.tracked (.ofGpr (i.gpr .source)) =
      d.core.registers.value (.ofGpr (i.gpr .source)) := by
    rw [registers_looked, RegisterFile.value]
    split
    · next hsource => rw [hsource, hzero hsource]
    · rfl
  rw [stepOver_served (Option.isSome_of_eq_some hv), hcurrent, Option.filter_some,
    if_pos (beq_iff_eq.mpr hjump.jr)]
  simp only [htarget]
  unfold executeThen executedOne
  rw [bind_apply] at halike
  cases hone : executeOne Session.observer (Debugger.pc d + Instruction.size) (looked d) with
  | ok _ d₁ =>
    rw [hone] at halike
    obtain ⟨d₂, hmachine, hlike⟩ := (halike.symm fun _ _ h => h).of_ok
    obtain ⟨notices, listeners, events, heq⟩ :=
      jumpTo_eq i (d.core.registers.value (.ofGpr (i.gpr .source))) d₁
    have hheeded := hlike.core.heed_heed notices []
    refine ⟨jumpTo i (d.core.registers.value (.ofGpr (i.gpr .source))) d₁, rfl, ?_⟩
    rw [hmachine, heq]
    exact ⟨(pc_moveTo _ d₁).trans (pc_moveTo _ d₂).symm, hheeded.registers, hheeded.view?⟩
  | error e d₁ =>
    rw [hone] at halike
    obtain ⟨d₂, hmachine, hlike⟩ := (halike.symm fun _ _ h => h).of_error
    have hstand := like_halt e d₁
    refine ⟨_, rfl, ?_⟩
    rw [hmachine]
    exact ⟨(pc_halt e d₁).trans (pc_moveTo e.pc d₂).symm,
      hstand.core.registers.trans hlike.core.registers, hstand.core.view?.trans hlike.core.view?⟩

end Debugger

namespace Bouncing

open Debugger

/-- Two instructions: `jr $zero`, `addiu $t0, $t0, 7`. -/
def image : Image := ⟨0, ⟨#[0x08, 0, 0, 0, 0x07, 0, 0x08, 0x25]⟩, by decide⟩

/-- A step over the jump does what the machine does, which goes through it. -/
theorem matches_bouncing :
    ∃ d', stepOver (atReset image) = .ok () d' ∧ d'.Matches (executedOne (atReset image)) := by
  have hview : (atReset image).core.view?.map (fun v =>
      (v.backing.fetched (Debugger.pc (atReset image)),
        v.backing.fetched (Debugger.pc (atReset image) + Instruction.size))) =
      some (some 0x00000008, some 0x25080007) := by
    rw [atReset_eq]
    decide +kernel
  obtain ⟨v, hv, hwords⟩ := Option.map_eq_some_iff.mp hview
  obtain ⟨hw, hw'⟩ := Prod.mk.inj hwords
  have haligned : (Debugger.pc (atReset image)).toNat % 4 = 0 := by
    rw [atReset_eq]
    decide +kernel
  have hzero : (atReset image).core.registers.tracked .zero = 0 := by
    rw [atReset_eq]
    decide +kernel
  exact (stepOver_matches hv (i := ⟨.jr, 0x00000008⟩)
    ⟨haligned, ⟨_, hw, by decide⟩, rfl, ⟨_, hw', by decide⟩⟩ fun _ => hzero).1

/-- A debugger in which a host has stored a word for the register that is always zero. -/
def stored : Debugger :=
  (atReset image).onCore fun c => { c with registers := c.registers.setTracked .zero 0x40 }

/-- A debugger at a `jr $zero` in the last word of the scratchpad, behind which nothing is mapped. -/
def edge : Debugger :=
  moveTo 0x1F8003FC (endState (writeMemory 0x1F8003FC [0x08, 0, 0, 0] (atReset image)))

/-- Through the register that is always zero the step jumps to the word that was stored for it, and the
machine to zero. And where there is no delay slot, the step stands behind the jump because of an
exception there, and the machine has jumped. -/
theorem stepOver_departs :
    (current? stored = some ⟨.jr, 0x00000008⟩ ∧ behind? stored = some ⟨.addiu, 0x25080007⟩ ∧
      Debugger.pc (endState (stepOver stored)) = 0x40 ∧ Debugger.pc (executedOne stored) = 0 ∧
      ¬ (endState (stepOver stored)).Matches (executedOne stored)) ∧
    (current? edge = some ⟨.jr, 0x00000008⟩ ∧ behind? edge = none ∧
      Debugger.pc (endState (stepOver edge)) = 0x1F800400 ∧ Debugger.pc (executedOne edge) = 0 ∧
      ¬ (endState (stepOver edge)).Matches (executedOne edge)) := by
  have hstored : current? stored = some ⟨.jr, 0x00000008⟩ ∧
      behind? stored = some ⟨.addiu, 0x25080007⟩ ∧
      Debugger.pc (endState (stepOver stored)) = 0x40 ∧ Debugger.pc (executedOne stored) = 0 := by
    unfold stored
    rw [atReset_eq]
    decide +kernel
  have hedge : current? edge = some ⟨.jr, 0x00000008⟩ ∧ behind? edge = none ∧
      Debugger.pc (endState (stepOver edge)) = 0x1F800400 ∧ Debugger.pc (executedOne edge) = 0 := by
    unfold edge
    rw [atReset_eq]
    decide +kernel
  -- The program counter alone tells the debuggers apart.
  have hdepart {d d' : Debugger} (h : Debugger.pc d ≠ Debugger.pc d') : ¬ d.Matches d' :=
    fun hmatches => h hmatches.pc
  obtain ⟨hcurrent, hbehind, hpc, hpc'⟩ := hstored
  obtain ⟨hcurrent₁, hbehind₁, hpc₁, hpc₁'⟩ := hedge
  refine ⟨⟨hcurrent, hbehind, hpc, hpc', hdepart ?_⟩, hcurrent₁, hbehind₁, hpc₁, hpc₁', hdepart ?_⟩
  · rw [hpc, hpc']
    decide
  · rw [hpc₁, hpc₁']
    decide

end Bouncing

end MipsMonitor.Debug
