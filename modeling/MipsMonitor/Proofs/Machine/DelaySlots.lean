import MipsMonitor.Proofs.Machine.SingleStepping
import MipsMonitor.Proofs.Machine.Keeping

/-!
# Delay slots

A block ends with the delay slot of the first instruction in it that may transfer control. So when
an instruction that is in no delay slot itself jumps (`Block.Jumps`), the step of its delay slot is
all that is left of the block (`Block.Jumps.slot`): it is executed once, behind the jump, and then
control goes where the jump says, or where the slot does if that jumps as well. It makes no difference
whether the block was cut short by its length, is a single step, or was translated long before
(`Machine.executes_slots`).

This takes a delay slot that can be fetched. Where memory ends behind the jump, the block ends with
the jump and control goes to its target, with no trace of the missing slot (`Edge.slot_is_skipped`).
-/

namespace MipsMonitor

variable {σ : Type}

/-- A word can be fetched from an address, whatever memory holds. -/
def Address.Fetchable (a : Word) : Prop := ∀ r : Ram, (r.fetched a).isSome = true

/-- Where a word can be fetched from one memory, it can be fetched from all. -/
theorem Address.fetchable_of_isSome {a : Word} {r : Ram} (h : (r.fetched a).isSome = true) :
    Fetchable a := fun r' => (r.isSome_fetched r' a).trans h

namespace Block

/-- Executing steps comes to a jump or a taken branch that is in no delay slot: all steps before it
complete, and none of them is a transfer of control. Given are also where it goes, how, the steps
behind it, and the guest that it leaves. -/
inductive Jumps (observer : Observer σ) :
    List Step → Guest σ → Step → Exit → List Step → Guest σ → Prop where
  /-- The first step jumps. -/
  | here {s : Step} {rest : List Step} {g g' : Guest σ} {target : Word} {transfer : Transfer}
      (hrun : s.run observer g = .ok (.jump target transfer) g') :
      Jumps observer (s :: rest) g s ⟨target, transfer⟩ rest g'
  /-- The first step is no transfer, and a later one jumps. -/
  | later {s t : Step} {steps rest : List Step} {g g' g'' : Guest σ} {flow : Flow} {exit : Exit}
      (hplain : s.operation.transfers = false) (hrun : s.run observer g = .ok flow g')
      (hjumps : Jumps observer steps g' t exit rest g'') : Jumps observer (s :: steps) g t exit rest g''

/-- A step that is left alone decides where control goes, or leaves it to the exit. -/
theorem runSteps_singleton (observer : Observer σ) (exit : Exit) (s : Step) :
    runSteps observer exit [s] = s.run observer >>= fun flow => pure (exit.after flow) := by
  funext g
  rw [runSteps_cons, bind_apply]
  cases s.run observer g <;> rfl

namespace Jumps

variable {observer : Observer σ} {steps rest : List Step} {s : Step} {g g' : Guest σ} {aim : Exit}

/-- The steps behind the jump go on from what it leaves, with its target as the exit. -/
theorem runSteps_eq (h : Jumps observer steps g s aim rest g') (exit : Exit) :
    runSteps observer exit steps g = runSteps observer aim rest g' := by
  induction h generalizing exit with
  | here hrun => rw [runSteps_cons, hrun]; rfl
  | @later s t steps rest g g' g'' flow aim hplain hrun _ ih =>
    rw [runSteps_cons, hrun]
    exact ih (exit.after flow)

variable {choose : Word → Option Instruction → List Action} {extent : Extent}

/-- Behind a jump among translated instructions stands its delay slot alone. -/
theorem slot {fetch : Word → Option Word} {room : Nat} {start w : Word}
    (h : Jumps observer ((instructionsFrom fetch room start).map (stepFor choose extent)) g s aim rest g')
    (hslot : fetch (s.address + Instruction.size) = some w) :
    rest = [stepFor choose extent (s.address + Instruction.size, Instruction.decode? w)] := by
  induction room generalizing start g with
  | zero => cases h
  | succ room ih =>
    cases hw : fetch start with
    | none =>
      rw [instructionsFrom_none hw] at h
      cases h
    | some word =>
      obtain ⟨tail, hbehind, heq⟩ := instructionsFrom_succ room hw
      rw [heq, List.map_cons] at h
      have htransfers := transfers_stepFor choose extent start (Instruction.decode? word)
      cases h with
      | here hrun =>
        -- What jumps has a delay slot, and that ends the block whatever room is left.
        have hdelay : (Instruction.decode? word).any Instruction.hasDelaySlot = true := by
          rw [← htransfers, ← Bool.not_eq_false]
          intro hplain
          cases Step.flow_of_run hplain hrun
        cases hbehind with
        | nothing hmissing => cases (hmissing hdelay).symm.trans hslot
        | more hplain => exact absurd (hplain.symm.trans hdelay) Bool.false_ne_true
        | slot _ hfetched =>
          obtain rfl := Option.some.inj (hfetched.symm.trans hslot)
          rfl
      | later hplain hrun hjumps =>
        have hdelay := htransfers.symm.trans hplain
        cases hbehind with
        | nothing => cases hjumps
        | slot hdelay' => exact absurd (hdelay.symm.trans hdelay') Bool.false_ne_true
        | more => exact ih hjumps

end Jumps

end Block

namespace Machine

variable {observer : Observer σ} {m n : Machine σ} {pc : Word}

/-! ## Translations that were made of something -/

/-- Every block that is kept was translated from some memory. -/
def Translated (m : Machine σ) : Prop :=
  ∀ (start : Word) (b : Block), m.blocks[start]? = some b →
    ∃ r choose, Block.translate r choose .block start = .ok b

/-- A machine without translations has only those that were made from memory. -/
theorem translated_of_empty (guest : Guest σ) (injector? : Option (Injector σ)) :
    (Machine.mk guest ∅ injector?).Translated := fun start b hb => by
  rw [Std.ExtTreeMap.getElem?_empty] at hb
  cases hb

/-- Fewer blocks were all translated. -/
theorem Translated.congr (h : m.Translated)
    (hblocks : ∀ (start : Word) (b : Block), n.blocks[start]? = some b →
      m.blocks[start]? = some b) : n.Translated := fun start b hb =>
  h start b (hblocks start b hb)

/-- The block that is looked up was translated, and so are those that are kept then. -/
theorem Translated.blockAt (h : m.Translated) {b : Block} (hok : blockAt pc m = .ok b n) :
    n.Translated ∧ ∃ r choose, Block.translate r choose .block pc = .ok b := by
  obtain ⟨hb, rfl⟩ | ⟨v, entries, -, htranslate, rfl⟩ := blockAt_eq_ok hok
  · exact ⟨h, h pc b hb⟩
  · refine ⟨fun start c hc => ?_, _, _, htranslate⟩
    obtain ⟨rfl, rfl⟩ | hc := Translations.of_getElem?_insert hc
    · exact ⟨_, _, htranslate⟩
    · exact h start c hc

/-- A block leaves only translations that were made from memory. -/
theorem Translated.runBlock (h : m.Translated) (b : Block) :
    Leads Translated (runBlock observer b m) :=
  leads_runBlock (Q := fun _ => True) (.of_endState trivial) fun _ _ =>
    h.congr fun _ _ hb => (Translations.getElem?_foldl_invalidate.mp hb).1

/-- A pass keeps blocks that were translated. -/
theorem Translated.pass (h : m.Translated) (pc : Word) : Leads Translated (pass observer pc m) := by
  refine leads_pass h (fun e n herror => ?_) fun b n hblock => (h.blockAt hblock).1.runBlock b
  obtain ⟨-, rfl | rfl⟩ := blockAt_eq_error herror <;> exact h.congr fun _ _ hb => hb

/-- Wherever a run gets to, the blocks that are kept were translated. -/
theorem Translated.visits (h : m.Translated) {m' : Machine σ} {pc' : Word} {depth : Nat}
    (hvisits : Visits observer m pc m' pc' depth) : m'.Translated := by
  induction hvisits with
  | start => exact h
  | pass _ hpass _ ih => exact (ih.pass _).of_ok hpass

/-- A run keeps blocks that were translated, however it ends. -/
theorem Translated.execute (h : m.Translated) (fuel : Nat) (pc : Word) :
    Leads Translated (execute observer fuel pc m) := by
  have hresumed : m.resumed.Translated := h.congr fun _ _ hb => hb
  rw [execute_eq]
  exact leads_invoke (fun pc h => h.pass pc) hresumed fuel pc 0

/-- A single step keeps blocks that were translated, as its own block is not kept. -/
theorem Translated.executeOne (h : m.Translated) (pc : Word) :
    Leads Translated (executeOne observer pc m) := by
  have htranslate : Leads Translated (translate .single pc m) :=
    leads_translate h (h.congr fun _ _ hb => hb) (fun _ => h.congr fun _ _ hb => hb) .single pc
  unfold Machine.executeOne
  refine Leads.bind htranslate (fun _ h => h) fun b n h => ?_
  exact Leads.bind (h.runBlock b) (fun _ h => h) fun _ _ h => h

/-! ## What follows a jump -/

/-- A block minds its delay slots: when it comes to a jump that is in no delay slot, and the word
behind the jump can be fetched, then the instruction of that word is all that is left of the block.
It is executed once, and the block ends as it does, at the target of the jump unless the slot jumps
itself. -/
def MindsSlots (observer : Observer σ) (r : Ram) (b : Block) (n : Machine σ) : Prop :=
  ∀ {s : Step} {aim : Exit} {rest : List Step} {g : Guest σ},
    Block.Jumps observer b.steps n.guest s aim rest g →
    Address.Fetchable (s.address + Instruction.size) →
    ∃ slot w, rest = [slot] ∧ slot.address = s.address + Instruction.size ∧
      r.fetched slot.address = some w ∧
      slot.operation = .ofInstruction? (Instruction.decode? w) slot.address ∧
      Alike (fun g' n' => g'.Like (· = ·) n'.guest)
        ((slot.run observer >>= fun flow => pure (aim.after flow)) g) (runBlock observer b n)

/-- A translation minds its delay slots. -/
theorem mindsSlots_of_translate {r : Ram} {choose : Word → Option Instruction → List Action}
    {extent : Extent} {b : Block} (hb : Block.translate r choose extent pc = .ok b) (n : Machine σ) :
    n.MindsSlots observer r b := by
  intro s aim rest g hjumps hfetchable
  obtain ⟨-, -, rfl⟩ := Block.translate_eq_ok.mp hb
  obtain ⟨w, hw⟩ := Option.isSome_iff_exists.mp (hfetchable r)
  have hrest := hjumps.slot hw
  refine ⟨_, w, hrest, rfl, hw, rfl, ?_⟩
  -- The block ends as the slot does, behind which nothing is left.
  have hrun : Block.run observer ⟨pc, _⟩ n.guest = _ := hjumps.runSteps_eq ⟨_, .plain⟩
  have hblock := run_alike_runBlock observer
    ⟨pc, (Block.instructionsFrom r.fetched extent.room pc).map (Block.stepFor choose extent)⟩ n
  rwa [hrun, hrest, Block.runSteps_singleton] at hblock

/-- A jump or a taken branch that is in no delay slot takes its delay slot along, if that can be
fetched: in every block that a run executes, and in every single step, from every machine whose
blocks were translated. The block that a run looks up is a translation of some memory, and if it is
one of the memory at hand, then the slot is the word that stands there. -/
theorem executes_slots (observer : Observer σ) (hm : m.Translated) (pc : Word) :
    (∀ m' pc' depth, Visits observer m.resumed pc m' pc' depth → m'.core.stopped = false →
        ∀ b n, blockAt pc' m' = .ok b n → pass observer pc' m' = runBlock observer b n ∧
          (∃ r choose, Block.translate r choose .block pc' = .ok b) ∧
          ∀ r choose, Block.translate r choose .block pc' = .ok b → n.MindsSlots observer r b) ∧
      ∀ v b n, m.core.view? = some v → translate .single pc m = .ok b n →
        executeOne observer pc m = (runBlock observer b >>= fun exit => pure exit.target) n ∧
          n.MindsSlots observer v.backing b := by
  constructor
  · intro m' pc' depth hvisits hstopped b n hblock
    -- Visits keep translations that were made from memory, so this block was made so too.
    have hresumed : m.resumed.Translated := hm.congr fun _ _ hb => hb
    exact ⟨pass_of_blockAt hstopped hblock, ((hresumed.visits hvisits).blockAt hblock).2,
      fun r choose htranslate => mindsSlots_of_translate htranslate n⟩
  · intro v b n hv htranslate
    have hone : executeOne observer pc m = _ := executeOne_of_ok htranslate
    obtain ⟨v', entries, hv', hb, rfl⟩ := translate_eq_ok htranslate
    obtain rfl := Option.some.inj (hv.symm.trans hv')
    exact ⟨hone, mindsSlots_of_translate hb _⟩

end Machine

namespace Turning

/-- Four instructions: `j 0x0c`, `addiu $t0, $zero, 1`, `nop`, `syscall`. -/
def image : Image :=
  ⟨0, ⟨#[0x03, 0, 0, 0x08, 0x01, 0, 0x08, 0x24, 0, 0, 0, 0, 0x0C, 0, 0, 0]⟩, by decide⟩

/-- A machine at power-on with the four instructions at address zero. -/
def machine : Machine Unit := .powerOn image ()

/-- Whether the first step of the block at an address stands there and jumps to a target. -/
def jumpsTo (target pc : Word) (m : Machine Unit) : Bool :=
  match Machine.blockAt pc m with
  | .ok b n => b.steps.head?.any fun s =>
    s.address == pc && (answer? (s.run (.silent Unit) n.guest)).any (· == .jump target .plain)
  | .error _ _ => false

/-- A computed jump shows a block that jumps with its first step. -/
theorem of_jumpsTo {target pc : Word} {m : Machine Unit} (h : jumpsTo target pc m = true) :
    ∃ b n s rest g, Machine.blockAt pc m = .ok b n ∧ s.address = pc ∧
      Block.Jumps (.silent Unit) b.steps n.guest s ⟨target, .plain⟩ rest g := by
  unfold jumpsTo at h
  split at h
  · next b n hblock =>
    obtain ⟨s, hs, hfirst⟩ := (Option.any_eq_true _ _).mp h
    obtain ⟨rest, hsteps⟩ := List.head?_eq_some_iff.mp hs
    obtain ⟨haddress, hflow⟩ := Bool.and_eq_true_iff.mp hfirst
    obtain ⟨flow, hrun, heq⟩ := (Option.any_eq_true _ _).mp hflow
    obtain rfl := eq_of_beq heq
    have hjumps : Block.Jumps (.silent Unit) (s :: rest) n.guest s ⟨target, .plain⟩ rest _ :=
      .here (eq_of_answer? hrun)
    exact ⟨b, n, s, rest, _, hblock, eq_of_beq haddress, hsteps ▸ hjumps⟩
  · cases h

/-- A run that begins with a jump executes the instruction behind it, and then goes on at the
target. -/
theorem executes_slot : ∃ b n s rest g, Machine.blockAt 0 machine.resumed = .ok b n ∧
    Block.Jumps (.silent Unit) b.steps n.guest s ⟨0x0C, .plain⟩ rest g ∧
    ∃ slot, rest = [slot] ∧ slot.address = 4 ∧ Alike (fun g' n' => g'.Like (· = ·) n'.guest)
      ((slot.run (.silent Unit) >>= fun flow => pure (Exit.after ⟨0x0C, .plain⟩ flow)) g)
      (Machine.pass (.silent Unit) 0 machine.resumed) := by
  have hjump : jumpsTo 0x0C 0 machine.resumed = true := by
    unfold machine
    rw [Machine.powerOn_eq]
    decide +kernel
  have hfetchable : Address.Fetchable (0 + Instruction.size) :=
    Address.fetchable_of_isSome (r := .withImage image) (by decide +kernel)
  have htranslated : machine.Translated := Machine.translated_of_empty _ _
  -- The general theorem finds the slot in the block, and compares it with the rest of the pass.
  obtain ⟨b, n, s, rest, g, hblock, haddress, hjumps⟩ := of_jumpsTo hjump
  obtain ⟨hpass, ⟨r, choose, htranslate⟩, hminds⟩ :=
    (Machine.executes_slots (.silent Unit) htranslated 0).1 _ 0 0 .start rfl b n hblock
  obtain ⟨slot, w, hrest, hslot, -, -, halike⟩ :=
    hminds r choose htranslate hjumps (haddress ▸ hfetchable)
  refine ⟨b, n, s, rest, g, hblock, hjumps, slot, hrest, ?_, ?_⟩
  · rw [hslot, haddress]
    rfl
  · rw [hpass]
    exact halike

end Turning

namespace Edge

/-- One instruction: `syscall`. -/
def image : Image := ⟨0, ⟨#[0x0C, 0, 0, 0]⟩, by decide⟩

/-- A machine with `jr $zero` in the last word of the scratchpad, behind which nothing is mapped. -/
def machine : Machine Unit :=
  endState (Machine.atCore (Core.poke 0x1F8003FC [0x08, 0, 0, 0]) (.powerOn image ()))

/-- Nothing can be fetched behind the jump, but control goes to its target, and the first exception is
that of the instruction there. -/
theorem slot_is_skipped :
    (∀ r : Ram, r.fetched 0x1F800400 = none) ∧
      answer? (machine.executeOne (.silent Unit) 0x1F8003FC) = some 0 ∧
      ∃ n, machine.execute (.silent Unit) 2 0x1F8003FC =
        .error (.trap (.architectural .syscall 0)) n := by
  refine ⟨fun r => ?_, ?_, ?_⟩
  · -- What can be fetched depends on the address alone, so one memory decides.
    have hblank : (Ram.blank.fetched 0x1F800400).isSome = false := by decide +kernel
    rw [← Option.not_isSome_iff_eq_none, Ram.isSome_fetched .blank r, hblank]
    exact Bool.false_ne_true
  · unfold machine
    rw [Machine.powerOn_eq]
    decide +kernel
  · -- The block was left without a fault, and the syscall is that of the target.
    have hrun : (match machine.execute (.silent Unit) 2 0x1F8003FC with
        | .ok _ _ => false
        | .error e _ => e == .trap (.architectural .syscall 0)) = true := by
      unfold machine
      rw [Machine.powerOn_eq]
      decide +kernel
    split at hrun
    · cases hrun
    · next e n hexecute => exact ⟨n, eq_of_beq hrun ▸ hexecute⟩

end Edge

end MipsMonitor
