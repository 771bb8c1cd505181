import MipsMonitor.Proofs.Debug.CallStack
import MipsMonitor.Proofs.Machine.Operands

/-!
# Two ways into a routine

A step over a call enters the routine as the program does: the return address is left, and then the
delay slot is executed. A step into the call executes the delay slot first. An instruction that
neither reads nor writes the register of the return address does the same before it is left and
behind that (`Session.perform_linked`), so with such an instruction in the delay slot the two steps
show the same (`Debugger.stepInto_shows_stepOver`).
-/

namespace MipsMonitor.Debug

open Machine

/-- No address. -/
abbrev nowhere : Word → Prop := fun _ => False

/-- Agreement at one place is transitive. -/
theorem Session.AgreeHere.trans {P : Word → Prop} {s s' s'' : Session} (h : s.AgreeHere P s')
    (h' : s'.AgreeHere P s'') : s.AgreeHere P s'' :=
  ⟨h.toAgree.trans h'.toAgree, h.pc.trans h'.pc⟩

/-- The guest once an instruction at an address has left a word in a watched register. -/
def linked (a : Word) (t : Tracked) (w : Word) (g : Guest Session) : Guest Session :=
  ⟨{ g.core with registers := g.core.registers.setTracked t w },
    (g.context.recordAt a g.core.registers t w).1⟩

namespace Session

variable {g g' : Guest Session} {op : Operation} {t : Tracked} {a w : Word}

/-- What an instruction reads elsewhere is read alike before and behind a link. -/
theorem noteReads_linked (h : t ∉ op.sources) (a w : Word) (g : Guest Session) :
    (linked a t w g).noteReads op = linked a t w (g.noteReads op) := by
  have hview : (linked a t w g).core.view? = g.core.view? := rfl
  unfold Guest.noteReads
  rw [hview]
  cases g.core.view? with
  | none => rfl
  | some v =>
    simp only [linked, Operation.span_setTracked h]
    split
    · rfl
    · unfold Core.note
      split <;> rfl

/-- Writes to other registers are the same before a word is left and behind that. -/
theorem writes_linked {writes : List (Tracked × Word)} (h : ∀ tw ∈ writes, tw.1 ≠ t) (a w : Word)
    (g : Guest Session) :
    writes.foldl (fun g (s, v) => g.write observer s v) (linked a t w g) =
      linked a t w (writes.foldl (fun g (s, v) => g.write observer s v) g) := by
  induction writes generalizing g with
  | nil => rfl
  | cons sv writes ih =>
    obtain ⟨s, v⟩ := sv
    obtain ⟨hs, hrest⟩ := List.forall_mem_cons.mp h
    have hwrite : (linked a t w g).write observer s v = linked a t w (g.write observer s v) := by
      -- Writings to different slots commute, in the file and in the record.
      unfold Guest.write
      by_cases hzero : s = .zero
      · rw [if_pos hzero, if_pos hzero]
      · rw [if_neg hzero, if_neg hzero]
        obtain ⟨core, session⟩ := g
        simp only [linked, observer, recordAt, List.foldl_nil]
        rw [core.registers.setTracked_comm _ _ (Ne.symm hs),
          Vector.set_comm _ _ fun hval => hs (Fin.ext hval.symm)]
    simp only [List.foldl_cons, hwrite]
    exact ih hrest _

/-- A register for system control may be written before or behind another one. -/
theorem writeSystem_setTracked (c : Core) (t : Tracked) (w : Word) (index : Nat) (v : Word) :
    Core.writeSystem { c with registers := c.registers.setTracked t w } index v =
      { c.writeSystem index v with
        registers := (c.writeSystem index v).registers.setTracked t w } := by
  unfold Core.writeSystem
  split
  · next hindex =>
    have hslot : Register.slot ⟨.cop0, ⟨index, hindex⟩⟩ ≠ t.slot :=
      Register.slot_ne_of_bank Bank.ofCoprocessor_cop0 t
    simp only [c.registers.set_setTracked_comm v w hslot, Core.report, Core.registers_note,
      Core.view?_note, Core.sink_note, RegisterFile.status_setTracked]
    unfold Core.note
    split <;> rfl
  · unfold Core.report Core.note
    split <;> rfl

/-- A change elsewhere is the same before a word is left and behind that. -/
theorem change_linked {what : Change} {pc : Word} {flow flow' : Flow}
    (hslot : ∀ dest v, what = .geometry dest v → dest.slot ≠ t.slot) (a w : Word)
    (h : g.change pc what flow = .ok flow' g') :
    (linked a t w g).change pc what flow = .ok flow' (linked a t w g') := by
  obtain ⟨core, session⟩ := g
  -- No such change touches the linked register, so it commutes with writing the link.
  cases what with
  | system index v =>
    cases h
    simp only [Guest.change, linked, writeSystem_setTracked]
    rfl
  | geometry dest v =>
    cases h
    simp only [Guest.change, linked, core.registers.set_setTracked_comm v w (hslot dest v rfl)]
    rfl
  | store address bytes =>
    obtain ⟨registers, view?, stopped, ticks, sink, written, log⟩ := core
    simp only [Guest.change, linked, Core.store, Core.poke] at h ⊢
    cases view? with
    | none => cases h
    | some v =>
      simp only at h ⊢
      cases hwritten : ByteMemory.writeBytes address bytes v with
      | error e v' =>
        rw [hwritten] at h
        cases h
      | ok u v' =>
        rw [hwritten] at h
        cases h
        simp only
        unfold Core.note
        split <;> rfl

/-- An instruction that neither reads nor writes a register does the same before a word is left there
and behind that. -/
theorem perform_linked (hsource : t ∉ op.sources) (htarget : t ∉ op.targets) (a w : Word)
    {pc : Word} {flow : Flow} (h : g.perform observer pc op = .ok flow g') :
    (linked a t w g).perform observer pc op = .ok flow (linked a t w g') := by
  unfold Guest.perform at h ⊢
  -- What is read, what comes of it, the writes, and the change: the word is taken past each of them.
  rw [noteReads_linked hsource]
  generalize g.noteReads op = g₁ at h ⊢
  have heffect : op.effect pc (linked a t w g₁).core.registers (linked a t w g₁).core.view? =
      op.effect pc g₁.core.registers g₁.core.view? :=
    Operation.effect_setTracked hsource pc _ w _
  simp only [heffect] at h ⊢
  cases he : op.effect pc g₁.core.registers g₁.core.view? with
  | error t =>
    rw [he] at h
    cases h
  | ok e =>
    simp only [he] at h ⊢
    have htargets : ∀ tw ∈ e.writes, tw.1 ≠ t := fun tw htw heq =>
      htarget (heq ▸ Operation.mem_targets_of_writes he tw htw)
    rw [writes_linked htargets]
    cases hchange : e.change? with
    | none =>
      simp only [hchange] at h ⊢
      cases h
      rfl
    | some what =>
      simp only [hchange] at h ⊢
      refine change_linked ?_ a w h
      rintro dest v rfl
      exact Operation.slot_ne_of_geometry he hchange htarget

end Session

/-- The guest once an instruction at an address has left a word in a watched register. The register
that is always zero takes nothing. -/
def leave (a : Word) (t : Tracked) (w : Word) (g : Guest Session) : Guest Session :=
  if t = .zero then g else linked a t w g

/-- The register that a call leaves the return address in. -/
def linkRegister (i : Instruction) : Tracked :=
  if i.mnemonic == .jal then .returnAddress else .ofGpr (i.gpr .destination)

namespace Session

variable {g g' : Guest Session} {op : Operation} {t : Tracked} {a w : Word}

/-- A register write is told as one of the instruction at the program counter. -/
theorem write_eq_leave (g : Guest Session) (t : Tracked) (w : Word) :
    g.write observer t w = leave g.context.pc t w g := by
  unfold Guest.write leave
  by_cases hzero : t = .zero
  · rw [if_pos hzero, if_pos hzero]
  · rw [if_neg hzero, if_neg hzero]
    obtain ⟨core, session⟩ := g
    simp only [observer, recordAt, if_neg hzero]
    rfl

/-- Before a plain step nothing is told but its address. -/
theorem run_sync (g : Guest Session) (pc : Word) (op : Operation) :
    Step.run observer ⟨pc, [.sync], op⟩ g =
      Guest.perform observer pc op ⟨g.core, { g.context with pc }⟩ := by
  unfold Step.run
  rw [bind_apply, actAll_sync]
  rfl

/-- A plain step that keeps off a register does the same before a word is left there and behind
that. -/
theorem run_leave (hapart : t = .zero ∨ t ∉ op.sources ∧ t ∉ op.targets) (a w : Word) {pc : Word}
    {flow : Flow} (h : Step.run observer ⟨pc, [.sync], op⟩ g = .ok flow g') :
    Step.run observer ⟨pc, [.sync], op⟩ (leave a t w g) = .ok flow (leave a t w g') := by
  unfold leave
  split
  · exact h
  · next hzero =>
    obtain ⟨hsource, htarget⟩ := hapart.resolve_left hzero
    rw [run_sync] at h ⊢
    exact (perform_linked hsource htarget a w h :)

/-- What a call comes to: the return address is left, and control enters the routine. -/
theorem effect_of_call {i : Instruction} (hcall : i.isCall = true) {pc : Word} {f : RegisterFile}
    (hzero : i.mnemonic = .jalr → Tracked.ofGpr (i.gpr .source) = .zero → f.tracked .zero = 0)
    (view? : Option (View Ram)) :
    (i.operation pc).effect pc f view? =
      .ok { writes := [(linkRegister i, Instruction.returnAddress pc)]
            flow := .jump (Debugger.callTarget i pc f).1 .enter } := by
  obtain ⟨m, raw⟩ := i
  cases m with
  | jal => rfl
  | jalr =>
    -- The emulated jump reads zero from the register that is always zero, and the debugger reads
    -- its slot.
    have hvalue : Operation.gpr f ((⟨.jalr, raw⟩ : Instruction).gpr .source) =
        f.tracked (.ofGpr ((⟨.jalr, raw⟩ : Instruction).gpr .source)) := by
      unfold Operation.gpr RegisterFile.value
      split
      · next hsource => rw [hsource, hzero rfl hsource]
      · rfl
    simp only [Instruction.operation, Operation.effect, Operation.transfer, hvalue]
    rfl
  | _ => cases hcall

/-- A call links the register that its instruction names. -/
theorem linkRegister_eq {i : Instruction} (pc : Word) (f : RegisterFile) :
    (Debugger.callTarget i pc f).2 = linkRegister i := by
  unfold Debugger.callTarget linkRegister
  split <;> rfl

/-- Where a word is left, nothing else shows. -/
theorem like_leave (h : g.Like (AgreeHere nowhere) g') (a : Word) (t : Tracked) (w : Word) :
    (leave a t w g).Like (AgreeHere nowhere) (leave a t w g') := by
  unfold leave
  split
  · exact h
  · refine ⟨⟨?_, h.core.view?, h.core.sink, trivial⟩,
      ⟨h.context.frames, ?_, fun _ h => h.elim⟩, h.context.pc⟩
    · exact congrArg (·.setTracked t w) h.core.registers
    · exact congrArg (·.set t.val a t.isLt) h.context.trace

/-- A plain step does the same to like guests. -/
theorem alike_run_sync (h : g.Like (AgreeHere nowhere) g') (pc : Word) (op : Operation) :
    Alike (Guest.Like (AgreeHere nowhere)) (Step.run observer ⟨pc, [.sync], op⟩ g)
      (Step.run observer ⟨pc, [.sync], op⟩ g') := by
  have hsynced : Guest.Like (AgreeHere nowhere) ⟨g.core, { g.context with pc }⟩
      ⟨g'.core, { g'.context with pc }⟩ :=
    ⟨h.core, (respects_agreeHere nowhere).sync _ _ pc h.context⟩
  rw [run_sync, run_sync]
  exact Guest.alike_perform Aside.kept_true (respects_agreeHere nowhere).writesAlike hsynced pc op

/-- A call in a program expects its return, leaves the return address, and transfers control. -/
theorem run_call {i : Instruction} (hcall : i.isCall = true) {pc : Word} (hpc : g.context.pc = pc)
    (hzero : i.mnemonic = .jalr → Tracked.ofGpr (i.gpr .source) = .zero →
      g.core.registers.tracked .zero = 0) :
    ∃ g', Step.run observer ⟨pc, [.sync, .enter pc], i.operation pc⟩ g =
        .ok (.jump (Debugger.callTarget i pc g.core.registers).1 .enter) g' ∧
      g'.Like (AgreeHere nowhere) (leave pc (linkRegister i) (Instruction.returnAddress pc)
        ⟨g.core, { g.context with
          frames := Instruction.returnAddress pc :: g.context.frames }⟩) := by
  generalize hback : Instruction.returnAddress pc = back
  let told : Guest Session := ⟨g.core, { g.context with frames := back :: g.context.frames }⟩
  -- The frame is pushed before the instruction is executed.
  obtain ⟨told', hacts, htold⟩ : ∃ told', g.actAll observer pc [.sync, .enter pc] = .ok () told' ∧
      told'.Like (AgreeHere nowhere) told := by
    refine ⟨_, rfl, ?_⟩
    have hself := Core.Agree.refl g.core
    exact ⟨hself.heed_heed _ [], ⟨congrArg (· :: g.context.frames) hback, rfl, fun _ h => h.elim⟩,
      hpc.symm⟩
  obtain ⟨entries, hnotes⟩ := Guest.noteReads_eq (i.operation pc) told
  have hregisters : (told.core.note entries).registers = g.core.registers :=
    g.core.registers_note entries
  have hperform : told.perform observer pc (i.operation pc) =
      .ok (.jump (Debugger.callTarget i pc g.core.registers).1 .enter)
        ((told.noteReads (i.operation pc)).write observer (linkRegister i) back) := by
    unfold Guest.perform
    simp only [hnotes, hregisters, effect_of_call hcall hzero, hback]
    rfl
  have halike := Guest.alike_perform Aside.kept_true (respects_agreeHere nowhere).writesAlike htold pc
    (i.operation pc)
  rw [hperform] at halike
  obtain ⟨g', hrun, hlike⟩ := halike.of_ok
  refine ⟨g', ?_, ?_⟩
  · unfold Step.run
    rw [bind_apply, hacts]
    exact hrun
  · have hnoted : (told.noteReads (i.operation pc)).Like (AgreeHere nowhere) told := by
      rw [hnotes]
      have hself := Core.Agree.refl told.core
      exact ⟨hself.note entries [], ⟨rfl, rfl, fun _ _ => rfl⟩, rfl⟩
    have hwritten := Guest.agree_write (respects_agreeHere nowhere).writesAlike hnoted (linkRegister i) back
    rw [write_eq_leave told, show told.context.pc = pc from hpc] at hwritten
    exact Guest.Like.trans hlike hwritten fun _ _ _ h h' => h.trans h'

/-- A call and the plain step in its delay slot do what the step does before the return address is
left, if the step keeps off the register of that address. -/
theorem run_call_slot {i : Instruction} (hcall : i.isCall = true) {pc : Word}
    (hpc : g.context.pc = pc)
    (hzero : i.mnemonic = .jalr → Tracked.ofGpr (i.gpr .source) = .zero →
      g.core.registers.tracked .zero = 0)
    {told told' : Guest Session} (htold : Guest.Like (AgreeHere nowhere) ⟨g.core, { g.context with
      frames := Instruction.returnAddress pc :: g.context.frames }⟩ told) {slot : Word}
    (hapart : linkRegister i = .zero ∨ linkRegister i ∉ op.sources ∧ linkRegister i ∉ op.targets)
    (hslot : Step.run observer ⟨slot, [.sync], op⟩ told = .ok .next told') :
    ∃ g₁ g₂, Step.run observer ⟨pc, [.sync, .enter pc], i.operation pc⟩ g =
        .ok (.jump (Debugger.callTarget i pc g.core.registers).1 .enter) g₁ ∧
      Step.run observer ⟨slot, [.sync], op⟩ g₁ = .ok .next g₂ ∧
      g₂.Like (AgreeHere nowhere)
        (leave pc (linkRegister i) (Instruction.returnAddress pc) told') := by
  obtain ⟨g₁, hrun, hlike⟩ := run_call hcall hpc hzero
  have hstart : g₁.Like (AgreeHere nowhere)
      (leave pc (linkRegister i) (Instruction.returnAddress pc) told) :=
    Guest.Like.trans hlike (like_leave htold _ _ _) fun _ _ _ h h' => h.trans h'
  -- The step is executed behind the call as it is where the return address is left at once.
  have halike := alike_run_sync hstart slot op
  rw [run_leave hapart _ _ hslot] at halike
  obtain ⟨g₂, hrun₂, hlike₂⟩ := halike.of_ok
  exact ⟨g₁, g₂, hrun, hrun₂, hlike₂⟩

end Session

namespace Debugger

variable {d : Debugger}

/-- An instruction word that can be read can be fetched. -/
theorem fetched_of_readInstruction {a w : Word} {d' : Debugger}
    (h : readInstruction a d = .ok w d') :
    ∃ v, d.core.view? = some v ∧ a.toNat % 4 = 0 ∧ v.backing.fetched a = some w := by
  obtain ⟨⟨core, session⟩, blocks, injector?⟩ := d
  unfold readInstruction at h
  split at h
  · next haligned =>
    simp only [atCore, Core.peekBacking, Core.readFrom] at h
    cases hv : core.view? with
    | none =>
      rw [hv] at h
      cases h
    | some v =>
      simp only [hv] at h
      cases hbytes : ByteMemory.readBytes v.backing (Address.run a 4) with
      | error e =>
        rw [hbytes] at h
        cases h
      | ok bytes =>
        rw [hbytes] at h
        cases h
        refine ⟨v, hv, Word.isAligned_iff.mp haligned, ?_⟩
        -- Fetching a word is reading its four bytes.
        change (ByteMemory.readWord v.backing a).toOption = _
        unfold ByteMemory.readWord ByteMemory.readNumber
        rw [hbytes]
        rfl
  · cases h

/-- The instruction at the program counter is what the word there encodes. -/
theorem fetched_of_current? {i : Instruction} (h : current? d = some i) :
    ∃ v w, d.core.view? = some v ∧ (Debugger.pc d).toNat % 4 = 0 ∧
      v.backing.fetched (Debugger.pc d) = some w ∧ Instruction.decode? w = some i := by
  unfold current? currentInstruction at h
  cases hread : readInstruction (Debugger.pc d) d with
  | error e d' =>
    rw [hread] at h
    cases h
  | ok w d' =>
    rw [hread] at h
    obtain ⟨v, hv, haligned, hw⟩ := fetched_of_readInstruction hread
    exact ⟨v, w, hv, haligned, hw, h⟩

/-- The instruction behind the one at the program counter, if there is one. -/
def behind? (d : Debugger) : Option Instruction :=
  (d.core.view?.bind fun v => v.backing.fetched (Debugger.pc d + Instruction.size)).bind
    Instruction.decode?

/-- A look at an instruction is reported at most. -/
theorem looked_eq (d : Debugger) : ∃ entries, looked d = d.onCore (Core.note · entries) := by
  obtain ⟨i?, entries, h⟩ := currentInstruction_ok d
  exact ⟨entries, congrArg endState h⟩

/-- A look at the next instruction leaves the registers. -/
@[simp] theorem registers_looked (d : Debugger) : (looked d).core.registers = d.core.registers := by
  obtain ⟨entries, h⟩ := looked_eq d
  rw [h]
  exact d.core.registers_note entries

/-- A look at the next instruction leaves the view. -/
@[simp] theorem view?_looked (d : Debugger) : (looked d).core.view? = d.core.view? := by
  obtain ⟨entries, h⟩ := looked_eq d
  rw [h]
  exact d.core.view?_note entries

/-- A step of a translation by itself, whatever breakpoints there are. -/
theorem stepFor_single (hd : Attends d) (a : Word) (i? : Option Instruction) :
    Block.stepFor d.choose .single (a, i?) =
      ⟨a, .sync :: Session.follow a i?, .ofInstruction? i? a⟩ :=
  congrArg (Step.mk a · _) (admitted_single hd.injector? a i?)

/-- A single step at a plain instruction runs the step of that instruction. -/
theorem run_of_executeOne (hd : Attends d) {a w : Word} {i : Instruction} {v : View Ram}
    (hv : d.core.view? = some v) (hw : v.backing.fetched a = some w)
    (hi : Instruction.decode? w = some i) (hplain : i.hasDelaySlot = false) {target : Word}
    {d' : Debugger} (h : executeOne Session.observer a d = .ok target d') :
    ∃ entries g, Step.run Session.observer ⟨a, [.sync], i.operation a⟩
        ⟨d.core.note entries, d.context⟩ = .ok .next g ∧ g.Like (· = ·) d'.guest := by
  obtain ⟨v', b, entries, exit, hv', htranslate, hrun, -⟩ := executeOne_eq_ok h
  obtain rfl := Option.some.inj (hv.symm.trans hv')
  obtain ⟨-, -, rfl⟩ := Block.translate_eq_ok.mp htranslate
  have hdelay : (Instruction.decode? w).any Instruction.hasDelaySlot = false := by
    rw [hi]
    exact hplain
  have hsteps : (Block.instructionsFrom v.backing.fetched (Extent.room .single) a).map
      (Block.stepFor d.choose .single) = [⟨a, [.sync], i.operation a⟩] := by
    change (Block.instructionsFrom v.backing.fetched 1 a).map _ = _
    rw [Block.instructionsFrom_one hw, hdelay, if_neg Bool.false_ne_true, List.map_singleton,
      stepFor_single hd, follow_eq_nil hdelay, hi]
    rfl
  -- The translation is this one step, for what is plain has no slot.
  have halike := run_alike_runBlock Session.observer
    ⟨a, (Block.instructionsFrom v.backing.fetched (Extent.room .single) a).map
      (Block.stepFor d.choose .single)⟩ (d.onCore (Core.note · entries))
  rw [hrun, Block.run, hsteps] at halike
  obtain ⟨g, hg, hlike⟩ := halike.of_ok
  refine ⟨entries, g, ?_, hlike⟩
  have hg : Block.runSteps Session.observer _ [⟨a, [.sync], i.operation a⟩]
      ⟨d.core.note entries, d.context⟩ = .ok exit g := hg
  rw [Block.runSteps_cons] at hg
  have htransfers : (i.operation a).transfers = false :=
    (Operation.transfers_operation i a).trans hplain
  cases hstep : Step.run Session.observer ⟨a, [.sync], i.operation a⟩
      ⟨d.core.note entries, d.context⟩ with
  | error e g' =>
    rw [hstep] at hg
    cases hg
  | ok flow g' =>
    rw [hstep] at hg
    obtain rfl := Step.flow_of_run htransfers hstep
    cases hg
    rfl

/-- A single step at a call with a plain delay slot runs the step of the call and that of the slot. -/
theorem executeOne_of_run (hd : Attends d) {a w w' : Word} {i slot : Instruction} {v : View Ram}
    (hv : d.core.view? = some v) (haligned : a.toNat % 4 = 0) (hw : v.backing.fetched a = some w)
    (hi : Instruction.decode? w = some i) (hcall : i.isCall = true)
    (hw' : v.backing.fetched (a + Instruction.size) = some w')
    (hslot : Instruction.decode? w' = some slot) (hplain : slot.hasDelaySlot = false) :
    ∃ entries, ∀ {target : Word} {g g' : Guest Session},
      Step.run Session.observer ⟨a, [.sync, .enter a], i.operation a⟩
        ⟨d.core.note entries, d.context⟩ = .ok (.jump target .enter) g →
      Step.run Session.observer
        ⟨a + Instruction.size, [.sync], slot.operation (a + Instruction.size)⟩ g = .ok .next g' →
      ∃ d', executeOne Session.observer a d = .ok target d' ∧ g'.Like (· = ·) d'.guest := by
  have hdelay : (Instruction.decode? w).any Instruction.hasDelaySlot = true := by
    rw [hi, Option.any_some]
    obtain ⟨m, raw⟩ := i
    cases m <;> first
      | rfl
      | cases hcall
  have hfollow : Session.follow a (some i) = [.enter a] := if_pos hcall
  have hplain' : (some slot).any Instruction.hasDelaySlot = false := hplain
  -- The call has a delay slot, so a translation for one step consists of these two.
  have htranslate : Block.translate v.backing d.choose .single a = .ok ⟨a,
      (Block.instructionsFrom v.backing.fetched (Extent.room .single) a).map
        (Block.stepFor d.choose .single)⟩ :=
    Block.translate_eq_ok.mpr ⟨haligned, Option.isSome_of_eq_some hw, rfl⟩
  have hsteps : (Block.instructionsFrom v.backing.fetched (Extent.room .single) a).map
      (Block.stepFor d.choose .single) = [⟨a, [.sync, .enter a], i.operation a⟩,
        ⟨a + Instruction.size, [.sync], slot.operation (a + Instruction.size)⟩] := by
    change (Block.instructionsFrom v.backing.fetched 1 a).map _ = _
    rw [Block.instructionsFrom_one hw, hdelay, if_pos rfl, hw', Option.toList_some,
      List.map_singleton, List.map_cons, List.map_singleton, stepFor_single hd, stepFor_single hd,
      hi, hslot, hfollow, follow_eq_nil hplain']
    rfl
  rw [hsteps] at htranslate
  obtain ⟨entries, hone⟩ : ∃ entries, executeOne Session.observer a d = _ :=
    executeOne_of_translate hv htranslate
  refine ⟨entries, fun {target g g'} hfirst hsecond => ?_⟩
  have halike := run_alike_runBlock Session.observer
    ⟨a, [⟨a, [.sync, .enter a], i.operation a⟩,
      ⟨a + Instruction.size, [.sync], slot.operation (a + Instruction.size)⟩]⟩
    (d.onCore (Core.note · entries))
  have hfirst' : Step.run Session.observer ⟨a, [.sync, .enter a], i.operation a⟩
      (d.onCore (Core.note · entries)).guest = .ok (.jump target .enter) g := hfirst
  rw [Block.run, Block.runSteps_cons, hfirst'] at halike
  simp only at halike
  rw [Block.runSteps_cons, hsecond] at halike
  obtain ⟨d', hrun, hlike⟩ := (halike.symm fun _ _ h => h).of_ok
  refine ⟨d', ?_, hlike⟩
  rw [hone, bind_apply, hrun]
  rfl

/-- A call at the program counter whose delay slot is plain, completes, and keeps off the register of
the return address. -/
structure Enters (i slot : Instruction) (d : Debugger) : Prop where
  /-- The call is at the program counter. -/
  current : current? d = some i
  /-- It is a call. -/
  isCall : i.isCall = true
  /-- The instruction in the delay slot. -/
  behind : behind? d = some slot
  /-- It does not transfer control. -/
  plain : slot.hasDelaySlot = false
  /-- It raises no exception. -/
  completes : (answer? (executeOne Session.observer (Debugger.pc d + Instruction.size)
    (calling d))).isSome = true
  /-- It neither reads nor writes the register of the return address, unless nothing is left there. -/
  apart : linkRegister i = .zero ∨
    linkRegister i ∉ (slot.operation (Debugger.pc d + Instruction.size)).sources ∧
      linkRegister i ∉ (slot.operation (Debugger.pc d + Instruction.size)).targets
  /-- A call through the register that is always zero finds zero there. -/
  zero : i.mnemonic = .jalr → Tracked.ofGpr (i.gpr .source) = .zero →
    d.core.registers.tracked .zero = 0

/-- The machine does the same from the call on as it does in the delay slot, before the return address
is left. -/
theorem executeOne_looked (hd : Attends d) {i slot : Instruction} (h : Enters i slot d)
    {target : Word} {d₁ : Debugger}
    (hslot : executeOne Session.observer (Debugger.pc d + Instruction.size) (calling d) =
      .ok target d₁) :
    ∃ d₂, executeOne Session.observer (Debugger.pc d) (looked d) =
        .ok (callTarget i (Debugger.pc d) d.core.registers).1 d₂ ∧
      d₂.guest.Like (Session.AgreeHere nowhere) (leave (Debugger.pc d) (linkRegister i)
        (Instruction.returnAddress (Debugger.pc d)) d₁.guest) := by
  obtain ⟨v, w, hv, haligned, hw, hdecode⟩ := fetched_of_current? h.current
  obtain ⟨w', hw', hdecode'⟩ : ∃ w', v.backing.fetched (Debugger.pc d + Instruction.size) = some w' ∧
      Instruction.decode? w' = some slot := by
    have hbehind := h.behind
    unfold behind? at hbehind
    rw [hv] at hbehind
    exact Option.bind_eq_some_iff.mp hbehind
  have hview : (looked d).core.view? = some v := (view?_looked d).trans hv
  have hcalling : Attends (calling d) := hd.looked.congr rfl fun _ _ h => h
  obtain ⟨notes, g₁, hrun₁, hlike₁⟩ :=
    run_of_executeOne hcalling hview hw' hdecode' h.plain hslot
  obtain ⟨notes', hone⟩ := executeOne_of_run hd.looked hview haligned hw hdecode h.isCall hw' hdecode'
    h.plain
  have hself := Core.Agree.refl (looked d).core
  let found : Guest Session := ⟨(looked d).core.note notes', (looked d).context⟩
  have hnoted : found.core.registers = d.core.registers :=
    ((looked d).core.registers_note notes').trans (registers_looked d)
  have htold : Guest.Like (Session.AgreeHere nowhere) ⟨found.core, { found.context with
      frames := Instruction.returnAddress (Debugger.pc d) :: found.context.frames }⟩
      ⟨(calling d).core.note notes, (calling d).context⟩ :=
    ⟨hself.note notes' notes, ⟨rfl, rfl, fun _ h => h.elim⟩, rfl⟩
  -- Carrying out the call first and its slot behind it leaves what the slot alone leaves, with the
  -- link register written by hand.
  obtain ⟨g₂, g₃, hcalled, hrun₃, hlike₃⟩ := Session.run_call_slot (g := found) h.isCall
    (pc_looked d) (fun hjalr hsource => hnoted ▸ h.zero hjalr hsource) htold h.apart hrun₁
  obtain ⟨d₂, hone₂, hlike₂⟩ := hone hcalled hrun₃
  rw [hnoted] at hone₂
  have hhere : g₁.Like (Session.AgreeHere nowhere) d₁.guest :=
    ⟨hlike₁.core, hlike₁.context ▸ ⟨.refl _, rfl⟩⟩
  have hdone : g₃.Like (Session.AgreeHere nowhere) (leave (Debugger.pc d) (linkRegister i)
      (Instruction.returnAddress (Debugger.pc d)) d₁.guest) :=
    Guest.Like.trans hlike₃ (Session.like_leave hhere _ _ _) fun _ _ _ h h' => h.trans h'
  exact ⟨d₂, hone₂, Guest.Like.trans (hlike₂.symm fun _ _ h => h.symm) hdone
    fun _ _ _ h h' => h ▸ h'⟩

/-- Where control is moved shows in the program counter and in the breakpoints only. -/
theorem like_moveTo_nowhere (target : Word) (d : Debugger) :
    d.guest.Like (Session.Agree nowhere) (moveTo target d).guest := by
  refine ⟨⟨rfl, rfl, rfl, trivial⟩, (frames_moveTo target d).symm, ?_, fun _ h => h.elim⟩
  change (session d).trace = ((session d).moveTo target).trace
  unfold Session.moveTo
  split <;> rfl

/-- What a write on behalf of an instruction leaves. -/
theorem guest_recordAt {t : Tracked} (hzero : t ≠ .zero) (a w : Word) (d : Debugger) :
    (recordAt a t w d).guest = linked a t w d.guest := by
  obtain ⟨⟨core, session⟩, blocks, injector?⟩ := d
  simp only [recordAt, Session.recordAt, if_neg hzero]
  rfl

/-- A step into a call and a step over it show the same behind the call, where the instruction in the
delay slot keeps off the register of the return address. -/
theorem stepInto_shows_stepOver (hd : Reachable (fun d => ∃ pc v d₀, d = reset pc v d₀) d)
    {i slot : Instruction} (h : Enters i slot d) :
    ∃ d₁ d₂, stepInto d = .ok true d₁ ∧ stepOver d = .ok () d₂ ∧ d₁.Shows d₂ := by
  obtain ⟨next, d₁, hslot⟩ := isSome_answer?.mp h.completes
  obtain ⟨d₂, hcall, hlike⟩ := executeOne_looked (attends_of_reachable hd) h hslot
  generalize htarget : (callTarget i (Debugger.pc d) d.core.registers).1 = target at hcall
  let left := if linkRegister i = .zero then d₁ else
    recordAt (Debugger.pc d) (linkRegister i) (Instruction.returnAddress (Debugger.pc d)) d₁
  -- The step into the call leaves the return address and moves on.
  have hinto : stepInto d = .ok true (emit .stepped (emit .steppedInto (moveTo target left))) := by
    have hiscall : (current? d).filter Instruction.isCall = some i := by
      rw [h.current, Option.filter_some, if_pos h.isCall]
    rw [stepInto_eq, hiscall]
    simp only [registers_looked, htarget, Session.linkRegister_eq]
    unfold stepInto.enter
    rw [hslot]
    rfl
  -- The step over the call has done both within the machine.
  have hover : stepOver d = .ok () (emit .stepped (moveTo target d₂)) := by
    obtain ⟨v, w, hv, -⟩ := fetched_of_current? h.current
    have hjump : (current? d).filter (·.mnemonic == .jr) = none := by
      have hcall := h.isCall
      rw [h.current]
      obtain ⟨m, raw⟩ := i
      cases m <;> first
        | rfl
        | cases hcall
    rw [stepOver_served (Option.isSome_of_eq_some hv), hjump]
    simp only [executeThen, hcall]
  have hguest : left.guest = leave (Debugger.pc d) (linkRegister i)
      (Instruction.returnAddress (Debugger.pc d)) d₁.guest := by
    unfold leave
    by_cases hzero : linkRegister i = .zero
    · simp only [left, if_pos hzero]
    · simp only [left, if_neg hzero]
      exact guest_recordAt hzero _ _ d₁
  refine ⟨_, _, hinto, hover, shows_of_like (P := nowhere) ?_ ?_⟩
  · have hmoved := Guest.Like.trans (hguest ▸ hlike) (like_moveTo_nowhere target left)
      fun _ _ _ h h' => h.toAgree.trans h'
    have hboth := Guest.Like.trans ((like_moveTo_nowhere target d₂).symm fun _ _ h => h.symm) hmoved
      fun _ _ _ h h' => h.trans h'
    have hemitted := like_emit (like_emit hboth .steppedInto) .stepped
    exact like_emit (hemitted.symm fun _ _ h => h.symm) .stepped
  · rw [pc_emit, pc_emit, pc_emit, pc_moveTo, pc_moveTo]

end Debugger

namespace SteppingIn

open Debugger

/-- A call whose delay slot keeps off the return address: `jal 0x10`, `addiu $t1, $zero, 7`. -/
def image : Image := ⟨0, ⟨#[0x04, 0, 0, 0x0C, 0x07, 0, 0x09, 0x24]⟩, by decide⟩

/-- Stepping into the call and stepping over it come to the same. -/
theorem shows_steppingIn : ∃ d₁ d₂, stepInto (atReset image) = .ok true d₁ ∧
    stepOver (atReset image) = .ok () d₂ ∧ d₁.Shows d₂ := by
  have hcurrent : current? (atReset image) = some ⟨.jal, 0x0C000004⟩ := by
    rw [atReset_eq]
    decide +kernel
  have hbehind : behind? (atReset image) = some ⟨.addiu, 0x24090007⟩ := by
    rw [atReset_eq]
    decide +kernel
  have hpc : Debugger.pc (atReset image) = 0 := by
    rw [atReset_eq]
    decide +kernel
  have hcompletes : (answer? (executeOne Session.observer (Debugger.pc (atReset image) +
      Instruction.size) (calling (atReset image)))).isSome = true := by
    rw [atReset_eq]
    decide +kernel
  refine stepInto_shows_stepOver (.start ⟨0, _, _, rfl⟩) ⟨hcurrent, rfl, hbehind, rfl, hcompletes,
    .inr ?_, fun h => (by cases h)⟩
  rw [hpc]
  decide

end SteppingIn

namespace Linking

open Debugger

/-- A call whose delay slot reads the return address: `jal 0x10`, `addu $t0, $ra, $zero`. -/
def image : Image := ⟨0, ⟨#[0x04, 0, 0, 0x0C, 0x21, 0x40, 0xE0, 0x03]⟩, by decide⟩

/-- Both steps complete at the routine; the step over finds the return address in the delay slot, and
the step into the call finds what the register held before. -/
theorem stepInto_linking :
    current? (atReset image) = some ⟨.jal, 0x0C000004⟩ ∧
      behind? (atReset image) = some ⟨.addu, 0x03E04021⟩ ∧
      answer? (stepInto (atReset image)) = some true ∧
      answer? (stepOver (atReset image)) = some () ∧
      Debugger.pc (endState (stepInto (atReset image))) = 0x10 ∧
      Debugger.pc (endState (stepOver (atReset image))) = 0x10 ∧
      (endState (stepInto (atReset image))).core.registers.tracked (.ofGpr 8) = 0 ∧
      (endState (stepOver (atReset image))).core.registers.tracked (.ofGpr 8) = 8 := by
  rw [atReset_eq]
  decide +kernel

end Linking

end MipsMonitor.Debug
