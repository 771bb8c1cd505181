import MipsMonitor.Proofs.Debug.Soundness
import MipsMonitor.Proofs.Machine.SingleStepping

/-!
# Steps as cycles

A step executes the instruction at the program counter and its delay slot, without a look at
breakpoints, and carries out a jump to a register itself: the machine executes the delay slot, and
the debugger moves on to what the register held (`Debugger.stepOver_eq`). Where nothing hinders it
(`Debugger.Unhindered`), a step does what one or two cycles do (`Debugger.cycles_of_stepOver`), and
so steps that follow one another do what cycles do (`Debugger.cycles_of_steps`).
-/

namespace MipsMonitor.Debug

open ByteMemory Machine

namespace Debugger

variable {P : Word → Prop} {d : Debugger}

/-- A debugger whose breakpoints let no program pass that would be stopped, and whose file holds
zero in the register that is always zero. -/
structure Calm (d : Debugger) : Prop where
  /-- Instructions are watched on behalf of the session. -/
  injector? : d.injector? = some Session.injector
  /-- No breakpoint is armed. -/
  disarmed : (session d).Disarmed
  /-- The register that is always zero holds zero. -/
  zero : d.core.zero = 0

/-- A calm debugger that lets an event occur. -/
theorem Calm.emit (h : Calm d) (event : Event) : Calm (emit event d) := by
  obtain ⟨notices, listeners, events, heq⟩ := emit_eq event d
  rw [heq]
  exact ⟨h.injector?, h.disarmed, (Core.zero_heed _ _).trans h.zero⟩

/-- A calm debugger that moves on. -/
theorem Calm.moveTo (h : Calm d) (target : Word) : Calm (moveTo target d) :=
  ⟨h.injector?, h.disarmed.moveTo target, h.zero⟩

/-- A calm debugger that reports. -/
theorem Calm.note (h : Calm d) (entries : List Entry) : Calm (d.onCore (Core.note · entries)) :=
  ⟨h.injector?, h.disarmed,
    (congrArg (RegisterFile.get · .zero) (d.core.registers_note entries)).trans h.zero⟩

/-- An event does not show in what sessions agree on. -/
theorem like_emit {g : Guest Session} (h : g.Like (Session.Agree P) d.guest) (event : Event) :
    g.Like (Session.Agree P) (emit event d).guest := by
  obtain ⟨notices, listeners, events, heq⟩ := emit_eq event d
  rw [heq]
  exact ⟨h.core.heed_heed [] notices, ⟨h.context.frames, h.context.trace, h.context.force⟩⟩

/-- Moving on does not show in what sessions agree on. -/
theorem like_moveTo {g : Guest Session} (h : g.Like (Session.Agree P) d.guest)
    (hd : (session d).Disarmed) (target : Word) :
    g.Like (Session.Agree P) (moveTo target d).guest :=
  ⟨h.core, h.context.trans (hd.agree_moveTo P target).symm⟩

/-- The instruction at the program counter is what the word there encodes. -/
theorem currentInstruction_eq {v : View Ram} (hv : d.core.view? = some v) {w : Word}
    (haligned : (Debugger.pc d).toNat % 4 = 0) (hw : v.backing.fetched (Debugger.pc d) = some w) :
    ∃ entries, currentInstruction d =
      .ok (Instruction.decode? w) (d.onCore (Core.note · entries)) := by
  obtain ⟨⟨core, session⟩, blocks, injector?⟩ := d
  have hv : core.view? = some v := hv
  unfold Ram.fetched at hw
  unfold readWord readNumber at hw
  -- The word that the processor would fetch is spelled by the bytes that the debugger reads.
  cases hb : readBytes v.backing (Address.run session.pc 4) with
  | error e =>
    rw [show Debugger.pc ⟨⟨core, session⟩, blocks, injector?⟩ = session.pc from rfl, hb] at hw
    cases hw
  | ok bytes =>
    rw [show Debugger.pc ⟨⟨core, session⟩, blocks, injector?⟩ = session.pc from rfl, hb] at hw
    obtain rfl : Word.ofBytes bytes = w := Option.some.inj hw
    have haligned : Word.isAligned session.pc Instruction.size = true :=
      Word.isAligned_iff.mpr haligned
    have hread : readInstruction session.pc (⟨⟨core, session⟩, blocks, injector?⟩ : Debugger) =
        .ok (Word.ofBytes bytes) ⟨⟨core.note (readNotes v.backing (Address.run session.pc 4)),
          session⟩, blocks, injector?⟩ := by
      unfold readInstruction
      rw [if_pos haligned]
      simp only [atCore, Core.peekBacking, Core.readFrom, hv, hb]
    refine ⟨readNotes v.backing (Address.run session.pc 4), ?_⟩
    simp only [currentInstruction, Debugger.pc, Debugger.session, context, hread]
    rfl

/-- Whether an instruction is a jump to a register, which a step carries out itself. -/
def jumpsToRegister (i? : Option Instruction) : Bool := i?.any (·.mnemonic == .jr)

/-- What a step leaves behind a jump to a register. -/
def jumpTo (i : Instruction) (target : Word) (d : Debugger) : Debugger :=
  let d := moveTo target d
  let d := if Tracked.ofGpr (i.gpr .source) = .returnAddress then leaveFrame d else d
  emit .stepped d

/-- Reading the instruction at the program counter leaves the memory as it is. -/
theorem view?_currentInstruction (d : Debugger) :
    (endState (currentInstruction d)).core.view? = d.core.view? := by
  obtain ⟨⟨core, session⟩, blocks, injector?⟩ := d
  have hread (a : Word) : Leads (fun n : Debugger => n.core.view? = core.view?)
      (readInstruction a (⟨⟨core, session⟩, blocks, injector?⟩ : Debugger)) := by
    unfold readInstruction
    by_cases haligned : Word.isAligned a Instruction.size = true
    · simp only [if_pos haligned, atCore, Core.peekBacking, Core.readFrom]
      cases hv : core.view? with
      | none => exact hv
      | some v =>
        simp only
        cases readBytes v.backing (Address.run a 4) <;> exact (core.view?_note _).trans hv
    · rw [if_neg haligned]
      exact rfl
  have hend := hread session.pc
  simp only [currentInstruction, Debugger.pc, Debugger.session, context]
  generalize readInstruction session.pc (⟨⟨core, session⟩, blocks, injector?⟩ : Debugger) = r at hend
  cases r <;> exact hend

/-- With memory at hand, a step goes by the instruction that the debugger finds where it stands. -/
theorem stepOver_of_current {d₁ : Debugger} {i? : Option Instruction}
    (hview : d.core.view?.isSome = true) (hcurrent : currentInstruction d = .ok i? d₁) :
    stepOver d = match i?.filter (·.mnemonic == .jr) with
      | some i => executeThen (Debugger.pc d + Instruction.size)
          (fun _ d' => jumpTo i (d₁.core.registers.tracked (.ofGpr (i.gpr .source))) d') d₁
      | none => executeThen (Debugger.pc d) (fun next d' => emit .stepped (moveTo next d')) d₁ := by
  have hget (d : Debugger) : (get : Request Debugger) d = .ok d d := rfl
  unfold stepOver
  rw [requireMemory_bind, if_pos hview, bind_apply, hget]
  simp only
  rw [bind_apply, hcurrent]
  simp only
  cases i?.filter (·.mnemonic == .jr) with
  | none => rfl
  | some i =>
    simp only
    rw [bind_apply, hget]
    rfl

/-- What a step executes, and what it does then. -/
theorem stepOver_eq {v : View Ram} (hv : d.core.view? = some v) {w : Word}
    (haligned : (Debugger.pc d).toNat % 4 = 0) (hw : v.backing.fetched (Debugger.pc d) = some w) :
    stepOver d =
      match (Instruction.decode? w).filter (·.mnemonic == .jr) with
      | some i => executeThen (Debugger.pc d + Instruction.size)
          (fun _ d' => jumpTo i (d.core.registers.tracked (.ofGpr (i.gpr .source))) d')
          (endState (currentInstruction d))
      | none => executeThen (Debugger.pc d) (fun next d' => emit .stepped (moveTo next d'))
          (endState (currentInstruction d)) := by
  -- The look at the next instruction only reports, so it leaves the registers.
  obtain ⟨entries, hcurrent⟩ := currentInstruction_eq hv haligned hw
  have hregisters : (d.onCore (Core.note · entries)).core.registers = d.core.registers :=
    d.core.registers_note entries
  rw [stepOver_of_current (Option.isSome_of_eq_some hv) hcurrent, hcurrent, endState, hregisters]

/-! ## A step as cycles -/

/-- The instructions that a step executes, a delay slot included. -/
def executed (d : Debugger) : List (Word × Option Instruction) :=
  match d.core.view? with
  | some v => Block.instructionsFrom v.backing.fetched 1 (Debugger.pc d)
  | none => []

/-- Where the machine begins a step: at the program counter, or behind a jump to a register. -/
def stepStart (d : Debugger) : Word :=
  if (executed d).head?.any (jumpsToRegister ·.2) then Debugger.pc d + Instruction.size
  else Debugger.pc d

/-- A step raises no exception, comes to no enabled breakpoint and not to an address, and its delay
slot does not transfer control. -/
structure Unhindered (address : Word) (d : Debugger) : Prop where
  /-- What the machine executes once the instruction is read completes. -/
  completes : ∃ target d', executeOne Session.observer (stepStart d) (endState (currentInstruction d)) =
    .ok target d'
  /-- No instruction is at the address. -/
  away : ∀ p ∈ executed d, p.1 ≠ address
  /-- No instruction has an enabled breakpoint. -/
  clear : ∀ p ∈ executed d, (session d).breakpoints.hasEnabled p.1 = false
  /-- The delay slot does not transfer control. -/
  slot : ∀ p ∈ (executed d).tail, p.2.any Instruction.hasDelaySlot = false

instance (address : Word) (d : Debugger) : Decidable (Unhindered address d) :=
  decidable_of_iff ((answer? (executeOne Session.observer (stepStart d)
      (endState (currentInstruction d)))).isSome = true ∧
    (∀ p ∈ executed d, p.1 ≠ address) ∧
    (∀ p ∈ executed d, (session d).breakpoints.hasEnabled p.1 = false) ∧
    ∀ p ∈ (executed d).tail, p.2.any Instruction.hasDelaySlot = false)
    ⟨fun ⟨hcompletes, haway, hclear, hslot⟩ =>
      ⟨isSome_answer?.mp hcompletes, haway, hclear, hslot⟩,
    fun h => ⟨isSome_answer?.mpr h.completes, h.away, h.clear, h.slot⟩⟩

/-- A single step leaves a debugger calm. -/
theorem Calm.executeOne (h : Calm d) {pc target : Word} {d' : Debugger}
    (hok : executeOne Session.observer pc d = .ok target d') (hinjector : d'.injector? = d.injector?) :
    Calm d' where
  injector? := hinjector.trans h.injector?
  disarmed := (keeps_executeOne Session.keeps_disarmed h.disarmed pc).of_ok hok
  zero := ((zero_executeOne Session.sparesZero pc d).of_ok hok).trans h.zero

/-- What a debugger asks for before an instruction without an enabled breakpoint. -/
theorem choose_unchecked (hinjector : d.injector? = some Session.injector) {a : Word}
    (h : (session d).breakpoints.hasEnabled a = false) (i? : Option Instruction) :
    d.choose a i? = .sync :: Session.follow a i? := by
  unfold Machine.choose
  rw [hinjector]
  exact Session.injector_unchecked h i?

/-- A single step asks for the actions that do not depend on breakpoints. -/
theorem admitted_single (hinjector : d.injector? = some Session.injector) (a : Word)
    (i? : Option Instruction) :
    Block.admitted .single d.choose a i? = .sync :: Session.follow a i? := by
  unfold Block.admitted Machine.choose
  rw [hinjector]
  exact Session.filter_injector _ a i?

/-- What is asked for before instructions depends on the breakpoints that are switched on. -/
theorem choose_congr {d d' : Debugger} (hinjector : d.injector? = some Session.injector)
    (hinjector' : d'.injector? = d.injector?)
    (h : ∀ a, (session d').breakpoints.hasEnabled a = (session d).breakpoints.hasEnabled a) :
    d'.choose = d.choose := by
  unfold Machine.choose
  rw [hinjector', hinjector]
  exact Session.injector_congr h

/-- An event changes nothing of what is injected. -/
theorem choose_emit (hinjector : d.injector? = some Session.injector) (event : Event) :
    (emit event d).choose = d.choose := by
  obtain ⟨notices, listeners, events, heq⟩ := emit_eq event d
  rw [heq]
  exact choose_congr hinjector rfl fun _ => rfl

/-- To move on changes nothing of what is injected. -/
theorem choose_moveTo (hinjector : d.injector? = some Session.injector)
    (hd : (session d).Disarmed) (target : Word) : (moveTo target d).choose = d.choose :=
  choose_congr hinjector rfl fun _ => (hd.agree_moveTo everywhere target).hasEnabled trivial

/-- What a step and cycles lead to: the same place, up to what is known of breakpoints elsewhere. -/
structure Arrives (P : Word → Prop) (d d' : Debugger) (p : Place) (g : Guest Session) : Prop where
  /-- The program is where the debugger says. -/
  place : p = .entry (Debugger.pc d')
  /-- The debugger agrees with the program. -/
  like : g.Like (Session.Agree P) d'.guest
  /-- The debugger is calm. -/
  calm : Calm d'
  /-- The same breakpoints are switched on. -/
  choose : d'.choose = d.choose

/-- Where a step leads to does not depend on more than what is injected. -/
theorem Arrives.congr {d₁ d₂ d' : Debugger} {p : Place} {g : Guest Session}
    (h : Arrives P d₁ d' p g) (hchoose : d₁.choose = d₂.choose) : Arrives P d₂ d' p g :=
  ⟨h.place, h.like, h.calm, h.choose.trans hchoose⟩

/-- A step over any other instruction than a jump to a register. -/
theorem cycles_of_executeThen (hd : Calm d) {choose : Word → Option Instruction → List Action}
    {g : Guest Session} (h : g.Like (Session.Agree P) d.guest) {v : View Ram}
    (hv : d.core.view? = some v)
    (hchoose : ∀ p ∈ Block.instructionsFrom v.backing.fetched 1 (Debugger.pc d),
      choose p.1 p.2 = .sync :: Session.follow p.1 p.2)
    {target : Word} {d₂ : Debugger}
    (hok : Machine.executeOne Session.observer (Debugger.pc d) d = .ok target d₂) :
    ∃ n p g', g.cycles Session.observer choose n (.entry (Debugger.pc d)) = .ok p g' ∧
      Arrives P d (emit .stepped (moveTo target d₂)) p g' := by
  obtain ⟨v', w, hv', haligned, hw⟩ := fetched_of_executeOne hok
  obtain rfl := Option.some.inj (hv.symm.trans hv')
  -- A single step checks no breakpoint, and neither do the actions these cycles are given.
  have hact : ∀ p ∈ Block.instructionsFrom v.backing.fetched 1 (Debugger.pc d),
      ∀ g g' : Guest Session, g.Like (Session.Agree P) g' →
        Alike (Guest.Like (Session.AgreeHere P))
          (g.actAll Session.observer p.1 (choose p.1 p.2))
          (g'.actAll Session.observer p.1 (Block.admitted .single d.choose p.1 p.2)) := by
    intro p hp g g' hg
    rw [hchoose p hp, admitted_single hd.injector?]
    exact Session.alike_actAll_unchecked hg p.1 p.2
  have halike := cycles_alike_executeOne (Session.respects_agreeHere P).writesAlike (fun _ _ h => h.toAgree)
    (hd.injector? ▸ Session.steady) h (h.core.view?.trans hv) haligned hw hact
  obtain ⟨_, g', _, hcycles, hr, hlike, hinjector, hchoose'⟩ | ⟨_, _, _, -, hr, -⟩ :=
    halike.exists_eq_map
  · cases hok.symm.trans hr
    have hcalm : Calm d₂ := hd.executeOne hok hinjector
    refine ⟨_, _, g', hcycles, ?_, like_emit (like_moveTo hlike hcalm.disarmed target) _,
      (hcalm.moveTo target).emit _, ?_⟩
    · rw [pc_emit, pc_moveTo]
    · rw [choose_emit (hcalm.moveTo target).injector?, choose_moveTo hcalm.injector? hcalm.disarmed,
        hchoose']
  · cases hok.symm.trans hr

/-- A jump to a register has a delay slot. -/
theorem hasDelaySlot_of_jr {i : Instruction} (hjr : i.mnemonic = .jr) : i.hasDelaySlot = true := by
  rw [Instruction.hasDelaySlot, hjr]
  rfl

/-- A jump to a register is a return if the register is that of the return address. -/
theorem isReturn_iff {i : Instruction} (hi : i.mnemonic = .jr) :
    i.isReturn = true ↔ Tracked.ofGpr (i.gpr .source) = .returnAddress := by
  obtain ⟨m, raw⟩ := i
  subst hi
  have hget : (⟨.jr, raw⟩ : Instruction).get? .source = some (Word.bits raw 21 5) := rfl
  have hlt : (Word.bits raw 21 5).toNat < 32 := by
    rw [Word.toNat_bits raw (by omega) (by omega)]
    exact Nat.mod_lt _ (by decide)
  -- Both sides say that the register field is 31.
  have hreturn : (⟨.jr, raw⟩ : Instruction).isReturn = true ↔ Word.bits raw 21 5 = 31 := by
    simp only [Instruction.isReturn, hget, beq_self_eq_true, Bool.true_and, beq_iff_eq,
      Option.some.injEq]
  have hsource : Tracked.ofGpr ((⟨.jr, raw⟩ : Instruction).gpr .source) = .returnAddress ↔
      (Word.bits raw 21 5).toNat = 31 := by
    simp only [Tracked.ofGpr, Instruction.gpr, Instruction.getD, hget, Option.getD_some, Fin.ext_iff,
      Fin.val_ofNat, Nat.mod_eq_of_lt hlt]
    rfl
  rw [hreturn, hsource]
  exact UInt32.toNat_inj.symm

/-- A session that has left the routine that a jump to a register may return from. -/
def left (i : Instruction) (s : Session) : Session :=
  { s with frames :=
      if Tracked.ofGpr (i.gpr .source) = .returnAddress then s.frames.tail else s.frames }

/-- The actions before a jump to a register leave the routine if it is a return. -/
theorem actAll_jumpsToRegister {i : Instruction} (hjr : i.mnemonic = .jr) (a : Word)
    (g : Guest Session) :
    ∃ g', g.actAll Session.observer a (.sync :: Session.follow a (some i)) = .ok () g' ∧
      g'.Like (fun s s' => s.Agree P (left i s')) g := by
  have hcall : i.isCall = false := by
    rw [Instruction.isCall, hjr]
    rfl
  have hfollow : Session.follow a (some i) =
      if Tracked.ofGpr (i.gpr .source) = .returnAddress then [.leave] else [] := by
    simp only [Session.follow, hcall, Bool.false_eq_true, if_false, isReturn_iff hjr]
  have hself := Core.Agree.refl g.core
  rw [hfollow, Session.actAll_sync]
  unfold left
  by_cases hreturn : Tracked.ofGpr (i.gpr .source) = .returnAddress
  · simp only [if_pos hreturn]
    exact ⟨_, rfl, hself.heed_heed _ [], rfl, rfl, fun _ _ => rfl⟩
  · simp only [if_neg hreturn]
    exact ⟨_, rfl, hself, rfl, rfl, fun _ _ => rfl⟩

/-- What a jump to a register transfers control to. -/
theorem perform_jumpRegister (r : Gpr) (a : Word) (g : Guest Session) :
    ∃ transfer entries, g.perform Session.observer a (.jumpRegister r) =
      .ok (.jump (g.core.registers.value (.ofGpr r)) transfer)
        ⟨g.core.note entries, g.context⟩ := by
  obtain ⟨entries, hnotes⟩ := Guest.noteReads_eq (.jumpRegister r) g
  have hvalue : Operation.gpr (g.core.note entries).registers r =
      g.core.registers.value (.ofGpr r) := by
    rw [Core.registers_note]
    rfl
  refine ⟨if Tracked.ofGpr r = .returnAddress then .leave else .plain, entries, ?_⟩
  simp only [Guest.perform, hnotes, Operation.effect, hvalue, List.foldl_nil]

/-- A cycle over a jump to a register. -/
theorem cycle_jumpsToRegister {choose : Word → Option Instruction → List Action} {g : Guest Session}
    {v : View Ram} (hv : g.core.view? = some v) {a w w' : Word} (ha : a.toNat % 4 = 0)
    (hw : v.backing.fetched a = some w) (hslot : v.backing.fetched (a + Instruction.size) = some w')
    {i : Instruction} (hi : Instruction.decode? w = some i) (hjr : i.mnemonic = .jr)
    (hchoose : choose a (some i) = .sync :: Session.follow a (some i)) :
    ∃ g', g.cycle Session.observer choose (.entry a) =
        .ok ⟨a + Instruction.size, some (g.core.registers.value (.ofGpr (i.gpr .source)))⟩ g' ∧
      g'.Like (fun s s' => s.Agree P (left i s')) g := by
  have hcycle : g.cycle Session.observer (Block.admitted .block choose) (.entry a) = _ :=
    Block.cycle_entry hv ha hw
  have hany : (some i).any Instruction.hasDelaySlot = true := hasDelaySlot_of_jr hjr
  rw [Block.admitted_block, hi, Block.slotBehind_eq_true hany hslot] at hcycle
  obtain ⟨g₁, hacts, hlike⟩ := actAll_jumpsToRegister (P := P) hjr a g
  obtain ⟨transfer, entries, hperform⟩ := perform_jumpRegister (i.gpr .source) a g₁
  have hactions : (Block.stepFor choose .block (a, some i)).actions =
      .sync :: Session.follow a (some i) :=
    (congrFun (congrFun (Block.admitted_block choose) a) (some i)).trans hchoose
  have hop : i.operation a = .jumpRegister (i.gpr .source) := by
    obtain ⟨m, raw⟩ := i
    cases hjr
    rfl
  -- The actions leave the registers alone, so the target is what the register held before.
  have hrun : (Block.stepFor choose .block (a, some i)).run Session.observer g =
      .ok (.jump (g₁.core.registers.value (.ofGpr (i.gpr .source))) transfer)
        ⟨g₁.core.note entries, g₁.context⟩ := by
    unfold Step.run
    rw [bind_apply, hactions]
    simp only [Block.stepFor, hacts, Operation.ofInstruction?, hop, hperform]
  rw [hrun, hlike.core.registers] at hcycle
  exact ⟨_, hcycle, hlike.core.note entries [], hlike.context⟩

/-- Where control is not transferred, no routine is entered or left. -/
theorem follow_eq_nil {i? : Option Instruction} (h : i?.any Instruction.hasDelaySlot = false)
    (a : Word) : Session.follow a i? = [] := by
  cases i? with
  | none => rfl
  | some i =>
    obtain ⟨m, raw⟩ := i
    cases m <;> first
      | rfl
      | cases h

/-- A jump to a register moves on, may leave a routine, and shows to listeners. -/
theorem jumpTo_eq (i : Instruction) (target : Word) (d : Debugger) :
    ∃ (notices : List Notice) (listeners : Listeners) (events : Array StepInfo), jumpTo i target d =
      ⟨⟨notices.foldl Core.heed d.core,
        { left i ((session d).moveTo target) with listeners, events }⟩, d.blocks, d.injector?⟩ := by
  unfold jumpTo left
  by_cases hreturn : Tracked.ofGpr (i.gpr .source) = .returnAddress
  · simp only [if_pos hreturn]
    obtain ⟨notices, listeners, events, heq⟩ := emit_eq .steppedOut
      ((moveTo target d).onContext fun s => { s with frames := s.frames.tail })
    obtain ⟨notices', listeners', events', heq'⟩ := emit_eq .stepped (leaveFrame (moveTo target d))
    refine ⟨notices ++ notices', listeners', events', ?_⟩
    rw [heq', leaveFrame, heq, List.foldl_append]
    rfl
  · simp only [if_neg hreturn]
    exact emit_eq .stepped (moveTo target d)

/-- Sessions that agree leave a routine alike. -/
theorem agree_left {s s' : Session} (h : s.Agree P s') (i : Instruction) :
    (left i s).Agree P (left i s') := by
  refine ⟨?_, h.trace, h.force⟩
  simp only [left, h.frames]

/-- A session that has left a routine is watched like one that has yet to leave it. -/
theorem writesAlike_left (i : Instruction) :
    Session.observer.WritesAlike (fun _ _ => True) fun s s' => s.AgreeHere P (left i s') :=
  Observer.writesAlike_of_registers fun s s' f t w h =>
    (Session.respects_agreeHere P).write s (left i s') f t w h

/-- The delay slot of a jump to a register does the same before the routine is left and behind
that. -/
theorem cycle_of_executeOne (hd : Calm d) {choose : Word → Option Instruction → List Action}
    {i : Instruction} {g : Guest Session}
    (h : g.Like (fun s s' => s.Agree P (left i s')) d.guest) {v : View Ram}
    (hv : d.core.view? = some v) {a w : Word} (ha : a.toNat % 4 = 0)
    (hw : v.backing.fetched a = some w)
    (hdelay : (Instruction.decode? w).any Instruction.hasDelaySlot = false)
    (hchoose : choose a (Instruction.decode? w) = .sync :: Session.follow a (Instruction.decode? w))
    {target : Word} {d₂ : Debugger}
    (hok : Machine.executeOne Session.observer a d = .ok target d₂) :
    ∃ g₂, g.cycle Session.observer choose (.entry a) = .ok (.entry target) g₂ ∧
      g₂.Like (fun s s' => s.Agree P (left i s')) d₂.guest ∧ d₂.injector? = d.injector? ∧
      d₂.choose = d.choose := by
  have his : Block.instructionsFrom v.backing.fetched 1 a = [(a, Instruction.decode? w)] := by
    rw [Block.instructionsFrom_one hw, hdelay]
    rfl
  -- Before the slot nothing is told but its address.
  have hact : ∀ p ∈ Block.instructionsFrom v.backing.fetched 1 a,
      ∀ g g' : Guest Session, g.Like (fun s s' => s.Agree P (left i s')) g' →
        Alike (Guest.Like fun s s' => s.AgreeHere P (left i s'))
          (g.actAll Session.observer p.1 (choose p.1 p.2))
          (g'.actAll Session.observer p.1 (Block.admitted .single d.choose p.1 p.2)) := by
    intro p hp g g' hg
    rw [his] at hp
    obtain rfl := List.mem_singleton.mp hp
    simp only [hchoose, admitted_single hd.injector?, follow_eq_nil hdelay a, Session.actAll_sync]
    exact .ok () ⟨hg.core, hg.context.sync a⟩
  have halike := cycles_alike_executeOne (writesAlike_left i) (fun _ _ h => h.toAgree)
    (hd.injector? ▸ Session.steady) h (h.core.view?.trans hv) ha hw hact
  rw [his, List.length_singleton, Guest.cycles_one] at halike
  obtain ⟨_, g₂, _, hcycle, hr, hkept⟩ | ⟨_, _, _, -, hr, -⟩ := halike.exists_eq_map
  · cases hok.symm.trans hr
    exact ⟨g₂, hcycle, hkept⟩
  · cases hok.symm.trans hr

/-- Where the cycles of a jump to a register and of its delay slot arrive, the debugger arrives that
carries the jump out itself, once the slot is executed. -/
theorem arrives_jumpTo {d₂ : Debugger} (hd₂ : Calm d₂) {i : Instruction}
    {g : Guest Session} (h : g.Like (fun s s' => s.Agree P (left i s')) d₂.guest)
    (hchoose : d₂.choose = d.choose) (back : Word) :
    Arrives P d (jumpTo i back d₂) (.entry back) g := by
  obtain ⟨notices, listeners, events, heq⟩ := jumpTo_eq i back d₂
  have hcontext := h.context.trans (agree_left (hd₂.disarmed.agree_moveTo P back).symm i)
  rw [heq]
  exact {
    place := congrArg Place.entry (pc_moveTo back d₂).symm
    like := ⟨h.core.heed_heed [] notices, hcontext.frames, hcontext.trace, hcontext.force⟩
    calm := ⟨hd₂.injector?, hd₂.disarmed.moveTo back, (Core.zero_heed _ _).trans hd₂.zero⟩
    choose := by
      rw [← hchoose]
      exact choose_congr hd₂.injector? rfl fun a =>
        (hd₂.disarmed.agree_moveTo everywhere back).hasEnabled trivial }

/-- A step over a jump to a register. -/
theorem cycles_of_jumpTo (hd : Calm d) {choose : Word → Option Instruction → List Action}
    {g : Guest Session} (h : g.Like (Session.Agree P) d.guest) {v : View Ram}
    (hv : d.core.view? = some v) {w w' : Word} (hw : v.backing.fetched (Debugger.pc d) = some w)
    (hslot : v.backing.fetched (Debugger.pc d + Instruction.size) = some w') {i : Instruction}
    (hi : Instruction.decode? w = some i) (hjr : i.mnemonic = .jr)
    (ha : (Debugger.pc d).toNat % 4 = 0)
    (hdelay : (Instruction.decode? w').any Instruction.hasDelaySlot = false)
    (hchoose : choose (Debugger.pc d) (some i) = .sync :: Session.follow (Debugger.pc d) (some i))
    (hchoose' : choose (Debugger.pc d + Instruction.size) (Instruction.decode? w') =
      .sync :: Session.follow (Debugger.pc d + Instruction.size) (Instruction.decode? w'))
    {target : Word} {d₂ : Debugger}
    (hok : Machine.executeOne Session.observer (Debugger.pc d + Instruction.size) d =
      .ok target d₂) :
    ∃ p g', g.cycles Session.observer choose 2 (.entry (Debugger.pc d)) = .ok p g' ∧
      Arrives P d (jumpTo i (d.core.registers.tracked (.ofGpr (i.gpr .source))) d₂) p g' := by
  have hview : g.core.view? = some v := h.core.view?.trans hv
  obtain ⟨g₁, hfirst, hlike₁⟩ := cycle_jumpsToRegister (P := P) hview ha hw hslot hi hjr hchoose
  have hvalue : g.core.registers.value (.ofGpr (i.gpr .source)) =
      d.core.registers.tracked (.ofGpr (i.gpr .source)) := by
    rw [h.core.registers, RegisterFile.value]
    split
    · next hzero =>
      rw [hzero]
      exact hd.zero.symm
    · rfl
  rw [hvalue] at hfirst
  -- The delay slot runs in the debugger before the routine is left, in the program behind it.
  have hlike : g₁.Like (fun s s' => s.Agree P (left i s')) d.guest :=
    hlike₁.trans h fun _ _ _ h h' => h.trans (agree_left h' i)
  have hnext := Block.toNat_add_size _ ha
  obtain ⟨g₂, hsecond, hlike₂, hinjector, hchoose₂⟩ :=
    cycle_of_executeOne hd hlike hv hnext hslot hdelay hchoose' hok
  have hcalm : Calm d₂ := hd.executeOne hok hinjector
  generalize d.core.registers.tracked (.ofGpr (i.gpr .source)) = back at hfirst ⊢
  have hbehind := Guest.cycle_behind (hlike.core.view?.trans hv) hnext hslot hdelay hsecond back
  refine ⟨.entry back, g₂, ?_, arrives_jumpTo hcalm hlike₂ hchoose₂ back⟩
  rw [Guest.cycles_succ, hfirst]
  simp only
  rw [Guest.cycles_one]
  exact hbehind

/-- An unhindered step finds an instruction at the program counter, and what it executes. -/
theorem Unhindered.fetched {address : Word} (h : Unhindered address d) :
    ∃ v w, d.core.view? = some v ∧ (Debugger.pc d).toNat % 4 = 0 ∧
      v.backing.fetched (Debugger.pc d) = some w ∧ (v.backing.fetched (stepStart d)).isSome = true ∧
      executed d = Block.instructionsFrom v.backing.fetched 1 (Debugger.pc d) := by
  obtain ⟨target, d₂, hok⟩ := h.completes
  obtain ⟨v, w₁, hv, haligned, hw₁⟩ := fetched_of_executeOne hok
  rw [view?_currentInstruction] at hv
  have hexecuted : executed d = Block.instructionsFrom v.backing.fetched 1 (Debugger.pc d) := by
    simp only [executed, hv]
  -- Stepping over a register jump begins at its slot, which is aligned exactly if the jump is.
  have hsome : (v.backing.fetched (Debugger.pc d)).isSome = true ∧ (Debugger.pc d).toNat % 4 = 0 := by
    have hstart := hw₁
    unfold stepStart at haligned hstart
    split at haligned
    · next hjump =>
      refine ⟨?_, ?_⟩
      · rw [← Option.ne_none_iff_isSome]
        intro hnone
        simp only [hexecuted, Block.instructionsFrom, hnone, List.head?_nil, Option.any_none,
          Bool.false_eq_true] at hjump
      · rw [UInt32.toNat_add] at haligned
        change ((Debugger.pc d).toNat + 4) % 2 ^ 32 % 4 = 0 at haligned
        omega
    · next hjump =>
      rw [if_neg hjump] at hstart
      exact ⟨Option.isSome_of_eq_some hstart, haligned⟩
  obtain ⟨hsome, ha⟩ := hsome
  obtain ⟨w, hw⟩ := Option.isSome_iff_exists.mp hsome
  exact ⟨v, w, hv, ha, hw, Option.isSome_of_eq_some hw₁, hexecuted⟩

/-- An unhindered step executes the instruction at the program counter. -/
theorem Unhindered.mem_executed {address : Word} (h : Unhindered address d) :
    ∃ i?, (Debugger.pc d, i?) ∈ executed d := by
  obtain ⟨v, w, -, -, hw, -, hexecuted⟩ := h.fetched
  refine ⟨Instruction.decode? w, ?_⟩
  rw [hexecuted, Block.instructionsFrom_one hw]
  exact List.mem_cons_self ..

/-- Where a step begins is decided by the word at the program counter. -/
theorem stepStart_eq {v : View Ram} (hv : d.core.view? = some v) {w : Word}
    (hw : v.backing.fetched (Debugger.pc d) = some w) :
    stepStart d = if jumpsToRegister (Instruction.decode? w) then Debugger.pc d + Instruction.size
      else Debugger.pc d := by
  simp only [stepStart, executed, hv, Block.instructionsFrom_one hw, List.head?_cons,
    Option.any_some]

/-- An instruction that is not `jr` does not jump to a register. -/
theorem jumpsToRegister_eq_false {i? : Option Instruction}
    (h : i?.filter (·.mnemonic == .jr) = none) : jumpsToRegister i? = false := by
  rw [jumpsToRegister, ← Bool.not_eq_true, Option.any_eq_true]
  rintro ⟨i, hi, hjr⟩
  exact Option.filter_eq_none_iff.mp h i hi hjr

/-- An unhindered step does what cycles do whose breakpoints act alike elsewhere. -/
theorem cycles_of_stepOver {address : Word} (hd : Calm d) (hstep : Unhindered address d)
    {choose : Word → Option Instruction → List Action}
    (hchoose : ∀ a, a ≠ address → ∀ i?, choose a i? = d.choose a i?) {g : Guest Session}
    (h : g.Like (Session.Agree (· ≠ address)) d.guest) :
    ∃ d', stepOver d = .ok () d' ∧ ∃ n p g',
      g.cycles Session.observer choose n (.entry (Debugger.pc d)) = .ok p g' ∧
        Arrives (· ≠ address) d d' p g' := by
  obtain ⟨target, d₂, hok⟩ := hstep.completes
  obtain ⟨v, w, hv, ha, hw, hsome, hexecuted⟩ := hstep.fetched
  have hunchecked : ∀ p ∈ Block.instructionsFrom v.backing.fetched 1 (Debugger.pc d),
      choose p.1 p.2 = .sync :: Session.follow p.1 p.2 := fun p hp => by
    rw [← hexecuted] at hp
    rw [hchoose p.1 (hstep.away p hp), choose_unchecked hd.injector? (hstep.clear p hp)]
  have heq := stepOver_eq hv ha hw
  have hstart := stepStart_eq hv hw
  -- Reading the instruction shows in the log only.
  obtain ⟨entries, hcurrent⟩ := currentInstruction_eq hv ha hw
  rw [hcurrent, endState] at hok heq
  have hd₁ : Calm (d.onCore (Core.note · entries)) := hd.note entries
  have hlike : g.Like (Session.Agree (· ≠ address)) (d.onCore (Core.note · entries)).guest :=
    ⟨h.core.note [] entries, h.context⟩
  have hv₁ : (d.onCore (Core.note · entries)).core.view? = some v := (d.core.view?_note _).trans hv
  have hregisters : (d.onCore (Core.note · entries)).core.registers = d.core.registers :=
    d.core.registers_note entries
  cases hjump : (Instruction.decode? w).filter (·.mnemonic == .jr) with
  | none =>
    rw [jumpsToRegister_eq_false hjump, if_neg Bool.false_ne_true] at hstart
    rw [hstart] at hok
    obtain ⟨n, p, g', hcycles, harrives⟩ := cycles_of_executeThen hd₁ hlike hv₁ hunchecked hok
    refine ⟨_, ?_, n, p, g', hcycles, harrives.congr rfl⟩
    rw [heq]
    simp only [hjump, executeThen, hok]
  | some i =>
    obtain ⟨hi, hjr⟩ := Option.filter_eq_some_iff.mp hjump
    have hjr : i.mnemonic = .jr := beq_iff_eq.mp hjr
    have hjumps : jumpsToRegister (Instruction.decode? w) = true := by
      rw [hi]
      exact beq_iff_eq.mpr hjr
    rw [hjumps, if_pos rfl] at hstart
    rw [hstart] at hok hsome
    obtain ⟨w₁, hw₁⟩ := Option.isSome_iff_exists.mp hsome
    -- What the step executes is the jump and its delay slot.
    have hboth : Block.instructionsFrom v.backing.fetched 1 (Debugger.pc d) =
        [(Debugger.pc d, some i), (Debugger.pc d + Instruction.size, Instruction.decode? w₁)] := by
      rw [Block.instructionsFrom_one hw, hi, hw₁, Option.any_some, hasDelaySlot_of_jr hjr]
      rfl
    have hslot := hstep.slot
    rw [hexecuted, hboth] at hslot
    rw [hboth] at hunchecked
    obtain ⟨p, g', hcycles, harrives⟩ := cycles_of_jumpTo hd₁ hlike hv₁ hw hw₁ hi hjr ha
      (hslot _ (List.mem_singleton_self _)) (hunchecked _ (List.mem_cons_self ..))
      (hunchecked _ (List.mem_cons_of_mem _ (List.mem_singleton_self _))) hok
    rw [hregisters] at harrives
    refine ⟨_, ?_, 2, p, g', hcycles, harrives.congr rfl⟩
    rw [heq]
    simp only [hjump, executeThen, hok]

/-- A debugger after a number of steps. -/
def steps : Nat → Debugger → Debugger
  | 0, d => d
  | n + 1, d => steps n (endState (stepOver d))

/-- Unhindered steps do what cycles do whose breakpoints act alike elsewhere. -/
theorem cycles_of_steps {address : Word} {n : Nat} (hd : Calm d)
    (hsteps : ∀ k < n, Unhindered address (steps k d))
    {choose : Word → Option Instruction → List Action}
    (hchoose : ∀ a, a ≠ address → ∀ i?, choose a i? = d.choose a i?) {g : Guest Session}
    (h : g.Like (Session.Agree (· ≠ address)) d.guest) :
    ∃ count p g', g.cycles Session.observer choose count (.entry (Debugger.pc d)) = .ok p g' ∧
      Arrives (· ≠ address) d (steps n d) p g' := by
  -- Along the steps: behind each one the debugger is calm again and chooses the same actions.
  induction n generalizing d g with
  | zero => exact ⟨0, _, g, rfl, rfl, h, hd, rfl⟩
  | succ n ih =>
    obtain ⟨d₁, hstep, count, p, g₁, hcycles, harrives⟩ :=
      cycles_of_stepOver hd (hsteps 0 (by omega)) hchoose h
    have hnext (k : Nat) : steps (k + 1) d = steps k d₁ := by
      rw [steps, hstep, endState]
    obtain rfl := harrives.place
    obtain ⟨count', p', g₂, hcycles', harrives'⟩ := ih harrives.calm
      (fun k hk => hnext k ▸ hsteps (k + 1) (by omega))
      (fun a ha i? => (hchoose a ha i?).trans (congrFun (congrFun harrives.choose a) i?).symm)
      harrives.like
    refine ⟨count + count', p', g₂, ?_, ?_⟩
    · rw [Guest.cycles_add, bind_apply, hcycles]
      exact hcycles'
    · rw [hnext n]
      exact ⟨harrives'.place, harrives'.like, harrives'.calm, harrives'.choose.trans harrives.choose⟩

end Debugger

end MipsMonitor.Debug
