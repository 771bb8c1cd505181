import MipsMonitor.Proofs.Machine.Instants
import MipsMonitor.Proofs.Debug.SteppingInto

/-!
# Who wrote which register

The writes to watched registers, in order, each with its value and the address of the instruction
that made it, or the program counter at which the host made it (`Writing`). What is executed at a
time has its writes (`Turn.writings`), and so have a command and a history of commands
(`historyWritings`).

Between two states of a debugger the last write to a register in such a log decides what the register
holds, and whom the session names as its last writer (`Recorded`). This holds of a single instruction
because its address is told before it takes effect (`Session.recorded_run`), hence of whatever the
machine executes, and of the writes that the debugger makes itself.
-/

namespace MipsMonitor

/-- A write to a watched register. -/
structure Writing where
  /-- The register. -/
  register : Tracked
  /-- What is written. -/
  value : Word
  /-- The address of the instruction that writes it, or the program counter if the host does. -/
  pc : Word
deriving DecidableEq, Repr

/-- The last write to a register. -/
def Writing.last? (t : Tracked) (log : List Writing) : Option Writing :=
  (log.filter (·.register = t)).getLast?

/-- The writes of an instruction. One to the register that is always zero is among them, although it is
dropped. -/
def Instant.writings {σ : Type} (i : Instant σ) : List Writing :=
  match i.effect with
  | .ok e => e.writes.map fun (t, w) => ⟨t, w, i.address⟩
  | .error _ => []

namespace Debug

open Machine

/-- From one guest to the other, the registers were written as a log says, and the session recorded
it. The register that is always zero is not looked at. -/
def Recorded (log : List Writing) (g g' : Guest Session) : Prop :=
  ∀ t : Tracked, t ≠ .zero →
    g'.context.trace.get t = ((Writing.last? t log).map (·.pc)).getD (g.context.trace.get t) ∧
      g'.core.registers.tracked t =
        ((Writing.last? t log).map (·.value)).getD (g.core.registers.tracked t)

namespace Recorded

variable {log log' : List Writing} {g g' g'' : Guest Session}

/-- Nothing was written where the trace and the watched registers are the same. -/
theorem of_eq (htrace : g'.context.trace = g.context.trace)
    (hregisters : ∀ t, g'.core.registers.tracked t = g.core.registers.tracked t) :
    Recorded [] g g' := by
  intro t _
  rw [htrace, hregisters]
  exact ⟨rfl, rfl⟩

/-- If nothing happens nothing is written. -/
theorem refl (g : Guest Session) : Recorded [] g g := of_eq rfl fun _ => rfl

/-- Nothing was written between guests that are alike to instructions. -/
theorem of_like {R : Session → Session → Prop} (h : g.Like R g')
    (hR : ∀ s s', R s s' → s.trace = s'.trace) : Recorded [] g g' :=
  of_eq (hR _ _ h.context).symm fun _ => by rw [h.core.registers]

/-- Of two logs one behind the other, the first one tells who wrote what the second one does not
mention. -/
theorem trans (h : Recorded log g g') (h' : Recorded log' g' g'') :
    Recorded (log ++ log') g g'' := by
  intro t ht
  obtain ⟨htrace, hvalue⟩ := h t ht
  obtain ⟨htrace', hvalue'⟩ := h' t ht
  have hlast : Writing.last? t (log ++ log') = (Writing.last? t log').or (Writing.last? t log) := by
    rw [Writing.last?, List.filter_append, List.getLast?_append]
    rfl
  rw [htrace', hvalue', htrace, hvalue, hlast]
  cases Writing.last? t log' <;> exact ⟨rfl, rfl⟩

/-- Behind a log nothing more was written. -/
theorem append_nil (h : Recorded log g g') (h' : Recorded [] g' g'') : Recorded log g g'' :=
  List.append_nil log ▸ h.trans h'

/-- Before a log nothing was written. -/
theorem nil_append (h : Recorded [] g g') (h' : Recorded log g' g'') : Recorded log g g'' :=
  h.trans h'

/-- The trace names the writer of one register anew. -/
theorem get_trace_set (writers : WriteTrace) (t s : Tracked) (pc : Word) :
    (writers.set t.val pc t.isLt).get s = if t = s then pc else writers.get s := by
  change (writers.set t.val pc t.isLt)[s.val] = if t = s then pc else writers[s.val]
  rw [Vector.getElem_set]
  simp only [Fin.ext_iff]

/-- A word that is left in a register is put down to the instruction that leaves it. -/
theorem leave (pc : Word) (t : Tracked) (w : Word) (g : Guest Session) :
    Recorded [⟨t, w, pc⟩] g (leave pc t w g) := by
  unfold Debug.leave
  intro s hs
  split
  · next ht =>
    -- A write to the register that is always zero is none to any other.
    have hne : ¬ t = s := fun h => hs (h ▸ ht)
    simp [Writing.last?, hne]
  · next ht =>
    by_cases hts : t = s
    · subst hts
      simp [Writing.last?, linked, Session.recordAt, get_trace_set, ht]
    · simp [Writing.last?, linked, Session.recordAt, get_trace_set, hts]

end Recorded

/-! ## What the machine executes -/

namespace Session

variable {g : Guest Session} {pc : Word}

/-- Writes that are told at an address are put down to it. -/
theorem recorded_writes (hpc : g.context.pc = pc) (writes : List (Tracked × Word)) :
    Recorded (writes.map fun (t, w) => ⟨t, w, pc⟩) g
      (writes.foldl (fun g (t, w) => g.write observer t w) g) := by
  induction writes generalizing g with
  | nil => exact .refl g
  | cons tw writes ih =>
    obtain ⟨t, w⟩ := tw
    have hfirst : Recorded [⟨t, w, pc⟩] g (g.write observer t w) := by
      rw [write_eq_leave, hpc]
      exact .leave pc t w g
    have hpc' : (g.write observer t w).context.pc = pc := by
      rw [write_eq_leave, leave]
      split <;> exact hpc
    exact hfirst.trans (ih hpc')

/-- Writes to registers of the coprocessors are not recorded. -/
theorem recorded_set (g : Guest Session) {r : Register} (hbank : r.bank.OfCoprocessor) (w : Word) :
    Recorded [] g ⟨{ g.core with registers := g.core.registers.set r w }, g.context⟩ :=
  .of_eq rfl fun t => g.core.registers.tracked_set w hbank t

/-- A report writes no register. -/
theorem recorded_note (g : Guest Session) (entries : List Entry) :
    Recorded [] g ⟨g.core.note entries, g.context⟩ :=
  .of_like (R := (· = ·)) (g.like_note entries) fun _ _ h => h ▸ rfl

/-- Writing a register for system control writes no watched register. -/
theorem recorded_writeSystem (g : Guest Session) (index : Nat) (w : Word) :
    Recorded [] g ⟨g.core.writeSystem index w, g.context⟩ := by
  refine .of_eq rfl fun t => ?_
  unfold Core.writeSystem
  split
  · simp only [Core.report, Core.registers_note]
    exact g.core.registers.tracked_set w Bank.ofCoprocessor_cop0 t
  · simp only [Core.report, Core.registers_note]

/-- A trap writes no watched register. -/
theorem recorded_trap (t : Trap) (g : Guest Session) :
    Leads (Recorded [] g) (g.trap t) := by
  refine Recorded.of_eq rfl fun _ => ?_
  simp only
  split <;> rfl

/-- A store writes no register. -/
theorem recorded_store (g : Guest Session) (pc a : Word) (bs : List UInt8) (flow : Flow) :
    Leads (Recorded [] g) (g.change pc (.store a bs) flow) := by
  obtain ⟨⟨registers, view?, stopped, ticks, sink, written, log⟩, context⟩ := g
  have hregisters : Leads (fun c' => c'.registers = registers)
      (Core.store a bs ⟨registers, view?, stopped, ticks, sink, written, log⟩) := by
    cases view? with
    | none => exact rfl
    | some v =>
      simp only [Core.store, Core.poke]
      cases ByteMemory.writeBytes a bs v <;> exact Core.registers_note _ _
  simp only [Guest.change]
  cases hs : Core.store a bs ⟨registers, view?, stopped, ticks, sink, written, log⟩ with
  | ok u c =>
    rw [hs] at hregisters
    exact .of_eq rfl fun t => congrArg (·.tracked t) hregisters
  -- A store that is refused traps, and the trap writes system registers only.
  | error e c =>
    rw [hs] at hregisters
    have hstored : Recorded [] ⟨⟨registers, view?, stopped, ticks, sink, written, log⟩, context⟩
        ⟨c, context⟩ := .of_eq rfl fun t => congrArg (·.tracked t) hregisters
    exact (recorded_trap (e.trap pc) ⟨c, context⟩).mono fun _ h => hstored.nil_append h

/-- An operation that takes effect at the address told last is recorded. -/
theorem recorded_perform (hpc : g.context.pc = pc) (i? : Option Instruction) :
    Leads (Recorded (Instant.writings ⟨g, pc, .ofInstruction? i? pc⟩) g)
      (g.perform observer pc (.ofInstruction? i? pc)) := by
  obtain ⟨entries, hnotes⟩ := Guest.noteReads_eq (.ofInstruction? i? pc) g
  have hnoted := recorded_note g entries
  simp only [Guest.perform, hnotes, Core.registers_note, Core.view?_note, Instant.writings,
    Instant.effect]
  cases he : (Operation.ofInstruction? i? pc).effect pc g.core.registers g.core.view? with
  | error t => exact (recorded_trap t _).mono fun _ h => hnoted.nil_append h
  | ok e =>
    have hwritten := hnoted.nil_append
      (recorded_writes (g := ⟨g.core.note entries, g.context⟩) hpc e.writes)
    simp only
    generalize List.foldl _ _ e.writes = g₁ at hwritten ⊢
    -- What else changes is no watched register.
    cases hchange : e.change? with
    | none => exact hwritten
    | some what =>
      cases what with
      | system index w => exact hwritten.append_nil (recorded_writeSystem g₁ index w)
      | geometry dest w =>
        have hbank : dest.bank.OfCoprocessor := by
          obtain h | h := Operation.bank_of_ofInstruction? he hchange
          · exact h ▸ Bank.ofCoprocessor_cop2Data
          · exact h ▸ Bank.ofCoprocessor_cop2Control
        exact hwritten.append_nil (recorded_set g₁ hbank w)
      | store a bs =>
        exact (recorded_store g₁ pc a bs e.flow).mono fun _ h => hwritten.append_nil h

/-- Actions write no register, and behind them the address of their step was told. -/
theorem recorded_actAll {s : Step} (h : s.MadeFor (some injector)) (g : Guest Session) :
    (∃ g', g.actAll observer s.address s.actions = .ok () g' ∧ Recorded [] g g' ∧
        g'.context.pc = s.address) ∨
      ∃ e g', g.actAll observer s.address s.actions = .error e g' ∧ Recorded [] g g' := by
  -- Entering and leaving change the frames and may tell the core, but never a register or the
  -- trace.
  have hcross (g : Guest Session) : ∃ g',
      g.actAll observer s.address (s.crossing?.toList.map Crossing.action) = .ok () g' ∧
        Recorded [] g g' ∧ g'.context.pc = g.context.pc := by
    have hheed (session : Session) (notices : List Notice) (htrace : session.trace = g.context.trace) :
        Recorded [] g ⟨notices.foldl Core.heed g.core, session⟩ := by
      have hself := Core.Agree.refl g.core
      exact .of_eq htrace fun t => by rw [(hself.heed_heed notices []).registers]; rfl
    cases s.crossing? with
    | none => exact ⟨g, rfl, .refl g, rfl⟩
    | some c =>
      cases c with
      | enter callSite => exact ⟨_, rfl, hheed _ _ rfl, rfl⟩
      | leave => exact ⟨_, rfl, hheed _ _ rfl, rfl⟩
  obtain ⟨check, hactions⟩ := actions_of_madeFor h
  rw [hactions, actAll_sync]
  have htold : Recorded [] g ⟨g.core, (observer.sync g.context s.address).1⟩ :=
    .of_eq rfl fun _ => rfl
  cases check with
  | false =>
    obtain ⟨g', hacts, hrecorded, hpc⟩ := hcross ⟨g.core, (observer.sync g.context s.address).1⟩
    exact .inl ⟨g', hacts, htold.nil_append hrecorded, hpc⟩
  | true =>
    rw [if_pos rfl, List.singleton_append, actAll_check]
    split
    · exact .inr ⟨_, _, rfl, .of_eq rfl fun _ => rfl⟩
    · obtain ⟨g', hacts, hrecorded, hpc⟩ := hcross
        ⟨g.core, (observer.check (observer.sync g.context s.address).1 s.address).1⟩
      exact .inl ⟨g', hacts, (Recorded.of_eq rfl fun _ => rfl).nil_append hrecorded, hpc⟩

/-- A step is recorded. -/
theorem recorded_run {s : Step} (h : s.MadeFor (some injector)) (g : Guest Session) :
    Leads (Recorded ((Block.instants observer [s] g).flatMap Instant.writings) g)
      (s.run observer g) := by
  unfold Step.run
  rw [bind_apply]
  obtain ⟨g₁, hacts, hrecorded, hpc⟩ | ⟨e, g₁, hacts, hrecorded⟩ := recorded_actAll h g
  · rw [Block.instants_singleton hacts, hacts]
    obtain ⟨context, extent, p, rfl⟩ := h
    rw [List.flatMap_singleton]
    exact (recorded_perform hpc p.2).mono fun _ h => hrecorded.nil_append h
  · rw [Block.instants_stopped hacts, hacts]
    exact hrecorded

/-- Steps one behind the other are recorded. -/
theorem recounts_recorded : Block.Recounts observer (·.MadeFor (some injector))
    fun instants => Recorded (instants.flatMap Instant.writings) where
  refl := .refl
  trans h h' := List.flatMap_append ▸ h.trans h'
  step := recorded_run

end Session

end Debug

end MipsMonitor
