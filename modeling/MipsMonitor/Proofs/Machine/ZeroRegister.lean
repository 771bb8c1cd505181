import MipsMonitor.Proofs.Machine.Passes
import MipsMonitor.Proofs.Machine.Translation

/-!
# The register that is always zero

An instruction sees zero in the first general register whatever the file holds there, but the host
reads the file. Nothing that a program does writes to the register (`Machine.zero_executeOne`), so
the file holds zero there as long as the host leaves it alone.
-/

namespace MipsMonitor

/-- The first general register. -/
def Register.zero : Register := ⟨.general, Gpr.zero⟩

/-- What the file holds in the register that is always zero. -/
def Core.zero (c : Core) : Word := c.registers.get .zero

/-- Writes to other watched registers leave the register that is always zero alone. -/
def Observer.SparesZero {σ : Type} (observer : Observer σ) : Prop :=
  ∀ s f t w, t ≠ .zero → (observer.write s f t w).2.2.get .zero = f.get .zero

/-- What is transferred to the geometry coprocessor goes to no general register. -/
def Operation.SparesZero : Operation → Prop
  | .moveToGeometry dest _ => dest.bank ≠ .general
  | _ => True

/-- What instructions do spares the register that is always zero. -/
theorem Operation.sparesZero_ofInstruction? (i? : Option Instruction) (pc : Word) :
    (Operation.ofInstruction? i? pc).SparesZero := by
  cases i? with
  | none => trivial
  | some i =>
    obtain ⟨m, raw⟩ := i
    cases m <;> first
      | trivial
      | exact fun h => by cases h

/-- What an operation writes to the geometry coprocessor goes to no general register. -/
theorem Operation.bank_of_geometry {op : Operation} (hop : op.SparesZero) {pc : Word}
    {f : RegisterFile} {view? : Option (View Ram)} {e : Effect} (h : op.effect pc f view? = .ok e)
    {dest : Register} {w : Word} (hchange : e.change? = some (.geometry dest w)) :
    dest.bank ≠ .general := by
  cases op with
  | moveToGeometry dest' source =>
    cases h
    cases hchange
    exact hop
  | store what source l =>
    simp only [effect] at h
    repeat' split at h
    all_goals cases h
    cases what <;> cases hchange
  | _ =>
    simp only [effect] at h
    repeat' split at h
    all_goals
      cases h
      try cases hchange
    all_goals exact fun h => by cases h

namespace RegisterFile

/-- A register of another bank is not the one that is always zero. -/
theorem get_zero_set {r : Register} (h : r.bank ≠ .general) (f : RegisterFile) (w : Word) :
    (f.set r w).get .zero = f.get .zero := by
  rw [get_set, if_neg]
  rintro rfl
  exact h rfl

end RegisterFile

/-- The register that is always zero is a watched register. -/
theorem RegisterFile.tracked_zero (f : RegisterFile) : f.tracked .zero = f.get .zero := rfl

namespace Core

/-- What is asked of a core spares the slot. -/
theorem zero_heed (c : Core) (notices : List Notice) : (notices.foldl Core.heed c).zero = c.zero := by
  induction notices generalizing c with
  | nil => rfl
  | cons n notices ih =>
    rw [List.foldl_cons, ih]
    cases n with
    | stop => rfl
    | report entry => exact congrArg (·.get .zero) (c.registers_note [entry])

/-- A write to system control spares the slot. -/
theorem zero_writeSystem (c : Core) (index : Nat) (w : Word) : (c.writeSystem index w).zero = c.zero := by
  unfold writeSystem zero
  split
  · simp only [report, registers_note]
    exact RegisterFile.get_zero_set (fun h => by cases h) _ _
  · simp only [report, registers_note]

/-- A store spares the slot. -/
theorem zero_store (c : Core) (a : Word) (bs : List UInt8) :
    Leads (fun c' => c'.zero = c.zero) (c.store a bs) := by
  obtain ⟨registers, view?, stopped, ticks, sink, written, log⟩ := c
  cases view? with
  | none => exact rfl
  | some v =>
    simp only [store, poke]
    cases ByteMemory.writeBytes a bs v with
    | error e v' => exact congrArg (·.get .zero) (registers_note _ _)
    | ok u v' => exact congrArg (·.get .zero) (registers_note _ _)

end Core

namespace Guest

variable {σ : Type} {observer : Observer σ}

/-- Actions spare the slot. -/
theorem zero_actAll (g : Guest σ) (a : Word) (actions : List Action) :
    Leads (fun g' => g'.core.zero = g.core.zero) (g.actAll observer a actions) :=
  leads_actAll rfl fun action _ g' h =>
    leads_act (P := fun c => c.zero = g.core.zero) (fun notices => (g'.core.zero_heed notices).trans h)
      a action

/-- A write to a watched register spares the slot if the observer does. -/
theorem zero_write (ho : observer.SparesZero) (g : Guest σ) (t : Tracked) (w : Word) :
    (g.write observer t w).core.zero = g.core.zero :=
  holds_write (P := fun c => c.zero = g.core.zero) rfl (fun ht => ho _ _ _ _ ht)
    fun c notices h => (c.zero_heed notices).trans h

/-- A trap spares the slot. -/
theorem zero_trap (g : Guest σ) (t : Trap) :
    Leads (fun g' => g'.core.zero = g.core.zero) (g.trap t) := by
  change (if t.cause?.isNone then g.core.requestStop else g.core).zero = _
  split <;> rfl

/-- An instruction leaves the register that is always zero alone. -/
theorem zero_perform (ho : observer.SparesZero) (g : Guest σ) (pc : Word) {op : Operation}
    (hop : op.SparesZero) : Leads (fun g' => g'.core.zero = g.core.zero) (g.perform observer pc op) := by
  obtain ⟨entries, hnotes⟩ := noteReads_eq op g
  have hnoted : (g.noteReads op).core.zero = g.core.zero :=
    hnotes ▸ congrArg (·.get .zero) (g.core.registers_note entries)
  refine leads_perform hnoted (fun t w g' h => (zero_write ho g' t w).trans h)
    (fun t g' h => (zero_trap g' t).mono fun _ h' => h'.trans h) (fun _ _ _ _ h => h)
    fun e what g' he hchange h => ?_
  cases what with
  | system index w => exact (Core.zero_writeSystem _ index w).trans h
  | geometry dest w =>
    -- The register of the geometry bank is another one.
    refine Eq.trans (RegisterFile.get_zero_set ?_ _ w) h
    exact Operation.bank_of_geometry hop he hchange
  | store a bs =>
    refine leads_store (P := fun c => c.zero = g.core.zero)
      ((g'.core.zero_store a bs).mono fun _ h' => h'.trans h) fun t g' h => ?_
    exact (zero_trap g' t).mono fun _ h' => h'.trans h

end Guest

/-- A step leaves the register that is always zero alone. -/
theorem Step.zero_run {σ : Type} {observer : Observer σ} (ho : observer.SparesZero) {s : Step}
    (hs : s.operation.SparesZero) (g : Guest σ) :
    Leads (fun g' => g'.core.zero = g.core.zero) (s.run observer g) := by
  unfold run
  exact Leads.bind (Guest.zero_actAll g s.address s.actions) (fun _ h => h) fun _ g₁ h =>
    (Guest.zero_perform ho g₁ s.address hs).mono fun _ h' => h'.trans h

namespace Machine

variable {σ : Type} {observer : Observer σ}

/-- A block leaves the register that is always zero alone. -/
theorem zero_runBlock (ho : observer.SparesZero) {b : Block}
    (hb : ∀ s ∈ b.steps, s.operation.SparesZero) (m : Machine σ) :
    Leads (fun n => n.core.zero = m.core.zero) (runBlock observer b m) := by
  refine leads_runBlock (Q := fun g => g.core.zero = m.core.zero)
    (Block.leads_run rfl fun s hs g h => ?_) fun g h => ?_
  · exact (Step.zero_run ho (hb s hs) g).mono fun _ h' => h'.trans h
  · have hclock : (settle b.length ⟨g, m.blocks, m.injector?⟩).core.zero = g.core.zero :=
      congrArg (·.get .zero) (Core.registers_clock _ _)
    exact hclock.trans h

/-- A single step leaves the register that is always zero alone. -/
theorem zero_executeOne (ho : observer.SparesZero) (pc : Word) (m : Machine σ) :
    Leads (fun n => n.core.zero = m.core.zero) (executeOne observer pc m) := by
  refine leads_executeOne (fun e n herror => ?_) fun b n htranslate => ?_
  · obtain ⟨-, -, rfl⟩ | ⟨v, t, -, -, -, rfl⟩ := translate_eq_error herror <;> rfl
  · obtain ⟨v, entries, -, hb, rfl⟩ := translate_eq_ok htranslate
    obtain ⟨-, -, rfl⟩ := Block.translate_eq_ok.mp hb
    refine (zero_runBlock ho (fun s hs => ?_) _).mono fun _ h =>
      h.trans (congrArg (·.get .zero) (m.core.registers_note entries))
    obtain ⟨p, -, rfl⟩ := List.mem_map.mp hs
    exact Operation.sparesZero_ofInstruction? p.2 p.1

end Machine

end MipsMonitor
