import MipsMonitor.Proofs.Machine.Rules

/-!
# Like runs

Two guests may differ in what no instruction reads: what was reported, and the stop request, the
clock and the addresses stored to, as far as a relation between those allows (`Core.Agree`). Their
contexts may differ as far as no call of the observer shows it (`Observer.Respects`). An instruction
then does the same to both (`Guest.alike_perform`), so that steps and blocks that carry out the
same actions end alike.
-/

namespace MipsMonitor

/-- What the core keeps beside its registers and its memory, and reads only between blocks. -/
structure Aside where
  /-- Whether a stop is requested. -/
  stopped : Bool
  /-- The instructions executed since the last heartbeat. -/
  ticks : Nat
  /-- The addresses stored to that are still to be checked against translations. -/
  written : List Word

/-- A relation that instructions keep: they request stops and leave addresses of stores. -/
structure Aside.Kept (T : Aside → Aside → Prop) : Prop where
  /-- A stop is requested on both sides. -/
  stop : ∀ a a', T a a' → T { a with stopped := true } { a' with stopped := true }
  /-- The address of a store is left on both sides. -/
  store : ∀ a a' x, T a a' →
    T { a with written := x :: a.written } { a' with written := x :: a'.written }

/-- Being equal is kept. -/
theorem Aside.kept_eq : Aside.Kept (· = ·) where
  stop _ _ h := h ▸ rfl
  store _ _ _ h := h ▸ rfl

/-- What always holds is kept. -/
theorem Aside.kept_true : Aside.Kept fun _ _ => True where
  stop _ _ _ := trivial
  store _ _ _ _ := trivial

namespace Core

/-- What a core keeps beside its registers and its memory. -/
def aside (c : Core) : Aside := ⟨c.stopped, c.ticks, c.written⟩

section Note

variable (c : Core) (entries : List Entry)

/-- A note leaves the registers alone. -/
@[simp]
theorem registers_note : (c.note entries).registers = c.registers := by unfold note; split <;> rfl

/-- A note leaves the memory alone. -/
@[simp]
theorem view?_note : (c.note entries).view? = c.view? := by unfold note; split <;> rfl

/-- A note leaves the sink alone. -/
@[simp]
theorem sink_note : (c.note entries).sink = c.sink := by unfold note; split <;> rfl

/-- A note leaves the addresses of stores alone. -/
@[simp]
theorem written_note : (c.note entries).written = c.written := by unfold note; split <;> rfl

/-- A note requests no stop. -/
@[simp]
theorem stopped_note : (c.note entries).stopped = c.stopped := by unfold note; split <;> rfl

/-- A note leaves the clock alone. -/
@[simp]
theorem ticks_note : (c.note entries).ticks = c.ticks := by unfold note; split <;> rfl

/-- A note shows in the log only. -/
@[simp]
theorem aside_note : (c.note entries).aside = c.aside := by unfold note; split <;> rfl

/-- Entries added in two goes are entries added in one. -/
theorem note_note (entries' : List Entry) :
    (c.note entries).note entries' = c.note (entries ++ entries') := by
  unfold note
  cases entries with
  | nil => rfl
  | cons e entries =>
    cases entries' with
    | nil => simp
    | cons e' entries' =>
      simp only [List.isEmpty_cons, Bool.false_eq_true, if_false, List.cons_append]
      congr 1
      apply Array.toList_inj.mp
      simp

end Note

section Clock

variable (c : Core) (n : Nat)

/-- The clock leaves the registers alone. -/
@[simp]
theorem registers_clock : (c.clock n).registers = c.registers := by
  unfold clock
  split
  · exact c.registers_note _
  · rfl

/-- The clock leaves the memory alone. -/
@[simp]
theorem view?_clock : (c.clock n).view? = c.view? := by
  unfold clock
  split
  · exact c.view?_note _
  · rfl

/-- The clock leaves the sink alone. -/
@[simp]
theorem sink_clock : (c.clock n).sink = c.sink := by
  unfold clock
  split
  · exact c.sink_note _
  · rfl

/-- The clock requests no stop. -/
@[simp]
theorem stopped_clock : (c.clock n).stopped = c.stopped := by
  unfold clock
  split
  · exact c.stopped_note _
  · rfl

end Clock

/-- Two cores have the same registers and the same memory; the rest may differ as far as `T` allows
it, and the log at will. -/
structure Agree (T : Aside → Aside → Prop) (c c' : Core) : Prop where
  /-- The registers are the same. -/
  registers : c.registers = c'.registers
  /-- The memory is the same. -/
  view? : c.view? = c'.view?
  /-- Both report to the same sink. -/
  sink : c.sink = c'.sink
  /-- The rest is related. -/
  aside : T c.aside c'.aside

namespace Agree

variable {T : Aside → Aside → Prop} {c c' : Core}

/-- A core agrees with itself. -/
theorem refl (c : Core) : c.Agree (fun _ _ => True) c := ⟨rfl, rfl, rfl, trivial⟩

/-- Cores that agree do so whatever is noted. -/
theorem note (h : c.Agree T c') (entries entries' : List Entry) :
    (c.note entries).Agree T (c'.note entries') where
  registers := by simp only [registers_note, h.registers]
  view? := by simp only [view?_note, h.view?]
  sink := by simp only [sink_note, h.sink]
  aside := by simp only [aside_note, h.aside]

/-- Cores that agree do so behind a request to stop. -/
theorem requestStop (hT : Aside.Kept T) (h : c.Agree T c') :
    c.requestStop.Agree T c'.requestStop :=
  ⟨h.registers, h.view?, h.sink, hT.stop _ _ h.aside⟩

/-- Cores that agree do so with the same new registers. -/
theorem withRegisters (h : c.Agree T c') (f : RegisterFile) :
    Agree T { c with registers := f } { c' with registers := f } :=
  ⟨rfl, h.view?, h.sink, h.aside⟩

/-- Cores that agree do so behind the same requests. -/
theorem heed (hT : Aside.Kept T) (h : c.Agree T c') (notices : List Notice) :
    (notices.foldl Core.heed c).Agree T (notices.foldl Core.heed c') := by
  induction notices generalizing c c' with
  | nil => exact h
  | cons n notices ih =>
    refine ih ?_
    cases n with
    | stop => exact h.requestStop hT
    | report entry => exact h.note [entry] [entry]

/-- What is asked of cores does not matter where stop requests do not. -/
theorem heed_heed (h : c.Agree (fun _ _ => True) c') (notices notices' : List Notice) :
    (notices.foldl Core.heed c).Agree (fun _ _ => True) (notices'.foldl Core.heed c') := by
  have heed_left (notices : List Notice) {c c' : Core} (h : c.Agree (fun _ _ => True) c') :
      (notices.foldl Core.heed c).Agree (fun _ _ => True) c' := by
    induction notices generalizing c with
    | nil => exact h
    | cons n notices ih =>
      refine ih ?_
      cases n with
      | stop => exact ⟨h.registers, h.view?, h.sink, trivial⟩
      | report entry => exact h.note [entry] []
  have symm {c c' : Core} (h : c.Agree (fun _ _ => True) c') : c'.Agree (fun _ _ => True) c :=
    ⟨h.registers.symm, h.view?.symm, h.sink.symm, trivial⟩
  exact symm (heed_left notices' (symm (heed_left notices h)))

/-- Cores that agree do so behind the same write to system control. -/
theorem writeSystem (h : c.Agree T c') (index : Nat) (w : Word) :
    (c.writeSystem index w).Agree T (c'.writeSystem index w) := by
  unfold Core.writeSystem
  split
  · exact {
      registers := by simp only [report, registers_note, h.registers]
      view? := by simp only [report, registers_note, view?_note, sink_note, h.registers, h.view?, h.sink]
      sink := by simp only [report, sink_note, h.sink]
      aside := by simpa only [report, Core.aside, stopped_note, ticks_note, written_note] using h.aside }
  · exact h.note _ _

/-- A store does the same to memory and is refused alike. -/
theorem alike_store (hT : Aside.Kept T) (h : c.Agree T c') (a : Word) (bs : List UInt8) :
    Alike (Agree T) (c.store a bs) (c'.store a bs) := by
  obtain ⟨registers, view?, stopped, ticks, sink, written, log⟩ := c
  obtain ⟨registers', view?', stopped', ticks', sink', written', log'⟩ := c'
  obtain ⟨hregisters, hview, hsink, haside⟩ := h
  simp only at hregisters hview hsink
  subst hregisters hview hsink
  -- What is stored depends on the memory alone, so both stores end alike.
  cases view? with
  | none => exact .error _ ⟨rfl, rfl, rfl, haside⟩
  | some v =>
    simp only [store, poke]
    cases ByteMemory.writeBytes a bs v with
    | error e v' =>
      have hcore : Agree T ⟨registers, some v', stopped, ticks, sink, written, log⟩
          ⟨registers, some v', stopped', ticks', sink, written', log'⟩ := ⟨rfl, rfl, rfl, haside⟩
      exact .error _ (hcore.note _ _)
    | ok u v' =>
      refine .ok _ ⟨?_, ?_, ?_, ?_⟩
      · simp only [registers_note]
      · simp only [view?_note]
      · simp only [sink_note]
      · -- Behind a store the address is noted as written, which the aside has to allow.
        simpa only [Core.aside, stopped_note, ticks_note, written_note] using hT.store _ _ a haside

/-- The clock goes on alike. -/
theorem clock (h : c.Agree (· = ·) c') (ticks : Nat) :
    (c.clock ticks).Agree (· = ·) (c'.clock ticks) := by
  have haside := h.aside
  simp only [Core.aside, Aside.mk.injEq] at haside
  obtain ⟨hstopped, hticks, hwritten⟩ := haside
  unfold Core.clock
  rw [hticks]
  split
  · exact {
      registers := by simp only [report, registers_note, h.registers]
      view? := by simp only [report, view?_note, h.view?]
      sink := by simp only [report, sink_note, h.sink]
      aside := by simp only [report, Core.aside, stopped_note, written_note, hstopped, hwritten] }
  · exact ⟨h.registers, h.view?, h.sink, by simp only [Core.aside, hstopped, hwritten]⟩

/-- The addresses stored to are forgotten alike. -/
theorem forgetWritten (h : c.Agree (· = ·) c') :
    Agree (· = ·) { c with written := [] } { c' with written := [] } := by
  have haside := h.aside
  simp only [Core.aside, Aside.mk.injEq] at haside
  exact ⟨h.registers, h.view?, h.sink, by simp only [Core.aside, haside]⟩

/-- A request to stop is forgotten alike. -/
theorem forgetStop (h : c.Agree (· = ·) c') :
    Agree (· = ·) { c with stopped := false } { c' with stopped := false } := by
  have haside := h.aside
  simp only [Core.aside, Aside.mk.injEq] at haside
  exact ⟨h.registers, h.view?, h.sink, by simp only [Core.aside, haside]⟩

end Agree

/-- What is asked of a core leaves its memory as it is. -/
theorem view?_heed (c : Core) (notices : List Notice) :
    (notices.foldl Core.heed c).view? = c.view? := by
  have hself := Core.Agree.refl c
  exact (hself.heed_heed notices []).view?

end Core

namespace Observer

variable {σ : Type} {T : Aside → Aside → Prop} {R : σ → σ → Prop} {observer : Observer σ}

/-- A relation between contexts that register writes keep and do not show: the registers are the
same, and cores that agree still do when they have heeded what is asked of them. -/
def WritesAlike (observer : Observer σ) (T : Aside → Aside → Prop) (R : σ → σ → Prop) : Prop :=
  ∀ s s' f t w, R s s' → R (observer.write s f t w).1 (observer.write s' f t w).1 ∧
    (observer.write s f t w).2.2 = (observer.write s' f t w).2.2 ∧
    ∀ c c' : Core, c.Agree T c' → Core.Agree T ((observer.write s f t w).2.1.foldl Core.heed c)
      ((observer.write s' f t w).2.1.foldl Core.heed c')

/-- A relation between contexts that the calls of an observer keep, those about breakpoints apart,
and that does not show in the registers. -/
structure Respects (observer : Observer σ) (R : σ → σ → Prop) : Prop where
  /-- It is kept when an address is told. -/
  sync : ∀ s s' a, R s s' → R (observer.sync s a).1 (observer.sync s' a).1
  /-- It is kept when a routine is entered. -/
  enter : ∀ s s' a, R s s' → R (observer.enter s a).1 (observer.enter s' a).1
  /-- It is kept when a routine is left. -/
  leave : ∀ s s', R s s' → R (observer.leave s).1 (observer.leave s').1
  /-- It is kept when a register is written, and the registers are the same. -/
  write : ∀ s s' f t w, R s s' → R (observer.write s f t w).1 (observer.write s' f t w).1 ∧
    (observer.write s f t w).2.2 = (observer.write s' f t w).2.2

/-- What is asked of the core does not matter where stop requests do not. -/
theorem writesAlike_of_registers
    (h : ∀ s s' f t w, R s s' → R (observer.write s f t w).1 (observer.write s' f t w).1 ∧
      (observer.write s f t w).2.2 = (observer.write s' f t w).2.2) :
    observer.WritesAlike (fun _ _ => True) R := fun s s' f t w hR =>
  ⟨(h s s' f t w hR).1, (h s s' f t w hR).2, fun _ _ hcore => hcore.heed_heed _ _⟩

/-- A relation that all calls keep is one that writes keep. -/
theorem Respects.writesAlike (h : observer.Respects R) :
    observer.WritesAlike (fun _ _ => True) R := writesAlike_of_registers h.write

/-- From the same context the same is written and asked. -/
theorem writesAlike_eq (hT : Aside.Kept T) (observer : Observer σ) :
    observer.WritesAlike T (· = ·) := by
  intro s s' f t w h
  subst h
  exact ⟨rfl, rfl, fun _ _ hcore => hcore.heed hT _⟩

/-- Equality is kept by all calls. -/
theorem respects_eq (observer : Observer σ) : observer.Respects (· = ·) where
  sync _ _ _ h := by subst h; rfl
  enter _ _ _ h := by subst h; rfl
  leave _ _ h := by subst h; rfl
  write _ _ _ _ _ h := by subst h; exact ⟨rfl, rfl⟩

end Observer

namespace Guest

variable {σ τ : Type}

/-- Two guests agree in their cores and have related contexts. -/
structure Agree (T : Aside → Aside → Prop) (R : σ → τ → Prop) (g : Guest σ) (g' : Guest τ) :
    Prop where
  /-- The cores agree. -/
  core : g.core.Agree T g'.core
  /-- The contexts are related. -/
  context : R g.context g'.context

/-- Two guests agree up to what is read only between blocks. -/
abbrev Like (R : σ → σ → Prop) : Guest σ → Guest σ → Prop := Agree (fun _ _ => True) R

variable {T : Aside → Aside → Prop} {R : σ → σ → Prop} {observer : Observer σ} {g g' : Guest σ}

/-- A guest is like itself if its context is related to itself. -/
theorem Like.refl (h : R g.context g.context) : g.Like R g := ⟨.refl g.core, h⟩

/-- Likeness is symmetric if the relation between contexts is. -/
theorem Like.symm {R' : σ → σ → Prop} (h : g.Like R g') (hR : ∀ s s', R s s' → R' s' s) :
    g'.Like R' g where
  core := ⟨h.core.registers.symm, h.core.view?.symm, h.core.sink.symm, trivial⟩
  context := hR _ _ h.context

/-- Likeness composes as the relations between contexts do. -/
theorem Like.trans {R' R'' : σ → σ → Prop} {g'' : Guest σ} (h : g.Like R g') (h' : g'.Like R' g'')
    (hR : ∀ s s' s'', R s s' → R' s' s'' → R'' s s'') : g.Like R'' g'' where
  core := ⟨h.core.registers.trans h'.core.registers, h.core.view?.trans h'.core.view?,
    h.core.sink.trans h'.core.sink, trivial⟩
  context := hR _ _ _ h.context h'.context

/-- An action that is not about breakpoints is carried out alike, whatever the observer asks of the
core. -/
theorem alike_act (ho : observer.Respects R) (h : g.Like R g') (address : Word) {action : Action}
    (haction : action ≠ .check) :
    Alike (Like R) (g.act observer address action) (g'.act observer address action) := by
  cases action with
  | check => exact absurd rfl haction
  | sync => exact .ok () ⟨h.core.heed_heed _ _, ho.sync _ _ address h.context⟩
  | enter callSite => exact .ok () ⟨h.core.heed_heed _ _, ho.enter _ _ callSite h.context⟩
  | leave => exact .ok () ⟨h.core.heed_heed _ _, ho.leave _ _ h.context⟩

/-- With the same context every action is carried out alike. -/
theorem alike_act_of_eq (hT : Aside.Kept T) (h : g.Agree T (· = ·) g') (address : Word)
    (action : Action) :
    Alike (Agree T (· = ·)) (g.act observer address action) (g'.act observer address action) := by
  have hcontext := h.context
  cases action with
  | sync =>
    simp only [act, hcontext]
    exact .ok () ⟨h.core.heed hT _, rfl⟩
  | check =>
    simp only [act, hcontext]
    split
    · exact .ok () ⟨h.core.heed hT _, rfl⟩
    · exact .error _ ⟨h.core.heed hT _, rfl⟩
  | enter callSite =>
    simp only [act, hcontext]
    exact .ok () ⟨h.core.heed hT _, rfl⟩
  | leave =>
    simp only [act, hcontext]
    exact .ok () ⟨h.core.heed hT _, rfl⟩

/-- A write to a register is carried out alike. -/
theorem agree_write (ho : observer.WritesAlike T R) (h : g.Agree T R g') (t : Tracked) (w : Word) :
    (g.write observer t w).Agree T R (g'.write observer t w) := by
  unfold write
  split
  · exact h
  · obtain ⟨hR, hregisters, hheed⟩ := ho _ _ g.core.registers t w h.context
    refine ⟨?_, ?_⟩
    · simp only [hregisters, ← h.core.registers]
      exact hheed _ _ (h.core.withRegisters _)
    · simpa only [← h.core.registers] using hR

/-- So are writes to registers one after the other. -/
theorem agree_writes (ho : observer.WritesAlike T R) (h : g.Agree T R g')
    (writes : List (Tracked × Word)) :
    Agree T R (writes.foldl (fun g (t, w) => g.write observer t w) g)
      (writes.foldl (fun g (t, w) => g.write observer t w) g') :=
  writes_induction₂ h writes fun t w _ _ h => agree_write ho h t w

/-- What an operation reads shows in the log only. -/
theorem noteReads_eq (op : Operation) (g : Guest σ) :
    ∃ entries, g.noteReads op = ⟨g.core.note entries, g.context⟩ := by
  unfold noteReads
  split
  · simp only
    split
    · exact ⟨[], rfl⟩
    · exact ⟨_, rfl⟩
  · exact ⟨[], rfl⟩

/-- A trap leaves guests that agree alike. -/
theorem alike_trap {Q : σ → τ → Prop} {u : Guest τ} (hT : Aside.Kept T) (h : g.Agree T Q u)
    (t : Trap) : Alike (Agree T Q) (g.trap t) (u.trap t) := by
  refine .error _ ⟨?_, h.context⟩
  split
  · exact h.core.requestStop hT
  · exact h.core

/-- A change outside of the watched registers takes place alike. -/
theorem alike_change {Q : σ → τ → Prop} {u : Guest τ} (hT : Aside.Kept T) (h : g.Agree T Q u)
    (pc : Word) (what : Change) (flow : Flow) :
    Alike (Agree T Q) (g.change pc what flow) (u.change pc what flow) := by
  cases what with
  | system index w => exact .ok flow ⟨h.core.writeSystem index w, h.context⟩
  | geometry dest w =>
    refine .ok flow ⟨?_, h.context⟩
    rw [← h.core.registers]
    exact h.core.withRegisters _
  | store a bs =>
    have hstore := h.core.alike_store hT a bs
    simp only [change]
    cases hs : g.core.store a bs <;> cases hs' : u.core.store a bs <;> rw [hs, hs'] at hstore <;>
      cases hstore
    -- The stores end alike, so two of the four cases remain.
    case ok.ok core core' hcore => exact .ok flow ⟨hcore, h.context⟩
    case error.error e core core' hcore =>
      have hg : Agree T Q ⟨core, g.context⟩ ⟨core', u.context⟩ := ⟨hcore, h.context⟩
      exact alike_trap hT hg _

/-- An operation does the same to guests that agree. -/
theorem alike_perform (hT : Aside.Kept T) (ho : observer.WritesAlike T R) (h : g.Agree T R g')
    (pc : Word) (op : Operation) :
    Alike (Agree T R) (g.perform observer pc op) (g'.perform observer pc op) := by
  obtain ⟨entries, hnotes⟩ := noteReads_eq op g
  obtain ⟨entries', hnotes'⟩ := noteReads_eq op g'
  -- Reads show in the log, which guests need not agree in.
  have h₁ : (g.noteReads op).Agree T R (g'.noteReads op) := by
    rw [hnotes, hnotes']
    exact ⟨h.core.note entries entries', h.context⟩
  simp only [perform]
  generalize g.noteReads op = g₁ at h₁ ⊢
  generalize g'.noteReads op = g₁' at h₁ ⊢
  rw [← h₁.core.registers, ← h₁.core.view?]
  cases op.effect pc g₁.core.registers g₁.core.view? with
  | error t => exact alike_trap hT h₁ t
  | ok e =>
    have h₂ := agree_writes ho h₁ e.writes
    simp only
    cases e.change? with
    | none => exact .ok e.flow h₂
    | some what => exact alike_change hT h₂ pc what e.flow

end Guest

section

variable {σ : Type} {T : Aside → Aside → Prop} {observer : Observer σ}

/-- With the same context a step runs alike. -/
theorem Step.alike_run_of_eq (hT : Aside.Kept T) (s : Step) {g g' : Guest σ}
    (h : g.Agree T (· = ·) g') :
    Alike (Guest.Agree T (· = ·)) (s.run observer g) (s.run observer g') := by
  unfold Step.run
  refine Alike.bind (Guest.alike_actAll h fun action _ g g' h => ?_) (fun _ _ h => h) fun _ _ _ h' => ?_
  · exact Guest.alike_act_of_eq hT h s.address action
  · exact Guest.alike_perform hT (observer.writesAlike_eq hT) h' s.address s.operation

/-- With the same context steps run alike. -/
theorem Block.alike_runSteps_of_eq (hT : Aside.Kept T) (steps : List Step) (exit : Exit)
    {g g' : Guest σ} (h : g.Agree T (· = ·) g') :
    Alike (Guest.Agree T (· = ·)) (runSteps observer exit steps g)
      (runSteps observer exit steps g') :=
  alike_runSteps h (List.forall₂_same.mpr fun s _ _ _ h => s.alike_run_of_eq hT h) exit

/-- With the same context a block runs alike. -/
theorem Block.alike_run_of_eq (hT : Aside.Kept T) (b : Block) {g g' : Guest σ}
    (h : g.Agree T (· = ·) g') :
    Alike (Guest.Agree T (· = ·)) (b.run observer g) (b.run observer g') :=
  alike_runSteps_of_eq hT b.steps ⟨b.stop, .plain⟩ h

end

end MipsMonitor
