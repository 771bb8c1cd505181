import MipsMonitor.Proofs.Machine.Instants
import MipsMonitor.Proofs.Machine.Isolation

/-!
# Courses

What a machine goes through in a number of runs and single steps, with the host between them: blocks
are translated, operations are executed, and the host writes registers for system control and memory
(`Deed`). A course lists these occurrences in order, each with the core that it finds
(`Machine.Course`).

Of what an occurrence does to the core, only the changes to the status register and to memory matter
here (`Core.takes`). Along a course each occurrence finds in these what the one before it left
(`Core.Linked`), so that a fact about a course is an induction over a list
(`Machine.Course.linked`).
-/

namespace MipsMonitor

open ByteMemory

/-- Something that happens to a core. -/
inductive Deed where
  /-- A block is translated. -/
  | fetch (b : Block)
  /-- The operation of the instruction at an address is executed. -/
  | perform (address : Word) (operation : Operation)
  /-- The host writes a register for system control. -/
  | system (index : Nat) (w : Word)
  /-- The host writes bytes from an address on. -/
  | poke (address : Word) (bytes : List UInt8)

/-- Something that happens, and the core that it happens to. -/
structure Occurrence where
  /-- The core, as it is before. -/
  core : Core
  /-- What happens. -/
  deed : Deed

/-- What changes outside of the watched registers. -/
def Occurrence.change? (o : Occurrence) : Option Change :=
  match o.deed with
  | .fetch _ => none
  | .perform pc op =>
    match op.effect pc o.core.registers o.core.view? with
    | .ok e => e.change?
    | .error _ => none
  | .system index w => some (.system index w)
  | .poke a bs => some (.store a bs)

/-- An operation is that of an instruction, and a block was translated from the memory at hand. -/
def Occurrence.Proper (o : Occurrence) : Prop :=
  match o.deed with
  | .fetch b => ∃ v choose extent start,
      o.core.view? = some v ∧ Block.translate v.backing choose extent start = .ok b
  | .perform pc op => ∃ i?, op = .ofInstruction? i? pc
  | _ => True

/-- An instant as an occurrence. -/
def Instant.occurrence {σ : Type} (i : Instant σ) : Occurrence :=
  ⟨i.guest.core, .perform i.address i.operation⟩

namespace Core

/-- From one state to the other, the status register and memory stayed the same. -/
structure Kept (c c' : Core) : Prop where
  /-- The status register is the same. -/
  status : c'.registers.status = c.registers.status
  /-- The memory is the same. -/
  view? : c'.view? = c.view?
  /-- The core reports to the same sink. -/
  sink : c'.sink = c.sink

namespace Kept

variable {c c' c'' : Core}

/-- A core is kept where nothing happens. -/
theorem refl (c : Core) : c.Kept c := ⟨rfl, rfl, rfl⟩

/-- What is kept twice is kept. -/
theorem trans (h : c.Kept c') (h' : c'.Kept c'') : c.Kept c'' :=
  ⟨h'.status.trans h.status, h'.view?.trans h.view?, h'.sink.trans h.sink⟩

/-- A note keeps the core. -/
theorem note (c : Core) (entries : List Entry) : c.Kept (c.note entries) :=
  ⟨by rw [registers_note], c.view?_note entries, c.sink_note entries⟩

/-- The clock keeps the core. -/
theorem clock (c : Core) (ticks : Nat) : c.Kept (c.clock ticks) :=
  ⟨by rw [registers_clock], c.view?_clock ticks, c.sink_clock ticks⟩

/-- What is asked of a core keeps it. -/
theorem heed (c : Core) (notices : List Notice) : c.Kept (notices.foldl Core.heed c) := by
  have hself := Core.Agree.refl c
  have hagree := hself.heed_heed notices []
  exact ⟨by rw [hagree.registers]; rfl, hagree.view?, hagree.sink⟩

/-- What keeps the core keeps the tie between status and isolation. -/
theorem isolates (h : c.Kept c') (hc : c.Isolates) : c'.Isolates := by
  obtain ⟨v, hv, hisolated⟩ := hc
  exact ⟨v, h.view?.trans hv, hisolated.trans (congrArg Status.isolateCache h.status).symm⟩

end Kept

/-- What a change outside of the watched registers makes of the status register and of memory. -/
def takes (c : Core) : Option Change → Core
  | some (.system index w) => c.writeSystem index w
  | some (.store a bs) => endState (c.poke a bs)
  | some (.geometry ..) | none => c

namespace Kept

variable {c c' : Core}

/-- A write to system control does the same to kept cores. -/
theorem writeSystem (h : c.Kept c') (index : Nat) (w : Word) :
    (c.writeSystem index w).Kept (c'.writeSystem index w) := by
  have hget (r : Register) : ((c'.registers.set r w).status = (c.registers.set r w).status) := by
    have hstatus : c'.registers.get .status = c.registers.get .status :=
      congrArg Status.raw h.status
    simp only [RegisterFile.status, RegisterFile.get_set, hstatus]
  unfold Core.writeSystem
  split
  · refine ⟨?_, ?_, ?_⟩
    · simp only [report, registers_note, hget]
    · simp only [report, registers_note, view?_note, sink_note, hget, h.status, h.view?, h.sink]
    · simp only [report, sink_note, h.sink]
  · exact ⟨by simp only [report, registers_note, h.status], by simp only [report, view?_note, h.view?],
      by simp only [report, sink_note, h.sink]⟩

/-- A write to memory does the same to kept cores. -/
theorem poke (h : c.Kept c') (a : Word) (bs : List UInt8) :
    (endState (c.poke a bs)).Kept (endState (c'.poke a bs)) := by
  obtain ⟨registers, view?, stopped, ticks, sink, written, log⟩ := c
  obtain ⟨registers', view?', stopped', ticks', sink', written', log'⟩ := c'
  obtain ⟨hstatus, hview, hsink⟩ := h
  simp only at hstatus hview hsink
  subst hview hsink
  cases view?' with
  | none => exact ⟨hstatus, rfl, rfl⟩
  | some v =>
    simp only [Core.poke]
    cases writeBytes a bs v <;>
      exact ⟨by simp only [endState, registers_note, hstatus], by simp only [endState, view?_note],
        by simp only [endState, sink_note]⟩

end Kept

/-- Occurrences one behind the other from a core to a core, each of which finds in the status register
and in memory what the one before it left. -/
def Linked : Core → List Occurrence → Core → Prop
  | c, [], c' => c.Kept c'
  | c, o :: os, c' => c.Kept o.core ∧ Linked (o.core.takes o.change?) os c'

namespace Linked

variable {c c' c'' : Core} {os os' : List Occurrence}

/-- A course may begin behind something that keeps the core. -/
theorem of_kept (h : c.Kept c') (h' : c'.Linked os c'') : c.Linked os c'' := by
  cases os with
  | nil => exact h.trans h'
  | cons o os => exact ⟨h.trans h'.1, h'.2⟩

/-- Courses that follow each other are one. -/
theorem append (h : c.Linked os c') (h' : c'.Linked os' c'') : c.Linked (os ++ os') c'' := by
  induction os generalizing c with
  | nil => exact of_kept h h'
  | cons o os ih => exact ⟨h.1, ih h.2⟩

/-- A course may end before something that keeps the core. -/
theorem kept (h : c.Linked os c') (h' : c'.Kept c'') : c.Linked os c'' := by
  rw [← List.append_nil os]
  exact h.append h'

end Linked

end Core

variable {σ : Type}

/-! ## What executes -/

namespace Guest

variable {observer : Observer σ}

/-- Actions keep the core. -/
theorem kept_actAll (observer : Observer σ) (address : Word) (actions : List Action) (g : Guest σ) :
    Leads (fun g' => g.core.Kept g'.core) (g.actAll observer address actions) :=
  leads_actAll (.refl g.core) fun action _ g' h =>
    leads_act (fun notices => h.trans (.heed g'.core notices)) address action

/-- A trap keeps the core. -/
theorem kept_trap (t : Trap) (g : Guest σ) :
    Leads (fun g' => g.core.Kept g'.core) (g.trap t) := by
  simp only [trap, Leads]
  split <;> exact ⟨rfl, rfl, rfl⟩

/-- A write to a watched register keeps the core if the observer spares system control. -/
theorem kept_write (ho : observer.SparesSystem) (t : Tracked) (w : Word) (g : Guest σ) :
    g.core.Kept (g.write observer t w).core :=
  holds_write (.refl g.core) (fun ht => ⟨congrArg Status.mk (ho _ _ _ _ _ ht), rfl, rfl⟩)
    fun c notices h => h.trans (.heed c notices)

/-- Of what an operation does, the status register and memory take its change alone. -/
theorem kept_perform (ho : observer.SparesSystem) (pc : Word) (i? : Option Instruction)
    (g : Guest σ) :
    Leads (fun g' => (g.core.takes (Instant.occurrence ⟨g, pc, .ofInstruction? i? pc⟩).change?).Kept
      g'.core) (g.perform observer pc (.ofInstruction? i? pc)) := by
  obtain ⟨entries, hnotes⟩ := noteReads_eq (.ofInstruction? i? pc) g
  simp only [perform, hnotes, Core.registers_note, Core.view?_note, Instant.occurrence,
    Occurrence.change?]
  have hnoted := Core.Kept.note g.core entries
  cases he : (Operation.ofInstruction? i? pc).effect pc g.core.registers g.core.view? with
  | error t => exact (kept_trap t ⟨g.core.note entries, g.context⟩).mono fun _ h => hnoted.trans h
  | ok e =>
    have hwritten := writes_induction (g := ⟨g.core.note entries, g.context⟩)
      (P := fun g' => g.core.Kept g'.core) hnoted e.writes fun t w g' h =>
        h.trans (kept_write ho t w g')
    simp only
    generalize List.foldl _ _ e.writes = g₁ at hwritten ⊢
    -- The register writes are done; what is left is the change, which the core takes as well.
    cases hchange : e.change? with
    | none => exact hwritten
    | some what =>
      cases what with
      | system index w => exact hwritten.writeSystem index w
      | geometry dest w =>
        -- A geometry register is none of the system bank, so the status stays.
        have hne : dest ≠ .status := by
          rintro rfl
          obtain h | h := Operation.bank_of_ofInstruction? he hchange <;> cases h
        refine hwritten.trans ⟨?_, rfl, rfl⟩
        change RegisterFile.status (g₁.core.registers.set dest w) = g₁.core.registers.status
        rw [RegisterFile.status, RegisterFile.get_set, if_neg hne]
        rfl
      | store a bs =>
        have hpoked := hwritten.poke a bs
        simp only [change, Core.store]
        cases hp : g₁.core.poke a bs with
        | ok u c =>
          rw [hp] at hpoked
          exact hpoked.trans ⟨rfl, rfl, rfl⟩
        | error e c =>
          rw [hp] at hpoked
          exact (kept_trap (e.trap pc) ⟨c, g₁.context⟩).mono fun _ h => hpoked.trans h

end Guest

namespace Block

variable {observer : Observer σ}

/-- The instants of steps are linked. -/
theorem recounts_linked (ho : observer.SparesSystem) (injector? : Option (Injector σ)) :
    Recounts observer (·.MadeFor injector?) fun instants g g' =>
      g.core.Linked (instants.map Instant.occurrence) g'.core where
  refl g := .refl g.core
  trans h h' := List.map_append ▸ h.append h'
  step := by
    intro s hs g
    -- Steps that were made for an injector are of decoded instructions.
    obtain ⟨i?, hop⟩ := hs.exists_operation
    have hacts := Guest.kept_actAll observer s.address s.actions g
    unfold Step.run
    rw [bind_apply]
    cases hrun : g.actAll observer s.address s.actions with
    | error e g₁ =>
      rw [hrun] at hacts
      rw [instants_stopped hrun]
      exact hacts
    | ok u g₁ =>
      rw [hrun] at hacts
      rw [instants_singleton hrun, hop]
      exact (Guest.kept_perform ho s.address i? g₁).mono fun _ h => ⟨hacts, h⟩

/-- The instants of steps are those of instructions. -/
theorem proper_of_instants (observer : Observer σ) {injector? : Option (Injector σ)}
    {steps : List Step} (hsteps : ∀ s ∈ steps, s.MadeFor injector?) (g : Guest σ) :
    ∀ i ∈ instants observer steps g, i.occurrence.Proper := by
  induction steps generalizing g with
  | nil => exact fun _ h => absurd h List.not_mem_nil
  | cons s rest ih =>
    obtain ⟨i?, hop⟩ := (hsteps s List.mem_cons_self).exists_operation
    have hrest := ih fun t ht => hsteps t (List.mem_cons_of_mem _ ht)
    intro i hi
    unfold instants at hi
    split at hi
    · cases hi
    · obtain rfl | hi := List.mem_cons.mp hi
      · exact ⟨i?, hop⟩
      · split at hi
        · cases hi
        · exact hrest _ i hi

/-- What happens in steps that were made from words is proper. -/
theorem proper_occurrences (observer : Observer σ) {injector? : Option (Injector σ)}
    {steps : List Step} (hsteps : ∀ s ∈ steps, s.MadeFor injector?) (g : Guest σ) :
    ∀ o ∈ (instants observer steps g).map Instant.occurrence, o.Proper := by
  intro o h
  obtain ⟨i, hi, rfl⟩ := List.mem_map.mp h
  exact proper_of_instants observer hsteps g i hi

end Block

namespace Machine

variable {observer : Observer σ} {m n : Machine σ}

/-- What happens in a pass. A block that was translated before is not fetched again. -/
def passOccurrences (observer : Observer σ) (pc : Word) (m : Machine σ) : List Occurrence :=
  if m.core.stopped then []
  else
    match blockAt pc m with
    | .error _ _ => []
    | .ok b n =>
      (if m.blocks[pc]?.isSome then [] else [⟨m.core, .fetch b⟩]) ++
        (Block.instants observer b.steps n.guest).map Instant.occurrence

/-- What happens in a run, pass by pass. -/
def runOccurrences (observer : Observer σ) :
    (fuel : Nat) → (pc : Word) → (depth : Nat) → Machine σ → List Occurrence
  | 0, _, _, _ => []
  | fuel + 1, pc, depth, m =>
    m.passOccurrences observer pc ++
      match pass observer pc m with
      | .error _ _ => []
      | .ok exit m' =>
        match exit.follow? depth with
        | none => []
        | some (pc', depth') => runOccurrences observer fuel pc' depth' m'

/-- What recounts passes recounts runs, however they end. -/
theorem recounts_invoke {I : Machine σ → Prop} {R : List Occurrence → Machine σ → Machine σ → Prop}
    (hrefl : ∀ m, I m → R [] m m)
    (htrans : ∀ {xs ys m n n'}, R xs m n → R ys n n' → R (xs ++ ys) m n')
    (hpass : ∀ {m} (pc : Word), I m →
      Leads (fun n => I n ∧ R (m.passOccurrences observer pc) m n) (pass observer pc m))
    (h : I m) (fuel : Nat) (pc : Word) (depth : Nat) :
    Leads (R (m.runOccurrences observer fuel pc depth) m) (invoke observer fuel pc depth m) := by
  induction fuel generalizing pc depth m with
  | zero => exact hrefl m h
  | succ fuel ih =>
    have hfirst := hpass pc h
    rw [invoke_succ]
    unfold runOccurrences
    cases hp : pass observer pc m with
    -- A pass that fails is the last one.
    | error e n =>
      rw [hp] at hfirst
      simp only [List.append_nil]
      exact hfirst.2
    | ok exit n =>
      obtain ⟨hn, hR⟩ := hfirst.of_ok hp
      simp only
      cases exit.follow? depth with
      | none =>
        simp only [List.append_nil]
        exact hR
      -- The rest of the run goes on where the way out leads, and its occurrences come behind.
      | some next => exact (ih hn next.1 next.2).mono fun _ hrest => htrans hR hrest

/-- What happens in a single step. -/
def singleOccurrences (observer : Observer σ) (pc : Word) (m : Machine σ) : List Occurrence :=
  match translate .single pc m with
  | .error _ _ => []
  | .ok b n => ⟨m.core, .fetch b⟩ :: (Block.instants observer b.steps n.guest).map Instant.occurrence

/-- What a machine goes through from one state to another. Between runs and single steps the host
writes registers for system control and memory, or does what neither changes the status register nor
memory nor makes translations. -/
inductive Course (observer : Observer σ) (m : Machine σ) : List Occurrence → Machine σ → Prop where
  /-- Nothing has happened yet. -/
  | start : Course observer m [] m
  /-- The machine runs until a routine returns, as far as it is let to. -/
  | execute {os : List Occurrence} {n : Machine σ} (h : Course observer m os n) (fuel : Nat)
      (pc : Word) : Course observer m (os ++ n.resumed.runOccurrences observer fuel pc 0)
        (endState (execute observer fuel pc n))
  /-- The machine makes a single step. -/
  | executeOne {os : List Occurrence} {n : Machine σ} (h : Course observer m os n) (pc : Word) :
      Course observer m (os ++ n.singleOccurrences observer pc) (endState (executeOne observer pc n))
  /-- The host writes a register for system control. -/
  | system {os : List Occurrence} {n : Machine σ} (h : Course observer m os n) (index : Nat)
      (w : Word) : Course observer m (os ++ [⟨n.core, .system index w⟩])
        (n.onCore (Core.writeSystem · index w))
  /-- The host writes memory. -/
  | poke {os : List Occurrence} {n : Machine σ} (h : Course observer m os n) (a : Word)
      (bs : List UInt8) : Course observer m (os ++ [⟨n.core, .poke a bs⟩])
        (endState (atCore (Core.poke a bs) n))
  /-- The host does something else. -/
  | aside {os : List Occurrence} {n n' : Machine σ} (h : Course observer m os n)
      (hkept : n.core.Kept n'.core) (hgenuine : n.Genuine → n'.Genuine) : Course observer m os n'

/-! ### Runs are linked -/

/-- Steps are linked with what is done around them. -/
theorem linked_runBlock (ho : observer.SparesSystem) {b : Block}
    (hsteps : ∀ s ∈ b.steps, s.MadeFor n.injector?) (hkept : m.core.Kept n.core) :
    Leads (fun n' => m.core.Linked ((Block.instants observer b.steps n.guest).map Instant.occurrence)
      n'.core) (runBlock observer b n) := by
  have hrun := (Block.recounts_linked ho n.injector?).runSteps hsteps ⟨b.stop, .plain⟩ n.guest
  have hsettle (g : Guest σ) : g.core.Kept (settle b.length ⟨g, n.blocks, n.injector?⟩).core := by
    have hwritten : g.core.Kept { g.core with written := [] } := ⟨rfl, rfl, rfl⟩
    exact hwritten.trans (.clock _ b.length)
  exact leads_runBlock hrun fun g hg => .of_kept hkept (Core.Linked.kept hg (hsettle g))

/-- A pass is linked by what happens in it. -/
theorem linked_pass (ho : observer.SparesSystem) (hm : m.Genuine) (pc : Word) :
    Leads (fun n => m.core.Linked (m.passOccurrences observer pc) n.core) (pass observer pc m) ∧
      ∀ o ∈ m.passOccurrences observer pc, o.Proper := by
  unfold passOccurrences pass
  split
  · exact ⟨Core.Kept.refl m.core, fun _ h => absurd h List.not_mem_nil⟩
  rw [bind_apply]
  cases hblock : blockAt pc m with
  | error e n =>
    refine ⟨?_, fun _ h => absurd h List.not_mem_nil⟩
    obtain ⟨-, rfl | rfl⟩ := blockAt_eq_error hblock
    · exact Core.Kept.refl _
    · exact ⟨rfl, rfl, rfl⟩
  | ok b n =>
    obtain ⟨-, hsteps⟩ := hm.blockAt hblock
    have hproper := Block.proper_occurrences observer hsteps n.guest
    obtain ⟨hb, rfl⟩ | ⟨v, entries, hv, htranslate, rfl⟩ := blockAt_eq_ok hblock
    · simp only [hb, Option.isSome_some, if_true, List.nil_append]
      exact ⟨linked_runBlock ho hsteps (.refl _), hproper⟩
    -- A fresh translation is an occurrence of its own, before those of the block.
    · have hrun := linked_runBlock ho hsteps (.note m.core entries)
      have hfetch : Occurrence.Proper ⟨m.core, .fetch b⟩ := ⟨v, m.choose, .block, pc, hv, htranslate⟩
      simp only
      split
      · exact ⟨hrun, hproper⟩
      · exact ⟨hrun.mono fun _ h => ⟨.refl m.core, h⟩, List.forall_mem_cons.mpr ⟨hfetch, hproper⟩⟩

/-- A run is linked by what happens in it, from any depth of calls. -/
theorem linked_invoke (ho : observer.SparesSystem) (hm : m.Isolating) (fuel : Nat) (pc : Word)
    (depth : Nat) :
    Leads (fun n => m.core.Linked (m.runOccurrences observer fuel pc depth) n.core)
        (invoke observer fuel pc depth m) ∧
      ∀ o ∈ m.runOccurrences observer fuel pc depth, o.Proper := by
  -- One invariant carries both: what is linked, and that every occurrence is proper.
  have hpass {m : Machine σ} (pc : Word) (hm : m.Isolating) :
      Leads (fun n => n.Isolating ∧ m.core.Linked (m.passOccurrences observer pc) n.core ∧
        ∀ o ∈ m.passOccurrences observer pc, o.Proper) (pass observer pc m) := by
    obtain ⟨hpass, hproper⟩ := linked_pass ho hm.genuine pc
    have hkept := (Core.keeps_isolates.machine ho m.injector?).pass hm.holds pc
    exact (hpass.and hkept).mono fun _ h => ⟨⟨h.2.guest, h.2.genuine⟩, h.1, hproper⟩
  have hrun := recounts_invoke (I := Isolating)
    (R := fun os m n => m.core.Linked os n.core ∧ ∀ o ∈ os, o.Proper)
    (fun m _ => ⟨Core.Kept.refl m.core, fun _ h => absurd h List.not_mem_nil⟩)
    (fun h h' => ⟨h.1.append h'.1, fun o ho => (List.mem_append.mp ho).elim (h.2 o) (h'.2 o)⟩)
    hpass hm fuel pc depth
  exact ⟨hrun.mono fun _ h => h.1, hrun.endState.2⟩

/-- A run is linked by what happens in it. -/
theorem linked_execute (ho : observer.SparesSystem) (hm : m.Isolating) (fuel : Nat) (pc : Word) :
    Leads (fun n => m.core.Linked (m.resumed.runOccurrences observer fuel pc 0) n.core)
        (execute observer fuel pc m) ∧
      ∀ o ∈ m.resumed.runOccurrences observer fuel pc 0, o.Proper := by
  have hresumed : m.core.Kept m.resumed.core := ⟨rfl, rfl, rfl⟩
  obtain ⟨hrun, hproper⟩ := linked_invoke ho (m := m.resumed)
    ⟨hresumed.isolates hm.core, hm.genuine⟩ fuel pc 0
  rw [execute_eq]
  exact ⟨hrun.mono fun _ h => .of_kept hresumed h, hproper⟩

/-- A single step is linked by what happens in it. -/
theorem linked_executeOne (ho : observer.SparesSystem) (m : Machine σ) (pc : Word) :
    Leads (fun n => m.core.Linked (m.singleOccurrences observer pc) n.core)
        (executeOne observer pc m) ∧
      ∀ o ∈ m.singleOccurrences observer pc, o.Proper := by
  unfold singleOccurrences executeOne
  rw [bind_apply]
  cases htranslate : translate .single pc m with
  | error e n =>
    refine ⟨?_, fun _ h => absurd h List.not_mem_nil⟩
    obtain ⟨-, -, rfl⟩ | ⟨v, t, -, -, -, rfl⟩ := translate_eq_error htranslate
    · exact ⟨rfl, rfl, rfl⟩
    · exact Core.Kept.refl _
  | ok b n =>
    obtain ⟨v, entries, hv, hb, rfl⟩ := translate_eq_ok htranslate
    have hsteps := madeFor_of_translate hb
    have hrun := linked_runBlock (n := m.onCore (Core.note · entries)) ho hsteps (.note m.core entries)
    have hfetch : Occurrence.Proper ⟨m.core, .fetch b⟩ := ⟨v, m.choose, .single, pc, hv, hb⟩
    refine ⟨Leads.bind hrun (fun _ h => ⟨.refl m.core, h⟩) fun _ _ h => ⟨.refl m.core, h⟩, ?_⟩
    exact List.forall_mem_cons.mpr ⟨hfetch, Block.proper_occurrences observer hsteps _⟩

/-- Along a course of a machine whose view goes with the status register this stays so, and what
happens is linked. -/
theorem Course.linked {os : List Occurrence} (h : Course observer m os n) (ho : observer.SparesSystem)
    (hm : m.Isolating) :
    n.Isolating ∧ m.core.Linked os n.core ∧ ∀ o ∈ os, o.Proper := by
  -- What a visit from outside adds is one occurrence at the end.
  have hlast {os : List Occurrence} {n : Machine σ} {o : Occurrence} {c : Core}
      (ih : n.Isolating ∧ m.core.Linked os n.core ∧ ∀ o ∈ os, o.Proper) (hcore : o.core = n.core)
      (hproper : o.Proper) (hkept : (n.core.takes o.change?).Kept c) :
      m.core.Linked (os ++ [o]) c ∧ ∀ o' ∈ os ++ [o], o'.Proper := by
    obtain ⟨-, hlinked, hall⟩ := ih
    refine ⟨hlinked.append ⟨hcore ▸ .refl _, hcore ▸ hkept⟩, fun o' h => ?_⟩
    obtain h | h := List.mem_append.mp h
    · exact hall o' h
    · exact List.mem_singleton.mp h ▸ hproper
  induction h with
  | start => exact ⟨hm, Core.Kept.refl m.core, fun _ h => absurd h List.not_mem_nil⟩
  | execute _ fuel pc ih =>
    obtain ⟨hn, hlinked, hall⟩ := ih
    obtain ⟨hrun, hproper⟩ := linked_execute ho hn fuel pc
    exact ⟨(Host.execute observer ho fuel pc _).isolates hn, hlinked.append hrun.endState,
      fun o h => (List.mem_append.mp h).elim (hall o) (hproper o)⟩
  | executeOne _ pc ih =>
    obtain ⟨hn, hlinked, hall⟩ := ih
    obtain ⟨hrun, hproper⟩ := linked_executeOne ho _ pc
    exact ⟨(Host.executeOne observer ho pc _).isolates hn, hlinked.append hrun.endState,
      fun o h => (List.mem_append.mp h).elim (hall o) (hproper o)⟩
  | system _ index w ih =>
    exact ⟨(Host.system index w _).isolates ih.1, hlast ih rfl trivial (.refl _)⟩
  | @poke os n _ a bs ih =>
    refine ⟨(Host.poke a bs _).isolates ih.1, hlast ih rfl trivial ?_⟩
    obtain ⟨⟨core, context⟩, blocks, injector?⟩ := n
    change (endState (core.poke a bs)).Kept _
    simp only [atCore]
    cases core.poke a bs <;> exact .refl _
  | aside _ hkept hgenuine ih =>
    exact ⟨⟨hkept.isolates ih.1.core, hgenuine ih.1.genuine⟩, ih.2.1.kept hkept, ih.2.2⟩

end Machine

end MipsMonitor
