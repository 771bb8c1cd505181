import MipsMonitor.Proofs.Machine.Mirroring
import MipsMonitor.Proofs.Machine.Storing

/-!
# What is reported, and where, does not matter

A core reports to a sink, and so does the memory behind it. No instruction reads the log, and none
knows the sinks; so a core and another one that is the same but for its reports (`Core.Echoes`) stay so
whatever is done to both. The same goes for guests and machines, if the observer does not tell their
contexts apart either (`Observer.Equates`): to run the one is to run the other
(`Machine.mirrors_echoes`).
-/

namespace MipsMonitor

open ByteMemory

/-! ## Memory -/

namespace Ram

variable (r : Ram) (sink : Sink)

/-- The sink does not show in the cells. -/
@[simp]
theorem get_withSink (c : Cell) : (withSink r sink).get c = r.get c := by cases c <;> rfl

/-- The sink does not show in what is read. -/
theorem readByte_withSink (a : Word) : readByte (withSink r sink) a = readByte r a := by
  simp only [readByte, get_withSink]

/-- A write is the same with another sink. -/
theorem put_withSink (a : Word) (b : UInt8) : put (withSink r sink) a b = withSink (put r a b) sink := by
  simp only [put]
  cases Address.cell? a with
  | none => rfl
  | some c => cases c <;> rfl

end Ram

namespace View

variable (v : View Ram) (sink : Sink)

/-- The memory behind a view has the sink of the view. -/
theorem backing_withSink : (withSink v sink).backing = withSink v.backing sink := by cases v <;> rfl

/-- The sink does not show in what is read through a view. -/
theorem readByte_withSink (a : Word) : readByte (withSink v sink) a = readByte v a := by
  cases v with
  | direct r => exact r.readByte_withSink sink a
  | isolated c => rfl

/-- The sink does not show in what is refused. -/
theorem refusal?_withSink (a : Word) : refusal? (withSink v sink) a = refusal? v a := by
  cases v <;> rfl

/-- A write through a view is the same with another sink. -/
theorem put_withSink (a : Word) (b : UInt8) : put (withSink v sink) a b = withSink (put v a b) sink := by
  cases v with
  | direct r => exact congrArg direct (r.put_withSink sink a b)
  | isolated c => rfl

/-- A write goes as far, wherever it is reported. -/
theorem alike_writeBytes_withSink (a : Word) (bs : List UInt8) :
    Alike (fun v v' => v' = withSink v sink) (writeBytes a bs v) (writeBytes a bs (withSink v sink)) := by
  induction bs generalizing a v with
  | nil => exact .ok () rfl
  | cons b bs ih =>
    unfold writeBytes
    rw [refusal?_withSink, put_withSink]
    cases refusal? v a with
    | some e => exact .error e rfl
    | none => exact ih _ _

end View

/-- What is read depends on the bytes alone. -/
theorem ByteMemory.readBytes_congr {μ ν : Type} [ByteMemory μ] [ByteMemory ν] {m : μ} {n : ν}
    (h : ∀ a, readByte m a = readByte n a) (addresses : List Word) :
    readBytes m addresses = readBytes n addresses := by
  unfold readBytes
  rw [funext h]

/-- The sink does not show in what an operation fetches. -/
theorem Operation.fetch_withSink (view? : Option (View Ram)) (sink : Sink) (pc : Word)
    (span : List Word) : fetch (view?.map (withSink · sink)) pc span = fetch view? pc span := by
  cases view? with
  | none => rfl
  | some v => simp only [fetch, Option.map_some, readNumber, readBytes_congr (v.readByte_withSink sink)]

/-- The effect of an operation does not depend on where memory reports. -/
theorem Operation.effect_withSink (op : Operation) (pc : Word) (f : RegisterFile)
    (view? : Option (View Ram)) (sink : Sink) :
    op.effect pc f (view?.map (withSink · sink)) = op.effect pc f view? := by
  cases op <;> simp only [effect, fetch_withSink]

/-- A translation does not depend on where memory reports. -/
theorem Block.translate_withSink (r : Ram) (sink : Sink)
    (choose : Word → Option Instruction → List Action) (extent : Extent) (start : Word) :
    Block.translate (withSink r sink) choose extent start = Block.translate r choose extent start := by
  simp only [Block.translate, Block.translateBy, Core.readWord_withSink]

/-! ## Cores -/

namespace Core

/-- The second core is the first one, but for what it has reported and where it and its memory
report. -/
structure Echoes (c c' : Core) : Prop where
  /-- The registers are the same. -/
  registers : c'.registers = c.registers
  /-- The memory is the same, but for where it reports. -/
  view? : c'.view? = c.view?.map (ByteMemory.withSink · c'.sink)
  /-- A stop is requested of both, or of neither. -/
  stopped : c'.stopped = c.stopped
  /-- Both have counted as many instructions since the last heartbeat. -/
  ticks : c'.ticks = c.ticks
  /-- Both have stored to the same addresses. -/
  written : c'.written = c.written

namespace Echoes

variable {c c' : Core}

/-- Cores that echo each other do so whatever is noted. -/
theorem note (h : c.Echoes c') (entries entries' : List Entry) :
    (c.note entries).Echoes (c'.note entries') where
  registers := by simp only [registers_note, h.registers]
  view? := by simp only [view?_note, sink_note, h.view?]
  stopped := by simp only [stopped_note, h.stopped]
  ticks := by simp only [ticks_note, h.ticks]
  written := by simp only [written_note, h.written]

/-- Cores that echo each other do so behind a request to stop. -/
theorem requestStop (h : c.Echoes c') : c.requestStop.Echoes c'.requestStop :=
  ⟨h.registers, h.view?, rfl, h.ticks, h.written⟩

/-- Cores that echo each other do so with the same new registers. -/
theorem withRegisters (h : c.Echoes c') (f : RegisterFile) :
    Echoes { c with registers := f } { c' with registers := f } :=
  ⟨rfl, h.view?, h.stopped, h.ticks, h.written⟩

/-- The addresses stored to are forgotten alike. -/
theorem forgetWritten (h : c.Echoes c') :
    Echoes { c with written := [] } { c' with written := [] } :=
  ⟨h.registers, h.view?, h.stopped, h.ticks, rfl⟩

/-- A request to stop is forgotten alike. -/
theorem forgetStop (h : c.Echoes c') :
    Echoes { c with stopped := false } { c' with stopped := false } :=
  ⟨h.registers, h.view?, rfl, h.ticks, h.written⟩

/-- Cores that echo each other do so behind the same requests. -/
theorem heed (h : c.Echoes c') (notices : List Notice) :
    (notices.foldl Core.heed c).Echoes (notices.foldl Core.heed c') := by
  induction notices generalizing c c' with
  | nil => exact h
  | cons n notices ih =>
    refine ih ?_
    cases n with
    | stop => exact h.requestStop
    | report entry => exact h.note [entry] [entry]

/-- The clock goes on alike, heartbeats included. -/
theorem clock (h : c.Echoes c') (ticks : Nat) : (c.clock ticks).Echoes (c'.clock ticks) := by
  unfold Core.clock
  rw [h.ticks]
  split
  · have hreport := h.note [⟨c.sink, .info, toString heartbeat ++ " ticks elapsed"⟩]
      [⟨c'.sink, .info, toString heartbeat ++ " ticks elapsed"⟩]
    exact ⟨hreport.registers, hreport.view?, hreport.stopped, rfl, hreport.written⟩
  · exact ⟨h.registers, h.view?, h.stopped, rfl, h.written⟩

/-- The view changes alike with the status register. -/
theorem viewFor_withSink (sink sink' : Sink) (old new : Status) (v : View Ram) :
    viewFor sink' old new (ByteMemory.withSink v sink') = ByteMemory.withSink (viewFor sink old new v) sink' := by
  unfold viewFor
  split
  · rfl
  · split <;> cases v <;> rfl

/-- Cores that echo each other do so behind the same write to system control. -/
theorem writeSystem (h : c.Echoes c') (index : Nat) (w : Word) :
    (c.writeSystem index w).Echoes (c'.writeSystem index w) := by
  unfold Core.writeSystem
  split
  · refine ⟨?_, ?_, ?_, ?_, ?_⟩
    · simp only [report, registers_note, h.registers]
    · simp only [report, registers_note, view?_note, sink_note, h.registers, h.view?, Option.map_map]
      congr 1
      funext v
      exact viewFor_withSink c.sink c'.sink _ _ v
    · simp only [report, stopped_note, h.stopped]
    · simp only [report, ticks_note, h.ticks]
    · simp only [report, written_note, h.written]
  · exact h.note _ _

/-- A write to memory does the same to cores that echo each other. -/
theorem alike_poke (h : c.Echoes c') (a : Word) (bs : List UInt8) :
    Alike Echoes (c.poke a bs) (c'.poke a bs) := by
  obtain ⟨registers, view?, stopped, ticks, sink, written, log⟩ := c
  obtain ⟨registers', view?', stopped', ticks', sink', written', log'⟩ := c'
  obtain ⟨hregisters, hview, hstopped, hticks, hwritten⟩ := h
  simp only at hregisters hview hstopped hticks hwritten
  subst hregisters hview hstopped hticks hwritten
  cases view? with
  | none => exact .error _ ⟨rfl, rfl, rfl, rfl, rfl⟩
  | some v =>
    have hpoked (w : View Ram) : Echoes ⟨registers', some w, stopped', ticks', sink, written', log⟩
        ⟨registers', some (ByteMemory.withSink w sink'), stopped', ticks', sink', written', log'⟩ :=
      ⟨rfl, rfl, rfl, rfl, rfl⟩
    simp only [poke, Option.map_some]
    -- The sink is not asked whether a byte may be written.
    obtain ⟨u, w, _, hw, hw', rfl⟩ | ⟨e, w, _, hw, hw', rfl⟩ :=
      (v.alike_writeBytes_withSink sink' a bs).exists_eq
    · rw [hw, hw']
      exact .ok u ((hpoked w).note _ _)
    · rw [hw, hw']
      exact .error _ ((hpoked w).note _ _)

/-- A store does the same to cores that echo each other. -/
theorem alike_store (h : c.Echoes c') (a : Word) (bs : List UInt8) :
    Alike Echoes (c.store a bs) (c'.store a bs) := by
  unfold Core.store
  obtain ⟨u, d, d', hd, hd', hp⟩ | ⟨e, d, d', hd, hd', hp⟩ := (h.alike_poke a bs).exists_eq
  · rw [hd, hd']
    exact .ok u ⟨hp.registers, hp.view?, hp.stopped, hp.ticks, congrArg (a :: ·) hp.written⟩
  · rw [hd, hd']
    exact .error e hp

/-- The host reads the same, whichever part of the view it reads from. -/
theorem alike_readFrom {μ α : Type} [ByteMemory μ] (h : c.Echoes c') {choose : View Ram → μ}
    (hchoose : ∀ v sink a, readByte (choose (ByteMemory.withSink v sink)) a = readByte (choose v) a)
    (addresses : List Word) (spell : List UInt8 → α) :
    Alike Echoes (c.readFrom choose addresses spell) (c'.readFrom choose addresses spell) := by
  unfold Core.readFrom
  rw [h.view?]
  cases c.view? with
  | none => exact .error _ h
  | some v =>
    simp only [Option.map_some, readBytes_congr (hchoose v c'.sink)]
    cases readBytes (choose v) addresses with
    | ok bytes => exact .ok _ (h.note _ _)
    | error e => exact .error _ (h.note _ _)

end Echoes

end Core

/-- Two memories that a reset makes the same: they hide behind a cache or not, have the same boot ROM,
and put back the same images. -/
structure View.ResetsAs (v v' : View Ram) : Prop where
  /-- A cache hides both, or neither. -/
  isolated : v.isIsolated = v'.isIsolated
  /-- The boot ROM is the same. -/
  rom : v.backing.rom = v'.backing.rom
  /-- The images are the same. -/
  images : v.backing.images = v'.backing.images

namespace View.ResetsAs

/-- A view resets as itself. -/
theorem refl (v : View Ram) : v.ResetsAs v := ⟨rfl, rfl, rfl⟩

/-- A reset makes them the same, but for where they report. -/
theorem reset_eq {v v' : View Ram} (h : v.ResetsAs v') (sink sink' : Sink) :
    reset (withSink v' sink') = withSink (reset (withSink v sink)) sink' := by
  have hram {r r' : Ram} (hrom : r.rom = r'.rom) (himages : r.images = r'.images) :
      reset (withSink r' sink') = withSink (reset (withSink r sink)) sink' := by
    simp only [reset, withSink, Ram.reset, hrom, himages]
  obtain ⟨hisolated, hrom, himages⟩ := h
  -- Both views show memory or both hide it.
  cases v with
  | direct r =>
    cases v' with
    | direct r' => exact congrArg View.direct (hram hrom himages)
    | isolated cached' => cases hisolated
  | isolated cached =>
    cases v' with
    | direct r' => cases hisolated
    | isolated cached' =>
      have hhidden := hram hrom himages
      exact congrArg (fun hidden => View.isolated ⟨.zero 0x1000, some sink', hidden⟩) hhidden

end View.ResetsAs

/-- Of what a core held nothing but its sink and its log is left behind a reset. -/
theorem Core.echoes_reset {v v' : View Ram} (hv : v.ResetsAs v') (c c' : Core) :
    (c.reset v).Echoes (c'.reset v') := by
  unfold Core.reset
  refine ⟨rfl, ?_, rfl, rfl, rfl⟩
  simp only [sink_note, Option.map_some, hv.reset_eq c.sink c'.sink]

/-! ## Guests and machines -/

variable {σ : Type}

/-- An observer does not tell contexts apart that `R` relates: its calls keep the relation, ask the
same of the core, stop the program alike and write the same. -/
structure Observer.Equates (observer : Observer σ) (R : σ → σ → Prop) : Prop where
  /-- The same is asked when an address is told. -/
  sync : ∀ {s s'} a, R s s' → R (observer.sync s a).1 (observer.sync s' a).1 ∧
    (observer.sync s a).2 = (observer.sync s' a).2
  /-- Breakpoints stop the program alike, and the same is asked. -/
  check : ∀ {s s'} a, R s s' → R (observer.check s a).1 (observer.check s' a).1 ∧
    (observer.check s a).2 = (observer.check s' a).2
  /-- The same is asked when a routine is entered. -/
  enter : ∀ {s s'} a, R s s' → R (observer.enter s a).1 (observer.enter s' a).1 ∧
    (observer.enter s a).2 = (observer.enter s' a).2
  /-- The same is asked when a routine is left. -/
  leave : ∀ {s s'}, R s s' → R (observer.leave s).1 (observer.leave s').1 ∧
    (observer.leave s).2 = (observer.leave s').2
  /-- The same is written and asked when a register is written. -/
  write : ∀ {s s'} f t w, R s s' → R (observer.write s f t w).1 (observer.write s' f t w).1 ∧
    (observer.write s f t w).2 = (observer.write s' f t w).2

/-- Two guests are the same but for their reports, and for what `R` allows of their contexts. -/
structure Guest.Echoes (R : σ → σ → Prop) (g g' : Guest σ) : Prop where
  /-- The cores are the same but for their reports. -/
  core : g.core.Echoes g'.core
  /-- The contexts are related. -/
  context : R g.context g'.context

namespace Guest.Echoes

variable {R : σ → σ → Prop} {observer : Observer σ} {g g' : Guest σ}

/-- An action does the same to guests that echo each other. -/
theorem alike_act (ho : observer.Equates R) (h : g.Echoes R g') (a : Word) (action : Action) :
    Alike (Echoes R) (g.act observer a action) (g'.act observer a action) := by
  cases action with
  | sync =>
    obtain ⟨hR, hnotices⟩ := ho.sync a h.context
    simp only [act, ← hnotices]
    exact .ok () ⟨h.core.heed _, hR⟩
  | check =>
    obtain ⟨hR, hanswer⟩ := ho.check a h.context
    simp only [act, ← hanswer]
    cases (observer.check g.context a).2.2 with
    | none => exact .ok () ⟨h.core.heed _, hR⟩
    | some e => exact .error e ⟨h.core.heed _, hR⟩
  | enter callSite =>
    obtain ⟨hR, hnotices⟩ := ho.enter callSite h.context
    simp only [act, ← hnotices]
    exact .ok () ⟨h.core.heed _, hR⟩
  | leave =>
    obtain ⟨hR, hnotices⟩ := ho.leave h.context
    simp only [act, ← hnotices]
    exact .ok () ⟨h.core.heed _, hR⟩

/-- A write to a watched register does the same to guests that echo each other. -/
theorem write (ho : observer.Equates R) (h : g.Echoes R g') (t : Tracked) (w : Word) :
    (g.write observer t w).Echoes R (g'.write observer t w) := by
  unfold Guest.write
  split
  · exact h
  · obtain ⟨hR, hanswer⟩ := ho.write g.core.registers t w h.context
    simp only [h.core.registers, ← hanswer]
    exact ⟨(h.core.withRegisters _).heed _, hR⟩

/-- Reads of the ports are reported, each to its own sink. -/
theorem noteReads (h : g.Echoes R g') (op : Operation) :
    (g.noteReads op).Echoes R (g'.noteReads op) := by
  obtain ⟨entries, hnotes⟩ := noteReads_eq op g
  obtain ⟨entries', hnotes'⟩ := noteReads_eq op g'
  rw [hnotes, hnotes']
  exact ⟨h.core.note entries entries', h.context⟩

/-- No part of a step looks at what is reported. -/
theorem congruence (ho : observer.Equates R) : Congruence observer (Echoes R) where
  act a action h := h.alike_act ho a action
  noteReads op h := h.noteReads op
  effect i? pc h := by rw [h.core.registers, h.core.view?, Operation.effect_withSink]
  write t w h := h.write ho t w
  requestStop h := ⟨h.core.requestStop, h.context⟩
  writeSystem index w h := ⟨h.core.writeSystem index w, h.context⟩
  set r w h := by
    rw [h.core.registers]
    exact ⟨h.core.withRegisters _, h.context⟩
  store a bs h := (h.core.alike_store a bs).mono fun _ _ hcore => ⟨hcore, h.context⟩

end Guest.Echoes

/-- A program does not see what is reported, and where, nor what its observer does not tell apart. -/
theorem Machine.mirrors_echoes {observer : Observer σ} {R : σ → σ → Prop} (ho : observer.Equates R)
    {injector? : Option (Injector σ)}
    (hchosen : ∀ s s', R s s' → chosen injector? s' = chosen injector? s) :
    Mirrors observer injector? (Guest.Echoes R) where
  stopped h := h.core.stopped.symm
  written h := h.core.written.symm
  resumed h := ⟨h.core.forgetStop, h.context⟩
  settled ticks h := ⟨h.core.forgetWritten.clock ticks, h.context⟩
  translate {m n} extent start h := by
    obtain ⟨entries, hm⟩ := translate_eq extent start m
    obtain ⟨entries', hn⟩ := translate_eq extent start n
    -- What is injected does not depend on what `R` leaves open of the contexts.
    have hchoose : n.choose = m.choose := by
      have hcontext := hchosen _ _ h.guest.context
      unfold chosen choose at hcontext
      unfold choose
      rw [h.left, h.right]
      exact hcontext
    have hview : n.core.view? = m.core.view?.map (withSink · n.core.sink) := h.guest.core.view?
    rw [hm, hn, hview, hchoose]
    cases m.core.view? with
    | none => exact .error _ ⟨h.guest.core.requestStop, h.guest.context⟩
    | some v =>
      simp only [Option.map_some, View.backing_withSink, Block.translate_withSink]
      cases Block.translate v.backing m.choose extent start with
      | error t => exact .error _ h.guest
      | ok b => exact .ok b ⟨h.guest.core.note entries entries', h.guest.context⟩
  step hs h := (Guest.Echoes.congruence ho).alike_run hs h

end MipsMonitor
