import MipsMonitor.Proofs.Debug.CallStack
import MipsMonitor.Proofs.Debug.Calls
import MipsMonitor.Proofs.Machine.Reporting

/-!
# Twins

Two debuggers are twins if they are the same but for what they have reported, where they report, and
which events occurred in their pasts (`Debugger.Twins`). Nothing that the host can ask tells them apart:
twins give every call the same reply, or refuse it alike, and are twins behind it
(`Debugger.Twins.serve`), so that they answer whole conversations alike
(`Debugger.Twins.serveAll`). The proof has a lemma for each request, which composes those of its parts;
a request may look at the whole debugger (`Debugger.Twinned.get_bind`) as long as what it makes of it
does not depend on the pasts.
-/

namespace MipsMonitor.Debug

open Machine

variable {past past' : Array StepInfo}

namespace Session

/-- The second session is the first one, but for the events of its past: since then the same events
have occurred. -/
def Since (past past' : Array StepInfo) (s s' : Session) : Prop :=
  ∃ infos, s.events = past ++ infos ∧ s' = { s with events := past' ++ infos }

namespace Since

variable {s s' : Session}

/-- What does not touch the events, and does not look at them, keeps it. -/
theorem map (h : Since past past' s s') {f : Session → Session}
    (hkeeps : ∀ s, (f s).events = s.events)
    (hsame : ∀ s events, f { s with events } = { f s with events }) : Since past past' (f s) (f s') := by
  obtain ⟨infos, hevents, rfl⟩ := h
  exact ⟨infos, (hkeeps s).trans hevents, hsame s _⟩

/-- Sessions of twins that move to the same place. -/
theorem moveTo (h : Since past past' s s') (pc : Word) : Since past past' (s.moveTo pc) (s'.moveTo pc) :=
  h.map (f := (Session.moveTo · pc))
    (fun s => by
      simp only [Session.moveTo]
      split <;> rfl)
    fun s events => by
      simp only [Session.moveTo]
      split <;> rfl

/-- Sessions of twins that stay where they are. -/
theorem stayAt (h : Since past past' s s') (address : Word) :
    Since past past' (s.stayAt address) (s'.stayAt address) :=
  (h.moveTo address).map
    (f := fun s => { s with
      breakpoints := s.breakpoints.setSkipOnce address true, lastHit? := some address })
    (fun _ => rfl) fun _ _ => rfl

/-- An event is told alike, and the listeners answer the same. -/
theorem emit (h : Since past past' s s') (event : Event) :
    Since past past' (s.emit event).1 (s'.emit event).1 ∧ (s.emit event).2 = (s'.emit event).2 := by
  obtain ⟨infos, hevents, rfl⟩ := h
  refine ⟨⟨infos.push ⟨event, s.pc, s.frames.length⟩, ?_, ?_⟩, rfl⟩
  · simp only [Session.emit, hevents, Array.append_push]
  · simp only [Session.emit, Array.append_push]

end Since

/-- A session is watched alike, whatever happened in its past. -/
theorem equates_since (past past' : Array StepInfo) : observer.Equates (Since past past') where
  sync a h := ⟨h.map (f := fun s => { s with pc := a }) (fun _ => rfl) fun _ _ => rfl, rfl⟩
  check a h := by
    refine ⟨h.map (f := fun s => (observer.check s a).1) (fun _ => rfl) fun _ _ => rfl, ?_⟩
    obtain ⟨infos, -, rfl⟩ := h
    rfl
  enter a h :=
    (h.map (f := fun s => { s with frames := Instruction.returnAddress a :: s.frames }) (fun _ => rfl)
      fun _ _ => rfl).emit .steppedInto
  leave h :=
    (h.map (f := fun s => { s with frames := s.frames.tail }) (fun _ => rfl)
      fun _ _ => rfl).emit .steppedOut
  write f t w h :=
    ⟨h.map (f := fun s => (s.recordAt s.pc f t w).1) (fun _ => rfl) fun _ _ => rfl, rfl⟩

end Session

namespace Debugger

/-- Two debuggers with the same translations whose processors are the same but for their reports, and
whose sessions are the same but for their pasts. -/
def Twins (past past' : Array StepInfo) : Debugger → Debugger → Prop :=
  Mirrored (some Session.injector) (Guest.Echoes (Session.Since past past'))

variable {α β : Type} {d d' : Debugger}

/-- Twins run alike. -/
theorem mirrors_twins (past past' : Array StepInfo) :
    Mirrors Session.observer (some Session.injector) (Guest.Echoes (Session.Since past past')) :=
  mirrors_echoes (Session.equates_since past past') fun s s' h => by
    obtain ⟨infos, -, rfl⟩ := h
    rfl

namespace Twins

variable (h : Twins past past' d d')
include h

/-- The registers of twins. -/
theorem registers : d'.core.registers = d.core.registers := h.guest.core.registers

/-- The view of the second twin is the first one's with its own sink under it. -/
theorem view? : d'.core.view? = d.core.view?.map (ByteMemory.withSink · d'.core.sink) :=
  h.guest.core.view?

/-- The sessions of twins. -/
theorem since : Session.Since past past' (session d) (session d') := h.guest.context

/-- Twins have a view attached together. -/
theorem isSome_view? : d'.core.view?.isSome = d.core.view?.isSome := by
  rw [h.view?, Option.isSome_map]

/-- Twins stand at the same place. -/
theorem pc : Debugger.pc d' = Debugger.pc d := by
  obtain ⟨infos, -, heq⟩ := h.since
  simp only [Debugger.pc, heq]

/-- The breakpoints of twins. -/
theorem breakpoints : d'.breakpoints = d.breakpoints := by
  obtain ⟨infos, -, heq⟩ := h.since
  simp only [Debugger.breakpoints, heq]

/-- The listeners of twins. -/
theorem listeners : (session d').listeners = (session d).listeners := by
  obtain ⟨infos, -, heq⟩ := h.since
  rw [heq]

/-- What twins recorded as the last writing of a register. -/
theorem lastWrite? (index : Nat) : Debugger.lastWrite? d' index = Debugger.lastWrite? d index := by
  obtain ⟨infos, -, heq⟩ := h.since
  simp only [Debugger.lastWrite?, heq]

/-! ### What is done to twins -/

/-- A change of the core that keeps cores alike keeps twins. -/
theorem onCore {f f' : Core → Core} (hf : (f d.core).Echoes (f' d'.core)) :
    Twins past past' (d.onCore f) (d'.onCore f') :=
  h.congr ⟨hf, h.guest.context⟩ rfl rfl rfl rfl

/-- A change of the session that keeps sessions alike keeps twins. -/
theorem onContext {f : Session → Session}
    (hf : Session.Since past past' (f (session d)) (f (session d'))) :
    Twins past past' (d.onContext f) (d'.onContext f) :=
  h.congr ⟨h.guest.core, hf⟩ rfl rfl rfl rfl

/-- What neither touches nor looks at the events is done to both. -/
theorem onSession {f : Session → Session} (hkeeps : ∀ s, (f s).events = s.events)
    (hsame : ∀ s events, f { s with events } = { f s with events }) :
    Twins past past' (d.onContext f) (d'.onContext f) := h.onContext (h.since.map hkeeps hsame)

/-- Twins that move to the same place. -/
theorem moveTo (pc : Word) : Twins past past' (moveTo pc d) (moveTo pc d') :=
  h.onContext (h.since.moveTo pc)

/-- Twins that change their frames alike. -/
theorem frames (f : List Word → List Word) :
    Twins past past' (d.onContext fun s => { s with frames := f s.frames })
      (d'.onContext fun s => { s with frames := f s.frames }) :=
  h.onSession (fun _ => rfl) fun _ _ => rfl

/-- Twins that report the same line. -/
theorem report (level : Level) (text : String) :
    Twins past past' (d.onCore (Core.report · level text)) (d'.onCore (Core.report · level text)) :=
  h.onCore (h.guest.core.note _ _)

/-- Twins that tell their listeners of the same event. -/
theorem emit (event : Event) : Twins past past' (emit event d) (emit event d') := by
  obtain ⟨hsince, hnotices⟩ := h.since.emit event
  refine h.congr ⟨?_, hsince⟩ rfl rfl rfl rfl
  change ((session d).emit event).2.foldl Core.heed d.core |>.Echoes
    (((session d').emit event).2.foldl Core.heed d'.core)
  rw [← hnotices]
  exact h.guest.core.heed _

/-- Twins that leave a frame. -/
theorem leaveFrame : Twins past past' (leaveFrame d) (leaveFrame d') :=
  (h.frames List.tail).emit .steppedOut

/-- Twins that record the same writing. -/
theorem recordAt (pc : Word) (t : Tracked) (w : Word) :
    Twins past past' (recordAt pc t w d) (recordAt pc t w d') := by
  refine h.congr ⟨?_, ?_⟩ rfl rfl rfl rfl
  · have hregisters := h.registers
    refine ⟨?_, h.guest.core.view?, h.guest.core.stopped, h.guest.core.ticks, h.guest.core.written⟩
    change d'.core.registers.setTracked _ _ = d.core.registers.setTracked _ _
    rw [hregisters]
  · exact h.since.map (f := fun s => { s with trace := s.trace.set t.val pc t.isLt }) (fun _ => rfl)
      fun _ _ => rfl

/-- Twins that drop the translations of an address. -/
theorem invalidate (address : Word) : Twins past past' (d.invalidate address) (d'.invalidate address) where
  guest := h.guest
  blocks := congrArg (Translations.invalidate · address) h.blocks
  left := h.left
  right := h.right
  genuine := Translations.Every.foldl_invalidate h.genuine [address]

/-- Twins that change the breakpoints of an address alike. -/
theorem changeBreakpoints (address : Word) (f : Breakpoints → Breakpoints) :
    Twins past past' (changeBreakpoints address f d) (changeBreakpoints address f d') :=
  (h.onSession (f := fun s => { s with breakpoints := f s.breakpoints }) (fun _ => rfl)
    fun _ _ => rfl).invalidate address

/-- Twins that remove the breakpoint of an address. -/
theorem dropBreakpoint (address : Word) :
    Twins past past' (dropBreakpoint address d) (dropBreakpoint address d') := by
  unfold Debugger.dropBreakpoint
  rw [h.breakpoints]
  split
  · refine changeBreakpoints (h.onSession (fun s => ?_) fun s events => ?_) address _
    · split <;> rfl
    · simp only
      split <;> rfl
  · exact h

/-- A signal brings twins to the same stand. -/
theorem halt (e : Signal) :
    (halt e d).1 = (halt e d').1 ∧ Twins past past' (halt e d).2 (halt e d').2 := by
  cases e with
  | breakpoint address =>
    have hstay := h.onContext (f := (Session.stayAt · address)) (h.since.stayAt address)
    have hreport := hstay.report .info ("stopped at " ++ Text.hexWord address)
    refine ⟨?_, hreport.emit .stepped⟩
    -- The hits that are reported are those of the same breakpoint.
    have hbreakpoints := hstay.breakpoints
    change StopReason.breakpoint address ((Option.map _ (Debugger.breakpoints _)[address]?).getD 0) =
      .breakpoint address ((Option.map _ (Debugger.breakpoints _)[address]?).getD 0)
    rw [hbreakpoints]
  | trap t =>
    have hreport := h.report .error ((t.cause?.map Fault.text).getD t.message)
    exact ⟨rfl, (hreport.moveTo t.pc).emit .stepped⟩
  | stopped pc =>
    have hreport := h.report .warn ("execution stopped before " ++ Text.hexWord pc)
    exact ⟨rfl, hreport.moveTo pc⟩

end Twins

/-! ## Requests -/

/-- A request that twins answer, or refuse, alike, and that leaves them twins. -/
def Twinned (past past' : Array StepInfo) (x : Request α) : Prop :=
  ∀ d d', Twins past past' d d' → Alike (Twins past past') (x d) (x d')

namespace Twinned

variable {x : Request α}

/-- A request that only answers. -/
theorem pure (a : α) : Twinned past past' (Pure.pure a : Request α) := fun _ _ h => .ok a h

/-- A request that passes on an answer or an error. -/
theorem ofExcept (r : Except RequestError α) :
    Twinned past past' (MonadExcept.ofExcept r : Request α) := fun _ _ h => by
  cases r with
  | ok a => exact .ok a h
  | error e => exact .error e h

/-- A request that only changes the debugger, and twins alike. -/
theorem modify {f : Debugger → Debugger}
    (hf : ∀ {d d'}, Twins past past' d d' → Twins past past' (f d) (f d')) :
    Twinned past past' (MonadState.modifyGet fun d => ((), f d) : Request Unit) := fun _ _ h =>
  .ok () (hf h)

/-- A request behind another. -/
theorem bind {f : α → Request β} (hx : Twinned past past' x) (hf : ∀ a, Twinned past past' (f a)) :
    Twinned past past' (x >>= f) := fun d d' h =>
  Alike.bind (hx d d' h) (fun _ _ h => h) fun a d d' h => hf a d d' h

/-- What is made of a debugger has to be the same for its twin. -/
theorem get_bind {f : Debugger → Request β}
    (hsame : ∀ {d d'}, Twins past past' d d' → f d' = f d) (hf : ∀ d, Twinned past past' (f d)) :
    Twinned past past' (get >>= f) := fun d d' h => by
  change Alike _ (f d d) (f d' d')
  rw [hsame h]
  exact hf d d d' h

/-- An answer put in words. -/
theorem answered (hx : Twinned past past' x) (reply : α → Reply) :
    Twinned past past' (Call.answered reply x) := hx.bind fun a => .pure (some (reply a))

/-- An answer put in words, where there may be none. -/
theorem awaited {x : Request (Option α)} (hx : Twinned past past' x) (reply : α → Reply) :
    Twinned past past' (Call.awaited reply x) := hx.bind fun a? => .pure (a?.map reply)

/-- A request that is always served, whose answer does not depend on the past. -/
theorem served {a : Debugger → α} {f : Debugger → Debugger}
    (hanswer : ∀ {d d'}, Twins past past' d d' → a d' = a d)
    (hf : ∀ {d d'}, Twins past past' d d' → Twins past past' (f d) (f d')) :
    Twinned past past' (fun d => .ok (a d) (f d)) := fun d d' h => by
  have hsame := hanswer h
  simp only [hsame]
  exact .ok _ (hf h)

/-! ### Breakpoints and listeners -/

/-- Setting a breakpoint. -/
theorem setBreakpoint (address : Word) : Twinned past past' (setBreakpoint address) :=
  served (fun h => by rw [h.breakpoints]) fun h => h.changeBreakpoints address _

/-- Enabling or disabling a breakpoint. -/
theorem switchBreakpoint (address : Word) (on : Bool) :
    Twinned past past' (switchBreakpoint address on) :=
  served (fun h => by rw [h.breakpoints]) fun h => h.changeBreakpoints address _

/-- Removing a breakpoint. -/
theorem removeBreakpoint (address : Word) : Twinned past past' (removeBreakpoint address) :=
  served (fun h => by rw [h.breakpoints]) fun h => h.dropBreakpoint address

/-- Adding a listener: twins give it the same number. -/
theorem listen (event : Event) (respond : Nat → StepInfo → List Notice) :
    Twinned past past' (listen event respond) :=
  served (a := fun d => ((session d).listeners.add event respond).2)
    (fun h => by rw [h.listeners]) fun h => h.onSession
      (f := fun s => { s with listeners := (s.listeners.add event respond).1 })
      (fun _ => rfl) fun _ _ => rfl

/-- Removing a listener. -/
theorem unlisten (number : Nat) : Twinned past past' (unlisten number) :=
  served (a := fun d => (session d).listeners.has number)
    (fun h => by rw [h.listeners]) fun h => h.onSession
      (f := fun s => { s with listeners := s.listeners.remove number }) (fun _ => rfl) fun _ _ => rfl

/-! ### Registers -/

/-- Reading a register. -/
theorem readRegister (index : Nat) : Twinned past past' (readRegister index) :=
  (ofExcept _).bind fun _ => get_bind (fun h => by rw [h.registers]) fun _ => .pure _

/-- Writing a register. -/
theorem writeRegister (index : Nat) (w : Word) : Twinned past past' (writeRegister index w) :=
  (ofExcept _).bind fun t => modify fun {d d'} h => by
    rw [h.pc]
    exact h.recordAt _ t w

/-- Entering a register as text. -/
theorem enterRegister (index : Nat) (input : String) :
    Twinned past past' (enterRegister index input) :=
  (ofExcept _).bind fun _ => (ofExcept _).bind fun w => writeRegister index w

/-- Reading a system register. -/
theorem readSystem (index : Nat) : Twinned past past' (readSystem index) :=
  get_bind (fun h => by rw [h.registers]) fun d => by
    cases d.core.registers.get? .cop0 index with
    | none => exact fun _ _ h => .error _ h
    | some w => exact .pure w

/-- Entering a system register as text. -/
theorem enterSystem (index : Nat) (input : String) : Twinned past past' (enterSystem index input) :=
  (readSystem index).bind fun _ => (ofExcept _).bind fun w => modify fun h =>
    h.onCore (h.guest.core.writeSystem index w)

/-! ### Memory -/

/-- What the processor is asked for, twins give alike. -/
theorem access {action : EStateM AccessError Debugger α}
    (haction : ∀ {d d'}, Twins past past' d d' → Alike (Twins past past') (action d) (action d')) :
    Twinned past past' (access action) := fun d d' h => by
  unfold Debugger.access
  obtain ⟨a, e, e', he, he', h'⟩ | ⟨error, e, e', he, he', h'⟩ := (haction h).exists_eq
  · rw [he, he']
    exact .ok a h'
  · rw [he, he']
    exact .error _ h'

/-- An action of the core that likeness carries over, done by twins. -/
theorem atCore {ε : Type} {action : EStateM ε Core α}
    (haction : ∀ {c c' : Core}, c.Echoes c' → Alike Core.Echoes (action c) (action c'))
    (h : Twins past past' d d') : Alike (Twins past past') (atCore action d) (atCore action d') := by
  obtain ⟨⟨core, s⟩, blocks, injector?⟩ := d
  obtain ⟨⟨core', s'⟩, blocks', injector?'⟩ := d'
  simp only [Machine.atCore]
  obtain ⟨a, c, c', hc, hc', hcore⟩ | ⟨e, c, c', hc, hc', hcore⟩ := (haction h.guest.core).exists_eq
  · have hc : action core = .ok a c := hc
    have hc' : action core' = .ok a c' := hc'
    rw [hc, hc']
    exact .ok a (h.congr ⟨hcore, h.guest.context⟩ rfl rfl rfl rfl)
  · have hc : action core = .error e c := hc
    have hc' : action core' = .error e c' := hc'
    rw [hc, hc']
    exact .error e (h.congr ⟨hcore, h.guest.context⟩ rfl rfl rfl rfl)

/-- Twins read the same instruction, or are refused it alike. -/
theorem readInstruction (address : Word) (h : Twins past past' d d') :
    Alike (Twins past past') (Machine.readInstruction address d) (Machine.readInstruction address d') := by
  unfold Machine.readInstruction
  split
  · exact atCore (fun hc => hc.alike_readFrom (fun v sink a => by
      rw [v.backing_withSink, Ram.readByte_withSink]) _ _) h
  · exact .error _ h

/-- Reading memory. -/
theorem readMemory (address : Word) (count : Nat) : Twinned past past' (readMemory address count) :=
  access (atCore fun hc => hc.alike_readFrom (fun v sink a => v.readByte_withSink sink a) _ _)

/-- Disassembling an instruction. -/
theorem disassemble (address : Word) : Twinned past past' (disassemble address) :=
  (access (readInstruction address)).bind fun w => by
    cases Instruction.decode? w <;> exact .pure _

/-- Writing memory: twins stop at the same byte, and drop the same translations. -/
theorem writeMemory (address : Word) (bytes : List UInt8) :
    Twinned past past' (writeMemory address bytes) := by
  have hdropped (words : List Word) {d d' : Debugger} (h : Twins past past' d d') :
      Twins past past' (words.foldl (fun d a => d.invalidate a) d)
        (words.foldl (fun d a => d.invalidate a) d') := by
    induction words generalizing d d' with
    | nil => exact h
    | cons a words ih => exact ih (h.invalidate a)
  exact (access (atCore fun hc => hc.alike_poke address bytes)).bind fun _ => modify (hdropped _)

/-! ### Steps -/

/-- The check that memory is attached. -/
theorem requireMemory : Twinned past past' requireMemory := fun d d' h => by
  rw [requireMemory_eq, requireMemory_eq, h.isSome_view?]
  split
  · exact .ok () h
  · exact .error _ h

/-- The instruction that twins stand at. -/
theorem currentInstruction : Twinned past past' currentInstruction := fun d d' h => by
  unfold Debugger.currentInstruction
  rw [h.pc]
  obtain ⟨w, e, e', he, he', h'⟩ | ⟨error, e, e', he, he', h'⟩ :=
    (readInstruction (Debugger.pc d) h).exists_eq
  · rw [he, he']
    exact .ok _ h'
  · rw [he, he']
    exact .ok none h'

/-- The call that twins stand at. -/
theorem currentCall : Twinned past past' currentCall := currentInstruction.bind fun _ => .pure _

/-- Whether there is a call to step into. -/
theorem canStepInto : Twinned past past' canStepInto := currentCall.bind fun _ => .pure _

/-- One step of the machine, and what the debugger does behind it. -/
theorem executeThen {next : Word → Debugger → Debugger}
    (hnext : ∀ target {d d'}, Twins past past' d d' →
      Twins past past' (next target d) (next target d')) (address : Word) :
    Twinned past past' (executeThen address next) := fun d d' h => by
  unfold Debugger.executeThen
  obtain ⟨target, e, e', he, he', h'⟩ | ⟨s, e, e', he, he', h'⟩ :=
    ((mirrors_twins past past').executeOne h address).exists_eq
  · rw [he, he']
    exact .ok () (hnext target h')
  · rw [he, he']
    exact .ok () (Twins.halt h' s).2

/-- Stepping over. -/
theorem stepOver : Twinned past past' stepOver := by
  refine requireMemory.bind fun _ => get_bind (fun h => by rw [h.pc]) fun d₀ =>
    currentInstruction.bind fun i? => ?_
  cases i?.filter (·.mnemonic == .jr) with
  | none => exact executeThen (fun next _ _ h => (h.moveTo next).emit .stepped) _
  | some i =>
    refine get_bind (fun h => by rw [h.registers]) fun d₁ => executeThen (fun _ _ _ h => ?_) _
    refine Twins.emit ?_ .stepped
    split
    · exact (h.moveTo _).leaveFrame
    · exact h.moveTo _

/-- The entry into a called routine: twins push the same frame and link the same register. -/
theorem enter (pc target : Word) (link : Tracked) (back : Word) :
    Twinned past past' (stepInto.enter pc target link back) := fun d d' h => by
  unfold stepInto.enter
  obtain ⟨_, e, e', he, he', h'⟩ | ⟨s, e, e', he, he', h'⟩ :=
    ((mirrors_twins past past').executeOne h (pc + Instruction.size)).exists_eq
  · rw [he, he']
    refine .ok () (((Twins.moveTo ?_ target).emit .steppedInto).emit .stepped)
    split
    · exact h'
    · exact Twins.recordAt h' pc link back
  · rw [he, he']
    exact .ok () ((Twins.frames h' List.tail).halt s).2

/-- Stepping into. -/
theorem stepInto : Twinned past past' stepInto := by
  refine currentCall.bind fun i? => ?_
  cases i? with
  | none => exact .pure false
  | some i =>
    refine get_bind (fun h => by rw [h.pc]) fun d₀ => get_bind (fun h => by rw [h.registers]) fun d₁ => ?_
    refine (modify fun h => h.frames (_ :: ·)).bind fun _ => ?_
    exact (enter _ _ _ _).bind fun _ => .pure true

/-! ### Runs -/

/-- Stepping out, however long it takes. -/
theorem stepOut (fuel : Nat) : Twinned past past' (stepOut fuel) := by
  refine requireMemory.bind fun _ d d' h => ?_
  unfold stepOut.finish
  rw [h.pc]
  obtain ⟨target?, e, e', he, he', h'⟩ | ⟨s, e, e', he, he', h'⟩ :=
    ((mirrors_twins past past').execute h fuel (Debugger.pc d)).exists_eq
  · rw [he, he']
    cases target? with
    | none => exact .ok none h'
    | some target => exact .ok (some ()) ((Twins.moveTo h' target).emit .stepped)
  · rw [he, he']
    exact .ok (some ()) (Twins.halt h' s).2

/-- Twins resume alike: routine by routine they go on at the same return address. -/
theorem resume (blocks fuel : Nat) (h : Twins past past' d d') :
    (resume blocks fuel d).1 = (resume blocks fuel d').1 ∧
      Twins past past' (resume blocks fuel d).2 (resume blocks fuel d').2 := by
  -- The induction is over the routines that return; twins have the same return address.
  induction fuel generalizing d d' with
  | zero => exact ⟨rfl, h⟩
  | succ fuel ih =>
    unfold Debugger.resume
    rw [h.pc]
    obtain ⟨target?, e, e', he, he', h'⟩ | ⟨s, e, e', he, he', h'⟩ :=
      ((mirrors_twins past past').execute h blocks (Debugger.pc d)).exists_eq
    · rw [he, he']
      cases target? with
      | none => exact ⟨rfl, h'⟩
      | some target =>
        simp only
        rw [Twins.registers h']
        exact ih (Twins.moveTo h' _)
    · rw [he, he']
      obtain ⟨hreason, hstand⟩ := Twins.halt h' s
      exact ⟨congrArg some hreason, hstand⟩

/-- Running, however long it takes. -/
theorem run (fuel : Nat) : Twinned past past' (run fuel) := by
  refine requireMemory.bind fun _ d d' h => ?_
  obtain ⟨hreason, hstand⟩ := resume fuel fuel h
  simp only
  rw [hreason]
  exact .ok _ hstand

/-- Running to an address. -/
theorem runUntil (address : Word) (fuel : Nat) : Twinned past past' (runUntil address fuel) :=
  fun d d' h => by
    unfold Debugger.runUntil
    obtain ⟨reason?, e, e', he, he', h'⟩ | ⟨error, e, e', he, he', h'⟩ :=
      (run fuel _ _ (h.changeBreakpoints address (·.place address))).exists_eq
    · rw [he, he']
      exact .ok reason? (h'.dropBreakpoint address)
    · rw [he, he']
      exact .error error (h'.dropBreakpoint address)

end Twinned

/-! ## Resets and calls -/

/-- What a reset makes of a session. -/
def afresh (pc : Word) (s : Session) : Session :=
  { s.moveTo pc with
    frames := [pc]
    breakpoints := (s.moveTo pc).breakpoints.resetHits
    trace := Session.untraced }

/-- A reset, by what it makes of the core and of the session. -/
theorem reset_eq (pc : Word) (v : View Ram) (d : Debugger) : reset pc v d =
    emit .steppedInto (emit .stepped
      ⟨⟨d.core.reset v, afresh pc (session d)⟩, ∅, some Session.injector⟩) := rfl

/-- Where sessions that start afresh are the same but for their pasts, debuggers are twins behind a
reset onto memories that hold the same. -/
theorem twins_reset {v v' : View Ram} (hv : v.ResetsAs v') {pc : Word}
    (h : Session.Since past past' (afresh pc (session d)) (afresh pc (session d'))) :
    Twins past past' (reset pc v d) (reset pc v' d') := by
  have hafresh : Twins past past'
      ⟨⟨d.core.reset v, afresh pc (session d)⟩, ∅, some Session.injector⟩
      ⟨⟨d'.core.reset v', afresh pc (session d')⟩, ∅, some Session.injector⟩ :=
    ⟨⟨Core.echoes_reset hv d.core d'.core, h⟩, rfl, rfl, rfl, genuine_of_empty _ _⟩
  rw [reset_eq, reset_eq]
  exact (hafresh.emit .stepped).emit .steppedInto

namespace Twins

variable (h : Twins past past' d d')
include h

/-- Twins that are reset alike. -/
theorem reset (pc : Word) (v : View Ram) : Twins past past' (reset pc v d) (reset pc v d') :=
  twins_reset (.refl v) ((h.since.moveTo pc).map
    (f := fun s => { s with
      frames := [pc], breakpoints := s.breakpoints.resetHits, trace := Session.untraced })
    (fun _ => rfl) fun _ _ => rfl)

/-- Twins give every call the same reply, or refuse it alike, and are twins behind it. -/
theorem serve (call : Call) : Alike (Twins past past') (call.serve d) (call.serve d') := by
  have htwinned : Twinned past past' call.serve := by
    -- Every request is built from reads and changes that do not see where the twins differ.
    cases call with
    | reset pc v => exact (Twinned.modify fun h => h.reset pc v).answered _
    | moveTo pc => exact (Twinned.modify fun h => h.moveTo pc).answered _
    | requestStop => exact (Twinned.modify fun h => h.onCore h.guest.core.requestStop).answered _
    | listen event respond => exact (Twinned.listen event respond).answered _
    | unlisten number => exact (Twinned.unlisten number).answered _
    | setBreakpoint address => exact (Twinned.setBreakpoint address).answered _
    | switchBreakpoint address on => exact (Twinned.switchBreakpoint address on).answered _
    | removeBreakpoint address => exact (Twinned.removeBreakpoint address).answered _
    | readRegister index => exact (Twinned.readRegister index).answered _
    | registerText index => exact ((Twinned.readRegister index).bind fun _ => .pure _).answered _
    | lastWrite index =>
      exact Twinned.get_bind (fun h => by simp only [h.lastWrite? index]) fun _ => .pure _
    | writeRegister index w => exact (Twinned.writeRegister index w).answered _
    | enterRegister index input => exact (Twinned.enterRegister index input).answered _
    | systemText index => exact ((Twinned.readSystem index).bind fun _ => .pure _).answered _
    | enterSystem index input => exact (Twinned.enterSystem index input).answered _
    | disassemble address => exact (Twinned.disassemble address).answered _
    | readMemory address count => exact (Twinned.readMemory address count).answered _
    | writeMemory address bytes => exact (Twinned.writeMemory address bytes).answered _
    | stepOver => exact Twinned.stepOver.answered _
    | canStepInto => exact Twinned.canStepInto.answered _
    | stepInto => exact Twinned.stepInto.answered _
    | stepOut fuel => exact (Twinned.stepOut fuel).awaited _
    | run fuel => exact (Twinned.run fuel).awaited _
    | runUntil address fuel => exact (Twinned.runUntil address fuel).awaited _
  exact htwinned d d' h

/-- Twins answer calls alike, one behind the other. -/
theorem serveAll (calls : List Call) :
    (serveAll calls d).1 = (serveAll calls d').1 ∧
      Twins past past' (serveAll calls d).2 (serveAll calls d').2 := by
  -- Twins are twins behind a refusal as well, so that the calls behind it are made of twins.
  induction calls generalizing d d' with
  | nil => exact ⟨rfl, h⟩
  | cons call calls ih =>
    unfold Debugger.serveAll
    obtain ⟨r?, e, e', he, he', h'⟩ | ⟨error, e, e', he, he', h'⟩ := (h.serve call).exists_eq
    · rw [he, he']
      cases r? with
      | none => exact ⟨rfl, h'⟩
      | some r => exact ⟨congrArg (_ :: ·) (ih h').1, (ih h').2⟩
    · rw [he, he']
      exact ⟨congrArg (_ :: ·) (ih h').1, (ih h').2⟩

end Twins

end Debugger

end MipsMonitor.Debug
