import MipsMonitor.Proofs.Debug.Recording

/-!
# The last writers of a history

What a turn executes is recorded, and behind it the return address that a call leaves which the
debugger carries out itself (`Turn.writings`); so are the writes of the host, at the program counter
where it makes them. From this a history of commands has its writes (`historyWritings`), and behind it
the session names for every register the one who wrote it last (`Debugger.trace_history`).
-/

namespace MipsMonitor

open Debug Machine

/-- The writes of a stretch. -/
def Stretch.writings (x : Stretch Session) : List Writing :=
  (Block.instants Session.observer x.steps x.guest).flatMap Instant.writings

namespace Debug

/-- The writes of a turn. A jump or call that the debugger carries out takes effect once its delay
slot is executed. -/
def Turn.writings (x : Turn) : List Writing :=
  x.stretch.writings ++
    match x.carried? with
    | some (pc, i) =>
      if x.completes then Instant.writings ⟨x.stretch.guest, pc, i.operation pc⟩ else []
    | none => []

namespace Recorded

variable {log : List Writing} {g g' : Guest Session} {α ε : Type}

/-- What is recorded up to a guest is recorded up to one that is like it. -/
theorem of_alike {x : Guest Session} {r : EStateM.Result ε (Guest Session) α}
    {r' : EStateM.Result ε Debugger α} (hlike : g.Like (· = ·) x) (h : Leads (Recorded log x) r)
    (halike : Alike (fun g d => g.Like (· = ·) d.guest) r r') :
    Leads (fun d : Debugger => Recorded log g d.guest) r' := by
  have hbefore : Recorded [] g x := of_like hlike fun _ _ h => congrArg Session.trace h
  have hbehind (g' : Guest Session) (d : Debugger) (h : g'.Like (· = ·) d.guest) :
      Recorded [] g' d.guest := of_like h fun _ _ h => congrArg Session.trace h
  cases halike with
  | ok a hd => exact (hbefore.nil_append h).append_nil (hbehind _ _ hd)
  | error e hd => exact (hbefore.nil_append h).append_nil (hbehind _ _ hd)

end Recorded

namespace Debugger

variable {d d' : Debugger} {pc : Word}

/-! ## Turns of the machine -/

/-- A pass is recorded. -/
theorem recorded_pass (hd : Attends d) (pc : Word) :
    Leads (fun d' => Recorded ((d.stretch? pc).toList.flatMap Stretch.writings) d.guest d'.guest)
      (pass Session.observer pc d) := by
  obtain ⟨hnone, e, n, hpass, hlike⟩ | ⟨x, stop, hx, hlike, hsteps, halike⟩ :=
    hd.pass_stretch Session.observer pc
  · rw [hnone, hpass]
    exact .of_like hlike fun _ _ h => congrArg Session.trace h
  · rw [hx, Option.toList_some, List.flatMap_singleton]
    exact Recorded.of_alike hlike (Session.recounts_recorded.runSteps hsteps _ _) halike

/-- A single step is recorded. -/
theorem recorded_executeOne (hd : Attends d) (pc : Word) :
    Leads (fun d' => Recorded ((d.single? pc).toList.flatMap Stretch.writings) d.guest d'.guest)
      (executeOne Session.observer pc d) := by
  obtain ⟨hnone, e, n, hone, hlike⟩ | ⟨x, stop, hx, hlike, hsteps, halike⟩ :=
    hd.executeOne_stretch Session.observer pc
  · rw [hnone, hone]
    exact .of_like hlike fun _ _ h => congrArg Session.trace h
  · rw [hx, Option.toList_some, List.flatMap_singleton]
    have hrun : Leads (Recorded x.writings x.guest)
        (Block.runSteps Session.observer ⟨stop, .plain⟩ x.steps x.guest) :=
      Session.recounts_recorded.runSteps hsteps _ _
    have hone : Leads (Recorded x.writings x.guest)
        ((Block.runSteps Session.observer ⟨stop, .plain⟩ x.steps >>= fun exit => pure exit.target)
          x.guest) := Leads.bind hrun (fun _ h => h) fun _ _ h => h
    exact Recorded.of_alike hlike hone halike

/-- A run is recorded, however it ends. -/
theorem recorded_invoke (hd : Attends d) (fuel : Nat) (pc : Word) (depth : Nat) :
    Leads (fun d' => Recorded ((stretches Session.observer fuel pc depth d).flatMap Stretch.writings)
      d.guest d'.guest) (invoke Session.observer fuel pc depth d) := by
  induction fuel generalizing pc depth d with
  | zero => exact Recorded.refl d.guest
  | succ fuel ih =>
    have hpass := recorded_pass hd pc
    rw [invoke_succ]
    unfold stretches
    rw [List.flatMap_append]
    cases hp : pass Session.observer pc d with
    -- Where the pass fails the run ends with what the pass wrote.
    | error e d₁ =>
      rw [hp] at hpass
      exact Recorded.trans hpass (.refl d₁.guest)
    | ok exit d₁ =>
      rw [hp] at hpass
      simp only
      cases hfollow : exit.follow? depth with
      | none => exact Recorded.trans hpass (.refl d₁.guest)
      -- What the rest of the run writes comes behind what the pass wrote.
      | some next =>
        have hrest := ih ((hd.pass Session.observer pc).of_ok hp) next.1 next.2
        exact hrest.mono fun _ h => Recorded.trans hpass h

/-- A routine is recorded, however it ends. -/
theorem recorded_execute (hd : Attends d) (fuel : Nat) :
    Leads (fun d' => Recorded ((routineTurns fuel d).flatMap Turn.writings) d.guest d'.guest)
      (execute Session.observer fuel (Debugger.pc d) d) := by
  have hattends : Attends d.resumed := hd.congr rfl fun _ _ h => h
  have hresumed : Recorded [] d.guest d.resumed.guest := .of_eq rfl fun _ => rfl
  have hturns : (routineTurns fuel d).flatMap Turn.writings =
      (routine fuel d).flatMap Stretch.writings := by
    rw [routineTurns, List.flatMap_map]
    exact congrArg (List.flatMap · _) (funext fun x => List.append_nil _)
  rw [execute_eq, hturns]
  exact (recorded_invoke hattends fuel (Debugger.pc d) 0).mono fun _ h => hresumed.nil_append h

/-- A single step that is no delay slot of what the debugger carries out is recorded. -/
theorem recorded_single (hd : Attends d) (pc : Word) :
    Leads (fun d' => Recorded ((singleTurns none pc d).flatMap Turn.writings) d.guest d'.guest)
      (executeOne Session.observer pc d) := by
  have hone := recorded_executeOne hd pc
  unfold singleTurns
  cases hx : d.single? pc with
  | none =>
    rw [hx] at hone
    exact hone
  | some x =>
    rw [hx] at hone
    simpa only [Option.toList_some, List.map_singleton, List.flatMap_singleton, Turn.writings,
      List.append_nil] using hone

/-- The delay slot of what the debugger carries out is recorded, and what is carried out writes behind
it if the slot completes. -/
theorem recorded_slot (hd : Attends d) (a : Word) (i : Instruction) (pc : Word) :
    ∃ log, Leads (fun d' => Recorded log d.guest d'.guest) (executeOne Session.observer pc d) ∧
      ∃ g : Guest Session, (singleTurns (some (a, i)) pc d).flatMap Turn.writings =
        log ++ if (answer? (executeOne Session.observer pc d)).isSome then
          Instant.writings ⟨g, a, i.operation a⟩ else [] := by
  refine ⟨_, recorded_executeOne hd pc, ?_⟩
  unfold singleTurns
  cases hx : d.single? pc with
  | none =>
    -- Where nothing is executed, the step gives no answer.
    obtain ⟨-, e, n, hone, -⟩ | ⟨x, -, hx', -⟩ := hd.executeOne_stretch Session.observer pc
    · rw [hone]
      exact ⟨d.guest, rfl⟩
    · cases hx.symm.trans hx'
  | some x =>
    refine ⟨x.guest, ?_⟩
    rw [← completes_single hd (some (a, i)) hx]
    simp only [Option.toList_some, List.map_singleton, List.flatMap_singleton, Turn.writings]

/-! ## What writes no register -/

/-- Telling listeners writes no register. -/
theorem recorded_emit (event : Event) (d : Debugger) : Recorded [] d.guest (emit event d).guest := by
  obtain ⟨notices, listeners, events, heq⟩ := emit_eq event d
  have hself := Core.Agree.refl d.core
  rw [heq]
  exact .of_eq rfl fun t => by rw [(hself.heed_heed notices []).registers]; rfl

/-- To move on writes no register. -/
theorem recorded_moveTo (pc : Word) (d : Debugger) : Recorded [] d.guest (moveTo pc d).guest :=
  .of_like (like_moveTo_nowhere pc d) fun _ _ h => h.trace

/-- Coming to a stand writes no register. -/
theorem recorded_halt (e : Signal) (d : Debugger) : Recorded [] d.guest (halt e d).2.guest :=
  .of_eq (like_halt e d).context.trace fun _ => by rw [(like_halt e d).core.registers]

/-- A look at the next instruction writes no register. -/
theorem recorded_looked (d : Debugger) : Recorded [] d.guest (looked d).guest := by
  obtain ⟨entries, h⟩ := looked_eq d
  rw [h]
  exact Session.recorded_note d.guest entries

/-- Leaving a frame writes no register. -/
theorem recorded_leaveFrame (d : Debugger) : Recorded [] d.guest (leaveFrame d).guest := by
  have hpopped : Recorded [] d.guest
      (d.onContext fun s => { s with frames := s.frames.tail }).guest := .of_eq rfl fun _ => rfl
  exact hpopped.nil_append (recorded_emit .steppedOut _)

/-- A jump of the debugger writes no register. -/
theorem recorded_jumpTo (i : Instruction) (target : Word) (d : Debugger) :
    Recorded [] d.guest (jumpTo i target d).guest := by
  unfold jumpTo
  refine (recorded_moveTo target d).nil_append (Recorded.nil_append ?_ (recorded_emit .stepped _))
  split
  · exact recorded_leaveFrame _
  · exact .refl _

/-- Removing a breakpoint writes no register. -/
theorem recorded_dropBreakpoint (address : Word) (d : Debugger) :
    Recorded [] d.guest (dropBreakpoint address d).guest := by
  obtain ⟨-, heq⟩ | ⟨lastHit?, heq, -⟩ := dropBreakpoint_eq address d
  · rw [heq]
    exact .refl _
  · rw [heq]
    exact .of_eq rfl fun _ => rfl

/-! ## Steps and runs -/

/-- A jump to a register writes nothing. -/
theorem writings_of_jr {i : Instruction} (hjr : i.mnemonic = .jr) (g : Guest Session) (pc : Word) :
    Instant.writings ⟨g, pc, i.operation pc⟩ = [] := by
  obtain ⟨m, raw⟩ := i
  obtain rfl : m = .jr := hjr
  rfl

/-- A call leaves the return address. -/
theorem writings_of_call {i : Instruction} (hcall : i.isCall = true) (g : Guest Session) (pc : Word) :
    Instant.writings ⟨g, pc, i.operation pc⟩ =
      [⟨linkRegister i, Instruction.returnAddress pc, pc⟩] := by
  obtain ⟨m, raw⟩ := i
  cases m with
  | jal => rfl
  | jalr => rfl
  | _ => cases hcall

/-- A step is recorded. -/
theorem recorded_stepOver (hd : Attends d) :
    Recorded ((stepOverTurns d).flatMap Turn.writings) d.guest (endState (stepOver d)).guest := by
  unfold stepOverTurns
  by_cases hview : d.core.view?.isSome = true
  case neg =>
    rw [stepOver_refused hview, if_neg hview]
    exact .refl _
  rw [if_pos hview, stepOver_served hview]
  refine (recorded_looked d).nil_append ?_
  cases hjump : (current? d).filter (·.mnemonic == .jr) with
  | none =>
    have hone := recorded_single hd.looked (Debugger.pc d)
    simp only
    unfold executeThen
    cases hexecute : executeOne Session.observer (Debugger.pc d) (looked d) with
    | ok next d₁ =>
      rw [hexecute] at hone
      exact (Recorded.append_nil hone (recorded_moveTo next d₁)).append_nil (recorded_emit .stepped _)
    | error e d₁ =>
      rw [hexecute] at hone
      exact Recorded.append_nil hone (recorded_halt e d₁)
  -- Only the slot of a register jump is executed; the jump itself is the work of the debugger.
  | some i =>
    obtain ⟨-, hjr⟩ := Option.filter_eq_some_iff.mp hjump
    obtain ⟨log, hone, g, hlog⟩ :=
      recorded_slot hd.looked (Debugger.pc d) i (Debugger.pc d + Instruction.size)
    rw [writings_of_jr (beq_iff_eq.mp hjr), ite_self, List.append_nil] at hlog
    simp only
    rw [hlog]
    unfold executeThen
    cases hexecute : executeOne Session.observer (Debugger.pc d + Instruction.size) (looked d) with
    | ok next d₁ =>
      rw [hexecute] at hone
      exact Recorded.append_nil hone (recorded_jumpTo i _ d₁)
    | error e d₁ =>
      rw [hexecute] at hone
      exact Recorded.append_nil hone (recorded_halt e d₁)

/-- A step into a call is recorded, and the return address is put down to the call. -/
theorem recorded_stepInto (hd : Attends d) :
    Recorded ((stepIntoTurns d).flatMap Turn.writings) d.guest (endState (stepInto d)).guest := by
  rw [stepInto_eq]
  unfold stepIntoTurns
  cases hcall : (current? d).filter Instruction.isCall with
  | none => exact recorded_looked d
  | some i =>
    obtain ⟨-, hicall⟩ := Option.filter_eq_some_iff.mp hcall
    have hcalling : Attends (calling d) := hd.looked.congr rfl fun _ _ h => h
    have hpushed : Recorded [] d.guest (calling d).guest :=
      (recorded_looked d).nil_append (.of_eq rfl fun _ => rfl)
    obtain ⟨log, hone, g, hlog⟩ :=
      recorded_slot hcalling (Debugger.pc d) i (Debugger.pc d + Instruction.size)
    rw [writings_of_call hicall] at hlog
    simp only
    rw [hlog]
    refine hpushed.nil_append ?_
    rw [endState]
    unfold stepInto.enter
    cases hexecute : executeOne Session.observer (Debugger.pc d + Instruction.size) (calling d) with
    | error e d₁ =>
      rw [hexecute] at hone
      have hpopped : Recorded [] d₁.guest
          (d₁.onContext fun s => { s with frames := s.frames.tail }).guest := .of_eq rfl fun _ => rfl
      have hstood := hpopped.nil_append (recorded_halt e _)
      simp only [answer?, Option.isSome_none, Bool.false_eq_true, if_false, List.append_nil]
      exact Recorded.append_nil hone hstood
    | ok next d₁ =>
      rw [hexecute] at hone
      -- The link is written behind the slot; into register zero nothing is written.
      have hlinked (pc back : Word) (link : Tracked) : Recorded [⟨link, back, pc⟩] d₁.guest
          (if link = .zero then d₁ else recordAt pc link back d₁).guest := by
        have hleft := Recorded.leave pc link back d₁.guest
        unfold leave at hleft
        split
        · next hzero =>
          rw [if_pos hzero] at hleft
          exact hleft
        · next hzero =>
          rw [if_neg hzero] at hleft
          rw [guest_recordAt hzero]
          exact hleft
      simp only [answer?, Option.isSome_some, if_true]
      rw [Session.linkRegister_eq]
      refine Recorded.trans hone ((hlinked _ _ _).append_nil ?_)
      exact ((recorded_moveTo _ _).nil_append (recorded_emit .steppedInto _)).nil_append
        (recorded_emit .stepped _)

/-- Routines that are run one behind the other are recorded. -/
theorem recorded_resume {blocks fuel : Nat} (hd : Attends d) :
    Recorded ((resumeTurns blocks fuel d).flatMap Turn.writings) d.guest
      (resume blocks fuel d).2.guest := by
  induction fuel generalizing d with
  | zero => exact .refl _
  | succ fuel ih =>
    unfold resumeTurns Debugger.resume
    have hrun := recorded_execute hd blocks
    -- The run goes on with a debugger that still attends, so that the rest is the same again.
    have hattends := (Moves.execute blocks (Debugger.pc d) d).mono fun _ h =>
      Moves.keeps Move.attends h hd
    rw [List.flatMap_append]
    cases hexecute : execute Session.observer blocks (Debugger.pc d) d with
    | error e d₁ =>
      rw [hexecute] at hrun
      exact Recorded.trans hrun (recorded_halt e d₁)
    | ok target? d₁ =>
      rw [hexecute] at hrun
      cases target? with
      | none => exact Recorded.trans hrun (.refl _)
      | some target =>
        have hmoved := recorded_moveTo (d₁.core.registers.tracked .returnAddress) d₁
        exact Recorded.trans hrun
          (hmoved.nil_append (ih (Move.attends (.moveTo _ d₁) (hattends.of_ok hexecute))))

/-- A step out is recorded. -/
theorem recorded_stepOut {fuel : Nat} (hd : Attends d) :
    Recorded ((stepOutTurns fuel d).flatMap Turn.writings) d.guest
      (endState (stepOut fuel d)).guest := by
  unfold stepOutTurns
  rw [stepOut_eq]
  by_cases hview : d.core.view?.isSome = true
  · rw [if_pos hview, if_pos hview]
    have hrun := recorded_execute hd fuel
    unfold stepOut.finish
    cases hexecute : execute Session.observer fuel (Debugger.pc d) d with
    | error e d₁ =>
      rw [hexecute] at hrun
      exact Recorded.append_nil hrun (recorded_halt e d₁)
    | ok target? d₁ =>
      rw [hexecute] at hrun
      cases target? with
      | none => exact hrun
      -- Behind the return only the debugger moves, which writes nothing.
      | some target =>
        exact (Recorded.append_nil hrun (recorded_moveTo target d₁)).append_nil
          (recorded_emit .stepped _)
  · rw [if_neg hview, if_neg hview]
    exact .refl _

/-- A run is recorded. -/
theorem recorded_run {fuel : Nat} (hd : Attends d) :
    Recorded ((runTurns fuel d).flatMap Turn.writings) d.guest (endState (run fuel d)).guest := by
  unfold runTurns
  by_cases hview : d.core.view?.isSome = true
  · rw [if_pos hview, run_eq hview]
    exact recorded_resume hd
  · rw [if_neg hview, run_refused hview]
    exact .refl _

/-! ## Writes of the host -/

/-- A write that the debugger makes for the host is put down to the address given. -/
theorem recorded_recordAt (pc : Word) (t : Tracked) (w : Word) (d : Debugger) :
    Recorded [⟨t, w, pc⟩] d.guest (recordAt pc t w d).guest := by
  by_cases hzero : t = .zero
  · subst hzero
    -- The trace of the register that is always zero is not looked at.
    intro s hs
    simp [Writing.last?, recordAt, Session.recordAt, Recorded.get_trace_set, hs.symm]
  · rw [guest_recordAt hzero]
    have hleft := Recorded.leave pc t w d.guest
    rwa [leave, if_neg hzero] at hleft

/-- The writes of the host to a register of some number, if there is such a register. -/
def hostWritings (index : Nat) (w : Word) (d : Debugger) : List Writing :=
  match register index with
  | .ok t => [⟨t, w, Debugger.pc d⟩]
  | .error _ => []

/-- Writing a register: the host is recorded as the writer, at the address where it stands. -/
theorem recorded_writeRegister (index : Nat) (w : Word) (d : Debugger) :
    Recorded (hostWritings index w d) d.guest (endState (writeRegister index w d)).guest := by
  unfold writeRegister hostWritings
  rw [bind_apply]
  cases register index with
  | ok t => exact recorded_recordAt (Debugger.pc d) t w d
  | error e => exact .refl _

/-- The writes of the host as a user typed them. -/
def typedWritings (index : Nat) (input : String) (d : Debugger) : List Writing :=
  match parse input with
  | .ok w => hostWritings index w d
  | .error _ => []

/-- Entering a register as text. -/
theorem recorded_enterRegister (index : Nat) (input : String) (d : Debugger) :
    Recorded (typedWritings index input d) d.guest
      (endState (enterRegister index input d)).guest := by
  have hwrite (w : Word) := recorded_writeRegister index w d
  unfold enterRegister typedWritings
  rw [bind_apply]
  unfold hostWritings at hwrite ⊢
  -- Nothing is written unless the register is there and the text is a number.
  cases hregister : register index with
  | error e =>
    cases parse input <;> exact .refl _
  | ok t =>
    rw [hregister] at hwrite
    change Recorded _ _ (endState ((MonadExcept.ofExcept (parse input) >>= fun w =>
      writeRegister index w : Request Unit) d)).guest
    rw [bind_apply]
    cases parse input with
    | error e => exact .refl _
    | ok w => exact hwrite w

/-- Actions that are recorded one by one are recorded one behind the other. -/
theorem recorded_foldl {α : Type} (f : Debugger → α → Debugger) (log : α → List Writing)
    (hf : ∀ d x, Recorded (log x) d.guest (f d x).guest) (xs : List α) (d : Debugger) :
    Recorded (xs.flatMap log) d.guest (xs.foldl f d).guest := by
  induction xs generalizing d with
  | nil => exact .refl _
  | cons x xs ih =>
    rw [List.flatMap_cons]
    exact (hf d x).trans (ih (f d x))

/-- The writes of an image, all at the program counter from before. -/
def imageWritings (image : Remote.RegisterImage) (d : Debugger) : List Writing :=
  image.tracked.map fun (t, w) => ⟨t, w, Debugger.pc d⟩

/-- Writing a register image: all of its registers are recorded. -/
theorem recorded_writeImage (image : Remote.RegisterImage) (d : Debugger) :
    Recorded (imageWritings image d) d.guest (image.write d).guest := by
  unfold Remote.RegisterImage.write
  extract_lets pc d₁ d₂
  -- The words of the tracked registers are recorded one by one; system registers are not recorded.
  have htracked : Recorded (imageWritings image d) d.guest d₁.guest := by
    have hall := recorded_foldl (fun d x => recordAt pc x.1 x.2 d) (fun x => [⟨x.1, x.2, pc⟩])
      (fun d x => recorded_recordAt pc x.1 x.2 d) image.tracked d
    rw [← List.map_eq_flatMap] at hall
    exact hall
  have hsystem : Recorded [] d₁.guest d₂.guest := by
    have hall := recorded_foldl
      (fun d (x : Nat × Word) => Machine.onCore (Core.writeSystem · x.1 x.2) d) (fun _ => [])
      (fun d x => Session.recorded_writeSystem d.guest x.1 x.2) image.system d₁
    rw [List.flatMap_eq_nil_iff.mpr fun _ _ => rfl] at hall
    exact hall
  split
  · exact htracked.append_nil hsystem
  · exact (htracked.append_nil hsystem).append_nil (recorded_moveTo _ _)

/-- Entering a system register writes no watched register. -/
theorem recorded_enterSystem (index : Nat) (input : String) (d : Debugger) :
    Recorded [] d.guest (endState (enterSystem index input d)).guest := by
  have hread : (∃ w, readSystem index d = .ok w d) ∨ ∃ e, readSystem index d = .error e d := by
    unfold readSystem
    rw [bind_apply, show (get : Request Debugger) d = .ok d d from rfl]
    simp only
    cases d.core.registers.get? .cop0 index with
    | none => exact .inr ⟨_, rfl⟩
    | some w => exact .inl ⟨w, rfl⟩
  unfold enterSystem
  rw [bind_apply]
  obtain ⟨w₀, hread⟩ | ⟨e, hread⟩ := hread
  · rw [hread]
    simp only
    rw [bind_apply]
    cases parse input with
    | error e => exact .refl _
    | ok w => exact Session.recorded_writeSystem d.guest index w
  · rw [hread]
    exact .refl _

/-- Writing memory writes no register. -/
theorem recorded_writeMemory (address : Word) (bytes : List UInt8) (d : Debugger) :
    Recorded [] d.guest (endState (writeMemory address bytes d)).guest := by
  -- Dropping translations touches neither the registers nor the trace.
  have hdropped (d : Debugger) : ((wordsOf address bytes.length).foldl
      (fun d a => d.invalidate a) d).guest = d.guest := by
    generalize wordsOf address bytes.length = as
    induction as generalizing d with
    | nil => rfl
    | cons a as ih => exact ih (d.invalidate a)
  have hpoked : Leads (fun d' : Debugger => Recorded [] d.guest d'.guest)
      (access (atCore (Core.poke address bytes)) d) := by
    obtain ⟨⟨⟨registers, view?, stopped, ticks, sink, written, log⟩, session⟩, blocks, injector?⟩ := d
    cases view? with
    | none => exact Recorded.refl _
    | some v =>
      simp only [access, atCore, Core.poke]
      cases ByteMemory.writeBytes address bytes v <;>
        exact Recorded.of_eq rfl fun t => congrArg (·.tracked t) (Core.registers_note _ _)
  unfold writeMemory
  rw [bind_apply]
  cases haccess : access (atCore (Core.poke address bytes)) d with
  | error e d₁ =>
    rw [haccess] at hpoked
    exact hpoked
  | ok u d₁ =>
    rw [haccess] at hpoked
    change Recorded [] d.guest ((wordsOf address bytes.length).foldl
      (fun d a => d.invalidate a) d₁).guest
    rw [hdropped]
    exact hpoked

end Debugger

open Debugger

/-! ## Histories -/

/-- The writes of a command. -/
def Command.writings : Command → Debugger → List Writing
  | writeRegister index w, d => hostWritings index w d
  | enterRegister index input, d => typedWritings index input d
  | writeImage image, d => imageWritings image d
  | command, d => (command.turns d).flatMap Turn.writings

/-- The command neither starts the program afresh nor writes the register file from outside. -/
def Command.Traced : Command → Prop
  | reset .. => False
  | outside f => ∀ core, (f core).registers = core.registers
  | _ => True

namespace Debugger

variable {d d' : Debugger}

/-- A command is recorded. -/
theorem recorded_command (hd : Attends d) {command : Command} (htraced : command.Traced)
    (hperform : command.perform d = some d') :
    Recorded (command.writings d) d.guest d'.guest := by
  cases command with
  | reset pc v => cases htraced
  | moveTo pc => exact Option.some.inj hperform ▸ recorded_moveTo pc d
  | setBreakpoint address => exact Option.some.inj hperform ▸ .of_eq rfl fun _ => rfl
  | switchBreakpoint address on => exact Option.some.inj hperform ▸ .of_eq rfl fun _ => rfl
  | removeBreakpoint address => exact Option.some.inj hperform ▸ recorded_dropBreakpoint address d
  | listen event respond => exact Option.some.inj hperform ▸ .of_eq rfl fun _ => rfl
  | unlisten number => exact Option.some.inj hperform ▸ .of_eq rfl fun _ => rfl
  | writeRegister index w => exact Option.some.inj hperform ▸ recorded_writeRegister index w d
  | enterRegister index input =>
    exact Option.some.inj hperform ▸ recorded_enterRegister index input d
  | enterSystem index input => exact Option.some.inj hperform ▸ recorded_enterSystem index input d
  | writeImage image => exact Option.some.inj hperform ▸ recorded_writeImage image d
  | writeMemory address bytes =>
    exact Option.some.inj hperform ▸ recorded_writeMemory address bytes d
  | outside f =>
    exact Option.some.inj hperform ▸ .of_eq rfl fun t => congrArg (·.tracked t) (htraced d.core)
  | stepOver => exact Option.some.inj hperform ▸ recorded_stepOver hd
  | stepInto => exact Option.some.inj hperform ▸ recorded_stepInto hd
  | stepOut fuel => exact eq_of_stood hperform ▸ recorded_stepOut hd
  | run fuel => exact eq_of_stood hperform ▸ recorded_run hd
  | runUntil address fuel =>
    obtain rfl := eq_of_stood hperform
    -- The breakpoint is placed before the run and dropped behind it, whatever the run comes to;
    -- neither writes a register.
    have hplaced : Attends (changeBreakpoints address (·.place address) d) :=
      Move.attends (.breakpoints address _ d) hd
    have hbefore : Recorded [] d.guest (changeBreakpoints address (·.place address) d).guest :=
      .of_eq rfl fun _ => rfl
    refine (hbefore.nil_append (recorded_run hplaced)).append_nil ?_
    unfold Debugger.runUntil
    cases Debugger.run fuel (changeBreakpoints address (·.place address) d) with
    | ok reason? d₁ => exact recorded_dropBreakpoint address d₁
    | error e d₁ => exact recorded_dropBreakpoint address d₁

/-- The writes of a history of commands. -/
def historyWritings : List Command → Debugger → List Writing
  | [], _ => []
  | command :: commands, d =>
    command.writings d ++ ((command.perform d).map (historyWritings commands)).getD []

/-- A history of commands is recorded. -/
theorem recorded_performAll (hd : Attends d) {commands : List Command}
    (htraced : ∀ command ∈ commands, command.Traced) (hperform : performAll commands d = some d') :
    Recorded (historyWritings commands d) d.guest d'.guest := by
  induction commands generalizing d with
  | nil =>
    cases hperform
    exact .refl _
  | cons command commands ih =>
    obtain ⟨d₁, hfirst, hrest⟩ := Option.bind_eq_some_iff.mp hperform
    unfold historyWritings
    rw [hfirst, Option.map_some, Option.getD_some]
    have hrecorded := recorded_command hd (htraced command List.mem_cons_self) hfirst
    exact hrecorded.trans (ih (hd.perform hfirst)
      (fun c hc => htraced c (List.mem_cons_of_mem _ hc)) hrest)

/-- Behind a history of commands since a reset, the session names for every register the one who wrote
it last: the address of the instruction that did, or the program counter at which the host did, and
zero if nobody did. The register holds what was written then. -/
theorem trace_history (pc : Word) (v : View Ram) (d₀ : Debugger) {commands : List Command}
    (htraced : ∀ command ∈ commands, command.Traced)
    (hperform : performAll commands (reset pc v d₀) = some d) {t : Tracked} (ht : t ≠ .zero) :
    lastWrite? d t =
        some (((Writing.last? t (historyWritings commands (reset pc v d₀))).map (·.pc)).getD 0) ∧
      d.core.registers.tracked t =
        ((Writing.last? t (historyWritings commands (reset pc v d₀))).map (·.value)).getD 0 := by
  have hstart : Recorded [] (⟨{ d₀.core with registers := .atReset },
      { session d₀ with trace := Session.untraced }⟩ : Guest Session) (reset pc v d₀).guest := by
    unfold reset
    refine Recorded.nil_append ?_ ((recorded_emit .stepped _).nil_append (recorded_emit .steppedInto _))
    exact .of_eq rfl fun _ => rfl
  -- A session begins with registers at zero and a trace of zeros, so what was never written reads
  -- as zero.
  have hzero (t : Tracked) : RegisterFile.atReset.tracked t = 0 := by
    unfold RegisterFile.atReset Register.status Register.processorId
    rw [RegisterFile.tracked_set _ _ Bank.ofCoprocessor_cop0,
      RegisterFile.tracked_set _ _ Bank.ofCoprocessor_cop0]
    exact Vector.getElem_replicate _
  have huntraced (t : Tracked) : Session.untraced.get t = 0 := Vector.getElem_replicate _
  obtain ⟨htrace, hvalue⟩ :=
    hstart.nil_append (recorded_performAll (attends_reset pc v d₀) htraced hperform) t ht
  simp only [hzero, huntraced] at htrace hvalue
  refine ⟨?_, hvalue⟩
  rw [← htrace]
  exact Vector.getElem?_eq_getElem t.isLt

end Debugger

namespace Crediting

open Debugger

/-- A call from `0x08` to a multiplication: twice `nop`, `jal 0x18`, `addiu $t0, $zero, 5`, twice `nop`,
`mult $t0, $t0`, `syscall`. -/
def image : Image :=
  ⟨0, ⟨#[0, 0, 0, 0, 0, 0, 0, 0, 0x06, 0, 0, 0x0C, 0x05, 0, 0x08, 0x24, 0, 0, 0, 0, 0, 0, 0, 0,
    0x18, 0, 0x08, 0x01, 0x0C, 0, 0, 0]⟩, by decide⟩

/-- The call is stepped into, the host writes `$t1`, and the program runs on. -/
def commands : List Command := [.stepOver, .stepOver, .stepInto, .writeRegister 9 7, .run 2]

/-- The delay slot wrote `$t0`, the host wrote `$t1`, the call wrote `$ra`, the multiplication wrote
both results, and nobody wrote `$t2`. -/
theorem trace_crediting :
    ∃ d, performAll commands (atReset image) = some d ∧ (∀ command ∈ commands, command.Traced) ∧
      lastWrite? d 8 = some 0x0C ∧ lastWrite? d 9 = some 0x18 ∧ lastWrite? d 31 = some 0x08 ∧
      lastWrite? d 32 = some 0x18 ∧ lastWrite? d 33 = some 0x18 ∧ lastWrite? d 10 = some 0 := by
  have hsome : (performAll commands (atReset image)).isSome = true := by
    rw [atReset_eq]
    decide +kernel
  have hlog : historyWritings commands (atReset image) =
      [⟨0, 0, 0⟩, ⟨0, 0, 4⟩, ⟨8, 5, 0x0C⟩, ⟨31, 0x10, 0x08⟩, ⟨9, 7, 0x18⟩, ⟨32, 0, 0x18⟩,
        ⟨33, 25, 0x18⟩] := by
    rw [atReset_eq]
    decide +kernel
  obtain ⟨d, hperform⟩ := Option.isSome_iff_exists.mp hsome
  have htraced : ∀ command ∈ commands, command.Traced := by
    simp [commands, Command.Traced]
  have hlast (t : Tracked) (ht : t ≠ .zero) := (trace_history 0 _ _ htraced hperform ht).1
  unfold atReset at hlog
  rw [hlog] at hlast
  exact ⟨d, hperform, htraced, hlast 8 (by decide), hlast 9 (by decide), hlast 31 (by decide),
    hlast 32 (by decide), hlast 33 (by decide), hlast 10 (by decide)⟩

end Crediting

end Debug

end MipsMonitor
