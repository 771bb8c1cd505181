import MipsMonitor.Proofs.Debug.Depth

/-!
# The call stack of a history

A command executes a number of turns (`Command.turns`). In most of them the machine executes steps;
in some the debugger carries out a jump or a call itself, and the machine executes the delay slot
(`Turn`). A turn crosses from routine to routine if its call or return transfers control
(`Turn.crossing?`), and it cuts a crossing short if a call or return is followed but does not transfer
control (`Turn.uncut`). As long as no crossing is cut short, the call stack behind a history of
commands is that of the crossings that took place since the reset, in their order
(`Debugger.callStack_history`). Commands that execute nothing touch neither the frames nor the events
that tell of them (`Debugger.accounts_of_idle`).
-/

namespace MipsMonitor

/-- Whether steps are all executed. -/
def Block.completes {σ : Type} (observer : Observer σ) : List Step → Guest σ → Bool
  | [], _ => true
  | s :: rest, g =>
    match s.run observer g with
    | .ok _ g' => completes observer rest g'
    | .error _ _ => false

namespace Block

variable {σ : Type} {observer : Observer σ} {steps : List Step} {g g' : Guest σ}

/-- Steps are completed if they end well. -/
theorem completes_iff (exit : Exit) :
    completes observer steps g = true ↔ ∃ exit' g', runSteps observer exit steps g = .ok exit' g' := by
  induction steps generalizing exit g with
  | nil => exact ⟨fun _ => ⟨exit, g, rfl⟩, fun _ => rfl⟩
  | cons s rest ih =>
    rw [runSteps_cons]
    unfold completes
    cases s.run observer g with
    | ok flow g₁ => exact ih (exit.after flow)
    | error e g₁ => exact ⟨fun h => (by cases h), fun ⟨_, _, h⟩ => (by cases h)⟩

/-- Steps that are not all executed do not cross. -/
theorem crossing?_of_incomplete (h : completes observer steps g = false) :
    crossing? observer steps g = none := by
  -- What decided before these steps is of no account, so the induction is over any of it.
  suffices hnone : ∀ last? : Option Step, decider? observer last? steps g = none by
    rw [crossing?, hnone]
    rfl
  induction steps generalizing g with
  | nil => cases h
  | cons s rest ih =>
    intro last?
    unfold completes at h
    unfold decider?
    cases hrun : s.run observer g with
    | error e g₁ => rfl
    | ok flow g₁ =>
      rw [hrun] at h
      cases flow with
      | next => exact ih h last?
      | jump target how => exact ih h (some s)

/-- Steps that pass on do not cross. -/
theorem crossing?_of_passesOn (h : passesOn observer steps g = true) :
    crossing? observer steps g = none := by
  rw [crossing?, decider?_of_passesOn h]
  rfl

end Block

namespace Debug

open Machine

/-- What a debugger executes at a time. -/
structure Turn where
  /-- The jump or call that the debugger carries out itself, with its address. -/
  carried? : Option (Word × Instruction)
  /-- What the machine executes, which is the delay slot of what is carried out. -/
  stretch : Stretch Session

namespace Turn

/-- Whether all that the machine is given to execute is executed. -/
def completes (x : Turn) : Bool := Block.completes Session.observer x.stretch.steps x.stretch.guest

/-- How a turn crosses. What the debugger carries out transfers control once the delay slot is
executed. -/
def crossing? (x : Turn) : Option Crossing :=
  match x.carried? with
  | none => x.stretch.crossing? Session.observer
  | some (pc, i) => if x.completes then (i.operation pc).crossing? pc else none

/-- Whether no call or return that is followed is cut short. -/
def uncut (x : Turn) : Bool :=
  x.stretch.uncut Session.observer &&
    (x.carried?.isNone || !x.completes || x.stretch.passesOn Session.observer)

/-- The returns that are expected behind turns, innermost first. -/
def follow (frames : List Word) (turns : List Turn) : List Word :=
  (turns.filterMap crossing?).foldl Crossing.cross frames

/-- Turns are followed one behind the other. -/
theorem follow_append (frames : List Word) (xs ys : List Turn) :
    follow frames (xs ++ ys) = follow (follow frames xs) ys := by
  rw [follow, List.filterMap_append, List.foldl_append]
  rfl

end Turn

namespace Debugger

variable {d d' : Debugger}

/-! ## Turns of the machine -/

/-- The turn of a single step. -/
def singleTurns (carried? : Option (Word × Instruction)) (pc : Word) (d : Debugger) : List Turn :=
  (d.single? pc).toList.map (⟨carried?, ·⟩)

/-- The turns of a routine. -/
def routineTurns (fuel : Nat) (d : Debugger) : List Turn := (routine fuel d).map (⟨none, ·⟩)

/-- A run changes the frames by its crossings, however it ends. -/
theorem frames_stretches (hd : Attends d) {fuel depth : Nat} {pc : Word}
    (huncut : ∀ x ∈ stretches Session.observer fuel pc depth d, x.uncut Session.observer = true) :
    frames (endState (invoke Session.observer fuel pc depth d)) =
      ((stretches Session.observer fuel pc depth d).filterMap
        (·.crossing? Session.observer)).foldl Crossing.cross (frames d) := by
  induction fuel generalizing pc depth d with
  | zero => rfl
  | succ fuel ih =>
    rw [invoke_succ]
    unfold stretches at huncut ⊢
    have hpass := frames_pass hd fun x hx =>
      huncut x (List.mem_append_left _ (Option.mem_toList.mpr hx))
    have hfirst : ((d.stretch? pc).toList.filterMap (·.crossing? Session.observer)) =
        ((d.stretch? pc).bind (·.crossing? Session.observer)).toList := by
      cases d.stretch? pc with
      | none => rfl
      | some x => cases hx : x.crossing? Session.observer <;> simp [hx]
    -- The crossings of the passes that follow come behind that of the first one.
    rw [List.filterMap_append, List.foldl_append, hfirst, ← hpass]
    cases hp : pass Session.observer pc d with
    | error e d₁ => rfl
    | ok exit d₁ =>
      rw [hp] at huncut
      simp only at huncut ⊢
      cases hfollow : exit.follow? depth with
      | none => rfl
      | some next =>
        rw [hfollow] at huncut
        exact ih ((hd.pass Session.observer pc).of_ok hp) fun x hx =>
          huncut x (List.mem_append_right _ hx)

/-- A routine changes the frames by its crossings, however it ends. -/
theorem frames_execute (hd : Attends d) {fuel : Nat}
    (huncut : ∀ x ∈ routineTurns fuel d, x.uncut = true) :
    frames (endState (execute Session.observer fuel (Debugger.pc d) d)) =
      Turn.follow (frames d) (routineTurns fuel d) := by
  have hattends : Attends d.resumed := hd.congr rfl fun _ _ h => h
  have hroutine : ∀ x ∈ routine fuel d, x.uncut Session.observer = true := fun x hx =>
    (Bool.and_eq_true_iff.mp (huncut ⟨none, x⟩ (List.mem_map_of_mem hx))).1
  rw [execute_eq, Turn.follow, routineTurns, List.filterMap_map]
  exact frames_stretches hattends hroutine

/-- A single step that is no delay slot of what the debugger carries out changes the frames by its
crossing. -/
theorem frames_single (hd : Attends d) {pc : Word}
    (huncut : ∀ x ∈ singleTurns none pc d, x.uncut = true) :
    frames (endState (executeOne Session.observer pc d)) =
      Turn.follow (frames d) (singleTurns none pc d) := by
  rw [frames_executeOne hd fun x hx => (Bool.and_eq_true_iff.mp
    (huncut ⟨none, x⟩ (List.mem_map_of_mem (Option.mem_toList.mpr hx)))).1]
  unfold singleTurns Turn.follow
  cases d.single? pc with
  | none => rfl
  | some x =>
    change _ = ([(⟨none, x⟩ : Turn)].filterMap Turn.crossing?).foldl _ _
    cases hx : x.crossing? Session.observer <;> simp [Turn.crossing?, hx]

/-- The steps of a single step complete if the single step gives an answer. -/
theorem completes_single (hd : Attends d) {pc : Word} {x : Stretch Session}
    (carried? : Option (Word × Instruction)) (hx : d.single? pc = some x) :
    Turn.completes ⟨carried?, x⟩ = (answer? (executeOne Session.observer pc d)).isSome := by
  obtain ⟨hnone, -⟩ | ⟨y, stop, hy, -, -, halike⟩ := hd.executeOne_stretch Session.observer pc
  · cases hnone.symm.trans hx
  · obtain rfl := Option.some.inj (hx.symm.trans hy)
    rw [Bool.eq_iff_iff, isSome_answer?, Turn.completes, Block.completes_iff ⟨stop, .plain⟩]
    obtain ⟨exit, g, n, hone, hrun, -⟩ | ⟨e, g, n, hone, hrun, -⟩ :=
      (halike.symm fun _ _ h => h).exists_eq_map
    · exact ⟨fun _ => ⟨_, _, hone⟩, fun _ => ⟨_, _, hrun⟩⟩
    · rw [hone, hrun]
      exact ⟨fun ⟨_, _, h⟩ => (by cases h), fun ⟨_, _, h⟩ => (by cases h)⟩

/-- The delay slot of what the debugger carries out leaves the frames alone, and what is carried out
transfers control if the slot completes. -/
theorem frames_slot (hd : Attends d) {a pc : Word} {i : Instruction}
    (huncut : ∀ x ∈ singleTurns (some (a, i)) pc d, x.uncut = true) :
    frames (endState (executeOne Session.observer pc d)) = frames d ∧
      (singleTurns (some (a, i)) pc d).filterMap Turn.crossing? =
        if (answer? (executeOne Session.observer pc d)).isSome then
          ((i.operation a).crossing? a).toList
        else [] := by
  have hframes : frames (endState (executeOne Session.observer pc d)) = _ :=
    frames_executeOne hd fun x hx => (Bool.and_eq_true_iff.mp
      (huncut ⟨some (a, i), x⟩ (List.mem_map_of_mem (Option.mem_toList.mpr hx)))).1
  obtain ⟨hnone, e, n, hone, -⟩ | ⟨x, -, hx, -⟩ := hd.executeOne_stretch Session.observer pc
  · rw [hnone] at hframes
    refine ⟨hframes, ?_⟩
    rw [singleTurns, hnone, hone]
    rfl
  · rw [hx] at hframes
    have hcut : Turn.uncut ⟨some (a, i), x⟩ = true := by
      refine huncut _ ?_
      rw [singleTurns, hx]
      exact List.mem_singleton_self _
    have hcompletes := completes_single hd (some (a, i)) hx
    -- A slot that does not complete crosses no more than one that passes on.
    have hnone : x.crossing? Session.observer = none := by
      unfold Turn.uncut at hcut
      simp only [Bool.and_eq_true, Bool.or_eq_true, Option.isNone_some, Bool.false_eq_true,
        false_or, Bool.not_eq_true'] at hcut
      obtain hincomplete | hpasses := hcut.2
      · exact Block.crossing?_of_incomplete hincomplete
      · exact Block.crossing?_of_passesOn hpasses
    rw [Option.bind_some, hnone] at hframes
    refine ⟨hframes, ?_⟩
    rw [singleTurns, hx, ← hcompletes]
    simp only [Option.toList_some, List.map_singleton]
    cases hc : Turn.completes ⟨some (a, i), x⟩ with
    | true => cases hop : (i.operation a).crossing? a <;> simp [Turn.crossing?, hc, hop]
    | false => simp [Turn.crossing?, hc]

/-! ## Turns of commands -/

/-- Reading the current instruction never fails, and is reported at most. -/
theorem currentInstruction_ok (d : Debugger) :
    ∃ i? entries, currentInstruction d = .ok i? (d.onCore (Core.note · entries)) := by
  obtain ⟨⟨core, session⟩, blocks, injector?⟩ := d
  have hread (a : Word) : ∃ entries,
      endState (Machine.readInstruction a (⟨⟨core, session⟩, blocks, injector?⟩ : Debugger)) =
        ⟨⟨core.note entries, session⟩, blocks, injector?⟩ := by
    unfold Machine.readInstruction
    split
    · simp only [atCore, Core.peekBacking, Core.readFrom]
      cases core.view? with
      | none => exact ⟨[], rfl⟩
      | some v =>
        simp only
        cases ByteMemory.readBytes v.backing (Address.run a 4) <;> exact ⟨_, rfl⟩
    · -- Where nothing is read, nothing is reported.
      exact ⟨[], rfl⟩
  obtain ⟨entries, hend⟩ := hread session.pc
  simp only [currentInstruction, Debugger.pc, Debugger.session, context]
  generalize Machine.readInstruction session.pc (⟨⟨core, session⟩, blocks, injector?⟩ : Debugger) = r
    at hend
  cases r with
  | ok w d => exact ⟨_, entries, congrArg _ hend⟩
  | error e d => exact ⟨_, entries, congrArg _ hend⟩

/-- The instruction at the program counter, if there is one. -/
def current? (d : Debugger) : Option Instruction := (answer? (currentInstruction d)).join

/-- The debugger once the instruction at the program counter is read. -/
def looked (d : Debugger) : Debugger := endState (currentInstruction d)

/-- A look at the next instruction always finds whether there is one. -/
theorem currentInstruction_looked (d : Debugger) :
    currentInstruction d = .ok (current? d) (looked d) := by
  obtain ⟨i?, entries, h⟩ := currentInstruction_ok d
  rw [current?, looked, h]
  rfl

/-- A look at the next instruction leaves the machine to its debugger. -/
theorem Attends.looked (hd : Attends d) : Attends (looked d) := by
  obtain ⟨i?, entries, h⟩ := currentInstruction_ok d
  rw [Debugger.looked, h]
  exact hd.congr rfl fun _ _ h => h

/-- A look at the next instruction leaves the frames. -/
@[simp] theorem frames_looked (d : Debugger) : frames (looked d) = frames d := by
  obtain ⟨i?, entries, h⟩ := currentInstruction_ok d
  rw [looked, h]
  rfl

/-- A look at the next instruction moves nothing. -/
theorem pc_looked (d : Debugger) : Debugger.pc (looked d) = Debugger.pc d := by
  obtain ⟨i?, entries, h⟩ := currentInstruction_ok d
  rw [looked, h]
  rfl

/-- A stand leaves the frames alone. -/
@[simp] theorem frames_halt (e : Signal) (d : Debugger) : frames (halt e d).2 = frames d := by
  cases e with
  | breakpoint address =>
    refine (frames_emit .stepped _).trans ?_
    exact frames_moveTo address d
  | trap t =>
    refine (frames_emit .stepped _).trans ?_
    exact frames_moveTo t.pc _
  | stopped pc => exact frames_moveTo pc _

/-- A step with memory at hand. -/
theorem stepOver_served (hview : d.core.view?.isSome = true) :
    stepOver d = match (current? d).filter (·.mnemonic == .jr) with
      | some i => executeThen (Debugger.pc d + Instruction.size)
          (fun _ d' => jumpTo i ((looked d).core.registers.tracked (.ofGpr (i.gpr .source))) d')
          (looked d)
      | none => executeThen (Debugger.pc d) (fun next d' => emit .stepped (moveTo next d'))
          (looked d) :=
  stepOver_of_current hview (currentInstruction_looked d)

/-- The debugger while the delay slot of a call is executed. -/
def calling (d : Debugger) : Debugger :=
  (looked d).onContext fun s =>
    { s with frames := Instruction.returnAddress (Debugger.pc d) :: s.frames }

/-- A step into a call expects its return, and executes the delay slot. -/
theorem stepInto_eq (d : Debugger) :
    stepInto d = match (current? d).filter Instruction.isCall with
      | some i =>
        let (target, link) := callTarget i (Debugger.pc d) (looked d).core.registers
        .ok true (endState (stepInto.enter (Debugger.pc d) target link
          (Instruction.returnAddress (Debugger.pc d)) (calling d)))
      | none => .ok false (looked d) := by
  have hget (d : Debugger) : (get : Request Debugger) d = .ok d d := rfl
  have hcall : currentCall d = .ok ((current? d).filter Instruction.isCall) (looked d) := by
    unfold currentCall
    rw [bind_apply, currentInstruction_looked]
    rfl
  -- Entering a routine never fails.
  have hanswer (pc target : Word) (link : Tracked) (back : Word) (d : Debugger) :
      (stepInto.enter pc target link back >>= fun _ => (pure true : Request Bool)) d =
        .ok true (endState (stepInto.enter pc target link back d)) := by
    refine (bind_apply (stepInto.enter pc target link back) _ d).trans ?_
    unfold stepInto.enter
    cases executeOne Session.observer (pc + Instruction.size) d <;> rfl
  unfold stepInto
  rw [bind_apply, hcall]
  simp only
  cases (current? d).filter Instruction.isCall with
  | none => rfl
  | some i =>
    simp only
    rw [bind_apply, hget]
    simp only
    rw [pc_looked]
    exact hanswer _ _ _ _ _

/-- The turns of a step over. -/
def stepOverTurns (d : Debugger) : List Turn :=
  if d.core.view?.isSome = true then
    match (current? d).filter (·.mnemonic == .jr) with
    | some i => singleTurns (some (Debugger.pc d, i)) (Debugger.pc d + Instruction.size) (looked d)
    | none => singleTurns none (Debugger.pc d) (looked d)
  else []

/-- The turns of a step into a call. -/
def stepIntoTurns (d : Debugger) : List Turn :=
  match (current? d).filter Instruction.isCall with
  | some i => singleTurns (some (Debugger.pc d, i)) (Debugger.pc d + Instruction.size) (calling d)
  | none => []

/-- The turns of a step out. -/
def stepOutTurns (fuel : Nat) (d : Debugger) : List Turn :=
  if d.core.view?.isSome = true then routineTurns fuel d else []

/-- The turns of routines that are run one behind the other. -/
def resumeTurns (blocks : Nat) : (fuel : Nat) → Debugger → List Turn
  | 0, _ => []
  | fuel + 1, d =>
    routineTurns blocks d ++
      match execute Session.observer blocks (Debugger.pc d) d with
      | .ok (some _) d' =>
        resumeTurns blocks fuel (moveTo (d'.core.registers.tracked .returnAddress) d')
      | _ => []

/-- The turns of a run. -/
def runTurns (fuel : Nat) (d : Debugger) : List Turn :=
  if d.core.view?.isSome = true then resumeTurns fuel fuel d else []

/-- A jump of the debugger leaves a frame if it jumps to the return address. -/
theorem frames_jumpTo (i : Instruction) (target : Word) (d : Debugger) :
    frames (jumpTo i target d) =
      if Tracked.ofGpr (i.gpr .source) = .returnAddress then (frames d).tail else frames d := by
  unfold jumpTo
  split
  · rw [frames_emit, leaveFrame, frames_emit, ← frames_moveTo target d]
    rfl
  · rw [frames_emit, frames_moveTo]

/-- Without memory a step over is refused at once. -/
theorem stepOver_refused (hview : ¬ d.core.view?.isSome = true) :
    stepOver d = .error (.access .detached) d :=
  (requireMemory_bind _ d).trans (if_neg hview)

/-- A step over changes the frames by its crossing. -/
theorem frames_stepOver (hd : Attends d) (huncut : ∀ x ∈ stepOverTurns d, x.uncut = true) :
    frames (endState (stepOver d)) = Turn.follow (frames d) (stepOverTurns d) := by
  unfold stepOverTurns at huncut ⊢
  by_cases hview : d.core.view?.isSome = true
  case neg =>
    rw [stepOver_refused hview, if_neg hview]
    rfl
  rw [if_pos hview] at huncut ⊢
  rw [stepOver_served hview]
  cases hjump : (current? d).filter (·.mnemonic == .jr) with
  | none =>
    rw [hjump] at huncut
    have hframes := frames_single hd.looked huncut
    simp only
    rw [← frames_looked d, ← hframes]
    unfold executeThen
    cases executeOne Session.observer (Debugger.pc d) (looked d) with
    | ok next d₁ =>
      simp only [endState]
      rw [frames_emit, frames_moveTo]
    | error e d₁ => exact frames_halt e d₁
  | some i =>
    rw [hjump] at huncut
    -- The machine executes the slot alone, and the debugger pops behind it.
    obtain ⟨hframes, hcrossings⟩ := frames_slot hd.looked huncut
    obtain ⟨-, hjr⟩ := Option.filter_eq_some_iff.mp hjump
    have hop : i.operation (Debugger.pc d) = .jumpRegister (i.gpr .source) := by
      obtain ⟨m, raw⟩ := i
      obtain rfl : m = .jr := beq_iff_eq.mp hjr
      rfl
    simp only
    rw [Turn.follow, hcrossings, hop]
    unfold executeThen
    cases hone : executeOne Session.observer (Debugger.pc d + Instruction.size) (looked d) with
    | ok next d₁ =>
      rw [hone] at hframes
      have hframes : frames d₁ = frames d := hframes.trans (frames_looked d)
      simp only [endState, answer?, Option.isSome_some, if_true, frames_jumpTo, hframes,
        Operation.crossing?]
      split <;> rfl
    | error e d₁ =>
      rw [hone] at hframes
      exact (frames_halt e d₁).trans (hframes.trans (frames_looked d))

/-- A step into a call changes the frames by its crossing. -/
theorem frames_stepInto (hd : Attends d) (huncut : ∀ x ∈ stepIntoTurns d, x.uncut = true) :
    frames (endState (stepInto d)) = Turn.follow (frames d) (stepIntoTurns d) := by
  rw [stepInto_eq]
  unfold stepIntoTurns at huncut ⊢
  cases hcall : (current? d).filter Instruction.isCall with
  | none => exact frames_looked d
  | some i =>
    rw [hcall] at huncut
    have hcalling : Attends (calling d) := hd.looked.congr rfl fun _ _ h => h
    have hpushed : frames (calling d) = Instruction.returnAddress (Debugger.pc d) :: frames d :=
      congrArg (_ :: ·) (frames_looked d)
    obtain ⟨hframes, hcrossings⟩ := frames_slot hcalling huncut
    obtain ⟨-, hicall⟩ := Option.filter_eq_some_iff.mp hcall
    have hop : (i.operation (Debugger.pc d)).crossing? (Debugger.pc d) =
        some (.enter (Debugger.pc d)) := by
      obtain ⟨m, raw⟩ := i
      cases m <;> first
        | rfl
        | cases hicall
    simp only
    rw [Turn.follow, hcrossings, hop]
    change frames (endState (stepInto.enter _ _ _ _ (calling d))) = _
    unfold stepInto.enter
    cases hone : executeOne Session.observer (Debugger.pc d + Instruction.size) (calling d) with
    | ok next d₁ =>
      rw [hone] at hframes
      have hframes : frames d₁ = Instruction.returnAddress (Debugger.pc d) :: frames d :=
        hframes.trans hpushed
      simp only [endState, frames_emit, frames_moveTo]
      split <;> exact hframes
    | error e d₁ =>
      rw [hone] at hframes
      -- The return that was expected is dropped again.
      refine (frames_halt _ _).trans ?_
      exact congrArg List.tail (hframes.trans hpushed)

/-- Routines that are run one behind the other change the frames by their crossings. -/
theorem frames_resume {blocks fuel : Nat} (hd : Attends d)
    (huncut : ∀ x ∈ resumeTurns blocks fuel d, x.uncut = true) :
    frames (resume blocks fuel d).2 = Turn.follow (frames d) (resumeTurns blocks fuel d) := by
  induction fuel generalizing d with
  | zero => rfl
  | succ fuel ih =>
    unfold resumeTurns at huncut ⊢
    unfold Debugger.resume
    have hframes := frames_execute hd fun x hx => huncut x (List.mem_append_left _ hx)
    -- The run goes on with a debugger that still attends, so that the rest is the same again.
    have hattends := (Moves.execute blocks (Debugger.pc d) d).mono fun _ h =>
      Moves.keeps Move.attends h hd
    rw [Turn.follow_append, ← hframes]
    cases hexecute : execute Session.observer blocks (Debugger.pc d) d with
    | error e d₁ => exact frames_halt e d₁
    | ok target? d₁ =>
      cases target? with
      | none => rfl
      | some target =>
        rw [hexecute] at huncut
        have hnext := ih (d := moveTo (d₁.core.registers.tracked .returnAddress) d₁)
          (Move.attends (.moveTo _ d₁) (hattends.of_ok hexecute))
          fun x hx => huncut x (List.mem_append_right _ hx)
        rw [frames_moveTo] at hnext
        exact hnext

/-- A step out changes the frames by its crossings. -/
theorem frames_stepOut {fuel : Nat} (hd : Attends d)
    (huncut : ∀ x ∈ stepOutTurns fuel d, x.uncut = true) :
    frames (endState (stepOut fuel d)) = Turn.follow (frames d) (stepOutTurns fuel d) := by
  unfold stepOutTurns at huncut ⊢
  rw [stepOut_eq]
  by_cases hview : d.core.view?.isSome = true
  · rw [if_pos hview] at huncut ⊢
    rw [if_pos hview, ← frames_execute hd huncut]
    unfold stepOut.finish
    cases execute Session.observer fuel (Debugger.pc d) d with
    | error e d₁ => exact frames_halt e d₁
    | ok target? d₁ =>
      cases target? with
      | none => rfl
      -- Behind the return the debugger moves without touching its frames.
      | some target =>
        simp only [endState]
        rw [frames_emit, frames_moveTo]
  · rw [if_neg hview, if_neg hview]
    rfl

/-- A run changes the frames by its crossings. -/
theorem frames_run {fuel : Nat} (hd : Attends d) (huncut : ∀ x ∈ runTurns fuel d, x.uncut = true) :
    frames (endState (run fuel d)) = Turn.follow (frames d) (runTurns fuel d) := by
  unfold runTurns at huncut ⊢
  by_cases hview : d.core.view?.isSome = true
  · rw [if_pos hview] at huncut ⊢
    rw [run_eq hview]
    exact frames_resume hd huncut
  · rw [if_neg hview, run_refused hview]
    rfl

/-! ### Commands that execute nothing -/

/-- The accounts are the same behind a computation, however it ends. -/
abbrev SparesAccounts {ε α : Type} (x : EStateM ε Debugger α) : Prop :=
  ∀ d, Leads (fun d' => accounts d' = accounts d) (x d)

/-- One request behind another. -/
theorem SparesAccounts.bind {α β : Type} {x : Request α} {f : α → Request β} (hx : SparesAccounts x)
    (hf : ∀ a, SparesAccounts (f a)) : SparesAccounts (x >>= f) := fun d =>
  Leads.bind (hx d) (fun _ h => h) fun a d' h => (hf a d').mono fun _ h' => h'.trans h

/-- A request that passes on an answer or an error. -/
theorem SparesAccounts.ofExcept {α : Type} (x : Except RequestError α) :
    SparesAccounts (MonadExcept.ofExcept x : Request α) := fun d => by
  cases x <;> exact rfl

/-- Writing a register. -/
theorem sparesAccounts_writeRegister (index : Nat) (w : Word) :
    SparesAccounts (writeRegister index w) :=
  .bind (.ofExcept _) fun _ _ => rfl

/-- Entering a register as text. -/
theorem sparesAccounts_enterRegister (index : Nat) (input : String) :
    SparesAccounts (enterRegister index input) :=
  .bind (.ofExcept _) fun _ => .bind (.ofExcept _) fun w => sparesAccounts_writeRegister index w

/-- Entering a system register as text. -/
theorem sparesAccounts_enterSystem (index : Nat) (input : String) :
    SparesAccounts (enterSystem index input) := by
  have hread : SparesAccounts (readSystem index) := by
    refine .bind (x := get) (fun d => rfl) fun d₀ d => ?_
    cases d₀.core.registers.get? .cop0 index <;> exact rfl
  exact .bind hread fun _ => .bind (.ofExcept _) fun w _ => rfl

/-- Actions that leave the accounts alone leave them alone one behind the other. -/
theorem accounts_foldl {α : Type} {f : Debugger → α → Debugger}
    (hf : ∀ d x, accounts (f d x) = accounts d) (xs : List α) (d : Debugger) :
    accounts (xs.foldl f d) = accounts d := by
  induction xs generalizing d with
  | nil => rfl
  | cons x xs ih => exact (ih (f d x)).trans (hf d x)

/-- Writing memory, and dropping what was translated from it. -/
theorem sparesAccounts_writeMemory (address : Word) (bytes : List UInt8) :
    SparesAccounts (writeMemory address bytes) := by
  have hdropped (d : Debugger) :
      accounts ((wordsOf address bytes.length).foldl (fun d a => d.invalidate a) d) = accounts d := by
    refine accounts_foldl (fun d a => ?_) _ d
    rfl
  refine .bind (fun d => ?_) fun _ d => hdropped d
  obtain ⟨⟨core, session⟩, blocks, injector?⟩ := d
  simp only [access, atCore]
  cases Core.poke address bytes core <;> exact rfl

/-- Writing a register image. -/
theorem accounts_writeImage (image : Remote.RegisterImage) (d : Debugger) :
    accounts (image.write d) = accounts d := by
  unfold Remote.RegisterImage.write
  extract_lets pc d₁ d₂
  have htracked : accounts d₁ = accounts d := by
    refine accounts_foldl (fun d write => ?_) image.tracked d
    obtain ⟨t, w⟩ := write
    rfl
  have hsystem : accounts d₂ = accounts d₁ := by
    refine accounts_foldl (fun d write => ?_) image.system d₁
    obtain ⟨index, w⟩ := write
    rfl
  split
  · exact hsystem.trans htracked
  · rw [accounts_moveTo, hsystem, htracked]

/-- Removing a breakpoint. -/
theorem accounts_dropBreakpoint (address : Word) (d : Debugger) :
    accounts (dropBreakpoint address d) = accounts d := by
  obtain ⟨-, heq⟩ | ⟨lastHit?, heq, -⟩ := dropBreakpoint_eq address d
  · rw [heq]
  · rw [heq]
    rfl

end Debugger

/-- The command neither executes anything nor starts the program afresh. -/
def Command.Idle : Command → Prop
  | reset .. | stepOver | stepInto | stepOut _ | run _ | runUntil .. => False
  | _ => True

/-- Who executes nothing has nothing to tell. -/
theorem Debugger.accounts_of_idle {command : Command} {d d' : Debugger}
    (hperform : command.perform d = some d') (hidle : command.Idle) : accounts d' = accounts d := by
  cases command with
  | moveTo pc => exact Option.some.inj hperform ▸ accounts_moveTo pc d
  | setBreakpoint address => exact Option.some.inj hperform ▸ rfl
  | switchBreakpoint address on => exact Option.some.inj hperform ▸ rfl
  | removeBreakpoint address => exact Option.some.inj hperform ▸ accounts_dropBreakpoint address d
  | listen event respond => exact Option.some.inj hperform ▸ rfl
  | unlisten number => exact Option.some.inj hperform ▸ rfl
  | writeRegister index w =>
    exact Option.some.inj hperform ▸ (sparesAccounts_writeRegister index w d).endState
  | enterRegister index input =>
    exact Option.some.inj hperform ▸ (sparesAccounts_enterRegister index input d).endState
  | enterSystem index input =>
    exact Option.some.inj hperform ▸ (sparesAccounts_enterSystem index input d).endState
  | writeImage image => exact Option.some.inj hperform ▸ accounts_writeImage image d
  | writeMemory address bytes =>
    exact Option.some.inj hperform ▸ (sparesAccounts_writeMemory address bytes d).endState
  | outside f => exact Option.some.inj hperform ▸ rfl
  | _ => exact hidle.elim

open Debugger

/-! ### Histories -/

/-- The turns of a command. -/
def Command.turns : Command → Debugger → List Turn
  | stepOver, d => stepOverTurns d
  | stepInto, d => stepIntoTurns d
  | stepOut fuel, d => stepOutTurns fuel d
  | run fuel, d => runTurns fuel d
  | runUntil address fuel, d => runTurns fuel (changeBreakpoints address (·.place address) d)
  | _, _ => []

namespace Debugger

variable {d d' : Debugger}

/-- The debugger that is left where the program comes to a stand is that in which the request
ends. -/
theorem eq_of_stood {α : Type} {r : EStateM.Result RequestError Debugger (Option α)}
    (h : stood r = some d) : d = endState r := by
  cases r with
  | ok a? d₁ =>
    cases a? with
    | none => cases h
    | some a => exact (Option.some.inj h).symm
  | error e d₁ => exact (Option.some.inj h).symm

/-- A command that is no reset changes the frames by its crossings. -/
theorem frames_perform (hd : Attends d) {command : Command}
    (hreset : ∀ pc v, command ≠ .reset pc v) (huncut : ∀ x ∈ command.turns d, x.uncut = true)
    (hperform : command.perform d = some d') :
    frames d' = Turn.follow (frames d) (command.turns d) := by
  cases command with
  | reset pc v => exact absurd rfl (hreset pc v)
  | stepOver => exact Option.some.inj hperform ▸ frames_stepOver hd huncut
  | stepInto => exact Option.some.inj hperform ▸ frames_stepInto hd huncut
  | stepOut fuel => exact eq_of_stood hperform ▸ frames_stepOut hd huncut
  | run fuel => exact eq_of_stood hperform ▸ frames_run hd huncut
  | runUntil address fuel =>
    obtain rfl := eq_of_stood hperform
    -- The breakpoint that is placed before the run and dropped behind it concerns no frame.
    have hplaced : Attends (changeBreakpoints address (·.place address) d) :=
      Move.attends (.breakpoints address _ d) hd
    have hframes := frames_run hplaced huncut
    refine Eq.trans ?_ hframes
    unfold Debugger.runUntil
    cases Debugger.run fuel (changeBreakpoints address (·.place address) d) with
    | ok reason? d₁ => exact congrArg Prod.fst (accounts_dropBreakpoint address d₁)
    | error e d₁ => exact congrArg Prod.fst (accounts_dropBreakpoint address d₁)
  | _ => exact congrArg Prod.fst (accounts_of_idle hperform trivial)

/-- The debugger behind a history of commands, if all of them come to an end. -/
def performAll : List Command → Debugger → Option Debugger
  | [], d => some d
  | command :: commands, d => (command.perform d).bind (performAll commands)

/-- What commands lead to is reachable if they start from what is. -/
theorem Reachable.performAll {start : Debugger → Prop} (h : Reachable start d) {commands : List Command}
    (hperform : performAll commands d = some d') : Reachable start d' := by
  induction commands generalizing d with
  | nil =>
    cases hperform
    exact h
  | cons command commands ih =>
    obtain ⟨d₁, hfirst, hrest⟩ := Option.bind_eq_some_iff.mp hperform
    exact ih (h.perform command hfirst) hrest

/-- The turns of a history of commands. -/
def historyTurns : List Command → Debugger → List Turn
  | [], _ => []
  | command :: commands, d =>
    command.turns d ++ ((command.perform d).map (historyTurns commands)).getD []

/-- A history of commands without a reset changes the frames by its crossings. -/
theorem frames_performAll (hd : Attends d) {commands : List Command}
    (hreset : ∀ command ∈ commands, ∀ pc v, command ≠ .reset pc v)
    (huncut : ∀ x ∈ historyTurns commands d, x.uncut = true)
    (hperform : performAll commands d = some d') :
    frames d' = Turn.follow (frames d) (historyTurns commands d) := by
  induction commands generalizing d with
  | nil =>
    cases hperform
    rfl
  | cons command commands ih =>
    obtain ⟨d₁, hfirst, hrest⟩ := Option.bind_eq_some_iff.mp hperform
    unfold historyTurns at huncut ⊢
    rw [hfirst, Option.map_some, Option.getD_some] at huncut ⊢
    -- The turns of the first command come first, and what is uncut of the history is uncut of each
    -- part.
    have hframes := frames_perform hd (hreset command List.mem_cons_self)
      (fun x hx => huncut x (List.mem_append_left _ hx)) hfirst
    rw [Turn.follow_append, ← hframes]
    exact ih (hd.perform hfirst) (fun c hc => hreset c (List.mem_cons_of_mem _ hc))
      (fun x hx => huncut x (List.mem_append_right _ hx)) hrest

/-- Behind a history of commands that cuts no call or return short, the call stack is what the
crossings since the reset make of it: each call pushes its return address, each return pops one. -/
theorem callStack_history (pc : Word) (v : View Ram) (d₀ : Debugger) {commands : List Command}
    (hreset : ∀ command ∈ commands, ∀ pc v, command ≠ .reset pc v)
    (huncut : ∀ x ∈ historyTurns commands (reset pc v d₀), x.uncut = true)
    (hperform : performAll commands (reset pc v d₀) = some d) :
    callStack d = (((historyTurns commands (reset pc v d₀)).filterMap Turn.crossing?).foldl
      Crossing.cross [pc]).reverse := by
  have hframes := frames_performAll (attends_reset pc v d₀) hreset huncut hperform
  have hstart : frames (reset pc v d₀) = [pc] := by
    unfold reset
    rw [frames_emit, frames_emit]
    rfl
  rw [hstart] at hframes
  exact congrArg List.reverse hframes

end Debugger

namespace Visiting

open Debugger

/-- The outer routine is stepped into and run to a breakpoint at the inner one, whose return is
stepped over; then the outer routine is stepped out of. -/
def commands : List Command := [.setBreakpoint 0x30, .stepInto, .run 4, .stepOver, .stepOut 2]

/-- Two calls and two returns took place, and the call stack is as at the reset. -/
theorem callStack_visiting :
    ∃ d, performAll commands (atReset Nesting.image) = some d ∧
      (historyTurns commands (atReset Nesting.image)).filterMap Turn.crossing? =
        [.enter 0, .enter 0x18, .leave, .leave] ∧
      callStack d = [0] := by
  have hcrossings : (historyTurns commands (atReset Nesting.image)).filterMap Turn.crossing? =
      [.enter 0, .enter 0x18, .leave, .leave] := by
    rw [atReset_eq]
    decide +kernel
  have huncut : ∀ x ∈ historyTurns commands (atReset Nesting.image), x.uncut = true := by
    rw [atReset_eq]
    decide +kernel
  have hsome : (performAll commands (atReset Nesting.image)).isSome = true := by
    rw [atReset_eq]
    decide +kernel
  obtain ⟨d, hperform⟩ := Option.isSome_iff_exists.mp hsome
  have hreset : ∀ command ∈ commands, ∀ pc v, command ≠ .reset pc v := by
    simp [commands]
  have hstack := callStack_history 0 _ _ hreset huncut hperform
  refine ⟨d, hperform, hcrossings, hstack.trans ?_⟩
  exact congrArg (fun crossings => (crossings.foldl Crossing.cross [0]).reverse) hcrossings

end Visiting

namespace Cutting

open Debugger

/-- A call whose delay slot traps: `jal 0x10`, `syscall`. -/
def image : Image := ⟨0, ⟨#[0x04, 0, 0, 0x0C, 0x0C, 0, 0, 0]⟩, by decide⟩

/-- The call does not take place, but its return address stays on the call stack. -/
theorem callStack_cutting :
    (performAll [.stepOver] (atReset image)).map callStack = some [0, 8] ∧
      (historyTurns [.stepOver] (atReset image)).filterMap Turn.crossing? = [] := by
  rw [atReset_eq]
  decide +kernel

end Cutting

end Debug

end MipsMonitor
