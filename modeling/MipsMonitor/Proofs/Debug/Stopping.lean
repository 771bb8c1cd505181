import MipsMonitor.Proofs.Debug.Signals

/-!
# Requests to stop

A request to stop is seen between blocks. At every moment of a run (`Debugger.Moment`) there is a
block in progress, and what is left of the run finishes that block first (`Debugger.Moment.finish`,
`Debugger.Moment.After.run_eq`). A request that is made at the moment, or before in the same block,
does not show in the block and stays to its end (`Block.alike_runSteps_requestStop`), and then no
other block is started: the run ends with the signal that ends the block, or before the next
instruction (`Debugger.run_stops`).

A block that ends with the return of the outermost routine is the exception, as the new beginning
behind it forgets the request (`Leaving.run_ignores_stop`).
-/

namespace MipsMonitor

section

variable {σ : Type} {observer : Observer σ}

/-- Steps can be executed in two parts. -/
theorem Block.runSteps_append (exit : Exit) (done rest : List Step) (g : Guest σ) :
    runSteps observer exit (done ++ rest) g = match runSteps observer exit done g with
      | .error e g' => .error e g'
      | .ok exit' g' => runSteps observer exit' rest g' := by
  induction done generalizing exit g with
  | nil => rfl
  | cons s done ih =>
    rw [List.cons_append, runSteps_cons, runSteps_cons]
    cases s.run observer g with
    | error e g' => rfl
    | ok flow g' => exact ih (exit.after flow) g'

/-- A request to stop does not show in the steps that follow, and stays to their end. -/
theorem Block.alike_runSteps_requestStop (steps : List Step) (exit : Exit) (g : Guest σ) :
    Alike (Guest.Agree (fun a _ => a.stopped = true) (· = ·))
      (runSteps observer exit steps ⟨g.core.requestStop, g.context⟩)
      (runSteps observer exit steps g) := by
  have hkept : Aside.Kept fun a _ => a.stopped = true := ⟨fun _ _ _ => rfl, fun _ _ _ h => h⟩
  exact alike_runSteps_of_eq hkept steps exit ⟨⟨rfl, rfl, rfl, rfl⟩, rfl⟩

end

namespace Debug

open Machine

namespace Debugger

/-- A moment of a run: a block is in progress. -/
structure Moment where
  /-- Where the block was entered, and how many calls deep. -/
  entry : Word × Nat
  /-- The block. -/
  block : Block
  /-- What is still to be executed of it. -/
  rest : List Step
  /-- Where control goes behind it, as far as this is settled. -/
  exit : Exit
  /-- The debugger at the moment. -/
  debugger : Debugger

namespace Moment

variable {m : Moment} {d : Debugger} {k : Nat}

/-- The rest of the block. -/
def remaining (m : Moment) : EStateM.Result Signal (Guest Session) Exit :=
  Block.runSteps Session.observer m.exit m.rest m.debugger.guest

/-- The debugger behind the block, which leaves a guest. -/
def behind (m : Moment) (g : Guest Session) : Debugger :=
  settle m.block.length ⟨g, m.debugger.blocks, m.debugger.injector?⟩

/-- What is left of a run, within the routine for a number of blocks. -/
def finish (blocks fuel n : Nat) (m : Moment) : Option StopReason × Debugger :=
  match m.remaining with
  | .error e g => (some (halt e (m.behind g)).1, (halt e (m.behind g)).2)
  | .ok exit g =>
    match exit.follow? m.entry.2 with
    | some next => proceed blocks fuel n next (m.behind g)
    | none => resume blocks fuel (moveTo (returnAddress (m.behind g)) (m.behind g))

/-- The moment with a stop requested. -/
def raised (m : Moment) : Moment := { m with debugger := m.debugger.onCore Core.requestStop }

/-- The block in progress ends with the return of the outermost routine. -/
def Returns (m : Moment) : Prop :=
  ∃ exit g, m.remaining = .ok exit g ∧ exit.follow? m.entry.2 = none

/-- The end of a run that starts no other block: with the signal that ends the block in progress, or
before the next instruction. -/
def ending (m : Moment) : StopReason × Debugger :=
  match m.remaining with
  | .error e g => halt e (m.behind g)
  | .ok exit g => halt (.stopped exit.target) (m.behind g)

/-- A run comes to the moment behind some rounds: in the block that is looked up then, some
instructions are executed and the others are still to be. -/
def After (d : Debugger) (k : Nat) (m : Moment) : Prop :=
  ∃ d₁ d₂ done, rounds k (Debugger.pc d, 0) (resumed d) = .ok m.entry d₁ ∧
    d₁.core.stopped = false ∧ blockAt m.entry.1 d₁ = .ok m.block d₂ ∧
    m.block.steps = done ++ m.rest ∧
    Block.runSteps Session.observer ⟨m.block.stop, .plain⟩ done d₂.guest =
      .ok m.exit m.debugger.guest ∧
    m.debugger = ⟨m.debugger.guest, d₂.blocks, d₂.injector?⟩

/-- A request to stop that was made before in the block is the same as one that is made now. -/
theorem raised_eq (h : m.debugger.core.stopped = true) : m.raised = m := by
  obtain ⟨entry, block, rest, exit, ⟨⟨core, session⟩, blocks, injector?⟩⟩ := m
  have hcore : core.requestStop = core := by
    have hstopped : core.stopped = true := h
    unfold Core.requestStop
    rw [← hstopped]
  simp only [raised, onCore, hcore]

/-- Behind the block in progress a run that was asked to stop starts no other one. -/
theorem finish_raised (h : ¬ m.Returns) (blocks fuel n : Nat) :
    m.raised.finish blocks fuel (n + 1) = (some m.raised.ending.1, m.raised.ending.2) := by
  have halike : Alike (Guest.Agree (fun a _ => a.stopped = true) (· = ·)) m.raised.remaining
      m.remaining := Block.alike_runSteps_requestStop m.rest m.exit m.debugger.guest
  unfold finish ending
  cases hraised : m.raised.remaining with
  | error e g => rfl
  | ok exit g =>
    cases hrest : m.remaining with
    | error e g' =>
      rw [hraised, hrest] at halike
      cases halike
    | ok exit' g' =>
      rw [hraised, hrest] at halike
      cases halike with
      | ok _ hagree =>
        have hstopped : (m.raised.behind g).core.stopped = true :=
          (Core.stopped_clock _ _).trans hagree.core.aside
        simp only
        cases hfollow : exit.follow? m.entry.2 with
        | none => exact absurd ⟨exit, g', hrest, hfollow⟩ h
        | some next =>
          -- The request is still there, so the next pass ends before it looks up a block.
          have hentry : exit.follow? m.raised.entry.2 = some next := hfollow
          simp only [hentry]
          rw [proceed_succ]
          have hpass : pass Session.observer next.1 (m.raised.behind g) =
              .error (.stopped next.1) (m.raised.behind g) := by
            unfold Machine.pass
            rw [if_pos hstopped]
          rw [hpass, Exit.target_of_follow? hfollow]

/-- Why a run stands still that starts no other block: the block in progress came to its end, or a
breakpoint or a trap ended it. -/
inductive Answers (m : Moment) : StopReason → Prop where
  /-- The run halts before the next instruction. -/
  | halted {exit : Exit} {g : Guest Session} (h : m.remaining = .ok exit g) :
      Answers m (.halted exit.target)
  /-- A breakpoint ends the block. -/
  | breakpoint {address : Word} {hits : Nat} {g : Guest Session}
      (h : m.remaining = .error (.breakpoint address) g) : Answers m (.breakpoint address hits)
  /-- An instruction of the block cannot be executed. -/
  | exception {t : Trap} {g : Guest Session} (h : m.remaining = .error (.trap t) g) :
      Answers m (.exception t.pc)

/-- A moment comes to a stand as the rest of its block ends. -/
theorem answers_ending (m : Moment) : m.Answers m.ending.1 := by
  have hraises := Session.raises_runSteps m.rest m.exit m.debugger.guest
  unfold ending
  cases h : m.remaining with
  | ok exit g => exact .halted h
  | error e g =>
    cases hraises.of_error h with
    | breakpoint hexists => exact .breakpoint h
    | trap t => exact .exception h

/-! ## Moments of a run -/

/-- A block begins where it is looked up. -/
theorem proceed_eq_finish {blocks fuel n : Nat} {x : Word × Nat} {d₁ d₂ : Debugger} {b : Block}
    (hstopped : d₁.core.stopped = false) (hblock : blockAt x.1 d₁ = .ok b d₂) :
    proceed blocks fuel (n + 1) x d₁ =
      finish blocks fuel n ⟨x, b, b.steps, ⟨b.stop, .plain⟩, d₂⟩ := by
  rw [proceed_succ, pass_of_blockAt hstopped hblock, runBlock_eq, Block.run, finish, remaining]
  cases Block.runSteps Session.observer ⟨b.stop, .plain⟩ b.steps d₂.guest with
  | error e g => rfl
  | ok exit g => rfl

/-- What is left of a run does not depend on how much of the block in progress is executed. -/
theorem finish_append {blocks fuel n : Nat} {x : Word × Nat} {b : Block} {done rest : List Step}
    {exit exit' : Exit} {d' : Debugger} {g : Guest Session}
    (hdone : Block.runSteps Session.observer exit done d'.guest = .ok exit' g) :
    finish blocks fuel n ⟨x, b, done ++ rest, exit, d'⟩ =
      finish blocks fuel n ⟨x, b, rest, exit', ⟨g, d'.blocks, d'.injector?⟩⟩ := by
  have hremaining : remaining ⟨x, b, done ++ rest, exit, d'⟩ =
      remaining ⟨x, b, rest, exit', ⟨g, d'.blocks, d'.injector?⟩⟩ := by
    unfold remaining
    rw [Block.runSteps_append, hdone]
  unfold finish
  rw [hremaining]
  rfl

end Moment

/-- Behind some rounds a run goes on where they lead, with room for some more. -/
theorem proceed_of_rounds_ok {k room blocks fuel n : Nat} {x y : Word × Nat} {d d' : Debugger}
    (h : rounds k x d = .ok y d') (hblocks : k + room ≤ blocks) (hfuel : k ≤ fuel)
    (hn : k + room ≤ n) :
    ∃ fuel' n', room ≤ n' ∧ proceed blocks fuel n x d = proceed blocks fuel' n' y d' := by
  induction k generalizing fuel n x d with
  | zero =>
    cases h
    exact ⟨fuel, n, by omega, rfl⟩
  | succ k ih =>
    obtain ⟨n, rfl⟩ : ∃ n', n = n' + 1 := ⟨n - 1, by omega⟩
    rw [rounds_succ, round] at h
    rw [proceed_succ]
    cases hpass : pass Session.observer x.1 d with
    | error s₁ d₁ =>
      rw [hpass] at h
      cases h
    | ok exit d₁ =>
      simp only [hpass] at h ⊢
      cases hfollow : exit.follow? x.2 with
      | some next =>
        simp only [hfollow] at h ⊢
        exact ih h (by omega) (by omega) (by omega)
      | none =>
        -- A run that begins anew has all its blocks before it.
        simp only [hfollow] at h ⊢
        obtain ⟨fuel, rfl⟩ : ∃ fuel', fuel = fuel' + 1 := ⟨fuel - 1, by omega⟩
        rw [resume_succ, pc_moveTo]
        exact ih h (by omega) (by omega) (by omega)

variable {d : Debugger} {m : Moment} {k fuel : Nat}

/-- A run that comes to a moment goes on as is left at the moment. -/
theorem Moment.After.run_eq (hview : d.core.view?.isSome = true) (h : m.After d k)
    (hfuel : k + 1 < fuel) :
    ∃ fuel' n, run fuel d =
      .ok (m.finish fuel fuel' (n + 1)).1 (m.finish fuel fuel' (n + 1)).2 := by
  obtain ⟨d₁, d₂, done, hrounds, hstopped, hblock, hsteps, hdone, hdebugger⟩ := h
  obtain ⟨spare, rfl⟩ : ∃ n, fuel = n + 1 := ⟨fuel - 1, by omega⟩
  obtain ⟨fuel', n, hn, hproceed⟩ : ∃ fuel' n, 2 ≤ n ∧
      proceed (spare + 1) spare (spare + 1) (Debugger.pc d, 0) (resumed d) =
        proceed (spare + 1) fuel' n m.entry d₁ :=
    proceed_of_rounds_ok hrounds (by omega) (by omega) (by omega)
  obtain ⟨n, rfl⟩ : ∃ n', n = n' + 2 := ⟨n - 2, by omega⟩
  have hfinish : resume (spare + 1) (spare + 1) d = m.finish (spare + 1) fuel' (n + 1) := by
    rw [resume_succ, hproceed, proceed_eq_finish hstopped hblock, hsteps, finish_append hdone,
      ← hdebugger]
  refine ⟨fuel', n, ?_⟩
  rw [Debugger.run_eq hview, hfinish]

/-- If a stop is requested at a moment of a run, or before in the block in progress, the run starts
no other block, unless this one ends with the return of the outermost routine: it halts before the
next instruction, or ends with the breakpoint or the trap that ends the block. -/
theorem run_stops (hview : d.core.view?.isSome = true) (hm : m.After d k) (hreturns : ¬ m.Returns)
    (hfuel : k + 1 < fuel) :
    (∃ fuel' n, run fuel d = .ok (m.finish fuel fuel' n).1 (m.finish fuel fuel' n).2 ∧
        m.raised.finish fuel fuel' n = (some m.raised.ending.1, m.raised.ending.2)) ∧
      (m.debugger.core.stopped = true → run fuel d = .ok (some m.ending.1) m.ending.2) ∧
      m.raised.Answers m.raised.ending.1 := by
  obtain ⟨fuel', n, hrun⟩ := hm.run_eq hview hfuel
  have hraised := m.finish_raised hreturns fuel fuel' n
  refine ⟨⟨fuel', n + 1, hrun, hraised⟩, fun hstopped => ?_, m.raised.answers_ending⟩
  rw [Moment.raised_eq hstopped] at hraised
  rw [hrun, hraised]

/-- A debugger with a listener that requests a stop whenever an event occurs. -/
def stoppingAt (event : Event) (d : Debugger) : Debugger :=
  endState (listen event (fun _ _ => [.stop]) d)

/-- Where control goes behind the first block of a run, and whether a stop is requested in it. -/
def firstBlock (d : Debugger) : Option (Exit × Bool) :=
  match blockAt (Debugger.pc d) (resumed d) with
  | .ok b d' =>
    match b.run Session.observer d'.guest with
    | .ok exit g => some (exit, g.core.stopped)
    | .error _ _ => none
  | .error _ _ => none

/-- A run comes to the end of its first block. -/
theorem after_firstBlock {exit : Exit} {stopped : Bool} (h : firstBlock d = some (exit, stopped)) :
    ∃ m : Moment, m.After d 0 ∧ m.debugger.core.stopped = stopped ∧
      m.remaining = .ok exit m.debugger.guest := by
  unfold firstBlock at h
  split at h
  · next b d' hblock =>
    split at h
    · next exit' g hrun =>
      cases h
      exact ⟨⟨(Debugger.pc d, 0), b, [], exit, ⟨g, d'.blocks, d'.injector?⟩⟩,
        ⟨resumed d, d', b.steps, rfl, rfl, hblock, (List.append_nil _).symm, hrun, rfl⟩, rfl, rfl⟩
    · cases h
  · cases h

end Debugger

namespace Entering

open Debugger

/-- Five instructions: `jal 0x10`, `nop`, `nop`, `nop`, `syscall`. -/
def image : Image :=
  ⟨0, ⟨#[0x04, 0, 0, 0x0C, 0, 0, 0, 0, 0, 0, 0, 0, 0, 0, 0, 0, 0x0C, 0, 0, 0]⟩, by decide⟩

/-- A debugger that was reset to the call, and is asked to stop when a routine is entered. -/
def start : Debugger := stoppingAt .steppedInto (atReset image)

/-- The run halts where the routine begins. -/
theorem run_stops_entering : answer? (run 4 start) = some (some (.halted 0x10)) := by
  have hview : start.core.view?.isSome = true := by
    rw [start, atReset_eq]
    rfl
  have hfirst : firstBlock start = some (⟨0x10, .enter⟩, true) := by
    rw [start, atReset_eq]
    decide +kernel
  obtain ⟨m, hm, hstopped, hremaining⟩ := after_firstBlock hfirst
  -- The block ends with a call, so the run would go on.
  have hreturns : ¬ m.Returns := by
    rintro ⟨exit, g, hexit, hfollow⟩
    cases hremaining.symm.trans hexit
    cases hfollow
  obtain ⟨-, hrun, -⟩ := run_stops hview hm hreturns (show 0 + 1 < 4 by omega)
  have hending : m.ending.1 = .halted 0x10 := by
    unfold Moment.ending
    rw [hremaining]
    rfl
  rw [hrun hstopped, ← hending]
  rfl

end Entering

namespace Leaving

open Debugger

/-- Five instructions: `addiu $ra, $zero, 0x10`, `jr $ra`, `nop`, `nop`, `syscall`. -/
def image : Image :=
  ⟨0, ⟨#[0x10, 0, 0x1F, 0x24, 0x08, 0, 0xE0, 0x03, 0, 0, 0, 0, 0, 0, 0, 0, 0x0C, 0, 0, 0]⟩, by decide⟩

/-- A debugger that was reset to the first instruction, and is asked to stop when a routine is
left. -/
def start : Debugger := stoppingAt .steppedOut (atReset image)

/-- A stop is requested in the first block, which leads to `syscall`, but the run goes on and traps
there. -/
theorem run_ignores_stop :
    firstBlock start = some (⟨0x10, .leave⟩, true) ∧
      answer? (run 4 start) = some (some (.exception 0x10)) := by
  rw [start, atReset_eq]
  decide +kernel

end Leaving

end Debug

end MipsMonitor
