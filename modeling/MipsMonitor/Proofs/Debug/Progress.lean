import MipsMonitor.Proofs.Debug.Arming
import MipsMonitor.Proofs.Debug.Checks
import MipsMonitor.Proofs.Debug.HitCounts
import MipsMonitor.Proofs.Machine.Precision

/-!
# Progress

A program that is stopped at a breakpoint goes on behind it. Where execution stopped last, it still
stands, and the breakpoint there is armed, whether it is switched on or not (`Session.Rests`). The
block that a run enters there begins with the instruction at that address, whether it was translated
before or not, and whether it looks for the breakpoint or not, an armed one lets the program pass
(`Session.passes_actAll`).

What a run comes to is told instruction by instruction (`Debugger.arrivals`). Each instruction but the
last one is executed, and a breakpoint that the run reports is the last one that it comes to
(`Tells`). So a run from where execution stopped last executes the instruction there, or reports
its exception, before it can report a breakpoint, and it reports the same breakpoint only when control
has come back to it (`Debugger.run_progresses`).
-/

namespace MipsMonitor

variable {σ : Type}

/-- An instruction that control came to, and what kept it from being executed, if something did. -/
structure Arrival where
  /-- The address of the instruction. -/
  address : Word
  /-- The signal that ended the program there; none if the instruction was executed. -/
  signal? : Option Signal
deriving DecidableEq, Repr

/-- Instructions that were all executed. -/
def Executed (vs : List Arrival) : Prop := ∀ v ∈ vs, v.signal? = none

/-- Instructions of which the last one was not executed because of a breakpoint at its address. -/
def BreaksAt (a : Word) (vs : List Arrival) : Prop :=
  ∃ between, vs = between ++ [⟨a, some (.breakpoint a)⟩] ∧ Executed between

/-- Of no instructions all were executed. -/
theorem executed_nil : Executed [] := fun _ h => (by cases h)

/-- One more instruction that was executed. -/
theorem Executed.cons {vs : List Arrival} (h : Executed vs) (a : Word) : Executed (⟨a, none⟩ :: vs) :=
  List.forall_mem_cons.mpr ⟨rfl, h⟩

/-- Instructions that were executed, one after the other. -/
theorem Executed.append {vs ws : List Arrival} (h : Executed vs) (h' : Executed ws) :
    Executed (vs ++ ws) := fun v hv => (List.mem_append.mp hv).elim (h v) (h' v)

/-- A breakpoint that stops the program behind instructions that were executed. -/
theorem BreaksAt.append {a : Word} {vs ws : List Arrival} (h : Executed vs) (h' : BreaksAt a ws) :
    BreaksAt a (vs ++ ws) := by
  obtain ⟨between, rfl, hbetween⟩ := h'
  exact ⟨vs ++ between, (List.append_assoc vs between _).symm, h.append hbetween⟩

/-- Behind an instruction that was executed, control comes to the breakpoint that ends the program. -/
theorem BreaksAt.of_cons {a b : Word} {vs : List Arrival} (h : BreaksAt a (⟨b, none⟩ :: vs)) :
    BreaksAt a vs := by
  obtain ⟨between, heq, hbetween⟩ := h
  cases between with
  | nil => cases heq
  | cons v between =>
    obtain ⟨-, rfl⟩ := List.cons.inj heq
    exact ⟨between, rfl, fun v hv => hbetween v (List.mem_cons_of_mem _ hv)⟩

/-- What control came to tells how a computation ended: all was executed, or the breakpoint of the
signal stopped the program where control came last. -/
def Tells {τ α : Type} (vs : List Arrival) : EStateM.Result Signal τ α → Prop
  | .ok _ _ => Executed vs
  | .error e _ => ∀ a, e.stop? = some a → BreaksAt a vs

namespace Tells

variable {τ υ α : Type} {vs ws : List Arrival}

/-- What control came to, behind instructions that were executed. -/
theorem append {r : EStateM.Result Signal τ α} (h : Executed vs) (h' : Tells ws r) :
    Tells (vs ++ ws) r := by
  cases r with
  | ok a t => exact h.append h'
  | error e t => exact fun a ha => .append h (h' a ha)

/-- What control came to tells how a computation ends that ends alike. -/
theorem alike {P : τ → υ → Prop} {r : EStateM.Result Signal τ α} {r' : EStateM.Result Signal υ α}
    (h : Tells vs r) (halike : Alike P r r') : Tells vs r' := by
  cases halike <;> exact h

/-- A trap is no breakpoint. -/
theorem trap {t : Trap} {s : τ} : Tells vs (.error (.trap t) s : EStateM.Result Signal τ α) := nofun

end Tells

namespace Block

/-- What executing steps comes to. -/
def arrivals (observer : Observer σ) : List Step → Guest σ → List Arrival
  | [], _ => []
  | s :: rest, g =>
    match s.run observer g with
    | .ok _ g' => ⟨s.address, none⟩ :: arrivals observer rest g'
    | .error e _ => [⟨s.address, some e⟩]

/-- A translation begins with the instruction where it is entered. -/
theorem head_of_translate {r : Ram} {choose : Word → Option Instruction → List Action} {start : Word}
    {b : Block} (h : translate r choose .block start = .ok b) :
    ∃ s rest, b.steps = s :: rest ∧ s.address = start := by
  obtain ⟨-, hsome, rfl⟩ := translate_eq_ok.mp h
  obtain ⟨w, hw⟩ := Option.isSome_iff_exists.mp hsome
  obtain ⟨rest, -, heq⟩ := instructionsFrom_succ 63 hw
  exact ⟨_, _, congrArg (List.map _) heq, rfl⟩

/-- What cannot be fetched traps at its address. -/
theorem pc_of_instructionAt {r : Ram} {a : Word} {t : Trap} (h : instructionAt r a = .error t) :
    t.pc = a := by
  unfold instructionAt at h
  split at h
  · split at h <;> cases h
    rfl
  · cases h
    rfl

end Block

/-- What a stretch comes to. -/
def Stretch.arrivals (observer : Observer σ) (x : Stretch σ) : List Arrival :=
  Block.arrivals observer x.steps x.guest

/-- With memory at hand, a block that cannot be looked up has no first instruction. -/
theorem Machine.instructionAt_of_blockAt {m n : Machine σ} {v : View Ram} {pc : Word} {e : Signal}
    (hview : m.core.view? = some v) (h : blockAt pc m = .error e n) :
    ∃ t, e = .trap t ∧ Block.instructionAt v.backing pc = .error t := by
  obtain ⟨hnone, -, -⟩ | ⟨v', t, hv', htranslate, rfl, -⟩ := translate_eq_error (blockAt_of_error h).2
  · cases hview.symm.trans hnone
  · obtain rfl := Option.some.inj (hview.symm.trans hv')
    exact ⟨t, rfl, Block.instructionAt_eq_error htranslate⟩

/-- How a program departs from the instruction at an address: nothing can be fetched there, or the
instruction raises an exception, or it is executed. -/
inductive Departs {τ α : Type} (memory : Ram) (a : Word) :
    List Arrival → EStateM.Result Signal τ α → Prop where
  /-- The instruction cannot be fetched. -/
  | unfetched {t : Trap} {s : τ} (hfetch : Block.instructionAt memory a = .error t) :
      Departs memory a [] (.error (.trap t) s)
  /-- The instruction raises an exception. -/
  | raised {t : Trap} {s : τ} (ht : t.RaisedAt a) :
      Departs memory a [⟨a, some (.trap t)⟩] (.error (.trap t) s)
  /-- The instruction is executed. -/
  | executed (rest : List Arrival) (r : EStateM.Result Signal τ α) :
      Departs memory a (⟨a, none⟩ :: rest) r

/-- A program that ends alike departs alike. -/
theorem Departs.alike {τ υ α : Type} {P : τ → υ → Prop} {memory : Ram} {a : Word} {vs : List Arrival}
    {r : EStateM.Result Signal τ α} {r' : EStateM.Result Signal υ α} (h : Departs memory a vs r)
    (halike : Alike P r r') : Departs memory a vs r' := by
  cases h with
  | unfetched hfetch =>
    cases halike
    exact .unfetched hfetch
  | raised ht =>
    cases halike
    exact .raised ht
  | executed rest r => exact .executed rest r'

namespace Debug

open Machine

namespace Session

variable {s : Session} {a : Word}

/-- A breakpoint that lets the program pass does not stop it. -/
theorem stops_of_skips (h : s.skips a = true) : s.breakpoints[a]?.any Breakpoint.stops = false := by
  obtain ⟨b, hb, hskip⟩ := (Option.any_eq_true _ _).mp h
  rw [hb, Option.any_some, Breakpoint.stops, hskip, Bool.not_true, Bool.and_false]

/-- The breakpoint where execution stopped last would let the program pass, and execution still
stands there. -/
def Rests (s : Session) : Prop := ∀ a, s.lastHit? = some a → s.pc = a ∧ s.skips a = true

/-- A session that did not stop at a breakpoint last rests. -/
theorem rests_of_unhit (h : s.lastHit? = none) : s.Rests := fun _ ha => by cases h.symm.trans ha

/-- A session that stays at a breakpoint that is there rests. -/
theorem rests_stayAt (h : s.breakpoints[a]?.isSome = true) : (s.stayAt a).Rests := fun x hx => by
  obtain rfl : a = x := Option.some.inj hx
  have hskips : (s.stayAt a).skips a = _ := skips_setSkipOnce (s.moveTo a) a a true
  refine ⟨s.pc_stayAt a, ?_⟩
  rw [hskips, if_pos rfl, isSome_moveTo, h]
  rfl

/-- Where a breakpoint lets the program pass or there is none, the actions before an instruction do
not stop the program, whether they look for the breakpoint or not. -/
theorem passes_actAll {step : Step} (hmade : step.MadeFor (some injector)) {g : Guest Session}
    (hpass : g.context.breakpoints[step.address]?.any Breakpoint.stops = false) :
    ∃ g', g.actAll observer step.address step.actions = .ok () g' := by
  obtain ⟨check, hactions⟩ := actions_of_madeFor hmade
  -- Telling the address and the crossing never fails; only the look in between could.
  have hcrossing (g : Guest Session) := actAll_crossing step.crossing? step.address g
  rw [hactions, actAll_sync]
  cases check with
  | false => exact (hcrossing _).imp fun _ h => h.1
  | true =>
    rw [if_pos rfl, List.singleton_append, actAll_check, if_neg]
    · exact (hcrossing _).imp fun _ h => h.1
    · exact fun hstop => Bool.false_ne_true (hpass.symm.trans hstop)

/-- The actions of an instruction raise no signal but a breakpoint at its address. -/
theorem stop_of_act (g : Guest Session) (a : Word) (action : Action) :
    Fails (fun e _ => e = .breakpoint a) (g.act observer a action) := by
  cases action with
  | sync => trivial
  | enter callSite => trivial
  | leave => trivial
  | check =>
    rw [act_check]
    split <;> trivial

/-- Only a breakpoint at the address of the actions stops the program. -/
theorem stop_of_actAll (g : Guest Session) (a : Word) (actions : List Action) :
    Fails (fun e _ => e = .breakpoint a) (g.actAll observer a actions) :=
  Guest.fails_actAll (fun action _ g => stop_of_act g a action) g

/-- What executing steps comes to tells how it ends. -/
theorem tells_runSteps (steps : List Step) (exit : Exit) (g : Guest Session) :
    Tells (Block.arrivals observer steps g) (Block.runSteps observer exit steps g) := by
  induction steps generalizing exit g with
  | nil => exact executed_nil
  | cons s rest ih =>
    have hstep : Fails (fun e _ => ∀ a, e.stop? = some a → e = .breakpoint a ∧ a = s.address)
        (s.run observer g) := by
      refine Fails.bind ((stop_of_actAll g s.address s.actions).mono ?_) fun _ g' _ => ?_
      · rintro e _ rfl a ha
        obtain rfl : s.address = a := Option.some.inj ha
        exact ⟨rfl, rfl⟩
      · cases h : g'.perform observer s.address s.operation with
        | ok flow g'' => trivial
        | error e g'' =>
          obtain ⟨t, rfl⟩ := Guest.signal_perform h
          exact nofun
    rw [Block.runSteps_cons]
    unfold Block.arrivals
    cases h : s.run observer g with
    | ok flow g' => exact .append (executed_nil.cons s.address) (ih (exit.after flow) g')
    | error e g' =>
      -- A breakpoint stops the program at the step that asks for the look.
      intro a ha
      obtain ⟨rfl, rfl⟩ := hstep.of_error h a ha
      exact ⟨[], rfl, executed_nil⟩

/-- A program departs from a step that stands where a breakpoint lets it pass. -/
theorem departs_runSteps {memory : Ram} {step : Step} (hmade : step.MadeFor (some injector))
    {g : Guest Session} (hview : g.core.view?.isSome = true)
    (hskips : g.context.skips step.address = true) (rest : List Step) (exit : Exit) :
    Departs memory step.address (Block.arrivals observer (step :: rest) g)
      (Block.runSteps observer exit (step :: rest) g) := by
  obtain ⟨g₁, hacts⟩ := passes_actAll hmade (stops_of_skips hskips)
  have huntouched := (Guest.untouched_actAll observer step.address step.actions g).of_ok hacts
  obtain ⟨v, hv⟩ := Option.isSome_iff_exists.mp (huntouched.view? ▸ hview)
  have hrun : step.run observer g = g₁.perform observer step.address step.operation := by
    unfold Step.run
    rw [bind_apply, hacts]
  rw [Block.runSteps_cons]
  unfold Block.arrivals
  rw [hrun]
  -- Past the breakpoint only the operation can fail, and it can only trap.
  cases hperform : g₁.perform observer step.address step.operation with
  | ok flow g₂ => exact .executed _ _
  | error e g₂ =>
    obtain ⟨t, rfl, ht, -⟩ := Guest.perform_error hv hperform
    exact .raised ht

end Session

namespace Debugger

variable {d d' : Debugger}

/-- Between commands execution rests where it stopped last. -/
theorem invariant_rests : Invariant (fun d => (session d).Rests) fun _ => True where
  run _ := trivial
  beside h hbeside a ha := by
    obtain ⟨hpc, hskips⟩ := h a (hbeside.lastHit? ▸ ha)
    exact ⟨hbeside.pc.trans hpc, by rw [Session.skips, hbeside.breakpoints]; exact hskips⟩
  besideRunning _ _ := trivial
  reset {d} pc v _ := Session.rests_of_unhit ((session d).lastHit?_moveTo pc)
  moveTo {d} pc _ := Session.rests_of_unhit ((session d).lastHit?_moveTo pc)
  stayAt address _ hexists := Session.rests_stayAt hexists
  place {d} address h a ha :=
    ⟨(h a ha).1, (d.breakpoints.any_skipOnce_place address a).trans (h a ha).2⟩
  setEnabled {d} address on h a ha :=
    ⟨(h a ha).1, (d.breakpoints.any_skipOnce_setEnabled address a on).trans (h a ha).2⟩
  drop {d} address h a ha := by
    obtain ⟨-, heq⟩ | ⟨lastHit?, heq, hiff⟩ := dropBreakpoint_eq address d
    · rw [heq] at ha ⊢
      exact h a ha
    · -- The breakpoint that is removed is not where execution stopped last.
      have hlast : lastHit? = some a := by
        rw [heq] at ha
        exact ha
      obtain ⟨hlast, hne⟩ := (hiff a).mp hlast
      obtain ⟨hpc, hskips⟩ := h a hlast
      refine ⟨(like_dropBreakpoint address d).2.trans hpc, ?_⟩
      rw [Session.skips, getElem?_dropBreakpoint, if_neg (Ne.symm hne)]
      exact hskips
  pass _ _ := .of_endState trivial
  executeOne _ _ := .of_endState trivial

/-! ## What a run comes to -/

/-- What a pass comes to tells how it ends. -/
theorem tells_pass (pc : Word) (d : Debugger) :
    Tells ((d.stretch? pc).toList.flatMap (·.arrivals Session.observer))
      (pass Session.observer pc d) := by
  unfold stretch? Machine.pass
  split
  · -- A request to stop is no breakpoint.
    exact nofun
  · rw [bind_apply]
    cases h : blockAt pc d with
    | error e n =>
      obtain ⟨⟨t, rfl⟩, -⟩ := blockAt_eq_error h
      exact .trap
    | ok b n =>
      rw [Option.toList_some, List.flatMap_singleton]
      exact (Session.tells_runSteps b.steps ⟨b.stop, .plain⟩ n.guest).alike
        (run_alike_runBlock Session.observer b n)

/-- What a routine came to, in all the blocks that it runs. -/
theorem tells_invoke (fuel : Nat) (pc : Word) (depth : Nat) (d : Debugger) :
    Tells ((stretches Session.observer fuel pc depth d).flatMap (·.arrivals Session.observer))
      (invoke Session.observer fuel pc depth d) := by
  induction fuel generalizing pc depth d with
  | zero => exact executed_nil
  | succ fuel ih =>
    have hpass := tells_pass pc d
    rw [invoke_succ]
    unfold stretches
    rw [List.flatMap_append]
    cases h : pass Session.observer pc d with
    | error e d₁ =>
      rw [h] at hpass
      simp only [List.flatMap_nil, List.append_nil]
      exact hpass
    | ok exit d₁ =>
      rw [h] at hpass
      simp only
      cases exit.follow? depth with
      | none => exact Tells.append hpass executed_nil
      | some next => exact .append hpass (ih next.1 next.2 d₁)

/-- What turns come to. -/
def arrivalsOf (turns : List Turn) : List Arrival :=
  turns.flatMap (·.stretch.arrivals Session.observer)

/-- What turns came to, one after the other. -/
theorem arrivalsOf_append (xs ys : List Turn) :
    arrivalsOf (xs ++ ys) = arrivalsOf xs ++ arrivalsOf ys :=
  List.flatMap_append

/-- What a routine comes to is what its stretches come to. -/
theorem arrivalsOf_routineTurns (fuel : Nat) (d : Debugger) :
    arrivalsOf (routineTurns fuel d) =
      (routine fuel d).flatMap (·.arrivals Session.observer) :=
  List.flatMap_map _ _ _

/-- What code came to that is executed. -/
theorem tells_execute (fuel : Nat) (d : Debugger) :
    Tells (arrivalsOf (routineTurns fuel d))
      (execute Session.observer fuel (Debugger.pc d) d) := by
  rw [arrivalsOf_routineTurns, execute_eq]
  exact tells_invoke fuel (Debugger.pc d) 0 d.resumed

/-- Routines that are run one behind the other are stopped by the breakpoint that they come to last. -/
theorem breaksAt_resume {blocks fuel : Nat} {a : Word}
    (h : (resume blocks fuel d).1.bind StopReason.stop? = some a) :
    BreaksAt a (arrivalsOf (resumeTurns blocks fuel d)) := by
  induction fuel generalizing d with
  | zero => cases h
  | succ fuel ih =>
    have hroutine := tells_execute blocks d
    unfold Debugger.resume at h
    unfold resumeTurns
    rw [arrivalsOf_append]
    cases hexecute : execute Session.observer blocks (Debugger.pc d) d with
    | ok target? d₁ =>
      rw [hexecute] at hroutine h
      cases target? with
      | none => cases h
      -- The outermost routine has returned, and what it came to stands before the rest.
      | some target => exact .append hroutine (ih h)
    | error e d₁ =>
      rw [hexecute] at hroutine h
      have hstop : e.stop? = some a := (stop?_halt e d₁).symm.trans h
      obtain ⟨between, heq, hbetween⟩ := hroutine a hstop
      exact ⟨between, (List.append_nil _).trans heq, hbetween⟩

/-- What a run comes to, instruction by instruction. -/
def arrivals (fuel : Nat) (d : Debugger) : List Arrival := arrivalsOf (runTurns fuel d)

/-! ## Where a run begins -/

/-- A pass departs from where a breakpoint lets the program pass. -/
theorem departs_pass (hd : Attends d) (hchecked : Checked d) {v : View Ram}
    (hview : d.core.view? = some v) (hstopped : d.core.stopped = false) {a : Word}
    (hskips : (session d).skips a = true) :
    Departs v.backing a ((d.stretch? a).toList.flatMap (·.arrivals Session.observer))
      (pass Session.observer a d) := by
  unfold stretch? Machine.pass
  rw [if_neg (by rw [hstopped]; exact Bool.false_ne_true),
    if_neg (by rw [hstopped]; exact Bool.false_ne_true), bind_apply]
  cases h : blockAt a d with
  | error e n =>
    obtain ⟨t, rfl, hfetch⟩ := instructionAt_of_blockAt hview h
    exact .unfetched hfetch
  | ok b n =>
    have hcontext : session n = session d := (context_blockAt a d).of_ok h
    -- The block was kept or is translated now. Either way it was translated from some memory, so its
    -- first step stands where the block is entered.
    have hsteps := (hd.genuine.blockAt h).2
    obtain ⟨hinjector, hview', hmade⟩ : n.injector? = d.injector? ∧ n.core.view? = some v ∧
        ∃ r choose, Block.translate r choose .block a = .ok b := by
      obtain ⟨hb, rfl⟩ | ⟨v', entries, -, htranslate, rfl⟩ := blockAt_eq_ok h
      · exact ⟨rfl, hview, hchecked.translated a b hb⟩
      · exact ⟨rfl, (d.core.view?_note entries).trans hview, _, _, htranslate⟩
    obtain ⟨r, choose, htranslate⟩ := hmade
    obtain ⟨s, rest, hb, rfl⟩ := Block.head_of_translate htranslate
    have hfirst : s.MadeFor (some Session.injector) := by
      rw [← hd.injector?, ← hinjector]
      exact hsteps s (hb ▸ List.mem_cons_self)
    rw [Option.toList_some, List.flatMap_singleton]
    refine Departs.alike ?_ (run_alike_runBlock Session.observer b n)
    rw [Stretch.arrivals, Block.run, hb]
    have hskips' : (session n).skips s.address = true := hcontext ▸ hskips
    exact Session.departs_runSteps hfirst (Option.isSome_iff_exists.mpr ⟨v, hview'⟩) hskips' rest
      ⟨b.stop, .plain⟩

/-- A routine that begins at a breakpoint which is to be passed departs from there. -/
theorem departs_invoke (hd : Attends d) (hchecked : Checked d) {v : View Ram}
    (hview : d.core.view? = some v) (hstopped : d.core.stopped = false) {a : Word}
    (hskips : (session d).skips a = true) (fuel depth : Nat) :
    Departs v.backing a
      ((stretches Session.observer (fuel + 1) a depth d).flatMap (·.arrivals Session.observer))
      (invoke Session.observer (fuel + 1) a depth d) := by
  have hpass := departs_pass hd hchecked hview hstopped hskips
  rw [invoke_succ]
  unfold stretches
  rw [List.flatMap_append]
  generalize (d.stretch? a).toList.flatMap (·.arrivals Session.observer) = first at hpass
  cases h : pass Session.observer a d with
  | error e d₁ =>
    rw [h] at hpass
    -- Nothing comes behind a pass that fails, so the routine departs as its pass does.
    simp only [List.flatMap_nil, List.append_nil]
    cases hpass with
    | unfetched hfetch => exact .unfetched hfetch
    | raised ht => exact .raised ht
    | executed rest r => exact .executed rest _
  | ok exit d₁ =>
    rw [h] at hpass
    -- A pass that ends well has executed the instruction.
    cases hpass with
    | executed rest r => exact .executed _ _

/-- A routine departs from where a breakpoint lets the program pass. -/
theorem departs_execute (hd : Attends d) (hchecked : Checked d) {v : View Ram}
    (hview : d.core.view? = some v) (hskips : (session d).skips (Debugger.pc d) = true) (fuel : Nat) :
    Departs v.backing (Debugger.pc d) (arrivalsOf (routineTurns (fuel + 1) d))
      (execute Session.observer (fuel + 1) (Debugger.pc d) d) := by
  -- Requests to stop from before are forgotten, so the first pass takes place.
  have hattends : Attends d.resumed := hd.congr rfl fun _ _ h => h
  have hresumed : Checked d.resumed := hchecked.congr rfl (fun _ _ h => h) fun _ => rfl
  rw [arrivalsOf_routineTurns, execute_eq]
  exact departs_invoke (d := d.resumed) hattends hresumed hview rfl hskips fuel 0

/-- How a run goes on from the instruction at an address: before it can report a breakpoint, it reports
the exception of that instruction, or executes it. A breakpoint that it then reports is where control
came last. -/
inductive Progress (memory : Ram) (a : Word) : List Arrival → Option StopReason → Prop where
  /-- The instruction cannot be fetched, and this is reported. -/
  | unfetched {t : Trap} (hfetch : Block.instructionAt memory a = .error t) :
      Progress memory a [] (some (.exception a))
  /-- The instruction raises an exception, which is reported. -/
  | raised {t : Trap} (ht : t.RaisedAt a) :
      Progress memory a [⟨a, some (.trap t)⟩] (some (.exception a))
  /-- The instruction is executed, and control comes to others behind it. -/
  | executed {rest : List Arrival} {reason? : Option StopReason}
      (hstop : ∀ b, reason?.bind StopReason.stop? = some b → BreaksAt b rest) :
      Progress memory a (⟨a, none⟩ :: rest) reason?

/-- Where a departure ends with a signal, that is reported. -/
theorem progress_halt {memory : Ram} {a : Word} {vs : List Arrival} {α : Type} {e : Signal}
    (h : Departs memory a vs (.error e d : EStateM.Result Signal Debugger α))
    (hstop : ∀ b, e.stop? = some b → BreaksAt b vs) : Progress memory a vs (some (halt e d).1) := by
  cases h with
  | @unfetched t _ hfetch =>
    have hreason : (halt (.trap t) d).1 = .exception a :=
      congrArg StopReason.exception (Block.pc_of_instructionAt hfetch)
    exact hreason ▸ .unfetched hfetch
  | @raised t _ ht =>
    have hreason : (halt (.trap t) d).1 = .exception a := congrArg StopReason.exception ht.pc
    exact hreason ▸ .raised ht
  | executed rest r =>
    exact .executed fun b hb => (hstop b ((stop?_halt e d).symm.trans hb)).of_cons

/-- Routines that are run one behind the other go on from where a breakpoint lets the program pass. -/
theorem progress_resume (hd : Attends d) (hchecked : Checked d) {v : View Ram}
    (hview : d.core.view? = some v) (hskips : (session d).skips (Debugger.pc d) = true)
    (blocks fuel : Nat) :
    Progress v.backing (Debugger.pc d) (arrivalsOf (resumeTurns (blocks + 1) (fuel + 1) d))
      (resume (blocks + 1) (fuel + 1) d).1 := by
  -- Where the run ends is told by `breaksAt_resume`; here only its beginning matters.
  have hstop : ∀ b, (resume (blocks + 1) (fuel + 1) d).1.bind StopReason.stop? = some b →
      BreaksAt b (arrivalsOf (resumeTurns (blocks + 1) (fuel + 1) d)) :=
    fun _ => breaksAt_resume
  have hfirst := departs_execute hd hchecked hview hskips blocks
  unfold Debugger.resume resumeTurns at hstop ⊢
  rw [arrivalsOf_append] at hstop ⊢
  generalize arrivalsOf (routineTurns (blocks + 1) d) = first at hfirst hstop
  cases h : execute Session.observer (blocks + 1) (Debugger.pc d) d with
  | error e d₁ =>
    rw [h] at hfirst hstop
    have hnone : arrivalsOf [] = [] := rfl
    simp only [hnone, List.append_nil] at hstop ⊢
    exact progress_halt hfirst fun b hb => hstop b ((stop?_halt e d₁).trans hb)
  | ok target? d₁ =>
    rw [h] at hfirst hstop
    -- The instruction was executed, and what comes behind it is the rest of the run.
    cases hfirst with
    | executed rest r => exact .executed fun b hb => (hstop b hb).of_cons

/-- Whatever commands were given to a debugger since a reset, a run from where execution stopped last
makes progress, unless there is no memory and it is refused: it executes the instruction there, or
reports the exception that the instruction raises or its fetch raises, before it can report a
breakpoint. And a breakpoint that it then reports, the same one or another, is where control came
last behind that instruction. -/
theorem run_progresses (h : Reachable (fun d => ∃ pc v d₀, d = reset pc v d₀) d) {a : Word}
    (hlast : (session d).lastHit? = some a) (fuel : Nat) :
    (d.core.view? = none ∧ run (fuel + 1) d = .error (.access .detached) d) ∨
      ∃ v reason? d', d.core.view? = some v ∧ run (fuel + 1) d = .ok reason? d' ∧
        Progress v.backing a (arrivals (fuel + 1) d) reason? := by
  have hrests : (session d).Rests := invariant_rests.of_reset
    (fun pc _ d₀ => Session.rests_of_unhit ((session d₀).lastHit?_moveTo pc)) h
  -- The breakpoint of the last stop lets the program pass, so the run departs from there.
  have hchecked : Checked d := invariant_checked.of_reset checked_reset h
  obtain ⟨rfl, hskips⟩ := hrests a hlast
  cases hview : d.core.view? with
  | none =>
    refine .inl ⟨rfl, run_refused ?_ (fuel + 1)⟩
    rw [hview]
    exact Bool.false_ne_true
  | some v =>
    have hsome : d.core.view?.isSome = true := by rw [hview]; rfl
    refine .inr ⟨v, _, _, rfl, run_eq hsome (fuel + 1), ?_⟩
    rw [arrivals, runTurns, if_pos hsome]
    exact progress_resume (attends_of_reachable h) hchecked hview hskips fuel fuel

end Debugger

namespace Circling

open Debugger

/-- The program is stopped at the first instruction, where the breakpoint is then switched off and on
again. -/
def pause : List Command :=
  [.setBreakpoint 0, .run 4, .switchBreakpoint 0 false, .switchBreakpoint 0 true]

/-- The next run goes round before it reports the breakpoint again. -/
theorem progress_circling : ∃ d d', performAll pause (atReset image) = some d ∧
    (session d).lastHit? = some 0 ∧ run 4 d = .ok (some (.breakpoint 0 2)) d' ∧
    ∃ rest, arrivals 4 d = ⟨0, none⟩ :: rest ∧ BreaksAt 0 rest := by
  have hpaused : (performAll pause (atReset image)).map
      (fun d => ((session d).lastHit?, answer? (run 4 d))) =
        some (some 0, some (some (.breakpoint 0 2))) := by
    rw [atReset_eq]
    decide +kernel
  obtain ⟨d, hperform, hd⟩ := Option.map_eq_some_iff.mp hpaused
  obtain ⟨hlast, hanswer⟩ := Prod.mk.inj hd
  have hrun := eq_of_answer? hanswer
  have hreached : Reachable (fun d => ∃ pc v d₀, d = reset pc v d₀) d :=
    Reachable.performAll (.start ⟨0, _, _, rfl⟩) hperform
  obtain ⟨-, hrefused⟩ | ⟨v, reason?, d', -, hran, hprogress⟩ := run_progresses hreached hlast 3
  · cases hrun.symm.trans hrefused
  · obtain ⟨rfl, -⟩ := EStateM.Result.ok.inj (hrun.symm.trans hran)
    generalize harrivals : arrivals (3 + 1) d = vs at hprogress
    cases hprogress with
    | executed hstop => exact ⟨d, _, hperform, hlast, hrun, _, harrivals, hstop 0 rfl⟩

end Circling

end Debug

end MipsMonitor
