import MipsMonitor.Proofs.Debug.Soundness

/-!
# Signals

What a block ends with before its end is a trap, or a breakpoint that the session knows of
(`Session.Raises`, `Session.raises_runSteps`). Only between blocks is a request to stop seen, so a
run that a breakpoint ends leaves that breakpoint in the session (`Session.Backs`,
`Debugger.backs_invoke`). A single step looks at no breakpoint, so it ends with a trap, if not at its
end (`Debugger.traps_executeOne`).
-/

namespace MipsMonitor.Debug

open Machine

namespace Session

/-- The signals of a block: a breakpoint that there is, or a trap. -/
inductive Raises (s : Session) : Signal → Prop where
  /-- A breakpoint stops the program. -/
  | breakpoint {address : Word} (hexists : s.breakpoints[address]?.isSome = true) :
      Raises s (.breakpoint address)
  /-- An instruction cannot be executed. -/
  | trap (t : Trap) : Raises s (.trap t)

/-- A signal that tells of a breakpoint tells of one that there is. -/
def Backs (s : Session) (e : Signal) : Prop :=
  ∀ a, e = .breakpoint a → s.breakpoints[a]?.isSome = true

/-- A signal of a block tells of no breakpoint but one that is there. -/
theorem Raises.backs {s : Session} {e : Signal} (h : s.Raises e) : s.Backs e := by
  intro a ha
  cases h with
  | breakpoint hexists => exact Signal.breakpoint.inj ha ▸ hexists
  | trap t => cases ha

/-- An action that stops a program does so for a breakpoint. -/
theorem raises_act (g : Guest Session) (address : Word) (action : Action) :
    Fails (fun e g' => g'.context.Raises e) (g.act observer address action) := by
  cases action with
  | sync => trivial
  | enter callSite => trivial
  | leave => trivial
  | check =>
    rw [act_check]
    split
    · next hstops =>
      obtain ⟨b, hb, -⟩ := (Option.any_eq_true _ _).mp hstops
      refine .breakpoint ?_
      simp only [observer, Breakpoints.getElem?_hit, if_true, hb]
      rfl
    · trivial

/-- Of the actions of an instruction only the look at a breakpoint raises a signal. -/
theorem raises_actAll (g : Guest Session) (address : Word) (actions : List Action) :
    Fails (fun e g' => g'.context.Raises e) (g.actAll observer address actions) :=
  Guest.fails_actAll (fun action _ g => raises_act g address action) g

/-- A step that does not complete is stopped by a breakpoint, or traps. -/
theorem raises_step (s : Step) (g : Guest Session) :
    Fails (fun e g' => g'.context.Raises e) (s.run observer g) := by
  refine Fails.bind (raises_actAll g s.address s.actions) fun _ g' _ => ?_
  cases h : g'.perform observer s.address s.operation with
  | ok flow g'' => trivial
  | error e g'' =>
    obtain ⟨t, rfl⟩ := Guest.signal_perform h
    exact .trap t

/-- The steps of a block and the way out of it. -/
theorem raises_runSteps (steps : List Step) (exit : Exit) (g : Guest Session) :
    Fails (fun e g' => g'.context.Raises e) (Block.runSteps observer exit steps g) :=
  Block.fails_runSteps (fun s _ g => raises_step s g) exit g

/-! ## Without a look at breakpoints -/

/-- Actions without a look at a breakpoint do not stop the program, and leave registers and memory
alone. -/
theorem actAll_unchecked (g : Guest Session) (a : Word) {actions : List Action}
    (h : .check ∉ actions) :
    ∃ g', g.actAll observer a actions = .ok () g' ∧ g'.Like (fun _ _ => True) g := by
  induction actions generalizing g with
  | nil => exact ⟨g, rfl, .refl trivial⟩
  | cons action actions ih =>
    obtain ⟨hfirst, hrest⟩ := not_or.mp (List.mem_cons.not.mp h)
    have hself := Core.Agree.refl g.core
    -- Every other action ends well, and reports at most.
    obtain ⟨g₁, hact, hlike⟩ : ∃ g₁, g.act observer a action = .ok () g₁ ∧
        g₁.Like (fun _ _ => True) g := by
      cases action with
      | check => exact absurd rfl hfirst
      | sync => exact ⟨_, rfl, hself, trivial⟩
      | enter callSite => exact ⟨_, rfl, hself.heed_heed _ [], trivial⟩
      | leave => exact ⟨_, rfl, hself.heed_heed _ [], trivial⟩
    obtain ⟨g₂, hacts, hlike'⟩ := ih g₁ hrest
    refine ⟨g₂, ?_, hlike'.trans hlike fun _ _ _ _ _ => trivial⟩
    unfold Guest.actAll
    rw [bind_apply, hact]
    exact hacts

/-- Only a trap keeps a step from its end that does not look for a breakpoint. -/
theorem traps_step {s : Step} (h : .check ∉ s.actions) (g : Guest Session) :
    Fails (fun e _ => ∃ t, e = .trap t) (s.run observer g) := by
  obtain ⟨g₁, hacts, -⟩ := actAll_unchecked g s.address h
  refine Fails.bind (by rw [hacts]; trivial) fun _ g' _ => ?_
  cases hperform : g'.perform observer s.address s.operation with
  | ok flow g'' => trivial
  | error e g'' => exact Guest.signal_perform hperform

end Session

namespace Debugger

/-- A single step does not look at breakpoints. -/
theorem check_notMem_single (choose : Word → Option Instruction → List Action)
    (p : Word × Option Instruction) : .check ∉ (Block.stepFor choose .single p).actions := fun h =>
  Bool.false_ne_true (List.mem_filter.mp h).2

/-- Only a trap keeps a single step from its end. -/
theorem traps_executeOne (pc : Word) (d : Debugger) :
    Fails (fun e _ => ∃ t, e = .trap t) (executeOne Session.observer pc d) := by
  refine Fails.bind (traps_translate .single pc d) fun b d' htranslate => ?_
  obtain ⟨v, entries, -, hb, -⟩ := translate_eq_ok htranslate
  have hunchecked : ∀ s ∈ b.steps, .check ∉ s.actions := by
    obtain ⟨-, -, rfl⟩ := Block.translate_eq_ok.mp hb
    intro s hs
    obtain ⟨p, -, rfl⟩ := List.mem_map.mp hs
    exact check_notMem_single d.choose p
  have hrun : Fails (fun e _ => ∃ t, e = .trap t) (b.run Session.observer d'.guest) :=
    Block.fails_runSteps (fun s hs g => Session.traps_step (hunchecked s hs) g) ⟨b.stop, .plain⟩ d'.guest
  exact Fails.bind (fails_runBlock hrun fun _ _ h => h) fun _ _ _ => trivial

/-- A block that cannot be translated traps. -/
theorem raises_translate (extent : Extent) (start : Word) (d : Debugger) :
    Fails (fun e d' => (session d').Raises e) (translate extent start d) := by
  refine (traps_translate extent start d).mono ?_
  rintro e d' ⟨t, rfl⟩
  exact .trap t

/-- Translating raises traps only. -/
theorem raises_blockAt (start : Word) (d : Debugger) :
    Fails (fun e d' => (session d').Raises e) (blockAt start d) := by
  cases h : blockAt start d with
  | ok b d' => trivial
  | error e d' =>
    obtain ⟨⟨t, rfl⟩, -⟩ := blockAt_eq_error h
    exact .trap t

/-- A block that is run. -/
theorem raises_runBlock (b : Block) (d : Debugger) :
    Fails (fun e d' => (session d').Raises e) (runBlock Session.observer b d) :=
  fails_runBlock (Session.raises_runSteps b.steps ⟨b.stop, .plain⟩ d.guest) fun _ _ h => h

/-- A single step. -/
theorem raises_executeOne (pc : Word) (d : Debugger) :
    Fails (fun e d' => (session d').Raises e) (executeOne Session.observer pc d) :=
  Fails.bind (raises_translate .single pc d) fun b d' _ =>
    Fails.bind (raises_runBlock b d') fun _ _ _ => trivial

/-- A pass that a breakpoint ends leaves the breakpoint there. -/
theorem backs_pass (pc : Word) (d : Debugger) :
    Fails (fun e d' => (session d').Backs e) (pass Session.observer pc d) := by
  unfold Machine.pass
  split
  · -- A request to stop is not a breakpoint.
    intro a h
    cases h
  · have hraises : Fails (fun e d' => (session d').Raises e)
        ((blockAt pc >>= runBlock Session.observer) d) :=
      Fails.bind (raises_blockAt pc d) fun b d' _ => raises_runBlock b d'
    exact hraises.mono fun _ _ h => h.backs

/-- A routine, with all calls that it makes, tells of no breakpoint but one that is there. -/
theorem backs_invoke (fuel : Nat) (pc : Word) (depth : Nat) (d : Debugger) :
    Fails (fun e d' => (session d').Backs e) (invoke Session.observer fuel pc depth d) := by
  induction fuel generalizing pc depth d with
  | zero => trivial
  | succ fuel ih =>
    have hpass := backs_pass pc d
    rw [invoke_succ]
    cases h : pass Session.observer pc d with
    | error e d' => exact hpass.of_error h
    | ok exit d' =>
      simp only
      split
      · trivial
      · next pc' depth' _ => exact ih pc' depth' d'

end Debugger

end MipsMonitor.Debug
