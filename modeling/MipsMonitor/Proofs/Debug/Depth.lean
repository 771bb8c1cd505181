import MipsMonitor.Proofs.Debug.Crossings
import MipsMonitor.Proofs.Debug.Moves

/-!
# The depth of calls

A run counts the routines that it has entered and not left, and ends when it leaves the one it began
in. It counts calls and linking branches; a session expects returns for calls alone. What is executed
at a time, by a pass or by a single step, is a stretch (`Stretch`), and where its delay slots are
plain, the frames follow its crossing (`Debugger.frames_pass`). So behind a run up to the return of
the routine, as many returns are no longer expected as the routine made linking branches, and one
more (`Debugger.frames_invoke`).
-/

namespace MipsMonitor

variable {σ : Type}

/-- Steps that are executed at a time, and the guest that they start from. -/
structure Stretch (σ : Type) where
  /-- The steps. -/
  steps : List Step
  /-- The guest. -/
  guest : Guest σ

namespace Stretch

variable (observer : Observer σ) (x : Stretch σ)

/-- Whether no call or return that is executed is cut short. -/
def uncut : Bool := Block.uncut observer x.steps x.guest

/-- Whether all steps are executed, and none of them transfers control. -/
def passesOn : Bool := Block.passesOn observer x.steps x.guest

/-- How the stretch crosses. -/
def crossing? : Option Crossing := Block.crossing? observer x.steps x.guest

/-- Whether a linking branch decides where control goes behind the stretch. -/
def links : Bool :=
  (Block.decider? observer none x.steps x.guest).any (·.operation.branchesLinking)

end Stretch

/-- Entries in the log do not matter to instructions. -/
theorem Guest.like_note (g : Guest σ) (entries : List Entry) :
    g.Like (· = ·) ⟨g.core.note entries, g.context⟩ :=
  ⟨⟨(g.core.registers_note entries).symm, (g.core.view?_note entries).symm,
    (g.core.sink_note entries).symm, trivial⟩, rfl⟩

namespace Machine

/-- What a pass executes. -/
def stretch? (pc : Word) (m : Machine σ) : Option (Stretch σ) :=
  if m.core.stopped then none
  else
    match blockAt pc m with
    | .ok b n => some ⟨b.steps, n.guest⟩
    | .error _ _ => none

/-- What a single step executes. -/
def single? (pc : Word) (m : Machine σ) : Option (Stretch σ) :=
  match translate .single pc m with
  | .ok b n => some ⟨b.steps, n.guest⟩
  | .error _ _ => none

/-- What a run executes, pass by pass. -/
def stretches (observer : Observer σ) :
    (fuel : Nat) → (pc : Word) → (depth : Nat) → Machine σ → List (Stretch σ)
  | 0, _, _, _ => []
  | fuel + 1, pc, depth, m =>
    (m.stretch? pc).toList ++
      match pass observer pc m with
      | .error _ _ => []
      | .ok exit m' =>
        match exit.follow? depth with
        | none => []
        | some (pc', depth') => stretches observer fuel pc' depth' m'

variable {observer : Observer σ} {m n : Machine σ} {pc : Word}

/-- A genuine machine whose injector is a given one. -/
structure Watched (injector? : Option (Injector σ)) (m : Machine σ) : Prop where
  /-- Steps are made for the injector. -/
  injector? : m.injector? = injector?
  /-- The translations were made for it. -/
  genuine : m.Genuine

namespace Watched

variable {injector? : Option (Injector σ)}

/-- Nothing has to be kept of the guest for a machine to stay watched. -/
theorem keeps (observer : Observer σ) (injector? : Option (Injector σ)) :
    Keeps observer injector? fun _ => True where
  beside _ _ _ _ _ := trivial
  step _ _ := Leads.of_endState trivial

/-- What leads to machines that hold together leads to watched ones. -/
theorem of_leads {ε α : Type} {r : EStateM.Result ε (Machine σ) α}
    (h : Leads (Holds injector? fun _ => True) r) : Leads (Watched injector?) r :=
  h.mono fun _ h => ⟨h.injector?, h.genuine⟩

/-- A pass leaves a machine watched. -/
theorem pass (h : m.Watched injector?) (observer : Observer σ) (pc : Word) :
    Leads (Watched injector?) (pass observer pc m) :=
  of_leads ((keeps observer injector?).pass ⟨trivial, h.genuine, h.injector?⟩ pc)

/-- A single step leaves a machine watched. -/
theorem executeOne (h : m.Watched injector?) (observer : Observer σ) (pc : Word) :
    Leads (Watched injector?) (executeOne observer pc m) :=
  of_leads ((keeps observer injector?).executeOne ⟨trivial, h.genuine, h.injector?⟩ pc)

/-- A pass that executes nothing fails at once; any other pass ends as the steps of its stretch do. -/
theorem pass_stretch (h : m.Watched injector?) (observer : Observer σ) (pc : Word) :
    (m.stretch? pc = none ∧
        ∃ e n, Machine.pass observer pc m = .error e n ∧ m.guest.Like (· = ·) n.guest) ∨
      ∃ x stop, m.stretch? pc = some x ∧ m.guest.Like (· = ·) x.guest ∧
        (∀ s ∈ x.steps, s.MadeFor injector?) ∧
        Alike (fun g n => g.Like (· = ·) n.guest)
          (Block.runSteps observer ⟨stop, .plain⟩ x.steps x.guest) (Machine.pass observer pc m) := by
  unfold stretch? Machine.pass
  split
  · -- A processor that was stopped runs no block.
    exact .inl ⟨rfl, _, _, rfl, .refl rfl⟩
  · rw [bind_apply]
    cases hblock : blockAt pc m with
    | error e n =>
      refine .inl ⟨rfl, e, n, rfl, ?_⟩
      obtain ⟨-, rfl | rfl⟩ := blockAt_eq_error hblock <;> exact ⟨⟨rfl, rfl, rfl, trivial⟩, rfl⟩
    | ok b n =>
      obtain ⟨hgenuine, hsteps⟩ := h.genuine.blockAt hblock
      obtain ⟨hinjector, hlike⟩ : n.injector? = m.injector? ∧ m.guest.Like (· = ·) n.guest := by
        obtain ⟨-, rfl⟩ | ⟨v, entries, -, -, rfl⟩ := blockAt_eq_ok hblock
        · exact ⟨rfl, .refl rfl⟩
        · exact ⟨rfl, m.guest.like_note entries⟩
      -- Whether the block was kept or translated, it was made for the injector.
      refine .inr ⟨⟨b.steps, n.guest⟩, b.stop, rfl, hlike, ?_, run_alike_runBlock observer b n⟩
      exact h.injector? ▸ hinjector ▸ hsteps

/-- A single step that executes nothing fails at once; any other one ends as the steps of its
stretch do. -/
theorem executeOne_stretch (h : m.Watched injector?) (observer : Observer σ) (pc : Word) :
    (m.single? pc = none ∧
        ∃ e n, Machine.executeOne observer pc m = .error e n ∧ m.guest.Like (· = ·) n.guest) ∨
      ∃ x stop, m.single? pc = some x ∧ m.guest.Like (· = ·) x.guest ∧
        (∀ s ∈ x.steps, s.MadeFor injector?) ∧
        Alike (fun g n => g.Like (· = ·) n.guest)
          ((Block.runSteps observer ⟨stop, .plain⟩ x.steps >>= fun exit => pure exit.target) x.guest)
          (Machine.executeOne observer pc m) := by
  obtain ⟨entries, htranslate⟩ := translate_eq .single pc m
  unfold single? Machine.executeOne
  rw [bind_apply, htranslate]
  cases m.core.view? with
  | none => exact .inl ⟨rfl, _, _, rfl, ⟨⟨rfl, rfl, rfl, trivial⟩, rfl⟩⟩
  | some v =>
    simp only
    cases hb : Block.translate v.backing m.choose .single pc with
    | error t => exact .inl ⟨rfl, _, _, rfl, .refl rfl⟩
    | ok b =>
      refine .inr ⟨⟨b.steps, (m.onCore (Core.note · entries)).guest⟩, b.stop, rfl,
        m.guest.like_note entries, ?_, Alike.bind_pure (run_alike_runBlock observer b _) _⟩
      exact h.injector? ▸ madeFor_of_translate hb

end Watched

end Machine

namespace Debug

open Machine

namespace Debugger

variable {d d' : Debugger} {pc : Word}

/-- The returns that are expected, innermost first. -/
def frames (d : Debugger) : List Word := d.session.frames

/-- What a debugger knows of calls, and what it has told of them: the returns that are expected,
innermost first, and the events that occurred. -/
def accounts (d : Debugger) : List Word × Array StepInfo := (frames d, (session d).events)

/-- Telling listeners leaves the frames. -/
@[simp] theorem frames_emit (event : Event) (d : Debugger) : frames (emit event d) = frames d := by
  obtain ⟨notices, listeners, events, heq⟩ := emit_eq event d
  rw [heq]
  rfl

/-- To move on leaves the accounts. -/
theorem accounts_moveTo (pc : Word) (d : Debugger) : accounts (moveTo pc d) = accounts d := by
  change (((session d).moveTo pc).frames, ((session d).moveTo pc).events) = accounts d
  unfold Session.moveTo
  cases (session d).lastHit? <;> rfl

/-- To move on leaves the frames. -/
@[simp] theorem frames_moveTo (pc : Word) (d : Debugger) : frames (moveTo pc d) = frames d :=
  congrArg Prod.fst (accounts_moveTo pc d)

/-- The debugger watches its machine on behalf of its session. -/
abbrev Attends (d : Debugger) : Prop := Machine.Watched (some Session.injector) d

/-- What ends like the steps of a guest leaves the frames that they leave. -/
theorem frames_endState {α : Type} {r : EStateM.Result Signal (Guest Session) α}
    {r' : EStateM.Result Signal Debugger α} (h : Alike (fun g n => g.Like (· = ·) n.guest) r r') :
    frames (endState r') = (endState r).context.frames := by
  cases h with
  | ok a h => exact congrArg Session.frames h.context.symm
  | error e h => exact congrArg Session.frames h.context.symm

/-- A pass that cuts nothing short changes the frames by its crossing. -/
theorem frames_pass (hd : Attends d)
    (huncut : ∀ x ∈ d.stretch? pc, x.uncut Session.observer = true) :
    frames (endState (pass Session.observer pc d)) =
      ((d.stretch? pc).bind (·.crossing? Session.observer)).toList.foldl Crossing.cross (frames d) := by
  obtain ⟨hnone, e, n, hpass, hlike⟩ | ⟨x, stop, hx, hlike, hsteps, halike⟩ :=
    hd.pass_stretch Session.observer pc
  · rw [hnone, hpass]
    exact congrArg Session.frames hlike.context.symm
  · rw [hx] at huncut ⊢
    have hframes := Session.frames_runSteps hsteps (huncut x rfl) ⟨stop, .plain⟩
    rw [← hlike.context] at hframes
    exact (frames_endState halike).trans hframes

/-- A single step that cuts nothing short changes the frames by its crossing. -/
theorem frames_executeOne (hd : Attends d)
    (huncut : ∀ x ∈ d.single? pc, x.uncut Session.observer = true) :
    frames (endState (executeOne Session.observer pc d)) =
      ((d.single? pc).bind (·.crossing? Session.observer)).toList.foldl Crossing.cross (frames d) := by
  obtain ⟨hnone, e, n, hone, hlike⟩ | ⟨x, stop, hx, hlike, hsteps, halike⟩ :=
    hd.executeOne_stretch Session.observer pc
  · rw [hnone, hone]
    exact congrArg Session.frames hlike.context.symm
  · rw [hx] at huncut ⊢
    have hframes := Session.frames_runSteps hsteps (huncut x rfl) ⟨stop, .plain⟩
    rw [← hlike.context] at hframes
    have hend := frames_endState halike
    rw [endState_bind_pure] at hend
    exact hend.trans hframes

/-- A pass over plain delay slots that completes enters a routine by a call, of which the session is
told, or by a linking branch, of which it is not, or leaves one by a return. -/
theorem frames_pass_ok (hd : Attends d) {exit : Exit} (hpass : pass Session.observer pc d = .ok exit d')
    (hplain : ∀ x ∈ d.stretch? pc, Block.SlotsPlain x.steps) :
    ∃ x, d.stretch? pc = some x ∧
      match exit.transfer with
      | .plain => x.links Session.observer = false ∧ frames d' = frames d
      | .enter =>
        (x.links Session.observer = false ∧ ∃ back, frames d' = back :: frames d) ∨
          x.links Session.observer = true ∧ frames d' = frames d
      | .leave => x.links Session.observer = false ∧ frames d' = (frames d).tail := by
  obtain ⟨-, e, n, herror, -⟩ | ⟨x, stop, hx, -, -, halike⟩ := hd.pass_stretch Session.observer pc
  · cases hpass.symm.trans herror
  · rw [hpass] at halike
    obtain ⟨g, hrun, -⟩ := halike.of_ok
    have hplain : Block.SlotsPlain x.steps := hplain x hx
    -- A pass that completes over plain slots cuts nothing short.
    have hframes : frames (endState (pass Session.observer pc d)) = _ :=
      frames_pass hd fun y hy => by
        obtain rfl := Option.some.inj (hx.symm.trans hy)
        exact Block.uncut_of_ok hplain hrun
    have htransfer := Block.transfer_of_runSteps none rfl hrun
    rw [hpass, hx] at hframes
    refine ⟨x, hx, ?_⟩
    simp only [Option.bind_some, Stretch.crossing?, Block.crossing?, endState] at hframes
    unfold Stretch.links
    cases hdecider : Block.decider? Session.observer none x.steps x.guest with
    | none =>
      rw [hdecider] at htransfer hframes
      rw [htransfer]
      exact ⟨rfl, hframes⟩
    | some s =>
      rw [hdecider] at htransfer hframes
      rw [htransfer]
      -- How control is transferred tells whether it crosses, and whether a branch links.
      have hcrosses := s.operation.crossing?_of_transferKind s.address
      simp only [Option.map_some, Option.getD_some, Option.any_some, Option.bind_some] at hframes ⊢
      unfold Step.crossing? at hframes
      cases hkind : s.operation.transferKind with
      | plain =>
        rw [hkind] at hcrosses
        rw [hcrosses.2] at hframes
        exact ⟨hcrosses.1, hframes⟩
      | enter =>
        rw [hkind] at hcrosses
        obtain ⟨hlinks, hc⟩ | ⟨hlinks, hc⟩ := hcrosses
        · rw [hc] at hframes
          exact .inl ⟨hlinks, _, hframes⟩
        · rw [hc] at hframes
          exact .inr ⟨hlinks, hframes⟩
      | leave =>
        rw [hkind] at hcrosses
        rw [hcrosses.2] at hframes
        exact ⟨hcrosses.1, hframes⟩

/-- Behind a run that ends with the return of the routine that is `depth` calls up, as many returns
are no longer expected as routines were left, and one more for each linking branch that was taken. -/
theorem frames_invoke (hd : Attends d) {fuel depth : Nat} {target : Word}
    (hreturn : invoke Session.observer fuel pc depth d = .ok (some target) d')
    (hplain : ∀ x ∈ stretches Session.observer fuel pc depth d, Block.SlotsPlain x.steps) :
    frames d' = (frames d).drop
      (depth + 1 + (stretches Session.observer fuel pc depth d).countP (·.links Session.observer)) := by
  induction fuel generalizing pc depth d with
  | zero => cases hreturn
  | succ fuel ih =>
    rw [invoke_succ] at hreturn
    unfold stretches at hplain ⊢
    cases hpass : pass Session.observer pc d with
    | error e d₁ =>
      rw [hpass] at hreturn
      cases hreturn
    | ok exit d₁ =>
      simp only [hpass] at hreturn hplain ⊢
      obtain ⟨x, hx, hcross⟩ := frames_pass_ok hd hpass fun x hx =>
        hplain x (List.mem_append_left _ (Option.mem_toList.mpr hx))
      have hd₁ : Attends d₁ := (hd.pass Session.observer pc).of_ok hpass
      have hrest := fun x hx => hplain x (List.mem_append_right _ hx)
      rw [hx, Option.toList_some, List.countP_append, List.countP_singleton]
      obtain ⟨target', how⟩ := exit
      cases how with
      | plain =>
        obtain ⟨hlinks, hframes⟩ := hcross
        rw [hlinks, if_neg Bool.false_ne_true, Nat.zero_add, ← hframes]
        exact ih hd₁ hreturn hrest
      | enter =>
        have hbehind := ih hd₁ hreturn hrest
        obtain ⟨hlinks, back, hframes⟩ | ⟨hlinks, hframes⟩ := hcross
        · -- The frame of the call is the first one that is dropped.
          rw [hlinks, if_neg Bool.false_ne_true, Nat.zero_add, hbehind, hframes,
            Nat.add_right_comm, List.drop_succ_cons]
          rfl
        · rw [hlinks, if_pos rfl, hbehind, hframes, Nat.add_assoc (depth + 1)]
          rfl
      | leave =>
        obtain ⟨hlinks, hframes⟩ := hcross
        rw [hlinks, if_neg Bool.false_ne_true, Nat.zero_add]
        cases depth with
        | zero =>
          cases hreturn
          exact hframes.trans (List.drop_one).symm
        | succ depth =>
          have hbehind := ih hd₁ hreturn hrest
          rw [hbehind, hframes, ← List.drop_one, List.drop_drop, ← Nat.add_assoc, Nat.add_comm 1]
          rfl

/-! ### Watching on behalf of the session -/

/-- A reset leaves the machine to its debugger. -/
theorem attends_reset (pc : Word) (v : View Ram) (d : Debugger) : Attends (reset pc v d) :=
  ⟨rfl, genuine_of_empty _ _⟩

/-- Fewer translations are watched as all were. -/
theorem Attends.congr (hd : Attends d) (hinjector : d'.injector? = d.injector?)
    (hblocks : ∀ (start : Word) (b : Block), d'.blocks[start]? = some b →
      d.blocks[start]? = some b) : Attends d' :=
  ⟨hinjector.trans hd.injector?, hd.genuine.congr hinjector hblocks⟩

/-- Whatever a debugger does, it watches on. -/
theorem Move.attends (h : Move d d') (hd : Attends d) : Attends d' := by
  cases h with
  | poke address bytes =>
    have hbeside := (Beside.atCore (Core.poke address bytes) d).endState
    exact hd.congr hbeside.injector? hbeside.blocks
  | breakpoints address f => exact hd.congr rfl (Beside.invalidate _ address).blocks
  | invalidate address => exact hd.congr rfl (Beside.invalidate d address).blocks
  | pass pc => exact (hd.pass Session.observer pc).endState
  | single pc => exact (hd.executeOne Session.observer pc).endState
  | _ => exact hd.congr rfl fun _ _ h => h

/-- Commands leave a debugger that watches on. -/
theorem Attends.perform (hd : Attends d) {command : Command}
    (hperform : command.perform d = some d') : Attends d' := by
  by_cases hinner : command.Inner
  · exact (command.moves_of_perform hinner hperform).keeps Move.attends hd
  · cases command with
    | reset pc v => exact Option.some.inj hperform ▸ attends_reset pc v d
    | outside f => exact Option.some.inj hperform ▸ hd.congr rfl fun _ _ h => h
    | _ => exact absurd trivial hinner

/-- Since a reset a debugger watches on behalf of its session. -/
theorem attends_of_reachable (h : Reachable (fun d => ∃ pc v d₀, d = reset pc v d₀) d) :
    Attends d := by
  induction h with
  | start h =>
    obtain ⟨pc, v, d₀, rfl⟩ := h
    exact attends_reset pc v d₀
  | perform _ _ hperform ih => exact ih.perform hperform

/-! ### Stepping out -/

/-- What stepping out executes, pass by pass. -/
def routine (fuel : Nat) (d : Debugger) : List (Stretch Session) :=
  stretches Session.observer fuel (Debugger.pc d) 0 d.resumed

/-- A step out that ends with the return of the routine takes off the call stack as many returns as
the routine made linking branches, and one more; without linking branches it takes off the innermost
one. -/
theorem callStack_stepOut (hd : Reachable (fun d => ∃ pc v d₀, d = reset pc v d₀) d) {fuel : Nat}
    (hplain : ∀ x ∈ routine fuel d, Block.SlotsPlain x.steps) {target : Word} {d₁ d' : Debugger}
    (hreturn : execute Session.observer fuel (Debugger.pc d) d = .ok (some target) d₁)
    (hstepOut : stepOut fuel d = .ok (some ()) d') :
    callStack d' = (callStack d).take ((callStack d).length -
        (1 + (routine fuel d).countP (·.links Session.observer))) ∧
      ((∀ x ∈ routine fuel d, x.links Session.observer = false) →
        callStack d' = (callStack d).dropLast) := by
  have hframes : frames d' = (frames d).drop
      (0 + 1 + (routine fuel d).countP (·.links Session.observer)) := by
    have hattends : Attends d.resumed :=
      (attends_of_reachable hd).congr rfl fun _ _ h => h
    have hinvoke := hreturn
    rw [execute_eq] at hinvoke
    have hframes := frames_invoke hattends hinvoke hplain
    rw [stepOut_eq] at hstepOut
    split at hstepOut
    · unfold stepOut.finish at hstepOut
      rw [hreturn] at hstepOut
      cases hstepOut
      rw [frames_emit, frames_moveTo]
      exact hframes
    · cases hstepOut
  -- The call stack is shown outermost first, the frames are kept innermost first.
  have hstack : callStack d' = (callStack d).take ((callStack d).length -
      (1 + (routine fuel d).countP (·.links Session.observer))) := by
    change (frames d').reverse = (frames d).reverse.take ((frames d).reverse.length - _)
    rw [hframes, Nat.zero_add, List.length_reverse, List.reverse_drop]
  refine ⟨hstack, fun hlinks => ?_⟩
  rw [hstack, List.countP_eq_zero.mpr fun x hx => Bool.not_eq_true _ ▸ hlinks x hx,
    List.dropLast_eq_take]

end Debugger

namespace Nesting

open Debugger

/-- A routine at `0x10` that is called from address zero and calls another one, at `0x30`: `jal 0x10`,
three times `nop`, `addu $s1, $ra, $zero`, `addiu $t9, $zero, 0x30`, `jalr $t9`, `nop`,
`addu $ra, $s1, $zero`, `jr $ra`, twice `nop`, `jr $ra`, `nop`. -/
def image : Image :=
  ⟨0, ⟨#[0x04, 0, 0, 0x0C, 0, 0, 0, 0, 0, 0, 0, 0, 0, 0, 0, 0, 0x21, 0x88, 0xE0, 0x03, 0x30, 0, 0x19, 0x24,
    0x09, 0xF8, 0x20, 0x03, 0, 0, 0, 0, 0x21, 0xF8, 0x20, 0x02, 0x08, 0, 0xE0, 0x03, 0, 0, 0, 0,
    0, 0, 0, 0, 0x08, 0, 0xE0, 0x03, 0, 0, 0, 0]⟩, by decide⟩

/-- A debugger that has stepped into the outer routine. -/
def start : Debugger := endState (stepInto (atReset image))

/-- Stepping out of the outer routine, through the inner one, takes one return off the call stack. -/
theorem callStack_nesting :
    callStack start = [0, 8] ∧ callStack (endState (stepOut 3 start)) = [0] := by
  have hreached : Reachable (fun d => ∃ pc v d₀, d = reset pc v d₀) start :=
    .perform (.start ⟨0, _, _, rfl⟩) .stepInto rfl
  have hstack : callStack start = [0, 8] := by
    rw [start, atReset_eq]
    decide +kernel
  have hplain : ∀ x ∈ routine 3 start, Block.SlotsPlain x.steps := by
    rw [start, atReset_eq]
    decide +kernel
  have hlinks : ∀ x ∈ routine 3 start, x.links Session.observer = false := by
    rw [start, atReset_eq]
    decide +kernel
  have hreturn : answer? (execute Session.observer 3 (Debugger.pc start) start) = some (some 8) := by
    rw [start, atReset_eq]
    decide +kernel
  have hstepOut : answer? (stepOut 3 start) = some (some ()) := by
    rw [start, atReset_eq]
    decide +kernel
  have hbehind := (callStack_stepOut hreached hplain (eq_of_answer? hreturn)
    (eq_of_answer? hstepOut)).2 hlinks
  rw [hstack] at hbehind
  exact ⟨hstack, hbehind⟩

end Nesting

namespace Branching

open Debugger

/-- A routine at `0x10` that is called from address zero and branches to another one, at `0x2C`,
which returns to it: `jal 0x10`, three times `nop`, `addu $s1, $ra, $zero`, `bgezal $zero, 0x2C`,
`nop`, `addu $ra, $s1, $zero`, `jr $ra`, twice `nop`, `jr $ra`, `nop`. -/
def image : Image :=
  ⟨0, ⟨#[0x04, 0, 0, 0x0C, 0, 0, 0, 0, 0, 0, 0, 0, 0, 0, 0, 0, 0x21, 0x88, 0xE0, 0x03, 0x05, 0, 0x11, 0x04,
    0, 0, 0, 0, 0x21, 0xF8, 0x20, 0x02, 0x08, 0, 0xE0, 0x03, 0, 0, 0, 0, 0, 0, 0, 0,
    0x08, 0, 0xE0, 0x03, 0, 0, 0, 0]⟩, by decide⟩

/-- A debugger that has stepped into the outer routine. -/
def start : Debugger := endState (stepInto (atReset image))

/-- The run ends with the return of the outer routine, behind plain delay slots, and has taken two
returns off the call stack. -/
theorem callStack_branching :
    callStack start = [0, 8] ∧ (∀ x ∈ routine 3 start, Block.SlotsPlain x.steps) ∧
      answer? (execute Session.observer 3 (Debugger.pc start) start) = some (some 8) ∧
      answer? (stepOut 3 start) = some (some ()) ∧ callStack (endState (stepOut 3 start)) = [] := by
  rw [start, atReset_eq]
  decide +kernel

end Branching

end Debug

end MipsMonitor
