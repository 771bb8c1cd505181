import MipsMonitor.Proofs.Debug.Commands
import MipsMonitor.Proofs.Machine.Watching

/-!
# Breakpoints and translations

Whether a translation looks at a breakpoint is settled when it is made, but breakpoints come and go.
As every change to a breakpoint drops the translations that cover its address, those that are kept
look for a breakpoint exactly where one is switched on (`Debugger.Checked`), between commands and
while the program runs (`Debugger.invariant_checked`). A run therefore executes no instruction at a
breakpoint that is switched on, unless the breakpoint was armed to let it pass
(`Debugger.checks_iff_hasEnabled`).
-/

namespace MipsMonitor

variable {σ : Type}

/-- Executing steps comes to a step, which starts from a guest. -/
inductive Block.Comes (observer : Observer σ) : List Step → Guest σ → Step → Guest σ → Prop where
  /-- The first step starts from where the execution does. -/
  | head (s : Step) (steps : List Step) (g : Guest σ) : Comes observer (s :: steps) g s g
  /-- Behind a step that completes come those that follow. -/
  | tail {s s' : Step} {steps : List Step} {g g' g'' : Guest σ} {flow : Flow}
      (hrun : s.run observer g = .ok flow g') (hcomes : Comes observer steps g' s' g'') :
      Comes observer (s :: steps) g s' g''

namespace Block.Comes

variable {observer : Observer σ} {steps : List Step} {s : Step} {g g' : Guest σ}

/-- What is come to is one of the steps. -/
theorem mem (h : Comes observer steps g s g') : s ∈ steps := by
  induction h with
  | head => exact List.mem_cons_self
  | tail _ _ ih => exact List.mem_cons_of_mem _ ih

/-- What the observer keeps holds where a step starts. -/
theorem keeps {P : σ → Prop} (ho : observer.Keeps P) (h : Comes observer steps g s g')
    (hg : P g.context) : P g'.context := by
  induction h with
  | head => exact hg
  | @tail s s' steps g g' g'' flow hrun _ ih =>
    have hstep : Leads (fun g' => P g'.context) (s.run observer g) :=
      Leads.bind (Guest.keeps_actAll ho hg s.address s.actions) (fun _ h => h)
        fun _ _ h' => Guest.keeps_perform ho h' s.address s.operation
    exact ih (hstep.of_ok hrun)

end Block.Comes

/-- A pass comes to a step, which starts from a guest. -/
def Machine.Comes (observer : Observer σ) (pc : Word) (m : Machine σ) (s : Step) (g : Guest σ) : Prop :=
  m.core.stopped = false ∧ ∃ b n, blockAt pc m = .ok b n ∧ Block.Comes observer b.steps n.guest s g

/-- The block that is looked up is kept. -/
theorem Machine.getElem?_of_blockAt {pc : Word} {m n : Machine σ} {b : Block}
    (h : blockAt pc m = .ok b n) : n.blocks[pc]? = some b := by
  obtain ⟨hb, rfl⟩ | ⟨-, n', -, rfl⟩ := blockAt_of_ok h
  · exact hb
  · exact Std.ExtTreeMap.getElem?_insert_self

namespace Debug

open Machine

namespace Session

/-- The injector asks for a look exactly where a breakpoint is switched on. -/
theorem check_mem_injector (s : Session) (a : Word) (i? : Option Instruction) :
    .check ∈ injector s a i? ↔ s.breakpoints.hasEnabled a = true := by
  rw [injector_eq, List.mem_cons, List.mem_append]
  constructor
  · rintro (h | h | h)
    · cases h
    · split at h
      · assumption
      · cases h
    · exact absurd h (check_notMem_follow a i?)
  · intro h
    rw [if_pos h]
    exact .inr (.inl (List.mem_singleton_self _))

/-- No call of a session switches breakpoints on or off. -/
theorem keeps_hasEnabled (s : Session) :
    observer.Keeps fun s' => ∀ a, s'.breakpoints.hasEnabled a = s.breakpoints.hasEnabled a where
  sync _ _ h := h
  check s' a h x := (s'.breakpoints.hasEnabled_hit a x).trans (h x)
  enter _ _ h := h
  leave _ h := h
  write _ _ _ _ h := h

/-- A breakpoint that is not armed is not armed by any call. -/
theorem keeps_unarmed (a : Word) : observer.Keeps fun s => s.armed a = false where
  sync s x h := h
  check s x h := by rw [armed_check, h, Bool.and_false]
  enter s x h := h
  leave s h := h
  write s f t w h := h

/-- Only a look at a breakpoint changes breakpoints, or stops the program. -/
theorem act_unchecked (g : Guest Session) (a : Word) {action : Action} (hne : action ≠ .check) :
    ∃ g', g.act observer a action = .ok () g' ∧ g'.context.breakpoints = g.context.breakpoints := by
  cases action with
  | check => exact absurd rfl hne
  | sync => exact ⟨_, rfl, rfl⟩
  | enter callSite => exact ⟨_, rfl, rfl⟩
  | leave => exact ⟨_, rfl, rfl⟩

/-- A look at a breakpoint that is switched on lets the program pass only if the breakpoint is armed,
and disarms it. -/
theorem armed_of_actAll {g g' : Guest Session} {a : Word} {actions : List Action}
    (hcheck : .check ∈ actions) (henabled : g.context.breakpoints.hasEnabled a = true)
    (h : g.actAll observer a actions = .ok () g') :
    g.context.armed a = true ∧ g'.context.armed a = false := by
  induction actions generalizing g with
  | nil => cases hcheck
  | cons action actions ih =>
    by_cases hfirst : action = .check
    · subst hfirst
      rw [actAll_check] at h
      split at h
      · cases h
      · next hstops =>
        refine ⟨?_, ?_⟩
        · rw [← Bool.not_eq_false]
          exact fun harmed => hstops (Guards.stops ⟨henabled, harmed⟩)
        · refine (Guest.keeps_actAll (keeps_unarmed a) ?_ a actions).of_ok h
          rw [armed_check, beq_self_eq_true]
          rfl
    · have hrest : .check ∈ actions := List.mem_of_ne_of_mem (Ne.symm hfirst) hcheck
      -- The other actions leave the breakpoints alone.
      obtain ⟨g₁, hact, hsame⟩ := act_unchecked g a hfirst
      unfold Guest.actAll at h
      rw [bind_apply, hact] at h
      obtain ⟨harmed, hdisarmed⟩ := ih hrest (by rw [hsame]; exact henabled) h
      exact ⟨by rw [armed, ← hsame]; exact harmed, hdisarmed⟩

end Session

namespace Debugger

variable {d d' : Debugger}

/-- A step looks for a breakpoint exactly if one is switched on at its address. -/
def Looks (s : Session) (step : Step) : Prop :=
  .check ∈ step.actions ↔ s.breakpoints.hasEnabled step.address = true

/-- Translations look for a breakpoint exactly where one is switched on. -/
structure Checked (d : Debugger) : Prop where
  /-- Instructions are watched on behalf of the session. -/
  injector? : d.injector? = some Session.injector
  /-- What is kept was translated from some memory. -/
  translated : ∀ (start : Word) (b : Block), d.blocks[start]? = some b →
    ∃ r choose, Block.translate r choose .block start = .ok b
  /-- Each step looks exactly where a breakpoint is switched on. -/
  looks : d.blocks.Every (Looks (session d))

/-- A reset drops all translations. -/
theorem checked_reset (pc : Word) (v : View Ram) (d : Debugger) : Checked (reset pc v d) where
  injector? := rfl
  translated start b hb := by
    have hb : (∅ : Translations)[start]? = some b := hb
    rw [Std.ExtTreeMap.getElem?_empty] at hb
    cases hb
  looks := Translations.every_empty _

/-- Translations stay good where the same breakpoints are switched on. -/
theorem Checked.congr (h : Checked d) (hinjector : d'.injector? = d.injector?)
    (hblocks : ∀ (start : Word) (b : Block), d'.blocks[start]? = some b → d.blocks[start]? = some b)
    (henabled : ∀ a, (session d').breakpoints.hasEnabled a = (session d).breakpoints.hasEnabled a) :
    Checked d' where
  injector? := hinjector.trans h.injector?
  translated start b hb := h.translated start b (hblocks start b hb)
  looks start b hb s hs := by
    rw [Looks, henabled]
    exact h.looks start b (hblocks start b hb) s hs

/-- A change to the breakpoint at an address leaves translations that look where they should, since
those that cover the address are dropped. -/
theorem Checked.changeBreakpoints (h : Checked d) {address : Word} {f : Breakpoints → Breakpoints}
    (hother : ∀ a, a ≠ address →
      (f d.breakpoints).hasEnabled a = (d.breakpoints : Breakpoints).hasEnabled a) :
    Checked (Debugger.changeBreakpoints address f d) := by
  refine ⟨h.injector?, fun start b hb => h.translated start b (kept_of_changeBreakpoints hb).1, ?_⟩
  intro start b hb s hs
  obtain ⟨hbefore, hclear⟩ := kept_of_changeBreakpoints hb
  obtain ⟨r, choose, htranslate⟩ := h.translated start b hbefore
  -- What is kept has no step at the address, and elsewhere no breakpoint was switched.
  have hne : s.address ≠ address := Block.address_ne_of_covers htranslate hs
    ((Translations.finds_eq_covers htranslate address).symm.trans hclear)
  exact (h.looks start b hbefore s hs).trans (iff_of_eq (congrArg (· = true) (hother _ hne).symm))

/-- Removing a breakpoint drops the translations that look for it. -/
theorem Checked.dropBreakpoint (h : Checked d) (address : Word) :
    Checked (Debugger.dropBreakpoint address d) := by
  obtain ⟨-, heq⟩ | ⟨lastHit?, heq, -⟩ := dropBreakpoint_eq address d
  · rw [heq]
    exact h
  · have hforget : Checked (d.onContext ({ · with lastHit? })) :=
      h.congr rfl (fun _ _ h => h) fun _ => rfl
    rw [heq]
    refine hforget.changeBreakpoints fun a ha => ?_
    rw [Breakpoints.hasEnabled_eq, Breakpoints.hasEnabled_eq, Breakpoints.getElem?_erase,
      if_neg (Ne.symm ha)]

/-! ## While the program runs -/

/-- A translation that is made now looks exactly where a breakpoint is switched on. -/
theorem Checked.looks_translate (h : Checked d) {r : Ram} {start : Word} {b : Block}
    (htranslate : Block.translate r d.choose .block start = .ok b) :
    ∀ s ∈ b.steps, Looks (session d) s := by
  obtain ⟨-, -, rfl⟩ := Block.translate_eq_ok.mp htranslate
  intro s hs
  obtain ⟨p, -, rfl⟩ := List.mem_map.mp hs
  have hchoose : d.choose = Session.injector (session d) := by
    unfold choose
    rw [h.injector?]
    rfl
  change .check ∈ Block.admitted .block d.choose p.1 p.2 ↔ _
  rw [Block.admitted_block, hchoose]
  exact Session.check_mem_injector (session d) p.1 p.2

/-- A translation that is looked up or made looks where it should. -/
theorem Checked.blockAt (h : Checked d) (start : Word) : Leads Checked (blockAt start d) := by
  cases hblock : Machine.blockAt start d with
  | error e n =>
    obtain ⟨-, rfl | rfl⟩ := blockAt_eq_error hblock
    · exact h
    · exact h.congr rfl (fun _ _ h => h) fun _ => rfl
  | ok b n =>
    obtain ⟨-, rfl⟩ | ⟨v, entries, -, htranslate, rfl⟩ := blockAt_eq_ok hblock
    · exact h
    · refine ⟨h.injector?, fun start' b' hb' => ?_, h.looks.insert (h.looks_translate htranslate)⟩
      obtain ⟨rfl, rfl⟩ | hb' := Translations.of_getElem?_insert hb'
      · exact ⟨_, _, htranslate⟩
      · exact h.translated start' b' hb'

/-- A block that is run changes no breakpoint. -/
theorem Checked.runBlock (h : Checked d) (b : Block) : Leads Checked (runBlock Session.observer b d) :=
  leads_runBlock (b.keeps_run (Session.keeps_hasEnabled (session d)) fun _ => rfl) fun _ hkeeps =>
    h.congr rfl (fun _ _ hb => (Translations.getElem?_foldl_invalidate.mp hb).1) hkeeps

/-- A pass keeps looks where they should be. -/
theorem Checked.pass (h : Checked d) (pc : Word) : Leads Checked (pass Session.observer pc d) := by
  unfold Machine.pass
  split
  · exact h
  · exact Leads.bind (h.blockAt pc) (fun _ h => h) fun b d' h => h.runBlock b

/-- A single step keeps looks where they should be. -/
theorem Checked.executeOne (h : Checked d) (pc : Word) :
    Leads Checked (executeOne Session.observer pc d) := by
  have hsame (f : Core → Core) : Checked (d.onCore f) := h.congr rfl (fun _ _ h => h) fun _ => rfl
  refine Leads.bind (leads_translate h (hsame _) (fun _ => hsame _) .single pc) (fun _ h => h)
    fun b d' h => ?_
  exact Leads.bind (h.runBlock b) (fun _ h => h) fun _ _ h => h

/-- Between commands and while the program runs, translations look for a breakpoint exactly where
one is switched on. -/
theorem invariant_checked : Invariant Checked Checked where
  run h := h
  beside h hbeside := h.congr hbeside.injector? hbeside.blocks fun a => by rw [hbeside.breakpoints]
  besideRunning h hbeside :=
    h.congr hbeside.injector? hbeside.blocks fun a => by rw [hbeside.breakpoints]
  reset pc v _ := checked_reset pc v _
  moveTo {d} pc h := h.congr rfl (fun _ _ h => h) fun a => (session d).hasEnabled_moveTo pc a
  stayAt {d} address h _ := h.congr rfl (fun _ _ h => h) fun a =>
    Breakpoints.hasEnabled_congr ((session d).enabled_stayAt address a)
  -- Only what is translated at the address itself is dropped, and only there is anything switched.
  place address h := h.changeBreakpoints fun a ha => by
    rw [Breakpoints.hasEnabled_eq, Breakpoints.hasEnabled_eq, Breakpoints.getElem?_place,
      if_neg (Ne.symm ha)]
  setEnabled address on h := h.changeBreakpoints fun a ha => by
    rw [Breakpoints.hasEnabled_eq, Breakpoints.hasEnabled_eq, Breakpoints.setEnabled,
      Breakpoints.getElem?_update, if_neg (Ne.symm ha)]
  drop address h := h.dropBreakpoint address
  pass pc h := h.pass pc
  executeOne pc h := h.executeOne pc

/-! ## What a run executes -/

/-- A run comes to a step, which starts from a guest. -/
def RunComes (d : Debugger) (s : Step) (g : Guest Session) : Prop :=
  ∃ k x d', rounds k (Debugger.pc d, 0) (resumed d) = .ok x d' ∧ d'.Comes Session.observer x.1 s g

/-- A run up to the return of the routine comes to a step, which starts from a guest. -/
def StepOutComes (d : Debugger) (s : Step) (g : Guest Session) : Prop :=
  ∃ d' pc depth, Visits Session.observer (resumed d) (Debugger.pc d) d' pc depth ∧
    d'.Comes Session.observer pc s g

/-- One more round at the end. -/
theorem rounds_succ_right {k : Nat} {x y z : Word × Nat} {d₁ d₂ : Debugger}
    (h : rounds k x d = .ok y d₁) (hround : round y d₁ = .ok z d₂) : rounds (k + 1) x d = .ok z d₂ := by
  induction k generalizing x d with
  | zero =>
    cases h
    rw [rounds_succ, hround]
    rfl
  | succ k ih =>
    rw [rounds_succ] at h ⊢
    cases hx : round x d with
    | error e d' =>
      rw [hx] at h
      cases h
    | ok x' d' =>
      rw [hx] at h
      exact ih h

/-- The passes of a routine are rounds. -/
theorem rounds_of_visits {d₀ : Debugger} {pc pc' : Word} {depth : Nat}
    (h : Visits Session.observer d₀ pc d' pc' depth) :
    ∃ k, rounds k (pc, 0) d₀ = .ok (pc', depth) d' := by
  induction h with
  | start => exact ⟨0, rfl⟩
  | @pass d₁ d₂ pc₁ pc₂ depth₁ depth₂ exit _ hpass hfollow ih =>
    obtain ⟨k, hk⟩ := ih
    refine ⟨k + 1, rounds_succ_right hk ?_⟩
    unfold round
    rw [hpass]
    simp only [hfollow]

/-- A run comes to whatever its first routine comes to. -/
theorem StepOutComes.runComes {s : Step} {g : Guest Session} (h : StepOutComes d s g) :
    RunComes d s g := by
  obtain ⟨d', pc, depth, hvisits, hcomes⟩ := h
  obtain ⟨k, hk⟩ := rounds_of_visits hvisits
  exact ⟨k, (pc, depth), d', hk, hcomes⟩

/-- What passes and new beginnings keep, rounds keep. -/
theorem leads_rounds {J : Debugger → Prop}
    (hpass : ∀ d pc, J d → Leads J (Machine.pass Session.observer pc d))
    (hrestart : ∀ d pc, J d → J (resumed (moveTo pc d))) (h : J d) (k : Nat) (x : Word × Nat) :
    Leads J (rounds k x d) := by
  induction k generalizing d x with
  | zero => exact h
  | succ k ih =>
    refine Leads.bind (P := J) ?_ (fun _ h => h) fun x' d' h' => ih h' x'
    have hfirst := hpass d x.1 h
    unfold round
    cases hp : Machine.pass Session.observer x.1 d with
    | error e d' =>
      rw [hp] at hfirst
      exact hfirst
    | ok exit d' =>
      rw [hp] at hfirst
      simp only
      cases exit.follow? x.2 with
      | some next => exact hfirst
      | none =>
        -- The outermost routine has returned, and the run begins anew.
        exact hrestart d' (returnAddress d') hfirst

/-- A debugger that looks where it should, with the breakpoints of a session switched on. -/
def CheckedAs (s : Session) (d : Debugger) : Prop :=
  Checked d ∧ ∀ a, (session d).breakpoints.hasEnabled a = s.breakpoints.hasEnabled a

/-- Rounds switch no breakpoint on or off. -/
theorem CheckedAs.rounds {s : Session} (h : CheckedAs s d) (k : Nat) (x : Word × Nat) :
    Leads (CheckedAs s) (rounds k x d) := by
  refine leads_rounds (fun d pc h => ?_) (fun d pc h => ?_) h k x
  · exact (h.1.pass pc).and (keeps_pass (Session.keeps_hasEnabled s) h.2 pc)
  · refine ⟨h.1.congr rfl (fun _ _ h => h) fun a => (session d).hasEnabled_moveTo pc a, fun a => ?_⟩
    exact ((session d).hasEnabled_moveTo pc a).trans (h.2 a)

/-- A step that a run comes to looks exactly if a breakpoint is switched on at its address. -/
theorem Checked.looks_of_runComes (h : Checked d) {s : Step} {g : Guest Session}
    (hcomes : RunComes d s g) :
    Looks (session d) s ∧ ∀ a, g.context.breakpoints.hasEnabled a = d.breakpoints.hasEnabled a := by
  obtain ⟨k, x, d₁, hrounds, -, b, n, hblock, hsteps⟩ := hcomes
  -- The block is looked up behind rounds that switch no breakpoints.
  have hresumed : CheckedAs (session d) (resumed d) :=
    ⟨h.congr rfl (fun _ _ h => h) fun _ => rfl, fun _ => rfl⟩
  obtain ⟨hchecked, henabled⟩ := (hresumed.rounds k (Debugger.pc d, 0)).of_ok hrounds
  have hn : Checked n := (hchecked.blockAt x.1).of_ok hblock
  have hcontext : session n = session d₁ := (context_blockAt x.1 d₁).of_ok hblock
  have hlooks := hn.looks x.1 b (getElem?_of_blockAt hblock) s hsteps.mem
  rw [Looks, hcontext, henabled] at hlooks
  refine ⟨hlooks, hsteps.keeps (Session.keeps_hasEnabled (session d)) fun a => ?_⟩
  exact (congrArg (·.breakpoints.hasEnabled a) hcontext).trans (henabled a)

/-- Whatever commands were given to a debugger since a reset, each translation looks for a
breakpoint before an instruction exactly if one is switched on at the address of the instruction. So
where a breakpoint is switched on, a run, or a run up to the return of the routine, executes the
instruction only if the breakpoint was armed to let it pass, and disarms it. -/
theorem checks_iff_hasEnabled (h : Reachable (fun d => ∃ pc v d₀, d = reset pc v d₀) d) :
    (∀ (start : Word) (b : Block), d.blocks[start]? = some b → ∀ s ∈ b.steps,
        (.check ∈ s.actions ↔ d.breakpoints.hasEnabled s.address = true)) ∧
      ∀ s g g', RunComes d s g ∨ StepOutComes d s g → d.breakpoints.hasEnabled s.address = true →
        g.actAll Session.observer s.address s.actions = .ok () g' →
        g.context.armed s.address = true ∧ g'.context.armed s.address = false := by
  have hchecked : Checked d := invariant_checked.reachable (fun d hd => by
    obtain ⟨pc, v, d₀, rfl⟩ := hd
    exact checked_reset pc v d₀) h
  refine ⟨hchecked.looks, fun s g g' hcomes henabled hpass => ?_⟩
  obtain ⟨hlooks, hsame⟩ := hchecked.looks_of_runComes (hcomes.elim id StepOutComes.runComes)
  exact Session.armed_of_actAll (hlooks.mpr henabled) ((hsame s.address).trans henabled) hpass

/-- Whether the first instruction of a run is let pass. -/
def passesFirst (d : Debugger) : Bool :=
  match blockAt (Debugger.pc d) (resumed d) with
  | .ok b n => b.steps.head?.any fun s => s.address == Debugger.pc d &&
      (answer? (n.guest.actAll Session.observer s.address s.actions)).isSome
  | .error _ _ => false

end Debugger

namespace Pausing

open Debugger

/-- A debugger that was reset is reachable. -/
theorem reachable_reset : Reachable (fun d => ∃ pc v d₀, d = reset pc v d₀) start :=
  (Reachable.start ⟨_, _, _, rfl⟩).perform (.setBreakpoint 4) rfl

/-- A run from where the program stopped executes the instruction at the breakpoint, which was armed
to let it pass. -/
theorem armed_where_passed : ∃ d s g g', (Command.run 8).perform start = some d ∧ RunComes d s g ∧
    s.address = 4 ∧ d.breakpoints.hasEnabled s.address = true ∧
    g.actAll Session.observer s.address s.actions = .ok () g' ∧
    g.context.armed s.address = true ∧ g'.context.armed s.address = false := by
  have hstop : ((Command.run 8).perform start).map (fun d =>
      (Debugger.pc d, d.breakpoints.hasEnabled 4, passesFirst d)) = some (4, true, true) := by
    rw [start, atReset_eq]
    decide +kernel
  obtain ⟨d, hperform, hd⟩ := Option.map_eq_some_iff.mp hstop
  obtain ⟨hpc, hrest⟩ := Prod.mk.inj hd
  obtain ⟨henabled, hpasses⟩ := Prod.mk.inj hrest
  unfold passesFirst at hpasses
  split at hpasses
  -- The breakpoint is passed by the first step, where the run of the block begins.
  · next b n hblock =>
    obtain ⟨s, hs, hfirst⟩ := (Option.any_eq_true _ _).mp hpasses
    obtain ⟨haddress, hacts⟩ := Bool.and_eq_true_iff.mp hfirst
    obtain ⟨_, g', hacts⟩ := isSome_answer?.mp hacts
    obtain ⟨steps, hsteps⟩ := List.head?_eq_some_iff.mp hs
    have haddress : s.address = 4 := (beq_iff_eq.mp haddress).trans hpc
    have hcomes : RunComes d s n.guest :=
      ⟨0, (Debugger.pc d, 0), resumed d, rfl, rfl, b, n, hblock, hsteps ▸ .head s steps n.guest⟩
    have henabled : d.breakpoints.hasEnabled s.address = true := haddress ▸ henabled
    have harmed := (checks_iff_hasEnabled (reachable_reset.perform (.run 8) hperform)).2 s n.guest g'
      (.inl hcomes) henabled hacts
    exact ⟨d, s, n.guest, g', hperform, hcomes, haddress, henabled, hacts, harmed⟩
  · cases hpasses

end Pausing

end Debug

end MipsMonitor
