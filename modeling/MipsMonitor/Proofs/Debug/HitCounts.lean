import MipsMonitor.Proofs.Debug.SteppingInto

/-!
# Hits

A breakpoint counts how often it stopped the program. It counts where it is looked at, in the middle of
a block, and the stop is reported far from there. So what lets the program run is followed step by
step: it leaves all hits alone, or it ends with a signal, and the breakpoint that the signal tells of
has one hit more (`Session.Tallies`). A run up to a stand therefore counts the stop that it reports and
nothing else (`Debugger.Reports`), and a single step counts nothing.

What befalls a breakpoint in a history of commands are marks: it is placed, hits are forgotten by a
reset, and the program stops there (`Command.marks`). The hits of a breakpoint are the stops since the
last of the marks that begin its count anew, whatever the history was (`Debugger.hits_exact`).
-/

namespace MipsMonitor

/-- The address of the breakpoint that a signal tells of. -/
def Signal.stop? : Signal → Option Word
  | breakpoint address => some address
  | trap _ => none
  | stopped _ => none

namespace Debug

open Machine

/-- The address of the breakpoint because of which the program stands still. -/
def StopReason.stop? : StopReason → Option Word
  | breakpoint address _ => some address
  | exception _ => none
  | halted _ => none

/-- The hits of the breakpoint at an address behind a stop at a breakpoint, or behind none. -/
def hitsAfter (stop? : Option Word) (a : Word) (n : Nat) : Nat := if stop? = some a then n + 1 else n

/-- Where nothing stopped the program all hits stay. -/
theorem hitsAfter_none (a : Word) : hitsAfter none a = id :=
  funext fun _ => if_neg (Option.some_ne_none a).symm

/-- The breakpoint that stopped the program has one hit more. -/
theorem hitsAfter_self (a : Word) (n : Nat) : hitsAfter (some a) a n = n + 1 := if_pos rfl

/-- A look at a breakpoint counts if it stops the program. -/
theorem Breakpoint.hits_met (b : Breakpoint) :
    b.met.hits = if b.stops = true then b.hits + 1 else b.hits := by
  obtain ⟨enabled, hits, skipOnce⟩ := b
  cases enabled <;> cases skipOnce <;> rfl

namespace Session

variable {s s' s'' : Session} {stop? : Option Word}

/-- How often the breakpoint at an address stopped the program, if there is one. -/
def hits? (s : Session) (a : Word) : Option Nat := s.breakpoints[a]?.map Breakpoint.hits

/-- Hits are those of the breakpoints. -/
theorem hits?_congr (h : s'.breakpoints = s.breakpoints) : s'.hits? = s.hits? := by
  funext a
  rw [hits?, hits?, h]

/-- A change to the breakpoint at an address that leaves its hits alone. -/
theorem hits?_update (s : Session) (a : Word) {f : Breakpoint → Breakpoint}
    (hf : Breakpoint.hits ∘ f = Breakpoint.hits) :
    hits? { s with breakpoints := s.breakpoints.update a f } = s.hits? := by
  funext x
  simp only [hits?, Breakpoints.getElem?_update]
  split
  · rw [Option.map_map, hf]
  · rfl

/-- Arming a breakpoint counts nothing. -/
theorem hits?_setSkipOnce (s : Session) (a : Word) (skip : Bool) :
    hits? { s with breakpoints := s.breakpoints.setSkipOnce a skip } = s.hits? :=
  s.hits?_update a rfl

/-- A session that moves on keeps its hits. -/
theorem hits?_moveTo (s : Session) (pc : Word) : (s.moveTo pc).hits? = s.hits? := by
  unfold Session.moveTo
  cases s.lastHit? with
  | none => rfl
  | some address => exact s.hits?_setSkipOnce address false

/-- Staying at a breakpoint counts nothing: the hit was counted by the look. -/
theorem hits?_stayAt (s : Session) (a : Word) : (s.stayAt a).hits? = s.hits? :=
  ((s.moveTo a).hits?_setSkipOnce a true).trans (s.hits?_moveTo a)

/-- A look at a breakpoint counts a hit if the program is stopped. -/
theorem hits?_check (s : Session) (a x : Word) :
    (observer.check s a).1.hits? x = (s.hits? x).map
      (hitsAfter (if s.breakpoints[a]?.any Breakpoint.stops = true then some a else none) x) := by
  simp only [observer, hits?, Breakpoints.getElem?_hit]
  by_cases hx : a = x
  · subst hx
    rw [if_pos rfl]
    cases s.breakpoints[a]? with
    | none => rfl
    | some b =>
      simp only [Option.map_some, Option.any_some, b.hits_met]
      by_cases hstops : b.stops = true
      · rw [if_pos hstops, if_pos hstops, hitsAfter_self]
      · rw [if_neg hstops, if_neg hstops, hitsAfter_none, id]
  · -- Elsewhere nothing is counted, whether the program is stopped or not.
    have hother : hitsAfter (if s.breakpoints[a]?.any Breakpoint.stops = true then some a else none) x =
        id := by
      funext n
      refine if_neg fun h => ?_
      split at h
      · exact hx (Option.some.inj h)
      · cases h
    rw [if_neg hx, hother, Option.map_id, id]

/-- From the first session to the second one the breakpoint at an address is hit, which is there, or
none is. -/
structure Counts (stop? : Option Word) (s s' : Session) : Prop where
  /-- That breakpoint has one hit more, and all others have the same hits. -/
  hits : ∀ a, s'.hits? a = (s.hits? a).map (hitsAfter stop? a)
  /-- There is a breakpoint at the address. -/
  found : ∀ a, stop? = some a → (s.hits? a).isSome = true

/-- If there is no stop then to count is to keep all hits. -/
theorem counts_none : Counts none s s' ↔ s'.hits? = s.hits? := by
  constructor
  · intro h
    funext a
    rw [h.hits, hitsAfter_none, Option.map_id, id]
  · intro h
    refine ⟨fun a => ?_, fun a ha => (by cases ha)⟩
    rw [h, hitsAfter_none, Option.map_id, id]

/-- What was counted, from a session with the same hits. -/
theorem Counts.congr_left (h : Counts stop? s s'') (hs : s'.hits? = s.hits?) : Counts stop? s' s'' :=
  ⟨fun a => hs ▸ h.hits a, fun a ha => hs ▸ h.found a ha⟩

/-- What was counted, up to a session with the same hits. -/
theorem Counts.congr_right (h : Counts stop? s s') (hs : s''.hits? = s'.hits?) : Counts stop? s s'' :=
  ⟨fun a => hs ▸ h.hits a, h.found⟩

/-- Behind a stop there is a count at its address, which is one more than before. -/
theorem Counts.hits_stop {a : Word} (h : Counts (some a) s s') :
    s'.hits? a = some ((s.hits? a).getD 0 + 1) := by
  obtain ⟨n, hn⟩ := Option.isSome_iff_exists.mp (h.found a rfl)
  rw [h.hits, hn, Option.map_some, hitsAfter_self, Option.getD_some]

/-! ## While the program runs -/

/-- What a computation makes of hits: they are the same behind it, unless it ends with a signal that
tells of a breakpoint, which has one hit more. -/
def Tallies {τ α : Type} (π : τ → Session) (s : Session) : EStateM.Result Signal τ α → Prop
  | .ok _ t => (π t).hits? = s.hits?
  | .error e t => Counts e.stop? s (π t)

namespace Tallies

variable {τ α β : Type} {π : τ → Session}

/-- What a computation makes of hits, from a session with the same hits. -/
theorem congr {r : EStateM.Result Signal τ α} (h : Tallies π s r) (hs : s.hits? = s'.hits?) :
    Tallies π s' r := by
  cases r with
  | ok _ t => exact Eq.trans h hs
  | error e t => exact h.congr_left hs.symm

/-- A computation behind another makes of hits what both make of them. -/
theorem bind {x : EStateM Signal τ α} {f : α → EStateM Signal τ β} {t : τ}
    (hx : Tallies π s (x t)) (hf : ∀ a t', Tallies π (π t') (f a t')) :
    Tallies π s ((x >>= f) t) := by
  rw [bind_apply]
  cases h : x t with
  | ok a t' =>
    rw [h] at hx
    exact (hf a t').congr hx
  | error e t' =>
    rw [h] at hx
    exact hx

/-- A computation that is halted has counted what its signal tells. -/
theorem of_error {r : EStateM.Result Signal τ α} (h : Tallies π s r) {e : Signal} {t : τ}
    (hr : r = .error e t) : Counts e.stop? s (π t) := by
  subst hr
  exact h

end Tallies

/-- Of the actions of an instruction only the look at a breakpoint counts, if it halts the
program. -/
theorem tallies_act (g : Guest Session) (a : Word) (action : Action) :
    Tallies Guest.context g.context (g.act observer a action) := by
  cases action with
  | sync => exact rfl
  | enter callSite => exact rfl
  | leave => exact rfl
  | check =>
    have hcheck := g.context.hits?_check a
    -- A breakpoint that stops the program is there, and has one hit more.
    rw [act_check]
    split
    · next hstops =>
      rw [if_pos hstops] at hcheck
      refine ⟨hcheck, fun x hx => ?_⟩
      obtain rfl : a = x := Option.some.inj hx
      obtain ⟨b, hb, -⟩ := (Option.any_eq_true _ _).mp hstops
      rw [hits?, hb]
      rfl
    · next hstops =>
      rw [if_neg hstops] at hcheck
      funext x
      exact (hcheck x).trans (by rw [hitsAfter_none, Option.map_id, id])

/-- The actions of an instruction, one behind the other. -/
theorem tallies_actAll (g : Guest Session) (a : Word) (actions : List Action) :
    Tallies Guest.context g.context (g.actAll observer a actions) := by
  induction actions generalizing g with
  | nil => exact rfl
  | cons action actions ih => exact .bind (tallies_act g a action) fun _ g' => ih g'

/-- An instruction changes no breakpoints. -/
theorem breakpoints_perform (g : Guest Session) (pc : Word) (op : Operation) :
    Leads (fun g' => g'.context.breakpoints = g.context.breakpoints) (g.perform observer pc op) := by
  -- It takes no look at breakpoints, so an observer that never changes them serves as well.
  have hkeeps : ({ observer with check := fun s _ => (s, [], none) } : Observer Session).Keeps
      fun s => s.breakpoints = g.context.breakpoints :=
    ⟨fun _ _ h => h, fun _ _ h => h, fun _ _ h => h, fun _ h => h, fun _ _ _ _ h => h⟩
  exact Guest.keeps_perform hkeeps rfl pc op

/-- An operation counts nothing, as it looks at no breakpoint. -/
theorem tallies_perform (g : Guest Session) (pc : Word) (op : Operation) :
    Tallies Guest.context g.context (g.perform observer pc op) := by
  have hsame := breakpoints_perform g pc op
  cases h : g.perform observer pc op with
  | ok flow g' =>
    rw [h] at hsame
    exact hits?_congr hsame
  | error e g' =>
    rw [h] at hsame
    obtain ⟨t, rfl⟩ := Guest.signal_perform h
    exact counts_none.mpr (hits?_congr hsame)

/-- The steps of a block and the way out of it. -/
theorem tallies_runSteps (steps : List Step) (exit : Exit) (g : Guest Session) :
    Tallies Guest.context g.context (Block.runSteps observer exit steps g) := by
  induction steps generalizing exit g with
  | nil => exact rfl
  | cons s steps ih =>
    have hstep : Tallies Guest.context g.context (s.run observer g) :=
      .bind (tallies_actAll g s.address s.actions) fun _ g' => tallies_perform g' s.address _
    unfold Block.runSteps
    refine .bind hstep fun flow g' => ?_
    cases flow with
    | next => exact ih exit g'
    | jump target transfer => exact ih ⟨target, transfer⟩ g'

end Session

namespace Debugger

open Session

variable {d d' d'' : Debugger}

/-- Translating counts nothing. -/
theorem tallies_translate (extent : Extent) (pc : Word) (d : Debugger) :
    Tallies session (session d) (translate extent pc d) := by
  cases h : translate extent pc d with
  | ok b n =>
    obtain ⟨v, entries, -, -, rfl⟩ := translate_eq_ok h
    exact rfl
  | error e n =>
    obtain ⟨-, rfl, rfl⟩ | ⟨v, t, -, -, rfl, rfl⟩ := translate_eq_error h <;> exact counts_none.mpr rfl

/-- A block that is run. -/
theorem tallies_runBlock (b : Block) (d : Debugger) :
    Tallies session (session d) (runBlock Session.observer b d) := by
  have hrun : Tallies _ _ (b.run Session.observer d.guest) :=
    tallies_runSteps b.steps ⟨b.stop, .plain⟩ d.guest
  rw [runBlock_eq]
  cases h : b.run Session.observer d.guest <;> rw [h] at hrun <;> exact hrun

/-- A pass, whose block may first have to be translated. -/
theorem tallies_pass (pc : Word) (d : Debugger) :
    Tallies session (session d) (pass Session.observer pc d) := by
  have hlook : Tallies session (session d) (blockAt pc d) := by
    have hcontext := context_blockAt pc d
    cases h : blockAt pc d with
    | ok b n =>
      rw [h] at hcontext
      exact congrArg hits? hcontext
    | error e n =>
      rw [h] at hcontext
      obtain ⟨⟨t, rfl⟩, -⟩ := blockAt_eq_error h
      exact counts_none.mpr (congrArg hits? hcontext)
  unfold Machine.pass
  split
  · exact counts_none.mpr rfl
  · exact .bind hlook fun b n => tallies_runBlock b n

/-- A single step counts no hit, and no breakpoint stops it. -/
theorem hits?_executeOne (pc : Word) (d : Debugger) :
    Leads (fun d' => (session d').hits? = (session d).hits?)
        (executeOne Session.observer pc d) ∧
      Fails (fun e _ => e.stop? = none) (executeOne Session.observer pc d) := by
  have htallies : Tallies session (session d) (executeOne Session.observer pc d) :=
    .bind (tallies_translate .single pc d) fun b n => .bind (tallies_runBlock b n) fun _ _ => rfl
  have htraps := traps_executeOne pc d
  cases h : executeOne Session.observer pc d with
  | ok target n =>
    rw [h] at htallies
    exact ⟨htallies, trivial⟩
  | error e n =>
    obtain ⟨t, rfl⟩ := htraps.of_error h
    exact ⟨counts_none.mp (htallies.of_error h), rfl⟩

/-- A routine counts the hit that stops it, through all calls that it makes. -/
theorem tallies_invoke (fuel : Nat) (pc : Word) (depth : Nat) (d : Debugger) :
    Tallies session (session d) (invoke Session.observer fuel pc depth d) := by
  induction fuel generalizing pc depth d with
  | zero => exact rfl
  | succ fuel ih =>
    have hpass := tallies_pass pc d
    rw [invoke_succ]
    cases h : pass Session.observer pc d with
    | error e d₁ =>
      rw [h] at hpass
      exact hpass
    | ok exit d₁ =>
      rw [h] at hpass
      simp only
      split
      · exact hpass
      · next pc' depth' _ => exact (ih pc' depth' d₁).congr hpass

/-- Code that is executed counts the hit that stops it. -/
theorem tallies_execute (fuel : Nat) (pc : Word) (d : Debugger) :
    Tallies session (session d) (execute Session.observer fuel pc d) :=
  tallies_invoke fuel pc 0 d.resumed

/-! ## Coming to a stand -/

/-- Telling listeners counts nothing. -/
@[simp] theorem hits?_emit (event : Event) (d : Debugger) :
    (session (emit event d)).hits? = (session d).hits? := by
  obtain ⟨notices, listeners, events, heq⟩ := emit_eq event d
  rw [heq]
  rfl

/-- Telling listeners leaves what execution stopped at last. -/
theorem lastHit?_emit (event : Event) (d : Debugger) :
    (session (emit event d)).lastHit? = (session d).lastHit? := by
  obtain ⟨notices, listeners, events, heq⟩ := emit_eq event d
  rw [heq]
  rfl

/-- Coming to a stand counts nothing: the hit was counted by the look. -/
theorem hits?_halt (e : Signal) (d : Debugger) :
    (session (halt e d).2).hits? = (session d).hits? := by
  cases e with
  | breakpoint a => exact (hits?_emit .stepped _).trans ((session d).hits?_stayAt a)
  | trap t => exact (hits?_emit .stepped _).trans ((session d).hits?_moveTo t.pc)
  | stopped pc => exact (session d).hits?_moveTo pc

/-- A stand shows in the debugger whether it is at a breakpoint. -/
theorem lastHit?_halt (e : Signal) (d : Debugger) :
    (session (halt e d).2).lastHit? = e.stop? := by
  cases e with
  | breakpoint a => exact lastHit?_emit .stepped _
  | trap t => exact (lastHit?_emit .stepped _).trans ((session d).lastHit?_moveTo t.pc)
  | stopped pc => exact (session d).lastHit?_moveTo pc

/-- The reason of a stand names the breakpoint that the signal names. -/
theorem stop?_halt (e : Signal) (d : Debugger) : (halt e d).1.stop? = e.stop? := by
  cases e <;> rfl

/-- The hits that are reported are those that the breakpoint has then. -/
theorem hits_of_halt {e : Signal} {a : Word} {n : Nat} (h : (halt e d).1 = .breakpoint a n) :
    n = ((session (halt e d).2).hits? a).getD 0 := by
  cases e with
  | breakpoint x =>
    obtain ⟨rfl, rfl⟩ := StopReason.breakpoint.inj h
    exact congrArg (fun hits? => (hits? x).getD 0)
      ((hits?_emit .stepped ((d.onContext (Session.stayAt · x)).onCore _)).symm)
  | trap t => cases h
  | stopped pc => cases h

/-- A run that comes to a stand has counted the stop that it reports, and nothing else, and reports
the new count. -/
structure Reports (r : StopReason) (d d' : Debugger) : Prop where
  /-- Hits are counted where the program is stopped. -/
  counts : (session d).Counts r.stop? (session d')
  /-- The breakpoint has the hits that are reported. -/
  told : ∀ a n, r = .breakpoint a n → (session d').hits? a = some n

/-- What a stand reports was counted by what led to it. -/
theorem reports_halt {e : Signal} (h : (session d).Counts e.stop? (session d')) :
    Reports (halt e d').1 d (halt e d').2 := by
  have hcounts : (session d).Counts (halt e d').1.stop? (session (halt e d').2) :=
    stop?_halt e d' ▸ h.congr_right (hits?_halt e d')
  refine ⟨hcounts, fun a n hr => ?_⟩
  have hn := hits_of_halt hr
  rw [hr] at hcounts
  rw [hcounts.hits_stop] at hn ⊢
  rw [hn, Option.getD_some]

/-- What a resumed program reports was counted while it ran. -/
theorem reports_resume {blocks fuel : Nat} {r : StopReason}
    (h : resume blocks fuel d = (some r, d')) : Reports r d d' := by
  induction fuel generalizing d with
  | zero => cases h
  | succ fuel ih =>
    have hrun := tallies_execute blocks (Debugger.pc d) d
    unfold resume at h
    cases hexecute : execute Session.observer blocks (Debugger.pc d) d with
    | error e d₁ =>
      rw [hexecute] at h
      cases h
      exact reports_halt (hrun.of_error hexecute)
    | ok target? d₁ =>
      rw [hexecute] at hrun h
      cases target? with
      | none => cases h
      | some target =>
        -- A new beginning behind the routine counts nothing.
        have hrest := ih h
        have hmoved := (session d₁).hits?_moveTo (d₁.core.registers.tracked .returnAddress)
        exact ⟨hrest.counts.congr_left (hmoved.trans hrun).symm, hrest.told⟩

/-- What a run reports was counted while it ran. -/
theorem reports_run {fuel : Nat} {r : StopReason} (h : run fuel d = .ok (some r) d') :
    Reports r d d' := by
  by_cases hview : d.core.view?.isSome = true
  · rw [run_eq hview] at h
    cases hresume : resume fuel fuel d with
    | mk reason? d₁ =>
      rw [hresume] at h
      cases h
      exact reports_resume hresume
  · cases h.symm.trans (run_refused hview fuel)

/-! ## Steps -/

/-- From the first debugger to the second one no hit is counted, and execution does not stand at a
breakpoint. -/
structure Uncounted (d d' : Debugger) : Prop where
  /-- All hits are the same. -/
  hits : (session d').hits? = (session d).hits?
  /-- Execution did not stop at a breakpoint last. -/
  lastHit? : (session d').lastHit? = none

/-- To move on counts nothing, and forgets the last stop. -/
theorem uncounted_moveTo (pc : Word) (d : Debugger) : Uncounted d (moveTo pc d) :=
  ⟨(session d).hits?_moveTo pc, (session d).lastHit?_moveTo pc⟩

/-- Telling listeners behind what counts nothing. -/
theorem Uncounted.emit (h : Uncounted d d') (event : Event) : Uncounted d (emit event d') :=
  ⟨(hits?_emit event d').trans h.hits, (lastHit?_emit event d').trans h.lastHit?⟩

/-- What counts nothing, behind what keeps all hits. -/
theorem Uncounted.congr (h : Uncounted d' d'') (hits : (session d').hits? = (session d).hits?) :
    Uncounted d d'' := ⟨h.hits.trans hits, h.lastHit?⟩

/-- A stand that is not at a breakpoint. -/
theorem uncounted_halt {e : Signal} (he : e.stop? = none) (d : Debugger) : Uncounted d (halt e d).2 :=
  ⟨hits?_halt e d, (lastHit?_halt e d).trans he⟩

/-- Looking at the next instruction counts nothing. -/
theorem hits?_looked (d : Debugger) : (session (looked d)).hits? = (session d).hits? := by
  obtain ⟨entries, heq⟩ := looked_eq d
  rw [heq]
  rfl

/-- A step of the machine counts nothing, as it looks at no breakpoint. -/
theorem uncounted_executeThen {next : Word → Debugger → Debugger}
    (hnext : ∀ target d, Uncounted d (next target d)) (address : Word) (d : Debugger) :
    Uncounted d (endState (executeThen address next d)) := by
  obtain ⟨hsame, hfails⟩ := hits?_executeOne address d
  unfold executeThen
  cases h : executeOne Session.observer address d with
  | ok target d₁ =>
    rw [h] at hsame
    exact (hnext target d₁).congr hsame
  | error e d₁ =>
    rw [h] at hsame
    exact (uncounted_halt (hfails.of_error h) d₁).congr hsame

/-- A jump of the debugger counts nothing. -/
theorem uncounted_jumpTo (i : Instruction) (target : Word) (d : Debugger) :
    Uncounted d (jumpTo i target d) := by
  obtain ⟨notices, listeners, events, heq⟩ := jumpTo_eq i target d
  rw [heq]
  exact ⟨(session d).hits?_moveTo target, (session d).lastHit?_moveTo target⟩

/-- A step over counts nothing. -/
theorem uncounted_stepOver (hview : d.core.view?.isSome = true) :
    Uncounted d (endState (stepOver d)) := by
  rw [stepOver_served hview]
  cases (current? d).filter (·.mnemonic == .jr) with
  | none =>
    exact (uncounted_executeThen (fun next d => (uncounted_moveTo next d).emit .stepped) _ _).congr
      (hits?_looked d)
  | some i =>
    exact (uncounted_executeThen (fun _ d => uncounted_jumpTo i _ d) _ _).congr (hits?_looked d)

/-- A step into a routine counts nothing. -/
theorem uncounted_enter (pc target : Word) (link : Tracked) (back : Word) (d : Debugger) :
    Uncounted d (endState (stepInto.enter pc target link back d)) := by
  obtain ⟨hsame, hfails⟩ := hits?_executeOne (pc + Instruction.size) d
  unfold stepInto.enter
  cases h : executeOne Session.observer (pc + Instruction.size) d with
  | ok next d₁ =>
    rw [h] at hsame
    have hlinked : (session (if link = .zero then d₁ else recordAt pc link back d₁)).hits? =
        (session d).hits? := by
      split <;> exact hsame
    exact (((uncounted_moveTo target _).emit .steppedInto).emit .stepped).congr hlinked
  | error e d₁ =>
    rw [h] at hsame
    exact (uncounted_halt (hfails.of_error h) _).congr hsame

/-! ## Runs up to a return or an address -/

/-- A run up to the return counts the stop that it makes, and nothing else. -/
theorem counts_stepOut {fuel : Nat} (hview : d.core.view?.isSome = true)
    (hstood : stood (stepOut fuel d) = some d') :
    (session d).Counts (session d').lastHit? (session d') := by
  have hrun := tallies_execute fuel (Debugger.pc d) d
  rw [stepOut_eq, if_pos hview] at hstood
  unfold stepOut.finish at hstood
  cases hexecute : execute Session.observer fuel (Debugger.pc d) d with
  | error e d₁ =>
    rw [hexecute] at hstood
    obtain rfl := Option.some.inj hstood
    rw [lastHit?_halt]
    exact (hrun.of_error hexecute).congr_right (hits?_halt e d₁)
  | ok target? d₁ =>
    rw [hexecute] at hrun hstood
    cases target? with
    | none => cases hstood
    | some target =>
      obtain rfl := Option.some.inj hstood
      -- A routine that returns stands at no breakpoint.
      have hmoved := ((uncounted_moveTo target d₁).emit .stepped).congr hrun
      rw [hmoved.lastHit?]
      exact counts_none.mpr hmoved.hits

/-- A run that leaves a debugger has reported why the program stands still, or is refused. -/
theorem run_of_stood {fuel : Nat} (hstood : stood (run fuel d) = some d') :
    (∃ r, run fuel d = .ok (some r) d') ∨ run fuel d = .error (.access .detached) d ∧ d' = d := by
  by_cases hview : d.core.view?.isSome = true
  · rw [run_eq hview] at hstood ⊢
    cases hreason : (resume fuel fuel d).1 with
    | none =>
      rw [hreason] at hstood
      cases hstood
    | some r =>
      rw [hreason] at hstood
      exact .inl ⟨r, congrArg _ (Option.some.inj hstood)⟩
  · rw [run_refused hview] at hstood ⊢
    exact .inr ⟨rfl, (Option.some.inj hstood).symm⟩

/-- A run up to an address is answered as the run with the breakpoint in place. -/
theorem answer?_runUntil (address : Word) (fuel : Nat) (d : Debugger) :
    answer? (runUntil address fuel d) =
      answer? (run fuel (changeBreakpoints address (·.place address) d)) := by
  unfold runUntil
  cases run fuel (changeBreakpoints address (·.place address) d) <;> rfl

/-- A breakpoint that is placed has no hits, unless it was there before. -/
theorem hits?_place (address a : Word) (d : Debugger) :
    (session (changeBreakpoints address (·.place address) d)).hits? a =
      if address = a then some (((session d).hits? a).getD 0) else (session d).hits? a := by
  have hplace : (session (changeBreakpoints address (·.place address) d)).hits? a =
      (d.breakpoints.place address)[a]?.map Breakpoint.hits := rfl
  rw [hplace, Breakpoints.getElem?_place]
  change _ = if address = a then some ((d.breakpoints[a]?.map Breakpoint.hits).getD 0)
    else d.breakpoints[a]?.map Breakpoint.hits
  split
  · cases d.breakpoints[a]? <;> rfl
  · rfl

/-- A breakpoint that is removed has no hits. -/
theorem hits?_drop (address a : Word) (d : Debugger) :
    (session (dropBreakpoint address d)).hits? a =
      if address = a then none else (session d).hits? a := by
  rw [hits?, getElem?_dropBreakpoint]
  split <;> rfl

end Debugger

open Debugger Session

/-! ## Commands -/

namespace Command

/-- Whether a command lets the program run. -/
def runs : Command → Bool
  | stepOver | stepInto | stepOut _ | run _ | runUntil _ _ => true
  | _ => false

/-- The address where a command has a breakpoint for its time, which it removes behind. -/
def temporary? : Command → Option Word
  | runUntil address _ => some address
  | _ => none

/-- Why the program stands still, as a run reports it. -/
def report? : Command → Debugger → Option StopReason
  | run fuel, d => (answer? (Debugger.run fuel d)).join
  | runUntil address fuel, d => (answer? (Debugger.runUntil address fuel d)).join
  | _, _ => none

/-- The breakpoint at which a command stops the program: a run reports it, and a step or a run up to the
return leaves a debugger that tells where execution stopped last, unless it executes nothing. -/
def stop? (command : Command) (d : Debugger) : Option Word :=
  let last? := (command.perform d).bind fun d' => (session d').lastHit?
  match command with
  | run _ | runUntil _ _ => (command.report? d).bind StopReason.stop?
  | stepOver | stepOut _ => if d.core.view?.isSome = true then last? else none
  | stepInto => if ((current? d).filter Instruction.isCall).isSome = true then last? else none
  | _ => none

/-- Hits are counted by a command that lets the program run exactly where it stops the program. -/
structure Counting (command : Command) (d d' : Debugger) : Prop where
  /-- The breakpoint that stops the program has one hit more, and all others have the same hits. -/
  hits : ∀ a, command.temporary? ≠ some a →
    (session d').hits? a = ((session d).hits? a).map (hitsAfter (command.stop? d) a)
  /-- There is a breakpoint where the program is stopped. -/
  found : ∀ a, command.temporary? ≠ some a → command.stop? d = some a →
    ((session d).hits? a).isSome = true
  /-- The hits that are reported are those from before and the one of the stop. -/
  reported : ∀ a n, command.report? d = some (.breakpoint a n) →
    n = ((session d).hits? a).getD 0 + 1
  /-- A step is not stopped. -/
  step : command = .stepOver ∨ command = .stepInto → command.stop? d = none

namespace Counting

variable {command : Command} {d d' : Debugger}

/-- A command that reports nothing counts what it stops at. -/
theorem of_counts (h : (session d).Counts (command.stop? d) (session d'))
    (hreport : command.report? d = none)
    (hstep : command = .stepOver ∨ command = .stepInto → command.stop? d = none) :
    Counting command d d' where
  hits a _ := h.hits a
  found a _ := h.found a
  reported a n hr := by
    rw [hreport] at hr
    cases hr
  step := hstep

/-- A step over counts nothing. -/
theorem stepOver (d : Debugger) : Counting .stepOver d (endState (Debugger.stepOver d)) := by
  by_cases hview : d.core.view?.isSome = true
  · have hstep := uncounted_stepOver hview
    have hstop : Command.stop? .stepOver d = none := (if_pos hview).trans hstep.lastHit?
    exact .of_counts (hstop ▸ counts_none.mpr hstep.hits) rfl fun _ => hstop
  · have hstop : Command.stop? .stepOver d = none := if_neg hview
    rw [stepOver_refused hview]
    exact .of_counts (hstop ▸ counts_none.mpr rfl) rfl fun _ => hstop

/-- A step into counts nothing. -/
theorem stepInto (d : Debugger) : Counting .stepInto d (endState (Debugger.stepInto d)) := by
  have heq := stepInto_eq d
  cases hcall : (current? d).filter Instruction.isCall with
  | none =>
    rw [hcall] at heq
    have hstop : Command.stop? .stepInto d = none := by
      unfold Command.stop?
      rw [hcall]
      rfl
    rw [heq]
    exact .of_counts (hstop ▸ counts_none.mpr (hits?_looked d)) rfl fun _ => hstop
  -- A step into executes only the delay slot of the call, without a look at breakpoints.
  | some i =>
    rw [hcall] at heq
    have hstep : Uncounted d (endState (Debugger.stepInto d)) := by
      rw [heq]
      exact (uncounted_enter _ _ _ _ (calling d)).congr (hits?_looked d)
    have hstop : Command.stop? .stepInto d = none := by
      unfold Command.stop?
      rw [hcall]
      exact hstep.lastHit?
    exact .of_counts (hstop ▸ counts_none.mpr hstep.hits) rfl fun _ => hstop

/-- A step out counts what it stops at, and reports nothing. -/
theorem stepOut {fuel : Nat} (hstood : stood (Debugger.stepOut fuel d) = some d') :
    Counting (.stepOut fuel) d d' := by
  have hperform : (Command.stepOut fuel).perform d = some d' := hstood
  refine .of_counts ?_ rfl fun h => by cases h <;> contradiction
  by_cases hview : d.core.view?.isSome = true
  · have hstop : (Command.stepOut fuel).stop? d = (session d').lastHit? :=
      (if_pos hview).trans (by rw [hperform]; rfl)
    exact hstop ▸ counts_stepOut hview hstood
  · have hstop : (Command.stepOut fuel).stop? d = none := if_neg hview
    rw [stepOut_eq, if_neg hview] at hstood
    exact hstop ▸ counts_none.mpr (Option.some.inj hstood ▸ rfl)

/-- A run counts what it stops at, and reports the new count. -/
theorem run {fuel : Nat} (hstood : stood (Debugger.run fuel d) = some d') :
    Counting (.run fuel) d d' := by
  have hstep : Command.run fuel = .stepOver ∨ Command.run fuel = .stepInto →
      (Command.run fuel).stop? d = none := fun h => by cases h <;> contradiction
  -- Without memory the run is refused, and then it counts nothing.
  obtain ⟨r, hrun⟩ | ⟨hrun, rfl⟩ := run_of_stood hstood
  · have hreport : (Command.run fuel).report? d = some r :=
      congrArg (fun result => (answer? result).join) hrun
    have hstop : (Command.run fuel).stop? d = r.stop? := congrArg (·.bind StopReason.stop?) hreport
    have hreports := reports_run hrun
    refine ⟨fun a _ => hstop ▸ hreports.counts.hits a, fun a _ ha => ?_, fun a n hr => ?_, hstep⟩
    · exact hreports.counts.found a (hstop ▸ ha)
    · obtain rfl := Option.some.inj (hreport.symm.trans hr)
      exact Option.some.inj ((hreports.told a n rfl).symm.trans hreports.counts.hits_stop)
  · have hreport : (Command.run fuel).report? d' = none :=
      congrArg (fun result => (answer? result).join) hrun
    have hstop : (Command.run fuel).stop? d' = none := congrArg (·.bind StopReason.stop?) hreport
    exact .of_counts (hstop ▸ counts_none.mpr rfl) hreport hstep

/-- A run up to an address counts what it stops at, but for the breakpoint that was set for its
time. -/
theorem runUntil {address : Word} {fuel : Nat}
    (hstood : stood (Debugger.runUntil address fuel d) = some d') :
    Counting (.runUntil address fuel) d d' := by
  rw [stood_runUntil] at hstood
  obtain ⟨d₁, hran, rfl⟩ := Option.map_eq_some_iff.mp hstood
  have hrun := Counting.run hran
  -- The run with the breakpoint in place reports the same.
  have hreport : (Command.runUntil address fuel).report? d =
      (Command.run fuel).report? (changeBreakpoints address (·.place address) d) :=
    congrArg Option.join (answer?_runUntil address fuel d)
  have hstop : (Command.runUntil address fuel).stop? d =
      (Command.run fuel).stop? (changeBreakpoints address (·.place address) d) :=
    congrArg (·.bind StopReason.stop?) hreport
  have hplaced (a : Word) (ha : some address ≠ some a) :
      (session (changeBreakpoints address (·.place address) d)).hits? a = (session d).hits? a :=
    (hits?_place address a d).trans (if_neg fun h => ha (congrArg some h))
  refine ⟨fun a ha => ?_, fun a ha hstopped => ?_, fun a n hr => ?_, fun h => ?_⟩
  · rw [hits?_drop, if_neg fun h => ha (congrArg some h), hstop, ← hplaced a ha]
    exact hrun.hits a nofun
  · rw [← hplaced a ha]
    exact hrun.found a nofun (hstop ▸ hstopped)
  · rw [hrun.reported a n (hreport ▸ hr), hits?_place]
    split <;> rfl
  · cases h <;> contradiction

end Counting

variable {d d' : Debugger}

/-- Every command that lets the program run counts the stop that it makes. -/
theorem counting_perform {command : Command} (hruns : command.runs = true)
    (hperform : command.perform d = some d') : Counting command d d' := by
  cases command with
  | stepOver => exact Option.some.inj hperform ▸ .stepOver d
  | stepInto => exact Option.some.inj hperform ▸ .stepInto d
  | stepOut fuel => exact .stepOut hperform
  | run fuel => exact .run hperform
  | runUntil address fuel => exact .runUntil hperform
  | _ => cases hruns

end Command

/-! ## Histories -/

/-- What befalls breakpoints in a history of commands. -/
inductive Mark where
  /-- All hits are forgotten. -/
  | reset
  /-- A breakpoint is placed where there was none. -/
  | placed (address : Word)
  /-- The program is stopped at a breakpoint. -/
  | stopped (address : Word)
deriving DecidableEq, Repr

namespace Mark

/-- Whether the count of the breakpoint at an address begins anew. -/
def begins (a : Word) : Mark → Bool
  | reset => true
  | placed address => address == a
  | stopped _ => false

/-- The hits of the breakpoint at an address behind a mark. -/
def tally (a : Word) (n : Nat) : Mark → Nat
  | reset => 0
  | placed address => if address = a then 0 else n
  | stopped address => if address = a then n + 1 else n

end Mark

/-- The number of stops at an address behind the last mark with which the count there begins. -/
def stopsSince (a : Word) (marks : List Mark) : Nat :=
  (marks.reverse.takeWhile fun m => !m.begins a).count (.stopped a)

/-- Hits that are kept mark by mark are the stops since the count began. -/
theorem foldl_tally (a : Word) (marks : List Mark) :
    marks.foldl (Mark.tally a) 0 = stopsSince a marks := by
  rw [← List.foldr_reverse, stopsSince]
  -- From the last mark backwards, marks are counted up to the first one that begins the count.
  induction marks.reverse with
  | nil => rfl
  | cons m ms ih =>
    rw [List.foldr_cons, ih]
    cases m with
    | reset => rfl
    | placed x =>
      by_cases hx : x = a <;> simp [Mark.tally, Mark.begins, hx]
    | stopped x =>
      by_cases hx : x = a <;> simp [Mark.tally, Mark.begins, hx]

/-- The mark of a breakpoint that is placed, unless it is there already. -/
def Debugger.placing (address : Word) (d : Debugger) : List Mark :=
  if d.breakpoints.contains address = true then [] else [.placed address]

namespace Command

/-- The marks with which a command lets counts begin. -/
def beginnings : Command → Debugger → List Mark
  | reset _ _, _ => [.reset]
  | setBreakpoint address, d => placing address d
  | runUntil address _, d => placing address d
  | _, _ => []

/-- The marks of a command. -/
def marks (command : Command) (d : Debugger) : List Mark :=
  command.beginnings d ++ (command.stop? d).toList.map .stopped

end Command

namespace Debugger

variable {d d' : Debugger} {a : Word} {n : Nat}

/-- The breakpoint at an address has a number of hits, if there is one. -/
def Counted (a : Word) (n : Nat) (d : Debugger) : Prop := ∀ m, (session d).hits? a = some m → m = n

/-- A number of hits, where all hits are the same. -/
theorem Counted.congr (h : Counted a n d) (hits : (session d').hits? = (session d).hits?) :
    Counted a n d' := fun m hm => h m (by rw [← hits]; exact hm)

/-- A command that counts nothing and leaves no mark. -/
theorem Counted.unmarked {command : Command} (h : Counted a n d)
    (hits : (session d').hits? = (session d).hits?) (hmarks : command.marks d = []) :
    Counted a ((command.marks d).foldl (Mark.tally a) n) d' := by
  rw [hmarks]
  exact h.congr hits

/-- A breakpoint that is placed where there was none begins its count, and any other keeps it. -/
theorem Counted.place (h : Counted a n d) (address : Word) :
    Counted a ((placing address d).foldl (Mark.tally a) n)
      (changeBreakpoints address (·.place address) d) := by
  intro m hm
  rw [hits?_place] at hm
  have hcontains : d.breakpoints.contains address = ((session d).hits? address).isSome := by
    rw [hits?, Option.isSome_map]
    exact Std.ExtTreeMap.contains_eq_isSome_getElem?
  unfold placing
  rw [hcontains]
  -- A breakpoint that stands already is left with its count; a new one begins at zero.
  by_cases ha : address = a
  · subst ha
    rw [if_pos rfl] at hm
    cases hhits : (session d).hits? address with
    | none =>
      rw [hhits] at hm
      exact (Option.some.inj hm).symm.trans (if_pos rfl).symm
    | some m₀ =>
      rw [hhits] at hm
      exact (Option.some.inj hm).symm.trans (h m₀ hhits)
  · rw [if_neg ha] at hm
    split
    · exact h m hm
    · exact (h m hm).trans (if_neg ha).symm

/-- Stops at a breakpoint are tallied as they are counted. -/
theorem foldl_stopped (stop? : Option Word) (a : Word) (n : Nat) :
    (stop?.toList.map Mark.stopped).foldl (Mark.tally a) n = hitsAfter stop? a n := by
  cases stop? with
  | none => exact (congrFun (hitsAfter_none a) n).symm
  | some x => simp [Mark.tally, hitsAfter]

/-- The marks of a command that lets the program run tell what becomes of the hits. -/
theorem Counted.runs {command : Command} (h : Counted a n d) (hruns : command.runs = true)
    (hperform : command.perform d = some d') :
    Counted a ((command.marks d).foldl (Mark.tally a) n) d' := by
  intro m hm
  by_cases htemporary : command.temporary? = some a
  · -- The breakpoint for the time of the run is gone.
    cases command with
    | runUntil address fuel =>
      obtain rfl : address = a := Option.some.inj htemporary
      obtain ⟨d₁, -, rfl⟩ :=
        Option.map_eq_some_iff.mp ((stood_runUntil address fuel d).symm.trans hperform)
      rw [hits?_drop, if_pos rfl] at hm
      cases hm
    | _ => cases htemporary
  · have hbegins : (command.beginnings d).foldl (Mark.tally a) n = n := by
      cases command with
      | runUntil address fuel =>
        have hne : address ≠ a := fun he => htemporary (congrArg some he)
        change (placing address d).foldl (Mark.tally a) n = n
        unfold placing
        split
        · rfl
        · exact if_neg hne
      | reset => cases hruns
      | setBreakpoint => cases hruns
      | _ => rfl
    rw [(Command.counting_perform hruns hperform).hits a htemporary] at hm
    obtain ⟨m, hbefore, rfl⟩ := Option.map_eq_some_iff.mp hm
    rw [Command.marks, List.foldl_append, hbegins, foldl_stopped, h m hbefore]

/-- What stands beside has the same hits. -/
theorem hits?_beside (h : Beside d d') : (session d').hits? = (session d).hits? :=
  hits?_congr h.breakpoints

/-- The marks of a command tell what becomes of the hits. -/
theorem Counted.perform {command : Command} (h : Counted a n d)
    (hperform : command.perform d = some d') :
    Counted a ((command.marks d).foldl (Mark.tally a) n) d' := by
  have hbeside {r : EStateM.Result RequestError Debugger PUnit} (hr : Leads (Beside d) r) :
      (session (endState r)).hits? = (session d).hits? := hits?_beside hr.endState
  -- Only placing, dropping, resetting and running touch what is counted; whatever else a command
  -- does leaves the counts and marks nothing.
  cases command with
  | reset pc v =>
    obtain rfl := Option.some.inj hperform
    intro m hm
    have hreset : (session (Debugger.reset pc v d)).hits? a =
        (((session d).moveTo pc).breakpoints.resetHits[a]?).map Breakpoint.hits := rfl
    rw [hreset, Breakpoints.resetHits, Std.ExtTreeMap.getElem?_map, Option.map_map] at hm
    obtain ⟨b, -, rfl⟩ := Option.map_eq_some_iff.mp hm
    rfl
  | setBreakpoint address =>
    have hmarks : (Command.setBreakpoint address).marks d = placing address d := List.append_nil _
    rw [hmarks]
    exact Option.some.inj hperform ▸ h.place address
  | switchBreakpoint address on =>
    exact h.unmarked (Option.some.inj hperform ▸ (session d).hits?_update address rfl) rfl
  | removeBreakpoint address =>
    obtain rfl := Option.some.inj hperform
    intro m hm
    have hdrop : (session (endState (Debugger.removeBreakpoint address d))).hits? a = _ :=
      hits?_drop address a d
    rw [hdrop] at hm
    split at hm
    · cases hm
    · exact h m hm
  | moveTo pc =>
    exact h.unmarked (Option.some.inj hperform ▸ (session d).hits?_moveTo pc) rfl
  | listen event respond => exact h.unmarked (Option.some.inj hperform ▸ rfl) rfl
  | unlisten number => exact h.unmarked (Option.some.inj hperform ▸ rfl) rfl
  | outside f => exact h.unmarked (Option.some.inj hperform ▸ rfl) rfl
  | writeRegister index w =>
    exact h.unmarked (Option.some.inj hperform ▸ hbeside (Beside.writeRegister index w d)) rfl
  | enterRegister index input =>
    exact h.unmarked (Option.some.inj hperform ▸ hbeside (Beside.enterRegister index input d)) rfl
  | enterSystem index input =>
    exact h.unmarked (Option.some.inj hperform ▸ hbeside (Beside.enterSystem index input d)) rfl
  | writeMemory address bytes =>
    exact h.unmarked (Option.some.inj hperform ▸ hbeside (Beside.writeMemory address bytes d)) rfl
  | writeImage image =>
    refine h.unmarked (Option.some.inj hperform ▸ ?_) rfl
    obtain hwritten | ⟨d₁, hwritten, heq⟩ := Beside.writeImage image d
    · exact hits?_beside hwritten
    · rw [heq]
      exact ((session d₁).hits?_moveTo image.pc).trans (hits?_beside hwritten)
  | stepOver => exact h.runs rfl hperform
  | stepInto => exact h.runs rfl hperform
  | stepOut fuel => exact h.runs rfl hperform
  | run fuel => exact h.runs rfl hperform
  | runUntil address fuel => exact h.runs rfl hperform

/-- The marks of a history of commands. -/
def historyMarks : List Command → Debugger → List Mark
  | [], _ => []
  | command :: commands, d =>
    command.marks d ++ ((command.perform d).map (historyMarks commands)).getD []

/-- The marks of a history tell what becomes of the hits. -/
theorem Counted.performAll {commands : List Command} (h : Counted a n d)
    (hperform : performAll commands d = some d') :
    Counted a ((historyMarks commands d).foldl (Mark.tally a) n) d' := by
  induction commands generalizing d n with
  | nil =>
    cases hperform
    exact h
  | cons command commands ih =>
    obtain ⟨d₁, hfirst, hrest⟩ := Option.bind_eq_some_iff.mp hperform
    unfold historyMarks
    rw [hfirst, Option.map_some, Option.getD_some, List.foldl_append]
    exact ih (h.perform hfirst) hrest

/-- Whatever commands were given to a debugger that began afresh, the hits of each breakpoint are the
stops at its address since it was placed or the hits were forgotten. And whatever command then lets the
program run, it counts exactly the stop that it makes, if it makes one. -/
theorem hits_exact {d₀ : Debugger} (hfresh : session d₀ = .fresh) {commands : List Command}
    (hperform : performAll commands d₀ = some d) :
    (∀ a n, (session d).hits? a = some n → n = stopsSince a (historyMarks commands d₀)) ∧
      ∀ (command : Command) (d' : Debugger), command.runs = true → command.perform d = some d' →
        command.Counting d d' := by
  refine ⟨fun a n hn => ?_, fun command d' hruns hcommand =>
    Command.counting_perform hruns hcommand⟩
  have hstart : Counted a 0 d₀ := by
    intro m hm
    have hnone : Session.fresh.breakpoints[a]? = none := Std.ExtTreeMap.getElem?_empty
    rw [hfresh, hits?, hnone] at hm
    cases hm
  rw [← foldl_tally]
  exact hstart.performAll hperform n hn

end Debugger

namespace Circling

open Debugger

/-- Three instructions that go round: `nop`, `j 0`, `nop`. -/
def image : Image := ⟨0, ⟨#[0, 0, 0, 0, 0, 0, 0, 0x08, 0, 0, 0, 0]⟩, by decide⟩

/-- The program is stopped at the first instruction, where a step passes the breakpoint, and again when
it has gone round. -/
def commands : List Command :=
  [.reset 0 (.direct { Ram.blank with images := [image] }), .setBreakpoint 0, .run 4, .stepOver, .run 4]

/-- A history that begins with a reset is one from the program that was reset. -/
theorem performAll_atReset (image : Image) (commands : List Command) :
    performAll (.reset 0 (.direct { Ram.blank with images := [image] }) :: commands)
      (detached .standard) = performAll commands (atReset image) := rfl

/-- The two stops are the hits of the breakpoint, and the next run reports the third one. -/
theorem hits_circling : ∃ d d', performAll commands (detached .standard) = some d ∧
    (session d).hits? 0 = some 2 ∧
    stopsSince 0 (historyMarks commands (detached .standard)) = 2 ∧
    (Command.run 4).perform d = some d' ∧ (Command.run 4).report? d = some (.breakpoint 0 3) ∧
    (session d').hits? 0 = some 3 := by
  have hrun : (performAll commands (detached .standard)).bind (fun d => ((Command.run 4).perform d).map
      fun _ => ((session d).hits? 0, (Command.run 4).report? d)) =
        some (some 2, some (.breakpoint 0 3)) := by
    rw [commands, performAll_atReset, atReset_eq]
    decide +kernel
  obtain ⟨d, hperform, hd⟩ := Option.bind_eq_some_iff.mp hrun
  obtain ⟨d', hagain, hd⟩ := Option.map_eq_some_iff.mp hd
  obtain ⟨hhits, hreport⟩ := Prod.mk.inj hd
  have hfresh : session (detached .standard) = .fresh := rfl
  obtain ⟨hstops, hcounting⟩ := hits_exact hfresh hperform
  -- The third run is counted by the theorem; the first two are known by running them.
  have hcounted := (hcounting (.run 4) d' rfl hagain).hits 0 nofun
  have hstop : (Command.run 4).stop? d = some 0 := congrArg (·.bind StopReason.stop?) hreport
  rw [hhits, hstop] at hcounted
  exact ⟨d, d', hperform, hhits, (hstops 0 2 hhits).symm, hagain, hreport, hcounted⟩

end Circling

end Debug

end MipsMonitor
