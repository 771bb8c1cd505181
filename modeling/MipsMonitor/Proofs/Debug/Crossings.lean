import MipsMonitor.Proofs.Debug.Stepping
import MipsMonitor.Proofs.Machine.Keeping

/-!
# Calls and returns

A program crosses from routine to routine by calls and returns (`Crossing`), and a session expects a
return for each call that has not returned. It learns of a call or return before the instruction is
executed, and the crossing takes place only behind the delay slot, if the delay slot is executed and
does not transfer control itself. So the frames of a session are those of the crossings that took
place as long as no crossing is cut short (`Block.uncut`): then a block crosses as the step does that
decides where control goes behind it (`Block.decider?`), and the frames follow
(`Session.frames_runSteps`).
-/

namespace MipsMonitor

variable {σ : Type}

/-- How a program goes from routine to routine. -/
inductive Crossing where
  /-- It enters a routine, from the call at an address. -/
  | enter (callSite : Word)
  /-- It leaves a routine. -/
  | leave
deriving DecidableEq, Repr

namespace Crossing

/-- The returns that are expected behind a crossing, innermost first: a call expects one more, a
return one less. -/
def cross (frames : List Word) : Crossing → List Word
  | enter callSite => Instruction.returnAddress callSite :: frames
  | leave => frames.tail

/-- The action that tells of a crossing. -/
def action : Crossing → Action
  | enter callSite => .enter callSite
  | leave => .leave

end Crossing

/-- How control is transferred by an operation that transfers it. -/
def Operation.transferKind : Operation → Transfer
  | branch _ _ _ _ link? | jump _ link? => if link?.isSome then .enter else .plain
  | jumpRegister source => if Tracked.ofGpr source = .returnAddress then .leave else .plain
  | callRegister .. => .enter
  | _ => .plain

/-- How an operation at an address crosses, if its transfer of control takes place. A branch that
leaves a return address does not count as a call. -/
def Operation.crossing? (a : Word) : Operation → Option Crossing
  | jump _ (some _) | callRegister .. => some (.enter a)
  | jumpRegister source => if Tracked.ofGpr source = .returnAddress then some .leave else none
  | _ => none

/-- Whether an operation is a branch that leaves a return address. -/
def Operation.branchesLinking : Operation → Bool
  | branch _ _ _ _ link? => link?.isSome
  | _ => false

namespace Operation

variable {op : Operation} {pc : Word} {f : RegisterFile} {view? : Option (View Ram)} {e : Effect}
  {c : Crossing}

/-- Control is transferred as the operation says. -/
theorem transferKind_of_effect (h : op.effect pc f view? = .ok e) {target : Word} {how : Transfer}
    (hflow : e.flow = .jump target how) : how = op.transferKind := by
  cases op with
  | branch condition lhs rhs target' link? =>
    cases h
    simp only [transfer] at hflow
    split at hflow
    · cases hflow
      rfl
    · cases hflow
  | jump target' link? =>
    cases h
    cases hflow
    rfl
  | jumpRegister source =>
    cases h
    cases hflow
    rfl
  | callRegister source dest link =>
    cases h
    cases hflow
    rfl
  -- No other operation ends in a jump.
  | _ =>
    simp only [effect] at h
    repeat' split at h
    all_goals
      cases h
      try cases hflow

/-- An operation that crosses traps never, changes nothing beside watched registers, and transfers
control. -/
theorem effect_of_crossing? {a : Word} (h : op.crossing? a = some c) (pc : Word) (f : RegisterFile)
    (view? : Option (View Ram)) : ∃ e target how,
      op.effect pc f view? = .ok e ∧ e.change? = none ∧ e.flow = .jump target how := by
  cases op with
  | jump target link? => exact ⟨_, target, _, rfl, rfl, rfl⟩
  | jumpRegister source => exact ⟨_, _, _, rfl, rfl, rfl⟩
  | callRegister source dest link => exact ⟨_, _, _, rfl, rfl, rfl⟩
  | _ => cases h

/-- Control enters a routine by a call or by a linking branch, leaves one by a return, and crosses by
nothing else. -/
theorem crossing?_of_transferKind (op : Operation) (a : Word) : match op.transferKind with
    | .plain => op.branchesLinking = false ∧ op.crossing? a = none
    | .enter => (op.branchesLinking = false ∧ op.crossing? a = some (.enter a)) ∨
        op.branchesLinking = true ∧ op.crossing? a = none
    | .leave => op.branchesLinking = false ∧ op.crossing? a = some .leave := by
  cases op with
  -- A branch that links is of the entering kind and yet has no crossing of its own.
  | branch condition lhs rhs target link? =>
    cases link? with
    | none => exact ⟨rfl, rfl⟩
    | some link => exact .inr ⟨rfl, rfl⟩
  | jump target link? =>
    cases link? with
    | none => exact ⟨rfl, rfl⟩
    | some link => exact .inl ⟨rfl, rfl⟩
  | jumpRegister source =>
    by_cases hreturn : Tracked.ofGpr source = .returnAddress
    · have hkind : (jumpRegister source).transferKind = .leave := if_pos hreturn
      rw [hkind]
      exact ⟨rfl, if_pos hreturn⟩
    · have hkind : (jumpRegister source).transferKind = .plain := if_neg hreturn
      rw [hkind]
      exact ⟨rfl, if_neg hreturn⟩
  | callRegister source dest link => exact .inl ⟨rfl, rfl⟩
  | _ => exact ⟨rfl, rfl⟩

end Operation

/-- How a step crosses, if its transfer of control takes place. -/
def Step.crossing? (s : Step) : Option Crossing := s.operation.crossing? s.address

/-- A step that crosses transfers control when it is executed. -/
theorem Step.jump_of_crossing? {observer : Observer σ} {s : Step} {c : Crossing}
    (hs : s.crossing? = some c) {g g' : Guest σ} {flow : Flow} (h : s.run observer g = .ok flow g') :
    ∃ target how, flow = .jump target how := by
  obtain ⟨_, g₁, -, hperform⟩ := bind_eq_ok.mp h
  obtain ⟨f, view?, e, he, rfl⟩ := Guest.flow_of_perform hperform
  obtain ⟨e', target, how, he', -, hflow⟩ := Operation.effect_of_crossing? hs s.address f view?
  obtain rfl := Except.ok.inj (he.symm.trans he')
  exact ⟨target, how, hflow⟩

namespace Block

/-- Whether steps are all executed and none of them transfers control. -/
def passesOn (observer : Observer σ) : List Step → Guest σ → Bool
  | [], _ => true
  | s :: rest, g =>
    match s.run observer g with
    | .ok .next g' => passesOn observer rest g'
    | _ => false

/-- Whether no call or return that is executed is cut short: the steps behind it are all executed,
and none of them transfers control. -/
def uncut (observer : Observer σ) : List Step → Guest σ → Bool
  | [], _ => true
  | s :: rest, g =>
    match s.run observer g with
    | .ok _ g' => (s.crossing?.isNone || passesOn observer rest g') && uncut observer rest g'
    | .error _ _ => true

/-- The step that decides where control goes behind steps, which is the last one that transfers
control, or else `last?`. Nothing decides if not all steps are executed. -/
def decider? (observer : Observer σ) : (last? : Option Step) → List Step → Guest σ → Option Step
  | last?, [], _ => last?
  | last?, s :: rest, g =>
    match s.run observer g with
    | .ok .next g' => decider? observer last? rest g'
    | .ok (.jump ..) g' => decider? observer (some s) rest g'
    | .error _ _ => none

/-- How steps cross: as the step does that decides where control goes. -/
def crossing? (observer : Observer σ) (steps : List Step) (g : Guest σ) : Option Crossing :=
  (decider? observer none steps g).bind Step.crossing?

variable {observer : Observer σ} {s : Step} {steps : List Step} {g g' : Guest σ}

/-- A delay slot that does not transfer control itself passes on if it is executed. -/
theorem passesOn_of_ok (hsteps : ∀ s ∈ steps, s.operation.transfers = false) {exit exit' : Exit}
    (h : runSteps observer exit steps g = .ok exit' g') : passesOn observer steps g = true := by
  induction steps generalizing exit g with
  | nil => rfl
  | cons s rest ih =>
    rw [runSteps_cons] at h
    unfold passesOn
    cases hrun : s.run observer g with
    | error e g₁ =>
      rw [hrun] at h
      cases h
    | ok flow g₁ =>
      obtain rfl := Step.flow_of_run (hsteps s List.mem_cons_self) hrun
      rw [hrun] at h
      exact ih (fun t ht => hsteps t (List.mem_cons_of_mem s ht)) h

/-- No step that is executed behind a transfer of control transfers control itself. -/
def SlotsPlain (steps : List Step) : Prop :=
  steps.Pairwise fun s t => s.operation.transfers = true → t.operation.transfers = false

instance (steps : List Step) : Decidable (SlotsPlain steps) :=
  inferInstanceAs (Decidable (steps.Pairwise _))

/-- A step that crosses transfers control. -/
theorem transfers_of_crossing? {c : Crossing} (hs : s.crossing? = some c) :
    s.operation.transfers = true := by
  unfold Step.crossing? at hs
  cases hop : s.operation <;> rw [hop] at hs <;> first
    | rfl
    | cases hs

/-- Where no delay slot transfers control, steps that are all executed cut nothing short. -/
theorem uncut_of_ok (hplain : SlotsPlain steps) {exit exit' : Exit}
    (h : runSteps observer exit steps g = .ok exit' g') : uncut observer steps g = true := by
  induction steps generalizing exit g with
  | nil => rfl
  | cons s rest ih =>
    obtain ⟨hfirst, hrest⟩ := List.pairwise_cons.mp hplain
    rw [runSteps_cons] at h
    unfold uncut
    cases hrun : s.run observer g with
    | error e g₁ => rfl
    | ok flow g₁ =>
      rw [hrun] at h
      simp only [Bool.and_eq_true, Bool.or_eq_true, Option.isNone_iff_eq_none]
      refine ⟨?_, ih hrest h⟩
      cases hc : s.crossing? with
      | none => exact .inl rfl
      | some c =>
        have htransfers := transfers_of_crossing? hc
        -- The slot of a step that crosses does not cross itself, so the steps end well only by
        -- passing it on.
        exact .inr (passesOn_of_ok (fun t ht => hfirst t ht htransfers) h)

/-- Steps that pass on leave the decision where it was. -/
theorem decider?_of_passesOn (h : passesOn observer steps g = true) (last? : Option Step) :
    decider? observer last? steps g = last? := by
  induction steps generalizing g with
  | nil => rfl
  | cons s rest ih =>
    unfold passesOn at h
    unfold decider?
    cases hrun : s.run observer g with
    | error e g₁ =>
      rw [hrun] at h
      cases h
    | ok flow g₁ =>
      rw [hrun] at h
      cases flow with
      | next => exact ih h
      | jump target how => cases h

/-- Control is transferred behind steps as by the step that decides. -/
theorem transfer_of_runSteps (last? : Option Step) {exit exit' : Exit}
    (hexit : exit.transfer = (last?.map (·.operation.transferKind)).getD .plain)
    (h : runSteps observer exit steps g = .ok exit' g') :
    exit'.transfer =
      ((decider? observer last? steps g).map (·.operation.transferKind)).getD .plain := by
  induction steps generalizing exit g last? with
  | nil =>
    cases h
    exact hexit
  | cons s rest ih =>
    rw [runSteps_cons] at h
    unfold decider?
    cases hrun : s.run observer g with
    | error e g₁ =>
      rw [hrun] at h
      cases h
    | ok flow g₁ =>
      rw [hrun] at h
      cases flow with
      | next => exact ih last? hexit h
      -- A jump replaces whatever an earlier step decided.
      | jump target how =>
        obtain ⟨_, g₂, -, hperform⟩ := bind_eq_ok.mp hrun
        obtain ⟨f, view?, e, he, hflow⟩ := Guest.flow_of_perform hperform
        exact ih (some s) (Operation.transferKind_of_effect he hflow.symm) h

end Block

namespace Debug

namespace Session

variable {s : Step} {steps : List Step} {g g' : Guest Session}

/-- A session is told of the crossing of an instruction, if it has one. -/
theorem follow_eq_map (a : Word) (i? : Option Instruction) :
    follow a i? = ((Operation.ofInstruction? i? a).crossing? a).toList.map Crossing.action := by
  cases i? with
  | none => rfl
  | some i =>
    by_cases hjr : i.mnemonic = .jr
    · -- A jump to a register is followed only if it may be a return.
      have hcall : i.isCall = false := by
        rw [Instruction.isCall, hjr]
        rfl
      have hop : i.operation a = .jumpRegister (i.gpr .source) := by
        obtain ⟨m, raw⟩ := i
        subst hjr
        rfl
      simp only [follow, hcall, Bool.false_eq_true, if_false, Operation.ofInstruction?, hop,
        Operation.crossing?, Debugger.isReturn_iff hjr]
      split <;> rfl
    · obtain ⟨m, raw⟩ := i
      cases m <;> first
        | rfl
        | exact absurd rfl hjr

/-- Before a step, its address is told, a breakpoint may be looked at, and then its crossing is
told. -/
theorem actions_of_madeFor (h : s.MadeFor (some injector)) :
    ∃ check : Bool, s.actions =
      .sync :: ((if check then [.check] else []) ++ s.crossing?.toList.map Crossing.action) := by
  obtain ⟨context, extent, p, rfl⟩ := h
  rw [Step.crossing?]
  simp only [Block.stepFor, ← follow_eq_map]
  cases extent with
  | block =>
    refine ⟨context.breakpoints.hasEnabled p.1, ?_⟩
    rw [← injector_eq]
    exact List.filter_eq_self.mpr fun _ _ => rfl
  | single => exact ⟨false, filter_injector context p.1 p.2⟩

/-- The frames are changed by the crossing that a session is told of. -/
theorem actAll_crossing (c? : Option Crossing) (a : Word) (g : Guest Session) :
    ∃ g', g.actAll observer a (c?.toList.map Crossing.action) = .ok () g' ∧
      g'.context.frames = c?.toList.foldl Crossing.cross g.context.frames := by
  cases c? with
  | none => exact ⟨g, rfl, rfl⟩
  | some c => cases c <;> exact ⟨_, rfl, rfl⟩

/-- The actions before a step change the frames by its crossing, unless a breakpoint stops the
program before. -/
theorem frames_actAll (h : s.MadeFor (some injector)) (g : Guest Session) :
    (∃ g', g.actAll observer s.address s.actions = .ok () g' ∧
        g'.context.frames = s.crossing?.toList.foldl Crossing.cross g.context.frames) ∨
      ∃ e g', g.actAll observer s.address s.actions = .error e g' ∧
        g'.context.frames = g.context.frames := by
  obtain ⟨check, hactions⟩ := actions_of_madeFor h
  rw [hactions, actAll_sync]
  cases check with
  | false => exact .inl (actAll_crossing s.crossing? s.address _)
  | true =>
    rw [if_pos rfl, List.singleton_append, actAll_check]
    split
    · exact .inr ⟨_, _, rfl, rfl⟩
    · exact .inl (actAll_crossing s.crossing? s.address _)

/-- Operations leave the frames alone. -/
theorem frames_perform (pc : Word) (op : Operation) (g : Guest Session) :
    Leads (fun g' => g'.context.frames = g.context.frames) (g.perform observer pc op) := by
  -- Only writes to registers are told while an operation takes place.
  have hkeeps : (Observer.mk (fun s _ => (s, [])) (fun s _ => (s, [], none)) (fun s _ => (s, []))
      (fun s => (s, [])) observer.write).Keeps fun s => s.frames = g.context.frames :=
    ⟨fun _ _ h => h, fun _ _ h => h, fun _ _ h => h, fun _ h => h, fun _ _ _ _ h => h⟩
  exact Guest.keeps_perform hkeeps rfl pc op

/-- A step that is executed changes the frames by its crossing. -/
theorem frames_run_ok (h : s.MadeFor (some injector)) {flow : Flow}
    (hrun : s.run observer g = .ok flow g') :
    g'.context.frames = s.crossing?.toList.foldl Crossing.cross g.context.frames := by
  obtain ⟨_, g₁, hacts, hperform⟩ := bind_eq_ok.mp hrun
  have hkept := (frames_perform s.address s.operation g₁).of_ok hperform
  obtain ⟨g₂, hacts', hframes⟩ | ⟨e, g₂, hacts', -⟩ := frames_actAll h g
  · cases hacts.symm.trans hacts'
    exact hkept.trans hframes
  · cases hacts.symm.trans hacts'

/-- A step that fails leaves the frames alone. -/
theorem frames_run_error (h : s.MadeFor (some injector)) {e : Signal}
    (hrun : s.run observer g = .error e g') : g'.context.frames = g.context.frames := by
  obtain hacts | ⟨_, g₁, hacts, hperform⟩ := bind_eq_error.mp hrun
  · obtain ⟨g₂, hacts', -⟩ | ⟨e', g₂, hacts', hframes⟩ := frames_actAll h g
    · cases hacts.symm.trans hacts'
    · cases hacts.symm.trans hacts'
      exact hframes
  · have hkept := frames_perform s.address s.operation g₁
    rw [hperform] at hkept
    obtain ⟨g₂, hacts', hframes⟩ | ⟨e', g₂, hacts', -⟩ := frames_actAll h g
    · cases hacts.symm.trans hacts'
      cases hc : s.crossing? with
      | none =>
        rw [hc] at hframes
        exact Eq.trans hkept hframes
      | some c =>
        -- Nothing that crosses fails.
        obtain ⟨e', target, how, he', hchange, -⟩ := Operation.effect_of_crossing? hc s.address
          (g₁.noteReads s.operation).core.registers (g₁.noteReads s.operation).core.view?
        simp only [Guest.perform, he', hchange] at hperform
        cases hperform
    · cases hacts.symm.trans hacts'

/-- Steps that pass on leave the frames alone. -/
theorem frames_of_passesOn (hsteps : ∀ s ∈ steps, s.MadeFor (some injector))
    (h : Block.passesOn observer steps g = true) (exit : Exit) :
    (endState (Block.runSteps observer exit steps g)).context.frames = g.context.frames := by
  induction steps generalizing g exit with
  | nil => rfl
  | cons s rest ih =>
    unfold Block.passesOn at h
    rw [Block.runSteps_cons]
    cases hrun : s.run observer g with
    | error e g₁ =>
      rw [hrun] at h
      cases h
    | ok flow g₁ =>
      rw [hrun] at h
      cases flow with
      | jump target how => cases h
      | next =>
        -- A step that goes on to the next one crosses no call, for crossing ends in a jump.
        have hnone : s.crossing? = none := by
          cases hc : s.crossing? with
          | none => rfl
          | some c =>
            obtain ⟨target, how, hflow⟩ := Step.jump_of_crossing? hc hrun
            cases hflow
        have hframes := frames_run_ok (hsteps s List.mem_cons_self) hrun
        rw [hnone] at hframes
        exact (ih (fun t ht => hsteps t (List.mem_cons_of_mem s ht)) h _).trans hframes

/-- Steps that cut nothing short change the frames by their crossing, however they end. -/
theorem frames_runSteps (hsteps : ∀ s ∈ steps, s.MadeFor (some injector))
    (h : Block.uncut observer steps g = true) (exit : Exit) :
    (endState (Block.runSteps observer exit steps g)).context.frames =
      (Block.crossing? observer steps g).toList.foldl Crossing.cross g.context.frames := by
  -- A step that transferred control before without crossing makes no difference.
  suffices hlast : ∀ last? : Option Step, last?.bind Step.crossing? = none →
      (endState (Block.runSteps observer exit steps g)).context.frames =
        ((Block.decider? observer last? steps g).bind Step.crossing?).toList.foldl Crossing.cross
          g.context.frames from hlast none rfl
  induction steps generalizing g exit with
  | nil =>
    intro last? hlast
    rw [Block.decider?, hlast]
    rfl
  | cons s rest ih =>
    intro last? hlast
    have hmade := hsteps s List.mem_cons_self
    have hrest := fun t ht => hsteps t (List.mem_cons_of_mem s ht)
    unfold Block.uncut at h
    rw [Block.runSteps_cons]
    unfold Block.decider?
    cases hrun : s.run observer g with
    | error e g₁ => exact frames_run_error hmade hrun
    | ok flow g₁ =>
      rw [hrun] at h
      simp only [Bool.and_eq_true, Bool.or_eq_true] at h
      obtain ⟨hcut, huncut⟩ := h
      have hframes := frames_run_ok hmade hrun
      cases hc : s.crossing? with
      | none =>
        rw [hc] at hframes
        have hframes : g₁.context.frames = g.context.frames := hframes
        rw [← hframes]
        cases flow with
        | next => exact ih hrest huncut _ last? hlast
        | jump target how => exact ih hrest huncut _ (some s) hc
      | some c =>
        -- The crossing takes place, for what is left of the block passes on.
        have hpasses : Block.passesOn observer rest g₁ = true := by
          rw [hc] at hcut
          exact hcut.resolve_left Bool.false_ne_true
        obtain ⟨target, how, rfl⟩ := Step.jump_of_crossing? hc hrun
        have hend := frames_of_passesOn hrest hpasses (exit.after (.jump target how))
        simp only [Block.decider?_of_passesOn hpasses, Option.bind_some, hc]
        rw [hc] at hframes
        exact hend.trans hframes

end Session

end Debug

end MipsMonitor
