import MipsMonitor.Proofs.Machine.Likeness

/-!
# Runs as passes

A run goes from block to block. A pass is one round of it: unless a stop is requested, the block at
an address is looked up or translated, and executed (`Machine.pass`); its exit tells where the next
pass begins, if there is one (`Exit.follow?`). `Machine.Visits` are the states in which the passes
of a run begin, however long the run is, so that a condition on a run is a condition on the states
it visits.

What every pass keeps is kept by a run, which is the induction over passes that most statements on
runs need (`Machine.leads_invoke`), and two machines of which every pass is alike run alike
(`Machine.alike_invoke`). What an observer keeps is kept by every step of a program that it
watches (`Observer.Keeps`).
-/

namespace MipsMonitor

variable {σ : Type}

/-- Where a run goes on behind a block, and how many calls deep, unless the outermost routine has
returned. -/
def Exit.follow? (exit : Exit) (depth : Nat) : Option (Word × Nat) :=
  match exit.transfer, depth with
  | .plain, depth => some (exit.target, depth)
  | .enter, depth => some (exit.target, depth + 1)
  | .leave, 0 => none
  | .leave, depth + 1 => some (exit.target, depth)

/-- A run that goes on does so at the target of the block. -/
theorem Exit.target_of_follow? {exit : Exit} {depth : Nat} {next : Word × Nat}
    (h : exit.follow? depth = some next) : next.1 = exit.target := by
  obtain ⟨target, transfer⟩ := exit
  cases transfer <;> cases depth <;> cases h <;> rfl

namespace Machine

/-- What follows a block changes nothing that an instruction reads. -/
theorem like_settle {R : σ → σ → Prop} {g g' : Guest σ} (h : g.Like R g') (ticks : Nat) (blocks : Translations)
    (injector? : Option (Injector σ)) :
    g.Like R (settle ticks ⟨g', blocks, injector?⟩).guest := by
  refine ⟨⟨?_, ?_, ?_, trivial⟩, h.context⟩
  · simp only [settle, Core.registers_clock, h.core.registers]
  · simp only [settle, Core.view?_clock, h.core.view?]
  · simp only [settle, Core.sink_clock, h.core.sink]

/-- A block does on the machine what it does on the guest. -/
theorem run_alike_runBlock (observer : Observer σ) (b : Block) (m : Machine σ) :
    Alike (fun g n => g.Like (· = ·) n.guest) (b.run observer m.guest) (runBlock observer b m) := by
  rw [runBlock_eq]
  cases b.run observer m.guest with
  | ok exit g => exact .ok exit (like_settle (.refl rfl) _ _ _)
  | error s g => exact .error s (like_settle (.refl rfl) _ _ _)

/-- One round of a run. -/
def pass (observer : Observer σ) (pc : Word) : EStateM Signal (Machine σ) Exit := fun m =>
  if m.core.stopped then .error (.stopped pc) m
  else (blockAt pc >>= runBlock observer) m

/-- A run makes a pass, and goes on behind it or ends. -/
theorem invoke_succ (observer : Observer σ) (fuel : Nat) (pc : Word) (depth : Nat)
    (m : Machine σ) :
    invoke observer (fuel + 1) pc depth m = match pass observer pc m with
      | .error s m' => .error s m'
      | .ok exit m' =>
        match exit.follow? depth with
        | none => .ok (some exit.target) m'
        | some (pc', depth') => invoke observer fuel pc' depth' m' := by
  have hget : (get : EStateM Signal (Machine σ) (Machine σ)) m = .ok m m := rfl
  rw [invoke, pass, bind_apply, hget]
  simp only
  by_cases hstopped : m.core.stopped = true
  · rw [if_pos hstopped, if_pos hstopped]
    rfl
  · rw [if_neg hstopped, if_neg hstopped, bind_apply, bind_apply]
    cases blockAt pc m with
    | error s m' => rfl
    | ok b m' =>
      simp only
      rw [bind_apply]
      cases runBlock observer b m' with
      | error s m'' => rfl
      | ok exit m'' =>
        obtain ⟨target, transfer⟩ := exit
        -- Returns at depth zero end the invocation, everything else goes on.
        cases transfer <;> cases depth <;> rfl

/-- A pass has a stop requested before it, or looks a block up, and then runs it or is at its end. -/
theorem leads_pass {observer : Observer σ} {P : Machine σ → Prop} {m : Machine σ} {pc : Word}
    (h : P m) (herror : ∀ e n, blockAt pc m = .error e n → P n)
    (hrun : ∀ b n, blockAt pc m = .ok b n → Leads P (runBlock observer b n)) :
    Leads P (pass observer pc m) := by
  unfold pass
  split
  · exact h
  · rw [bind_apply]
    cases hblock : blockAt pc m with
    | error e n => exact herror e n hblock
    | ok b n => exact hrun b n hblock

/-- Passes are alike where a stop is requested of both machines or of neither, and both look up blocks
that run alike, or fail to alike. -/
theorem alike_pass {τ : Type} {observer : Observer σ} {observer' : Observer τ}
    {P : Machine σ → Machine τ → Prop} {m : Machine σ} {u : Machine τ} {pc : Word} (h : P m u)
    (hstopped : m.core.stopped = u.core.stopped)
    (hblock : (∃ b m' b' u', blockAt pc m = .ok b m' ∧ blockAt pc u = .ok b' u' ∧
        Alike P (runBlock observer b m') (runBlock observer' b' u')) ∨
      ∃ e m' u', blockAt pc m = .error e m' ∧ blockAt pc u = .error e u' ∧ P m' u') :
    Alike P (pass observer pc m) (pass observer' pc u) := by
  unfold pass
  -- Both are stopped or neither is.
  rw [← hstopped]
  split
  · exact .error _ h
  · rw [bind_apply, bind_apply]
    obtain ⟨b, m', b', u', hm, hu, hrun⟩ | ⟨e, m', u', hm, hu, h⟩ := hblock
    · rw [hm, hu]
      exact hrun
    · rw [hm, hu]
      exact .error e h

/-- A pass that is not stopped runs the block that it looks up. -/
theorem pass_of_blockAt {observer : Observer σ} {m n : Machine σ} {pc : Word} {b : Block}
    (hstopped : m.core.stopped = false) (hblock : blockAt pc m = .ok b n) :
    pass observer pc m = runBlock observer b n := by
  unfold pass
  rw [if_neg (by rw [hstopped]; exact Bool.false_ne_true), bind_apply, hblock]

/-- What every pass keeps a run keeps, whether it ends or not. -/
theorem leads_invoke {observer : Observer σ} {P : Machine σ → Prop}
    (hpass : ∀ {m : Machine σ} (pc : Word), P m → Leads P (pass observer pc m)) {m : Machine σ}
    (h : P m) (fuel : Nat) (pc : Word) (depth : Nat) :
    Leads P (invoke observer fuel pc depth m) := by
  induction fuel generalizing pc depth m with
  | zero => exact h
  | succ fuel ih =>
    have hfirst : Leads P (pass observer pc m) := hpass pc h
    rw [invoke_succ]
    cases hp : pass observer pc m with
    | error e n =>
      rw [hp] at hfirst
      exact hfirst
    -- The rest of the run begins where the pass leads, with the invariant it restored.
    | ok exit n =>
      have hbehind : P n := hfirst.of_ok hp
      simp only
      split
      · exact hbehind
      · next pc' depth' _ => exact ih hbehind pc' depth'

/-- Runs are alike where every pass is. -/
theorem alike_invoke {τ : Type} {observer : Observer σ} {observer' : Observer τ}
    {P : Machine σ → Machine τ → Prop}
    (hpass : ∀ {m : Machine σ} {u : Machine τ} (pc : Word), P m u →
      Alike P (pass observer pc m) (pass observer' pc u)) {m : Machine σ} {u : Machine τ} (h : P m u)
    (fuel : Nat) (pc : Word) (depth : Nat) :
    Alike P (invoke observer fuel pc depth m) (invoke observer' fuel pc depth u) := by
  induction fuel generalizing pc depth m u with
  | zero => exact .ok none h
  | succ fuel ih =>
    rw [invoke_succ, invoke_succ]
    obtain ⟨exit, m', u', hm, hu, h'⟩ | ⟨e, m', u', hm, hu, h'⟩ := (hpass pc h).exists_eq
    · rw [hm, hu]
      simp only
      split
      · exact .ok _ h'
      · next pc' depth' _ => exact ih h' pc' depth'
    · rw [hm, hu]
      exact .error e h'

/-- The machine with requests to stop from before forgotten. -/
def resumed (m : Machine σ) : Machine σ := m.onCore fun core => { core with stopped := false }

/-- A run begins no calls deep, with requests to stop forgotten. -/
theorem execute_eq (observer : Observer σ) (fuel : Nat) (pc : Word) (m : Machine σ) :
    execute observer fuel pc m = invoke observer fuel pc 0 m.resumed := rfl

/-- The states, addresses and depths at which the passes of a run begin. -/
inductive Visits (observer : Observer σ) (m : Machine σ) (pc : Word) :
    Machine σ → Word → Nat → Prop where
  /-- The first pass begins where the run does. -/
  | start : Visits observer m pc m pc 0
  /-- Behind a pass that does not end the run, the next one begins. -/
  | pass {m' m'' : Machine σ} {pc' pc'' : Word} {depth' depth'' : Nat} {exit : Exit}
      (hvisits : Visits observer m pc m' pc' depth') (hpass : m'.pass observer pc' = .ok exit m'')
      (hfollow : exit.follow? depth' = some (pc'', depth'')) :
      Visits observer m pc m'' pc'' depth''

end Machine

/-- What every call of an observer keeps of its context. -/
structure Observer.Keeps (observer : Observer σ) (P : σ → Prop) : Prop where
  /-- It is kept when an address is told. -/
  sync : ∀ s a, P s → P (observer.sync s a).1
  /-- It is kept when breakpoints are looked at. -/
  check : ∀ s a, P s → P (observer.check s a).1
  /-- It is kept when a routine is entered. -/
  enter : ∀ s a, P s → P (observer.enter s a).1
  /-- It is kept when a routine is left. -/
  leave : ∀ s, P s → P (observer.leave s).1
  /-- It is kept when a register is written. -/
  write : ∀ s f t w, P s → P (observer.write s f t w).1

namespace Guest

variable {observer : Observer σ} {P : σ → Prop} {g : Guest σ}

/-- An action keeps what the observer keeps. -/
theorem keeps_act (ho : observer.Keeps P) (h : P g.context) (address : Word) (action : Action) :
    Leads (fun g' => P g'.context) (g.act observer address action) := by
  cases action with
  | sync => exact ho.sync _ address h
  | check =>
    simp only [act]
    split <;> exact ho.check _ address h
  | enter callSite => exact ho.enter _ callSite h
  | leave => exact ho.leave _ h

/-- Actions keep what the observer keeps. -/
theorem keeps_actAll (ho : observer.Keeps P) (h : P g.context) (address : Word)
    (actions : List Action) :
    Leads (fun g' => P g'.context) (g.actAll observer address actions) :=
  leads_actAll (P := fun g => P g.context) h fun action _ _ h => keeps_act ho h address action

/-- A write to a watched register keeps what the observer keeps. -/
theorem keeps_write (ho : observer.Keeps P) (h : P g.context) (t : Tracked) (w : Word) :
    P (g.write observer t w).context := by
  unfold write
  split
  · exact h
  · exact ho.write _ _ t w h

/-- An operation keeps what the observer keeps. -/
theorem keeps_perform (ho : observer.Keeps P) (h : P g.context) (pc : Word) (op : Operation) :
    Leads (fun g' => P g'.context) (g.perform observer pc op) := by
  obtain ⟨entries, hnotes⟩ := noteReads_eq op g
  refine leads_perform (Q := fun g => P g.context) (hnotes ▸ h) (fun t w _ h => keeps_write ho h t w)
    (fun _ _ h => h) (fun _ _ _ _ h => h) fun e what g' _ _ h => ?_
  cases what with
  | system index w => exact h
  | geometry dest w => exact h
  | store a bs =>
    simp only [change]
    split <;> exact h

/-- An operation that fails raises a trap. -/
theorem signal_perform {pc : Word} {op : Operation} {g' : Guest σ} {s : Signal}
    (h : g.perform observer pc op = .error s g') : ∃ t, s = .trap t := by
  have htrap (t : Trap) (g : Guest σ) (h : g.trap t = .error s g') : ∃ t, s = .trap t := by
    cases h
    exact ⟨t, rfl⟩
  simp only [perform] at h
  -- Before a change an instruction can only trap.
  cases he : op.effect pc (g.noteReads op).core.registers (g.noteReads op).core.view? with
  | error t =>
    rw [he] at h
    exact htrap t _ h
  | ok e =>
    simp only [he] at h
    cases hchange : e.change? with
    | none =>
      simp only [hchange] at h
      cases h
    | some what =>
      simp only [hchange] at h
      cases what with
      | system index w => cases h
      | geometry dest w => cases h
      -- Of the changes only a store can fail.
      | store a bs =>
        simp only [change] at h
        split at h
        · cases h
        · exact htrap _ _ h

end Guest

/-- A block keeps what its observer keeps. -/
theorem Block.keeps_run {observer : Observer σ} {P : σ → Prop} (ho : observer.Keeps P) (b : Block)
    {g : Guest σ} (h : P g.context) : Leads (fun g' => P g'.context) (b.run observer g) := by
  refine leads_run (P := fun g => P g.context) h fun s _ g h => ?_
  exact Leads.bind (Guest.keeps_actAll ho h s.address s.actions) (fun _ h => h)
    fun _ _ h' => Guest.keeps_perform ho h' s.address s.operation

/-- An observer changes nothing that the injector looks at. -/
def Observer.Steady (observer : Observer σ) (injector? : Option (Injector σ)) : Prop :=
  ∀ choose, observer.Keeps fun s => (Machine.mk ⟨default, s⟩ ∅ injector?).choose = choose

/-- A block leaves what the injector looks at as it is. -/
theorem Machine.choose_runBlock {observer : Observer σ} {m : Machine σ}
    (ho : observer.Steady m.injector?) (b : Block) :
    Leads (fun n => n.injector? = m.injector? ∧ n.choose = m.choose) (runBlock observer b m) :=
  leads_runBlock (b.keeps_run (ho m.choose) (g := m.guest) rfl) fun _ h => ⟨rfl, h⟩

end MipsMonitor
