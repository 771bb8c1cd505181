import MipsMonitor.Proofs.Debug.Soundness

/-!
# Going on from a breakpoint

A breakpoint stops a program before its instruction, and arms itself to let the program pass. The
program with the breakpoint and the program without it go through cycles alike until the first one
is stopped (`Debugger.cycles_apart`). A debugger that a run left at a breakpoint therefore stands
where the program without the breakpoint comes to, and a run from there goes on as that program does,
up to the next time it comes to the breakpoint (`Debugger.run_resumes`).

What is forgotten at a stop is the transfer of control that a delay slot stands behind. So the place
has to be settled (`Place.Settled`): control goes on behind its instruction as if it had been entered
there.
-/

namespace MipsMonitor

open ByteMemory

/-- Control goes on behind the instruction at a place as if it had been entered there: no transfer
of control is under way, or it leads to the next instruction and the one at the place is no transfer
itself. -/
def Place.Settled (c : Core) (q : Place) : Prop :=
  q.behind? = none ∨ q.behind? = some (q.pc + Instruction.size) ∧
    ∀ v w, c.view? = some v → v.backing.fetched q.pc = some w →
      (Instruction.decode? w).any Instruction.hasDelaySlot = false

/-- From a settled place a program goes on as if it had been entered there. -/
theorem Guest.cycle_settled {σ : Type} {observer : Observer σ}
    {choose : Word → Option Instruction → List Action} {g : Guest σ} {q : Place}
    (hq : q.Settled g.core) : g.cycle observer choose q = g.cycle observer choose (.entry q.pc) := by
  obtain ⟨pc, behind?⟩ := q
  obtain hnone | ⟨hsome, hplain⟩ := hq
  · obtain rfl : behind? = none := hnone
    rfl
  obtain rfl : behind? = some (pc + Instruction.size) := hsome
  simp only [cycle, Place.entry]
  cases hv : g.core.view? with
  | none => rfl
  | some v =>
    simp only
    cases hi : Block.instructionAt v.backing pc with
    | error t => rfl
    | ok i? =>
      -- What is read there is no transfer, so the place behind it is the next instruction either
      -- way.
      have hdelay : i?.any Instruction.hasDelaySlot = false := by
        unfold Block.instructionAt at hi
        split at hi
        · cases hw : readWord v.backing pc with
          | error e =>
            rw [hw] at hi
            cases hi
          | ok w =>
            rw [hw] at hi
            cases hi
            exact hplain v w hv (congrArg Except.toOption hw)
        · cases hi
      have htransfers : (Operation.ofInstruction? i? pc).transfers = false := by
        rw [← hdelay]
        cases i? with
        | none => rfl
        | some i => exact Operation.transfers_operation i pc
      simp only
      cases hrun : (⟨pc, choose pc i?, .ofInstruction? i? pc⟩ : Step).run observer g with
      | error e g₁ => rfl
      | ok flow g₁ =>
        obtain rfl := Step.flow_of_run htransfers hrun
        simp only [Block.slotBehind, hdelay, Bool.false_and]
        rfl

namespace Debug

open Machine

namespace Session

variable {P : Word → Prop} {s s' : Session} {g g' : Guest Session} {a p : Word}

/-- Calls and returns are followed without a stop. -/
theorem actAll_follow (g : Guest Session) (a : Word) (i? : Option Instruction) :
    ∃ g', g.actAll observer a (follow a i?) = .ok () g' := by
  unfold follow
  split
  · split
    · exact ⟨_, rfl⟩
    · split <;> exact ⟨_, rfl⟩
  · exact ⟨_, rfl⟩

/-- The actions before an instruction stop a program only at a breakpoint that is switched on and
not armed. -/
theorem signal_actAll {e : Signal} {i? : Option Instruction}
    (h : g.actAll observer a (injector s a i?) = .error e g') :
    e = .breakpoint a ∧ s.breakpoints.hasEnabled a = true ∧
      g.context.breakpoints[a]?.any Breakpoint.stops = true := by
  rw [injector_eq, actAll_sync] at h
  by_cases hs : s.breakpoints.hasEnabled a = true
  · rw [if_pos hs, List.singleton_append, actAll_check] at h
    split at h
    · next hstops =>
      cases h
      exact ⟨rfl, hs, hstops⟩
    · -- Behind the look calls and returns are followed, which does not fail.
      obtain ⟨g₁, hok⟩ := actAll_follow
        ⟨g.core, (observer.check (observer.sync g.context a).1 a).1⟩ a i?
      cases hok.symm.trans h
  · rw [if_neg hs, List.nil_append] at h
    obtain ⟨g₁, hok⟩ := actAll_follow ⟨g.core, (observer.sync g.context a).1⟩ a i?
    cases hok.symm.trans h

/-- A cycle that a breakpoint stops is at the address of the breakpoint, which is switched on and not
armed, and changes nothing but the program counter and the hits. -/
theorem stopped_of_cycle {q : Place}
    (h : g.cycle observer (injector s) q = .error (.breakpoint a) g') :
    q.pc = a ∧ s.breakpoints.hasEnabled a = true ∧
      g.context.breakpoints[a]?.any Breakpoint.stops = true ∧
      g' = ⟨g.core, (observer.check (observer.sync g.context a).1 a).1⟩ := by
  obtain ⟨t, ht⟩ | ⟨i?, hrun⟩ := Guest.cycle_eq_error h
  · cases ht
  obtain hacts | ⟨_, g₂, -, hperform⟩ := bind_eq_error.mp hrun
  · obtain ⟨he, hs, hstops⟩ := signal_actAll hacts
    obtain rfl : a = q.pc := Signal.breakpoint.inj he
    rw [actAll_stop hs hstops] at hacts
    cases hacts
    exact ⟨rfl, hs, hstops, rfl⟩
  · obtain ⟨t, ht⟩ := Guest.signal_perform hperform
    cases ht

/-- Cycles are stopped only by breakpoints that are switched on. -/
theorem hasEnabled_of_cycles {n : Nat} {q : Place}
    (h : g.cycles observer (injector s) n q = .error (.breakpoint a) g') :
    s.breakpoints.hasEnabled a = true := by
  induction n generalizing g q with
  | zero => cases h
  | succ n ih =>
    rw [Guest.cycles_succ] at h
    cases hcycle : g.cycle observer (injector s) q with
    | error e g₁ =>
      rw [hcycle] at h
      cases h
      exact (stopped_of_cycle hcycle).2.1
    | ok q₁ g₁ =>
      rw [hcycle] at h
      exact ih h

/-- At a breakpoint that does not let the program pass a cycle stops, unless it cannot begin. -/
theorem cycle_stops {q : Place} (h : g.Like (Agree (· ≠ q.pc)) g')
    (henabled : s.breakpoints.hasEnabled q.pc = true)
    (hstops : g.context.breakpoints[q.pc]?.any Breakpoint.stops = true)
    (choose : Word → Option Instruction → List Action) :
    Alike (Guest.Like (Agree (· ≠ q.pc))) (g.cycle observer (injector s) q)
        (g'.cycle observer choose q) ∨
      ∃ g₁, g.cycle observer (injector s) q = .error (.breakpoint q.pc) g₁ ∧
        g₁.Like (Agree (· ≠ q.pc)) g' := by
  -- A cycle that cannot begin ends before the breakpoint is looked at.
  simp only [Guest.cycle]
  rw [← h.core.view?]
  cases g.core.view? with
  | none => exact .inl (.error _ ⟨h.core.requestStop Aside.kept_true, h.context⟩)
  | some v =>
    simp only
    cases Block.instructionAt v.backing q.pc with
    | error t => exact .inl (.error _ h)
    | ok i? =>
      refine .inr ⟨⟨g.core, (observer.check (observer.sync g.context q.pc).1 q.pc).1⟩, ?_, ?_⟩
      · simp only
        unfold Step.run
        rw [bind_apply, actAll_stop henabled hstops]
      · have hchecked := (h.context.sync q.pc).check_left fun h => h rfl
        exact ⟨h.core, hchecked.frames, hchecked.trace, hchecked.force⟩

/-- A cycle of programs that differ in the breakpoint at one address, where the second one has none.
Either it goes alike, or the first program is stopped. -/
theorem cycle_apart
    (hs : ∀ a, a ≠ p → s.breakpoints.hasEnabled a = s'.breakpoints.hasEnabled a)
    (hs' : s'.breakpoints.hasEnabled p = false)
    (h : g.Like (Agree (· ≠ p)) g') (q : Place) :
    Alike (Guest.Like (Agree (· ≠ p))) (g.cycle observer (injector s) q)
        (g'.cycle observer (injector s') q) ∨
      ∃ g₁, g.cycle observer (injector s) q = .error (.breakpoint p) g₁ ∧
        g₁.Like (Agree (· ≠ p)) g' := by
  have halike (hact : ∀ i?, Alike (Guest.Like (AgreeHere (· ≠ p)))
      (g.actAll observer q.pc (injector s q.pc i?))
      (g'.actAll observer q.pc (injector s' q.pc i?))) :=
    Guest.alike_cycle Aside.kept_true (respects_agreeHere (· ≠ p)).writesAlike (fun _ _ h => h.toAgree) h q
      hact
  -- Only at the address with the breakpoint do the two differ in what they check.
  by_cases hq : q.pc = p
  · subst hq
    by_cases hstops : s.breakpoints.hasEnabled q.pc = true ∧
        g.context.breakpoints[q.pc]?.any Breakpoint.stops = true
    · exact cycle_stops h hstops.1 hstops.2 _
    · refine .inl (halike fun i? => ?_)
      rw [injector_unchecked hs' i?]
      by_cases henabled : s.breakpoints.hasEnabled q.pc = true
      · refine alike_actAll_pass h (fun h => h rfl) ?_ i?
        rw [← Bool.not_eq_true]
        exact fun hstop => hstops ⟨henabled, hstop⟩
      · rw [injector_unchecked (Bool.not_eq_true _ ▸ henabled) i?]
        exact alike_actAll_unchecked h q.pc i?
  · exact .inl (halike fun i? => alike_actAll (hs q.pc hq) h hq i?)

/-- Programs that differ in the breakpoint at one address go through cycles alike, unless the first
one is stopped there. -/
theorem cycles_apart
    (hs : ∀ a, a ≠ p → s.breakpoints.hasEnabled a = s'.breakpoints.hasEnabled a)
    (hs' : s'.breakpoints.hasEnabled p = false)
    (h : g.Like (Agree (· ≠ p)) g') (n : Nat) (q : Place) :
    Alike (Guest.Like (Agree (· ≠ p))) (g.cycles observer (injector s) n q)
        (g'.cycles observer (injector s') n q) ∨
      ∃ j < n, ∃ q₁ g₁ g₁' g₂, g.cycles observer (injector s) j q = .ok q₁ g₁ ∧
        g'.cycles observer (injector s') j q = .ok q₁ g₁' ∧
        g₁.cycle observer (injector s) q₁ = .error (.breakpoint p) g₂ ∧
        g₂.Like (Agree (· ≠ p)) g₁' := by
  -- Along the cycles: as long as the first does the same on both sides, the rest decides.
  induction n generalizing g g' q with
  | zero => exact .inl (.ok q h)
  | succ n ih =>
    obtain halike | ⟨g₂, hstop, hlike⟩ := cycle_apart hs hs' h q
    · rw [Guest.cycles_succ, Guest.cycles_succ]
      obtain ⟨q₁, g₁, g₁', hc, hc', h₁⟩ | ⟨e, g₁, g₁', hc, hc', h₁⟩ := halike.exists_eq
      · rw [hc, hc']
        obtain hrest | ⟨j, hj, q₂, g₂, g₂', g₃, hok, hok', hstop, hlike⟩ := ih h₁ q₁
        · exact .inl hrest
        · refine .inr ⟨j + 1, by omega, q₂, g₂, g₂', g₃, ?_, ?_, hstop, hlike⟩
          · rw [Guest.cycles_succ, hc]
            exact hok
          · rw [Guest.cycles_succ, hc']
            exact hok'
      · rw [hc, hc']
        exact .inl (.error e h₁)
    · exact .inr ⟨0, by omega, q, g, g', g₂, rfl, rfl, hstop, hlike⟩

/-- A program that a breakpoint stopped has no armed breakpoint. -/
theorem disarmed_of_stop {j : Nat} {q q₁ : Place} {g₁ g₂ : Guest Session}
    (hs : s.breakpoints.hasEnabled q.pc = g.context.breakpoints.hasEnabled q.pc)
    (harmed : ∀ a, g.context.armed a = true → a = q.pc)
    (hok : g.cycles observer (injector s) j q = .ok q₁ g₁)
    (hstop : g₁.cycle observer (injector s) q₁ = .error (.breakpoint p) g₂) :
    g₂.context.Disarmed := by
  obtain ⟨hp, -, hstops, rfl⟩ := stopped_of_cycle hstop
  have hdisarmed : g₁.context.Disarmed := by
    by_cases hj : 0 < j
    · exact Debugger.disarmed_of_cycles hs harmed hj hok
    · -- The first instruction is stopped, so the breakpoint there was not armed.
      obtain rfl : j = 0 := by omega
      cases hok
      intro a
      rw [← Bool.not_eq_true]
      intro ha
      obtain rfl := (harmed a ha).trans hp
      obtain ⟨b, hb, hbstops⟩ := (Option.any_eq_true _ _).mp hstops
      obtain ⟨b', hb', hbarmed⟩ := (Option.any_eq_true _ _).mp ha
      obtain rfl := Option.some.inj (hb.symm.trans hb')
      simp only [Breakpoint.stops, Bool.and_eq_true, Bool.not_eq_true'] at hbstops hbarmed
      exact Bool.false_ne_true (hbstops.2.symm.trans hbarmed.2)
  exact keeps_disarmed.check _ p (keeps_disarmed.sync _ p hdisarmed)

/-- Behind its first instruction a program that completes cycles did not come to a breakpoint. -/
theorem ne_of_cycles {i k : Nat} {q q₁ q₂ : Place} {g₁ g₂ : Guest Session}
    (hp : s.breakpoints.hasEnabled p = true)
    (hs : ∀ a, s.breakpoints.hasEnabled a = g.context.breakpoints.hasEnabled a)
    (harmed : ∀ a, g.context.armed a = true → a = q.pc) (hi : 0 < i)
    (hok : g.cycles observer (injector s) i q = .ok q₁ g₁)
    (hok' : g₁.cycles observer (injector s) (k + 1) q₁ = .ok q₂ g₂) : q₁.pc ≠ p := by
  intro hq
  have henabled : g₁.context.breakpoints.hasEnabled p = true := by
    have hkept : injector g₁.context = injector s :=
      Guest.keeps_cycles (steady (injector s)) (injector_congr fun a => (hs a).symm) hok
    rw [hasEnabled_of_injector hkept, hp]
  -- Behind a cycle no breakpoint is armed any more, so this one guards its address.
  have hguards : g₁.context.Guards p :=
    ⟨henabled, Debugger.disarmed_of_cycles (hs q.pc) harmed hi hok p⟩
  rw [Guest.cycles_succ] at hok'
  cases hcycle : g₁.cycle observer (injector s) q₁ with
  | error e g₃ =>
    rw [hcycle] at hok'
    cases hok'
  | ok q₃ g₃ => exact hguards.cycle_ne_ok hp hq hcycle

/-- Where the first program is stopped, behind its first instruction the second one did not come to
the breakpoint before. -/
theorem ne_of_stop {i j : Nat} {q q₁ q' : Place} {g₁ g₂ g'' : Guest Session}
    (hs : ∀ a, a ≠ p → s.breakpoints.hasEnabled a = s'.breakpoints.hasEnabled a)
    (hs' : s'.breakpoints.hasEnabled p = false) (h : g.Like (Agree (· ≠ p)) g')
    (hg : ∀ a, s.breakpoints.hasEnabled a = g.context.breakpoints.hasEnabled a)
    (harmed : ∀ a, g.context.armed a = true → a = q.pc)
    (hok : g.cycles observer (injector s) j q = .ok q₁ g₁)
    (hstop : g₁.cycle observer (injector s) q₁ = .error (.breakpoint p) g₂) (hi : 0 < i)
    (hij : i < j) (hok' : g'.cycles observer (injector s') i q = .ok q' g'') : q'.pc ≠ p := by
  obtain ⟨k, rfl⟩ : ∃ k, j = i + (k + 1) := ⟨j - i - 1, by omega⟩
  obtain ⟨-, hp, -, -⟩ := stopped_of_cycle hstop
  have hsplit := hok
  rw [Guest.cycles_add] at hsplit
  obtain ⟨q₃, g₃, hfirst, hsecond⟩ := bind_eq_ok.mp hsplit
  have hne : q₃.pc ≠ p := ne_of_cycles hp hg harmed hi hfirst hsecond
  obtain halike | ⟨j', hj', q₄, g₄, g₄', g₅, hok₄, -, hstop₄, -⟩ := cycles_apart hs hs' h i q
  · rw [hfirst, hok'] at halike
    cases halike
    exact hne
  · -- The first program was not stopped before.
    have hend := Guest.cycles_stop hok₄ hstop₄
    obtain ⟨l, hl⟩ : ∃ l, i + (k + 1) = j' + 1 + l := ⟨i + k - j', by omega⟩
    rw [hl, Guest.cycles_error_add hend l] at hok
    cases hok

/-- Staying at a breakpoint does not show elsewhere. -/
theorem Disarmed.agree_stayAt (h : s.Disarmed) (p : Word) : (s.stayAt p).Agree (· ≠ p) s := by
  have hother (a : Word) (ha : a ≠ p) :
      (s.stayAt p).breakpoints[a]? = (s.moveTo p).breakpoints[a]? := by
    change ((s.moveTo p).breakpoints.setSkipOnce p true)[a]? = _
    rw [Breakpoints.setSkipOnce, Breakpoints.getElem?_update, if_neg (Ne.symm ha)]
  have hstay : (s.stayAt p).Agree (· ≠ p) (s.moveTo p) :=
    ⟨rfl, rfl, fun a ha => congrArg (Option.map Breakpoint.force) (hother a ha)⟩
  exact hstay.trans (h.agree_moveTo (· ≠ p) p)

/-- The breakpoint where a program stays lets it pass. -/
theorem stops_stayAt (s : Session) (p : Word) :
    (s.stayAt p).breakpoints[p]?.any Breakpoint.stops = false := by
  have hupdate : (s.stayAt p).breakpoints[p]? =
      (s.moveTo p).breakpoints[p]?.map fun b => { b with skipOnce := true } := by
    change ((s.moveTo p).breakpoints.setSkipOnce p true)[p]? = _
    rw [Breakpoints.setSkipOnce, Breakpoints.getElem?_update, if_pos rfl]
  rw [hupdate]
  cases (s.moveTo p).breakpoints[p]? with
  | none => rfl
  | some b => exact Bool.and_false b.enabled

end Session

namespace Debugger

variable {p : Word} {d d' : Debugger}

/-- A debugger stands at a breakpoint that lets the program pass. -/
structure StoppedAt (p : Word) (d : Debugger) : Prop extends Ready d where
  /-- The debugger stands at the address. -/
  pc : Debugger.pc d = p
  /-- Execution stopped last there. -/
  lastHit? : (session d).lastHit? = some p
  /-- The breakpoint does not stop the program. -/
  passes : (session d).breakpoints[p]?.any Breakpoint.stops = false

/-- Coming to a stand at a breakpoint arms it. -/
theorem stoppedAt_halt (hd : Ready d) (p : Word) : StoppedAt p (halt (.breakpoint p) d).2 where
  toReady := hd.halt _
  pc := pc_halt _ _
  lastHit? := rfl
  passes := (session d).stops_stayAt p

/-- Staying at a breakpoint does not show elsewhere. -/
theorem like_stay (hd : (session d).Disarmed) (p : Word) :
    (halt (.breakpoint p) d).2.guest.Like (Session.Agree (· ≠ p)) d.guest := by
  have hstay := hd.agree_stayAt p
  have hcore := (like_halt (.breakpoint p) d).core
  exact ⟨hcore, hstay.frames, hstay.trace, hstay.force⟩

/-- A run, seen from the program without the breakpoint at one address. Either it stops where that
program comes to the address, or it comes to a stand as that program does. -/
theorem run_apart {fuel : Nat} {r : StopReason} {d₁ : Debugger} (hd : Ready d)
    (hview : d.core.view?.isSome = true)
    (harmed : ∀ a, (session d).armed a = true → a = Debugger.pc d) (hruns : RunsFaithfully d)
    {s : Session}
    (hs : ∀ a, a ≠ p → (session d).breakpoints.hasEnabled a = s.breakpoints.hasEnabled a)
    (hp : s.breakpoints.hasEnabled p = false) {g : Guest Session}
    (h : d.guest.Like (Session.Agree (· ≠ p)) g) (hrun : run fuel d = .ok (some r) d₁) :
    (∃ hits n q g', r = .breakpoint p hits ∧
        g.cycles Session.observer (Session.injector s) n (.entry (Debugger.pc d)) = .ok q g' ∧
        q.pc = p ∧ (n = 0 → (session d).breakpoints[p]?.any Breakpoint.stops = true) ∧
        (∀ i, 0 < i → i < n → ∀ q' g'', g.cycles Session.observer (Session.injector s) i
          (.entry (Debugger.pc d)) = .ok q' g'' → q'.pc ≠ p) ∧
        StoppedAt p d₁ ∧ d₁.guest.Like (Session.Agree (· ≠ p)) g' ∧
        ∀ a, (session d₁).breakpoints.hasEnabled a = (session d).breakpoints.hasEnabled a) ∨
      ∃ n e g' d', g.cycles Session.observer (Session.injector s) n (.entry (Debugger.pc d)) =
          .error e g' ∧
        e ≠ .breakpoint p ∧ halt e d' = (r, d₁) ∧ d'.guest.Like (Session.Agree (· ≠ p)) g' := by
  have hready := hd.resumed
  have hself : (resumed d).guest.Like (Session.Agree everywhere) (resumed d).guest := .refl (.refl _)
  obtain ⟨k, e, d', hrounds, hhalt⟩ := rounds_of_run hview hrun
  obtain ⟨n, g', hcycles, hlike, hready', hchoose⟩ :=
    cycles_of_rounds (x := (Debugger.pc d, 0)) hready harmed hruns hself hrounds
  rw [hready.choose_eq] at hcycles hchoose
  rw [hready'.choose_eq] at hchoose
  have hend : d'.guest.Like (Session.Agree (· ≠ p)) g' :=
    hlike.symm fun _ _ h => h.symm.mono fun _ _ => trivial
  have h' : (resumed d).guest.Like (Session.Agree (· ≠ p)) g :=
    ⟨⟨h.core.registers, h.core.view?, h.core.sink, trivial⟩, h.context⟩
  -- What the run does are cycles; the program without the breakpoint does the same up to a stop.
  obtain halike | ⟨j, -, q, g₁, g₁', g₂, hok, hok', hstop, hlike₂⟩ :=
    Session.cycles_apart hs hp h' n (.entry (Debugger.pc d))
  · have halike : Alike (Guest.Like (Session.Agree (· ≠ p))) (.error e g')
        (g.cycles Session.observer (Session.injector s) n (.entry (Debugger.pc d))) :=
      hcycles ▸ halike
    obtain ⟨_, hg, hlike'⟩ := (halike.symm fun _ _ h => h).of_error
    refine .inr ⟨n, e, _, d', hg, ?_, hhalt, hend.trans hlike' fun _ _ _ => Session.Agree.trans⟩
    rintro rfl
    cases hp.symm.trans (Session.hasEnabled_of_cycles hg)
  · obtain ⟨rfl, rfl⟩ := Guest.cycles_error_unique hcycles (Guest.cycles_stop hok hstop)
    have hdisarmed : (session d').Disarmed :=
      hlike.context.symm.disarmed (Session.disarmed_of_stop (g := (resumed d).guest)
        (q := .entry (Debugger.pc d)) rfl harmed hok hstop)
    obtain rfl : (halt (.breakpoint p) d').2 = d₁ := congrArg Prod.snd hhalt
    obtain rfl : (halt (.breakpoint p) d').1 = r := congrArg Prod.fst hhalt
    refine .inl ⟨_, j, q, g₁', rfl, hok', (Session.stopped_of_cycle hstop).1, fun hj => ?_,
      fun i hi hij q' g'' => Session.ne_of_stop hs hp h' (fun _ => rfl) harmed hok hstop hi hij,
      stoppedAt_halt hready' p, ?_, fun a => ?_⟩
    · subst hj
      cases hok
      exact (Session.stopped_of_cycle hstop).2.2.1
    · exact ((like_stay hdisarmed p).trans hend fun _ _ _ => Session.Agree.trans).trans hlike₂
        fun _ _ _ => Session.Agree.trans
    · exact (hasEnabled_halt _ _ a).trans (Session.hasEnabled_of_injector hchoose a)

/-- A run comes to a stand if the program without the breakpoint at one address does. -/
theorem run_of_unbroken (hd : Ready d) (hview : d.core.view?.isSome = true)
    (harmed : ∀ a, (session d).armed a = true → a = Debugger.pc d) (hruns : RunsFaithfully d)
    {s : Session}
    (hs : ∀ a, a ≠ p → (session d).breakpoints.hasEnabled a = s.breakpoints.hasEnabled a)
    (hp : s.breakpoints.hasEnabled p = false) {g g' : Guest Session}
    (h : d.guest.Like (Session.Agree (· ≠ p)) g) {n : Nat} {e : Signal}
    (hcycles : g.cycles Session.observer (Session.injector s) n (.entry (Debugger.pc d)) =
      .error e g') :
    ∃ least, ∀ fuel, least ≤ fuel → ∃ r d₁, run fuel d = .ok (some r) d₁ := by
  have hready := hd.resumed
  have hself : (resumed d).guest.Like (Session.Agree everywhere) (resumed d).guest := .refl (.refl _)
  have h' : (resumed d).guest.Like (Session.Agree (· ≠ p)) g :=
    ⟨⟨h.core.registers, h.core.view?, h.core.sink, trivial⟩, h.context⟩
  have hstand {m : Nat} {e : Signal} {g₁ : Guest Session}
      (hend : (resumed d).guest.cycles Session.observer (resumed d).choose m
        (.entry (Debugger.pc d)) = .error e g₁) :
      ∃ least, ∀ fuel, least ≤ fuel → ∃ r d₁, run fuel d = .ok (some r) d₁ := by
    obtain ⟨k, d', hrounds, -, -, -⟩ :=
      rounds_of_cycles (x := (Debugger.pc d, 0)) hready harmed hruns hself hend
    exact ⟨k + 1, fun fuel hfuel => ⟨_, _, run_of_rounds hview hrounds (by omega)⟩⟩
  rw [hready.choose_eq] at hstand
  -- Either the cycles stay together to the end, or this debugger stops where the other passed.
  obtain halike | ⟨j, -, q, g₁, g₁', g₂, hok, -, hstop, -⟩ :=
    Session.cycles_apart hs hp h' n (.entry (Debugger.pc d))
  · rw [hcycles] at halike
    obtain ⟨_, hend, -⟩ := halike.of_error
    exact hstand hend
  · exact hstand (Guest.cycles_stop hok hstop)

/-- Why a program stands still depends on the signal, and on the breakpoint that it is from. -/
theorem reason_halt (h : (session d).Agree (· ≠ p) (session d')) {e : Signal}
    (he : e ≠ .breakpoint p) : (halt e d).1 = (halt e d').1 := by
  -- Skipping once is no part of the count that is told.
  have hskip (bs : Breakpoints) (a x : Word) (skip : Bool) :
      (bs.setSkipOnce a skip)[x]?.map Breakpoint.hits = bs[x]?.map Breakpoint.hits := by
    rw [Breakpoints.setSkipOnce, Breakpoints.getElem?_update]
    split
    · cases bs[x]? <;> rfl
    · rfl
  have hstay (s : Session) (a : Word) :
      (s.stayAt a).breakpoints[a]?.map Breakpoint.hits = s.breakpoints[a]?.map Breakpoint.hits := by
    refine (hskip (s.moveTo a).breakpoints a a true).trans ?_
    unfold Session.moveTo
    split
    · exact hskip s.breakpoints _ a false
    · rfl
  cases e with
  | trap t => rfl
  | stopped pc => rfl
  | breakpoint a =>
    have ha : a ≠ p := fun hap => he (congrArg Signal.breakpoint hap)
    have hhits := congrArg (Option.map (·.2.1)) (h.force a ha)
    rw [Option.map_map, Option.map_map] at hhits
    have hhits : (session d).breakpoints[a]?.map Breakpoint.hits =
        (session d').breakpoints[a]?.map Breakpoint.hits := hhits
    rw [← hstay (session d) a, ← hstay (session d') a] at hhits
    exact congrArg (fun h : Option Nat => StopReason.breakpoint a (h.getD 0)) hhits

/-- The program that runs from where a debugger stands, as if there were no breakpoint at one
address. -/
def unbroken (p : Word) (d : Debugger) (n : Nat) : EStateM.Result Signal (Guest Session) Place :=
  (dropBreakpoint p d).guest.cycles Session.observer
    (Session.injector (session (dropBreakpoint p d))) n (.entry (Debugger.pc d))

/-- What follows a number of instructions. -/
theorem unbroken_add {n : Nat} {q : Place} {g : Guest Session} (h : unbroken p d n = .ok q g)
    (m : Nat) : unbroken p d (n + m) = g.cycles Session.observer
      (Session.injector (session (dropBreakpoint p d))) m q := by
  have h : (dropBreakpoint p d).guest.cycles Session.observer
    (Session.injector (session (dropBreakpoint p d))) n (.entry (Debugger.pc d)) = .ok q g := h
  rw [unbroken, Guest.cycles_add, bind_apply, h]

/-- From a settled place at an address the program goes on as a run that begins there. -/
theorem cycles_settled {choose : Word → Option Instruction → List Action} {g : Guest Session}
    {q : Place} (hq : q.Settled g.core) (hplace : q.pc = p) {n : Nat} (hn : n ≠ 0) :
    g.cycles Session.observer choose n q = g.cycles Session.observer choose n (.entry p) := by
  obtain ⟨n, rfl⟩ := Nat.exists_eq_succ_of_ne_zero hn
  rw [Guest.cycles_succ, Guest.cycles_succ, Guest.cycle_settled hq, hplace]

/-- A debugger stands at an address as the program does that runs without a breakpoint there, when
after some instructions it comes to the address the next time. -/
structure StandsAfter (p : Word) (d : Debugger) (since n : Nat) (q : Place) (d' : Debugger) :
    Prop where
  /-- The debugger is sound. -/
  sound : Sound d'
  /-- It stands at the address. -/
  pc : Debugger.pc d' = p
  /-- The program comes to the address. -/
  place : q.pc = p
  /-- It did not come there before. -/
  next : ∀ i, since < i → i < n → ∀ q g, unbroken p d i = .ok q g → q.pc ≠ p
  /-- The registers, the memory, the expected returns and the other breakpoints are those of the
  program. -/
  like : ∃ g, unbroken p d n = .ok q g ∧ d'.guest.Like (Session.Agree (· ≠ p)) g

/-- A run without the breakpoint comes to the end that the program does. -/
theorem run_of_unbroken_error (hd : Sound d) (hruns : RunsFaithfully (dropBreakpoint p d)) {n : Nat}
    {e : Signal} {g : Guest Session} (hend : unbroken p d n = .error e g) :
    ∃ d', g.Like (Session.Agree everywhere) d'.guest ∧ ∃ least, ∀ fuel, least ≤ fuel →
      run fuel (dropBreakpoint p d) = .ok (some (halt e d').1) (halt e d').2 := by
  have hdropped := hd.dropBreakpoint p
  have hready := hdropped.toReady.resumed
  have hpc : Debugger.pc (dropBreakpoint p d) = Debugger.pc d := (like_dropBreakpoint p d).2
  have hend : (dropBreakpoint p d).guest.cycles Session.observer
      (resumed (dropBreakpoint p d)).choose n (.entry (Debugger.pc (dropBreakpoint p d))) =
        .error e g := by
    rw [hready.choose_eq, hpc]
    exact hend
  obtain ⟨k, d', hrounds, hlike, -, -⟩ :=
    rounds_of_cycles (x := (Debugger.pc (dropBreakpoint p d), 0)) hready (fun _ => hdropped.armed)
      hruns (like_resumed _) hend
  exact ⟨d', hlike, k + 1, fun fuel hfuel => run_of_rounds hdropped.view hrounds (by omega)⟩

/-- A run without the breakpoint comes to an end only if the program does. -/
theorem unbroken_error_of_run (hd : Sound d) (hruns : RunsFaithfully (dropBreakpoint p d))
    {fuel : Nat} {r : StopReason} {d' : Debugger}
    (hrun : run fuel (dropBreakpoint p d) = .ok (some r) d') :
    ∃ n e g, unbroken p d n = .error e g := by
  have hdropped := hd.dropBreakpoint p
  have hready := hdropped.toReady.resumed
  obtain ⟨k, e, d₁, hrounds, -⟩ := rounds_of_run hdropped.view hrun
  obtain ⟨n, g, hcycles, -, -, -⟩ :=
    cycles_of_rounds (x := (Debugger.pc (dropBreakpoint p d), 0)) hready (fun _ => hdropped.armed)
      hruns (like_resumed _) hrounds
  rw [hready.choose_eq, (like_dropBreakpoint p d).2] at hcycles
  exact ⟨n, e, g, hcycles⟩

/-- A run from where a debugger stands after some instructions goes on as the program without the
breakpoint does. -/
structure Resumes (p : Word) (d : Debugger) (n : Nat) (d₁ : Debugger) : Prop where
  /-- It stops at the breakpoint where the program comes to it the next time, or else it comes to the
  same end as a run without the breakpoint. -/
  ends : ∀ fuel r d₂, run fuel d₁ = .ok (some r) d₂ →
    (∃ hits m q, r = .breakpoint p hits ∧ n < m ∧ StandsAfter p d n m q d₂) ∨
    ∃ least, ∀ fuel, least ≤ fuel → ∃ d₃,
      run fuel (dropBreakpoint p d) = .ok (some r) d₃ ∧ d₂.Shows d₃
  /-- It comes to an end whenever a run without the breakpoint does. -/
  answers : ∀ fuel r d₃, run fuel (dropBreakpoint p d) = .ok (some r) d₃ →
    ∃ least, ∀ fuel, least ≤ fuel → ∃ r d₂, run fuel d₁ = .ok (some r) d₂

/-- A debugger that stands at a settled place of the program is where the rest of the program
begins. -/
theorem StandsAfter.begins {since n : Nat} {q : Place} {d₁ : Debugger}
    (h : StandsAfter p d since n q d₁) (hsettled : q.Settled d₁.core) :
    ∃ g, unbroken p d n = .ok q g ∧ d₁.guest.Like (Session.Agree (· ≠ p)) g ∧
      ∀ m, m ≠ 0 → unbroken p d (n + m) = g.cycles Session.observer
        (Session.injector (session (dropBreakpoint p d))) m (.entry (Debugger.pc d₁)) := by
  obtain ⟨g, hcycles, hlike⟩ := h.like
  refine ⟨g, hcycles, hlike, fun m hm => ?_⟩
  have hview : d₁.core.view? = g.core.view? := hlike.core.view?
  have hsettled : q.Settled g.core := by
    unfold Place.Settled at hsettled ⊢
    rw [← hview]
    exact hsettled
  rw [unbroken_add hcycles, h.pc, cycles_settled hsettled h.place hm]

/-- Two debuggers that agree but for the breakpoint at one address come to a stand alike. -/
theorem shows_halt (h : d.guest.Like (Session.Agree (· ≠ p)) d'.guest) (e : Signal) :
    (halt e d).2.Shows (halt e d').2 := by
  refine shows_of_like (P := fun _ => False) ?_ ((pc_halt e d).trans (pc_halt e d').symm)
  have hright := h.trans ((like_halt e d').symm fun _ _ h => h.symm)
    fun _ _ _ h h' => (h.mono fun _ h => h.elim).trans h'
  exact (like_halt e d).trans hright fun _ _ _ => Session.Agree.trans

/-- A run from a settled place at the breakpoint ends where the program comes to the breakpoint the
next time, or as the program does. -/
theorem ends_of_settled (hd : Sound d) (hruns₀ : RunsFaithfully (dropBreakpoint p d)) {n : Nat}
    {q : Place} {d₁ : Debugger} (hstands : StandsAfter p d 0 n q d₁)
    (hruns₁ : RunsFaithfully d₁) (hsettled : q.Settled d₁.core)
    (hpasses : (session d₁).breakpoints[p]?.any Breakpoint.stops = false)
    (hs : ∀ a, a ≠ p → (session d₁).breakpoints.hasEnabled a =
      (session (dropBreakpoint p d)).breakpoints.hasEnabled a)
    {fuel : Nat} {r : StopReason} {d₂ : Debugger} (hrun : run fuel d₁ = .ok (some r) d₂) :
    (∃ hits m q, r = .breakpoint p hits ∧ n < m ∧ StandsAfter p d n m q d₂) ∨
      ∃ least, ∀ fuel, least ≤ fuel → ∃ d₃,
        run fuel (dropBreakpoint p d) = .ok (some r) d₃ ∧ d₂.Shows d₃ := by
  obtain ⟨g, -, hlike, hgo⟩ := hstands.begins hsettled
  have hsound := hstands.sound
  obtain ⟨hits, m, q', g', hr, hcycles, hplace, hfirst, hnext, hstop, hlike', -⟩ |
    ⟨m, e, g', d', hcycles, hne, hhalt, hlike'⟩ :=
    run_apart hsound.toReady hsound.view (fun _ => hsound.armed) hruns₁ hs
      (hasEnabled_dropBreakpoint p d) hlike hrun
  -- The breakpoint lets this place pass, so some cycle runs before anything stops there.
  · have hm : m ≠ 0 := fun hm => Bool.false_ne_true (hpasses.symm.trans (hfirst hm))
    refine .inl ⟨hits, n + m, q', hr, by omega, ?_⟩
    refine ⟨hsound.run hruns₁ hrun, hstop.pc, hplace, fun i hi hin q g hok => ?_, g',
      (hgo m hm).trans hcycles, hlike'⟩
    obtain ⟨l, rfl⟩ : ∃ l, i = n + l := ⟨i - n, by omega⟩
    rw [hgo l (by omega)] at hok
    exact hnext l (by omega) (by omega) q g hok
  · have hm : m ≠ 0 := fun hm => by
      subst hm
      cases hcycles
    obtain ⟨d₃, hlike₃, least, hrun₀⟩ := run_of_unbroken_error hd hruns₀ ((hgo m hm).trans hcycles)
    have hboth : d'.guest.Like (Session.Agree (· ≠ p)) d₃.guest :=
      hlike'.trans hlike₃ fun _ _ _ h h' => h.trans (h'.mono fun _ _ => trivial)
    obtain rfl : (halt e d').2 = d₂ := congrArg Prod.snd hhalt
    obtain rfl : (halt e d').1 = r := congrArg Prod.fst hhalt
    refine .inr ⟨least, fun fuel hfuel => ⟨(halt e d₃).2, ?_, shows_halt hboth e⟩⟩
    rw [hrun₀ fuel hfuel, reason_halt hboth.context hne]

/-- A run from a settled place at the breakpoint comes to an end if the program does. -/
theorem answers_of_settled (hd : Sound d) (hruns₀ : RunsFaithfully (dropBreakpoint p d)) {n : Nat}
    {q : Place} {d₁ : Debugger} (hstands : StandsAfter p d 0 n q d₁)
    (hruns₁ : RunsFaithfully d₁) (hsettled : q.Settled d₁.core)
    (hs : ∀ a, a ≠ p → (session d₁).breakpoints.hasEnabled a =
      (session (dropBreakpoint p d)).breakpoints.hasEnabled a)
    {fuel : Nat} {r : StopReason} {d₃ : Debugger}
    (hrun : run fuel (dropBreakpoint p d) = .ok (some r) d₃) :
    ∃ least, ∀ fuel, least ≤ fuel → ∃ r d₂, run fuel d₁ = .ok (some r) d₂ := by
  obtain ⟨g, hcycles, hlike, hgo⟩ := hstands.begins hsettled
  have hsound := hstands.sound
  obtain ⟨m, e, g', hend⟩ := unbroken_error_of_run hd hruns₀ hrun
  -- The program ends behind the place, as it came there.
  obtain ⟨k, rfl, hrest⟩ := Guest.cycles_split hcycles hend
  have hk : k ≠ 0 := fun hk => by
    subst hk
    cases hrest
  rw [hgo k hk] at hend
  exact run_of_unbroken hsound.toReady hsound.view (fun _ => hsound.armed) hruns₁ hs
    (hasEnabled_dropBreakpoint p d) hlike hend

/-- A run that stops at a breakpoint does so where the program without the breakpoint comes to it,
before its instruction, and if the place is settled, a run from there goes on as that program does. -/
theorem run_resumes {fuel hits : Nat} {d₁ : Debugger} (hd : Sound d) (hruns : RunsFaithfully d)
    (hruns₁ : RunsFaithfully d₁) (hruns₀ : RunsFaithfully (dropBreakpoint p d))
    (hrun : run fuel d = .ok (some (.breakpoint p hits)) d₁) :
    ∃ n q, StandsAfter p d 0 n q d₁ ∧ (q.Settled d₁.core → Resumes p d n d₁) := by
  have hlike₀ := agree_dropBreakpoint p d
  have hs : ∀ a, a ≠ p → (session d).breakpoints.hasEnabled a =
      (session (dropBreakpoint p d)).breakpoints.hasEnabled a :=
    fun a ha => hlike₀.context.hasEnabled ha
  obtain ⟨hits', n, q, g, -, hcycles, hplace, -, hnext, hstop, hlike, henabled⟩ |
    ⟨n, e, g', d', -, hne, hhalt, -⟩ :=
    run_apart hd.toReady hd.view (fun _ => hd.armed) hruns hs (hasEnabled_dropBreakpoint p d) hlike₀
      hrun
  · have hstands : StandsAfter p d 0 n q d₁ :=
      ⟨hd.run hruns hrun, hstop.pc, hplace, hnext, g, hcycles, hlike⟩
    have hs₁ : ∀ a, a ≠ p → (session d₁).breakpoints.hasEnabled a =
        (session (dropBreakpoint p d)).breakpoints.hasEnabled a :=
      fun a ha => (henabled a).trans (hs a ha)
    refine ⟨n, q, hstands, fun hsettled => ⟨fun _ _ _ hrun₁ => ?_, fun _ _ _ hrun₀ => ?_⟩⟩
    · exact ends_of_settled hd hruns₀ hstands hruns₁ hsettled hstop.passes hs₁ hrun₁
    · exact answers_of_settled hd hruns₀ hstands hruns₁ hsettled hs₁ hrun₀
  · -- Another signal is not reported as a stop at the breakpoint.
    have hreason : (halt e d').1 = .breakpoint p hits := congrArg Prod.fst hhalt
    cases e with
    | breakpoint a =>
      obtain rfl : a = p := by
        cases hreason
        rfl
      exact absurd rfl hne
    | trap t => cases hreason
    | stopped pc => cases hreason

end Debugger

namespace Incrementing

open Debugger

/-- Three instructions: `addiu $t0, $zero, 1`, `addiu $t0, $t0, 1`, `syscall`. -/
def image : Image :=
  ⟨0, ⟨#[0x01, 0, 0x08, 0x24, 0x01, 0, 0x08, 0x25, 0x0C, 0, 0, 0]⟩, by decide⟩

/-- A debugger that was reset to the first instruction, with a breakpoint at the second one. -/
def start : Debugger := changeBreakpoints 4 (·.place 4) (atReset image)

/-- The run stops at the second instruction, and another run goes on from there. -/
theorem run_resumes_incrementing : ∃ n q, StandsAfter 4 start 0 n q (endState (run 8 start)) ∧
    Resumes 4 start n (endState (run 8 start)) := by
  have hrun : answer? (run 8 start) = some (some (.breakpoint 4 1)) := by
    rw [start, atReset_eq]
    decide +kernel
  have hruns : RunsFaithfully start := by
    rw [start, atReset_eq]
    exact runsFaithfully_of_endsPlainly 1 (by decide +kernel)
  have hruns₁ : RunsFaithfully (endState (run 8 start)) := by
    rw [start, atReset_eq]
    exact runsFaithfully_of_endsPlainly 1 (by decide +kernel)
  have hruns₀ : RunsFaithfully (dropBreakpoint 4 start) := by
    rw [start, atReset_eq]
    exact runsFaithfully_of_endsPlainly 1 (by decide +kernel)
  have hsound : Sound start := (sound_atReset image).placeBreakpoint 4
  have hends : (answer? (unbroken 4 start 3)).isNone = true := by
    rw [start, atReset_eq]
    decide +kernel
  have hstraight : ∀ i < 3, (answer? (unbroken 4 start i)).all (·.behind?.isNone) = true := by
    rw [start, atReset_eq]
    decide +kernel
  obtain ⟨n, q, hstands, hresumes⟩ := run_resumes hsound hruns hruns₁ hruns₀ (eq_of_answer? hrun)
  -- The program comes to the place before it ends, and none of its places is in a delay slot.
  obtain ⟨g, hcycles, -⟩ := hstands.like
  obtain ⟨s, g', hend⟩ := isNone_answer?.mp hends
  obtain ⟨rest, hrest, hlast⟩ := Guest.cycles_split hcycles hend
  have hn : n < 3 := by
    cases rest with
    | zero => cases hlast
    | succ rest => omega
  have hbehind := hstraight n hn
  rw [hcycles] at hbehind
  exact ⟨n, q, hstands, hresumes (.inl (Option.isNone_iff_eq_none.mp hbehind))⟩

end Incrementing

namespace Jumping

open Debugger

/-- Five instructions: `j 0x10`, `addiu $t0, $t0, 1`, `syscall`, `nop`, `break`. The second one is the
delay slot of the jump. -/
def image : Image :=
  ⟨0, ⟨#[0x04, 0, 0, 0x08, 0x01, 0, 0x08, 0x25, 0x0C, 0, 0, 0, 0, 0, 0, 0, 0x0D, 0, 0, 0]⟩, by decide⟩

/-- A debugger that was reset to the jump, with a breakpoint at its delay slot. -/
def start : Debugger := changeBreakpoints 4 (·.place 4) (atReset image)

/-- A stop in the delay slot forgets the jump: the run from there goes on with `syscall`, the run
without the breakpoint comes to `break`. -/
theorem run_again_forgets_jump :
    answer? (run 8 start) = some (some (.breakpoint 4 1)) ∧
      answer? (run 8 (endState (run 8 start))) = some (some (.exception 8)) ∧
      answer? (run 8 (dropBreakpoint 4 start)) = some (some (.exception 0x10)) := by
  rw [start, atReset_eq]
  decide +kernel

end Jumping

end Debug

end MipsMonitor
