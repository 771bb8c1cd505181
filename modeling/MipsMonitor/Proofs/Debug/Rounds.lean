import MipsMonitor.Debug.Debugger
import MipsMonitor.Proofs.Debug.Sessions
import MipsMonitor.Proofs.Machine.Stretches

/-!
# Runs of a debugger as rounds

A run of a debugger goes from routine to routine, and within a routine from block to block. One
round of it is a pass, with a new beginning at the return address where the outermost routine
returns (`Debugger.round`). A run answers exactly if its rounds end with a signal
(`Debugger.run_of_rounds`, `Debugger.rounds_of_run`).

A round is faithful if it does what single instructions would: no stop is requested, the block
leaves its own words alone and misses nothing, and the return address is where the outermost routine
returns to. The rounds of a run that is faithful in this sense do what cycles do, up to the same
signal (`Debugger.cycles_of_rounds`, `Debugger.rounds_of_cycles`).
-/

namespace MipsMonitor.Debug

namespace Debugger

open Machine

/-- What the return address register holds. -/
def returnAddress (d : Debugger) : Word := d.core.registers.tracked .returnAddress

/-- One round of a run, at an address and a depth of calls. -/
def round (x : Word × Nat) : EStateM Signal Debugger (Word × Nat) := fun d =>
  match pass Session.observer x.1 d with
  | .error s d => .error s d
  | .ok exit d =>
    match exit.follow? x.2 with
    | some next => .ok next d
    | none => .ok (returnAddress d, 0) (resumed (moveTo (returnAddress d) d))

/-- A number of rounds. -/
def rounds : Nat → Word × Nat → EStateM Signal Debugger (Word × Nat)
  | 0, x => pure x
  | n + 1, x => round x >>= rounds n

/-- The first of several rounds. -/
theorem rounds_succ (n : Nat) (x : Word × Nat) (d : Debugger) :
    rounds (n + 1) x d = match round x d with
      | .error s d' => .error s d'
      | .ok x' d' => rounds n x' d' := by
  change (round x >>= rounds n) d = _
  rw [bind_apply]
  cases round x d <;> rfl

/-- A debugger that moves to an address stands there. -/
theorem pc_moveTo (pc : Word) (d : Debugger) : Debugger.pc (moveTo pc d) = pc := by
  obtain ⟨⟨core, session⟩, blocks, injector?⟩ := d
  simp only [Debugger.pc, Debugger.session, moveTo, onContext, context, Session.moveTo]
  split <;> rfl

/-- What is left of a run within a routine. -/
def proceed (blocks fuel n : Nat) (x : Word × Nat) (d : Debugger) : Option StopReason × Debugger :=
  match invoke Session.observer n x.1 x.2 d with
  | .ok none d => (none, d)
  | .ok (some _) d => resume blocks fuel (moveTo (returnAddress d) d)
  | .error s d => (some (halt s d).1, (halt s d).2)

/-- A program that is resumed begins at the depth of no call. -/
theorem resume_succ (blocks fuel : Nat) (d : Debugger) :
    resume blocks (fuel + 1) d = proceed blocks fuel blocks (Debugger.pc d, 0) (resumed d) := by
  unfold resume proceed
  rw [execute_eq]
  rfl

/-- The next pass of a program that proceeds: it comes to a stand, follows the way out, or begins
anew behind the outermost return. -/
theorem proceed_succ (blocks fuel n : Nat) (x : Word × Nat) (d : Debugger) :
    proceed blocks fuel (n + 1) x d = match pass Session.observer x.1 d with
      | .error s d' => (some (halt s d').1, (halt s d').2)
      | .ok exit d' =>
        match exit.follow? x.2 with
        | some next => proceed blocks fuel n next d'
        | none => resume blocks fuel (moveTo (returnAddress d') d') := by
  unfold proceed
  rw [invoke_succ]
  cases pass Session.observer x.1 d with
  | error s d' => rfl
  | ok exit d' =>
    simp only
    cases exit.follow? x.2 with
    | none => rfl
    | some next => rfl

/-- Rounds that end with a signal bring a run to a stand that has room for them. -/
theorem proceed_of_rounds {k blocks fuel n : Nat} {x : Word × Nat} {d d' : Debugger} {s : Signal}
    (h : rounds k x d = .error s d') (hblocks : k ≤ blocks) (hfuel : k ≤ fuel) (hn : k ≤ n) :
    proceed blocks fuel n x d = (some (halt s d').1, (halt s d').2) := by
  -- Along the rounds: each takes a block from the budget, and behind a run that came to its end
  -- another is begun.
  induction k generalizing fuel n x d with
  | zero => cases h
  | succ k ih =>
    obtain ⟨n, rfl⟩ : ∃ n', n = n' + 1 := ⟨n - 1, by omega⟩
    rw [rounds_succ, round] at h
    rw [proceed_succ]
    cases hpass : pass Session.observer x.1 d with
    | error s₁ d₁ =>
      rw [hpass] at h
      cases h
      rfl
    | ok exit d₁ =>
      simp only [hpass] at h ⊢
      cases hfollow : exit.follow? x.2 with
      | some next =>
        simp only [hfollow] at h ⊢
        exact ih h (by omega) (by omega) (by omega)
      | none =>
        simp only [hfollow] at h ⊢
        obtain ⟨fuel, rfl⟩ : ∃ fuel', fuel = fuel' + 1 := ⟨fuel - 1, by omega⟩
        rw [resume_succ, pc_moveTo]
        exact ih h (by omega) (by omega) (by omega)

/-- A run that comes to a stand does so by rounds that end with a signal. -/
theorem rounds_of_resume {blocks fuel : Nat} {d d' : Debugger} {r : StopReason}
    (h : resume blocks fuel d = (some r, d')) :
    ∃ k s d₁, rounds k (Debugger.pc d, 0) (resumed d) = .error s d₁ ∧ halt s d₁ = (r, d') := by
  induction fuel generalizing d with
  | zero => cases h
  | succ fuel ih =>
    -- Within the routine, the passes that are left are counted down.
    have hproceed (n : Nat) (x : Word × Nat) (d : Debugger)
        (h : proceed blocks fuel n x d = (some r, d')) :
        ∃ k s d₁, rounds k x d = .error s d₁ ∧ halt s d₁ = (r, d') := by
      induction n generalizing x d with
      | zero => cases h
      | succ n ihn =>
        rw [proceed_succ] at h
        cases hpass : pass Session.observer x.1 d with
        | error s₁ d₁ =>
          simp only [hpass, Prod.mk.injEq, Option.some.injEq] at h
          refine ⟨1, s₁, d₁, ?_, Prod.ext h.1 h.2⟩
          rw [rounds_succ, round, hpass]
        | ok exit d₁ =>
          simp only [hpass] at h
          cases hfollow : exit.follow? x.2 with
          | some next =>
            simp only [hfollow] at h
            obtain ⟨k, s₁, d₂, hrounds, hhalt⟩ := ihn next d₁ h
            refine ⟨k + 1, s₁, d₂, ?_, hhalt⟩
            rw [rounds_succ, round, hpass]
            simp only [hfollow]
            exact hrounds
          | none =>
            simp only [hfollow] at h
            obtain ⟨k, s₁, d₂, hrounds, hhalt⟩ := ih h
            refine ⟨k + 1, s₁, d₂, ?_, hhalt⟩
            rw [rounds_succ, round, hpass]
            simp only [hfollow]
            rw [pc_moveTo] at hrounds
            exact hrounds
    rw [resume_succ] at h
    exact hproceed blocks (Debugger.pc d, 0) (resumed d) h

/-- Without memory a request is refused at once. -/
theorem requireMemory_eq (d : Debugger) :
    requireMemory d =
      if d.core.view?.isSome = true then .ok () d else .error (.access .detached) d := by
  have hget : (get : Request Debugger) d = .ok d d := rfl
  unfold requireMemory
  rw [bind_apply, hget]
  simp only
  cases d.core.view? <;> rfl

/-- What requires memory is done only where there is memory. -/
theorem requireMemory_bind {α : Type} (x : Unit → Request α) (d : Debugger) :
    (requireMemory >>= x) d =
      if d.core.view?.isSome = true then x () d else .error (.access .detached) d := by
  rw [bind_apply, requireMemory_eq]
  by_cases hview : d.core.view?.isSome = true
  · rw [if_pos hview, if_pos hview]
  · rw [if_neg hview, if_neg hview]

/-- With memory a run resumes the program. -/
theorem run_eq {d : Debugger} (hview : d.core.view?.isSome = true) (fuel : Nat) :
    run fuel d = .ok (resume fuel fuel d).1 (resume fuel fuel d).2 :=
  (requireMemory_bind _ d).trans (if_pos hview)

/-- Without memory a run is refused. -/
theorem run_refused {d : Debugger} (hview : ¬ d.core.view?.isSome = true) (fuel : Nat) :
    run fuel d = .error (.access .detached) d :=
  (requireMemory_bind _ d).trans (if_neg hview)

/-- Without memory a step out is refused at once. -/
theorem stepOut_eq (fuel : Nat) (d : Debugger) :
    stepOut fuel d =
      if d.core.view?.isSome = true then stepOut.finish fuel d else .error (.access .detached) d :=
  requireMemory_bind _ d

/-- A run answers why it stands still if its rounds end with a signal. -/
theorem run_of_rounds {k fuel : Nat} {d d' : Debugger} {s : Signal}
    (hview : d.core.view?.isSome = true)
    (h : rounds k (Debugger.pc d, 0) (resumed d) = .error s d') (hfuel : k < fuel) :
    run fuel d = .ok (some (halt s d').1) (halt s d').2 := by
  obtain ⟨n, rfl⟩ : ∃ n, fuel = n + 1 := ⟨fuel - 1, by omega⟩
  rw [run_eq hview, resume_succ, proceed_of_rounds h (by omega) (by omega) (by omega)]

/-- A run that answers why it stands still does so behind rounds that end with a signal. -/
theorem rounds_of_run {fuel : Nat} {d d' : Debugger} {r : StopReason}
    (hview : d.core.view?.isSome = true) (h : run fuel d = .ok (some r) d') :
    ∃ k s d₁, rounds k (Debugger.pc d, 0) (resumed d) = .error s d₁ ∧ halt s d₁ = (r, d') := by
  rw [run_eq hview] at h
  cases hresume : resume fuel fuel d with
  | mk r? d₂ =>
    rw [hresume] at h
    cases h
    exact rounds_of_resume hresume

/-! ## Rounds and cycles -/

/-- A debugger whose translations are good, and in which at most the breakpoint where execution
stopped last lets the program pass. -/
structure Ready (d : Debugger) : Prop where
  /-- Instructions are watched on behalf of the session. -/
  injector? : d.injector? = some Session.injector
  /-- Every translation is what translating again would give. -/
  coherent : d.Coherent
  /-- At most one breakpoint is armed. -/
  held : (Debugger.session d).Held

/-- A round does what single instructions would: no stop is requested, the block leaves its own words
alone and misses nothing, and the outermost routine returns to the return address. -/
structure Faithful (x : Word × Nat) (d : Debugger) : Prop where
  /-- No stop is requested. -/
  stopped : d.core.stopped = false
  /-- The block does not overwrite itself, and no kept translation with the effect unseen. -/
  block : ∀ b n, blockAt x.1 d = .ok b n →
    Block.Undisturbed Session.observer b.steps n.guest ∧ ¬ n.Misses Session.observer b
  /-- The outermost routine returns to the return address. -/
  back : ∀ exit d', pass Session.observer x.1 d = .ok exit d' → exit.follow? x.2 = none →
    returnAddress d' = exit.target

/-- All rounds from an address and a depth of calls on are faithful. -/
def FaithfulFrom (x : Word × Nat) (d : Debugger) : Prop :=
  ∀ k x' d', rounds k x d = .ok x' d' → Faithful x' d'

/-- All rounds of a run are faithful. -/
def RunsFaithfully (d : Debugger) : Prop := FaithfulFrom (Debugger.pc d, 0) (resumed d)

/-- Rounds behind faithful ones are faithful. -/
theorem FaithfulFrom.round {x x' : Word × Nat} {d d' : Debugger} (h : FaithfulFrom x d)
    (hround : round x d = .ok x' d') : FaithfulFrom x' d' := fun k x'' d'' hrounds =>
  h (k + 1) x'' d'' (by rw [rounds_succ, hround]; exact hrounds)

/-- What is injected depends on the session. -/
theorem Ready.choose_eq {d : Debugger} (hd : Ready d) :
    d.choose = Session.injector (Debugger.session d) := by
  unfold Machine.choose
  rw [hd.injector?]
  rfl

/-- The injector is always the same for the breakpoints of a session. -/
theorem Ready.steady {d : Debugger} (hd : Ready d) : Session.observer.Steady d.injector? :=
  hd.injector? ▸ Session.steady

/-- Behind a cycle at the address of the one breakpoint that may be armed, none is. -/
theorem disarmed_of_cycles {g g' : Guest Session} {s : Session} {n : Nat} {p q : Place}
    (hs : s.breakpoints.hasEnabled p.pc = g.context.breakpoints.hasEnabled p.pc)
    (harmed : ∀ a, g.context.armed a = true → a = p.pc) (hn : 0 < n)
    (hok : g.cycles Session.observer (Session.injector s) n p = .ok q g') : g'.context.Disarmed := by
  obtain ⟨n, rfl⟩ : ∃ n', n = n' + 1 := ⟨n - 1, by omega⟩
  obtain ⟨p₁, g₁, hcycle, hrest⟩ := bind_eq_ok.mp hok
  have hfirst : g₁.context.Disarmed :=
    Guest.leads_cycle Session.keeps_disarmed
      (fun i? g₂ hacts => Session.disarmed_of_actAll hs harmed hacts) hcycle
  exact Guest.keeps_cycles Session.keeps_disarmed hfirst hrest

/-- Guests whose sessions act alike go through cycles alike. -/
theorem alike_cycles {s s' : Session} (hs : s.Agree everywhere s')
    {g g' : Guest Session} (h : g.Like (Session.Agree everywhere) g') (n : Nat) (p : Place) :
    Alike (Guest.Like (Session.Agree everywhere))
      (g.cycles Session.observer (Session.injector s) n p)
      (g'.cycles Session.observer (Session.injector s') n p) :=
  Guest.alike_cycles Aside.kept_true (Session.respects_agreeHere everywhere).writesAlike
    (fun _ _ h => h.toAgree) (fun _ _ h _ i? => Session.alike_actAll (hs.hasEnabled trivial) h trivial i?) h n p

/-- That requests to stop are forgotten does not show. -/
theorem like_resumed (d : Debugger) :
    d.guest.Like (Session.Agree everywhere) (resumed d).guest := ⟨⟨rfl, rfl, rfl, trivial⟩, .refl _⟩

/-- A new beginning at an address does not show where no breakpoint is armed. -/
theorem Ready.restart {d : Debugger} (hd : Ready d) (hdisarmed : (Debugger.session d).Disarmed)
    (pc : Word) :
    Ready (resumed (moveTo pc d)) ∧
      d.guest.Like (Session.Agree everywhere) (resumed (moveTo pc d)).guest ∧
      (resumed (moveTo pc d)).choose = d.choose ∧
      (Debugger.session (resumed (moveTo pc d))).Disarmed := by
  -- The frames stay, and no breakpoint is armed that the move could change.
  have hagree : (Debugger.session (resumed (moveTo pc d))).Agree everywhere (Debugger.session d) :=
    hdisarmed.agree_moveTo everywhere pc
  have hmoved : (Debugger.session (resumed (moveTo pc d))).Disarmed := hdisarmed.moveTo pc
  have hinjector : (resumed (moveTo pc d)).injector? = some Session.injector := hd.injector?
  have hchoose : (resumed (moveTo pc d)).choose = d.choose := by
    rw [hd.choose_eq]
    unfold Machine.choose
    rw [hinjector]
    exact Session.injector_congr fun a => hagree.hasEnabled trivial
  refine ⟨⟨hinjector, ?_, hd.held.moveTo pc⟩, ⟨⟨rfl, rfl, rfl, trivial⟩, hagree.symm⟩, hchoose, hmoved⟩
  exact hd.coherent.congr rfl hchoose fun _ _ hb => hb

/-- A faithful round does what a stretch of cycles does. -/
theorem cycles_of_round {d : Debugger} (hd : Ready d) {x : Word × Nat}
    (harmed : ∀ a, (Debugger.session d).armed a = true → a = x.1) (hx : Faithful x d)
    {g : Guest Session} (h : g.Like (Session.Agree everywhere) d.guest) :
    ∃ count, 0 < count ∧
      match round x d with
      | .ok x' d' =>
        (∃ g', g.cycles Session.observer d.choose count (.entry x.1) = .ok (.entry x'.1) g' ∧
          g'.Like (Session.Agree everywhere) d'.guest) ∧
        Ready d' ∧ d'.choose = d.choose ∧ (Debugger.session d').Disarmed
      | .error s d' =>
        (∃ g', g.cycles Session.observer d.choose count (.entry x.1) = .error s g' ∧
          g'.Like (Session.Agree everywhere) d'.guest) ∧
        Ready d' ∧ d'.choose = d.choose := by
  -- The pass is cycles of the debugger's own guest, and the other guest goes through them alike.
  obtain ⟨count, hcount, hpass⟩ := cycles_alike_pass hd.coherent hd.steady hx.stopped hx.block
  have hheld := keeps_pass Session.keeps_held hd.held x.1
  have hcycles := alike_cycles (.refl (Debugger.session d)) h count (.entry x.1)
  rw [← hd.choose_eq] at hcycles
  refine ⟨count, hcount, ?_⟩
  unfold Debugger.round
  obtain ⟨exit, g₁, d', hc, hp, hlike, hcoherent, hinjector, hchoose⟩ |
    ⟨s, g₁, d', hc, hp, hlike, hcoherent, hinjector, hchoose⟩ := hpass.exists_eq_map
  · rw [hp] at hheld
    rw [hc] at hcycles
    obtain ⟨g', hg, hlike'⟩ := hcycles.of_ok
    have hend : g'.Like (Session.Agree everywhere) d'.guest :=
      hlike'.trans hlike fun _ _ _ h h' => h' ▸ h
    have hd' : Ready d' := ⟨hinjector.trans hd.injector?, hcoherent, hheld⟩
    have hdisarmed : (Debugger.session d').Disarmed := by
      have hcontext : g₁.context = Debugger.session d' := hlike.context
      rw [hd.choose_eq] at hc
      exact hcontext ▸ disarmed_of_cycles rfl harmed hcount hc
    rw [hp]
    cases hfollow : exit.follow? x.2 with
    | some next =>
      simp only [hfollow]
      refine ⟨⟨g', ?_, hend⟩, hd', hchoose, hdisarmed⟩
      rw [hg, Exit.target_of_follow? hfollow]
    | none =>
      -- The new beginning does not show, and it is where the cycles go on.
      simp only [hfollow]
      obtain ⟨hready, hmoved, hchoose', hdisarmed'⟩ := hd'.restart hdisarmed (returnAddress d')
      refine ⟨⟨g', ?_, hend.trans hmoved fun _ _ _ => .trans⟩, hready, hchoose'.trans hchoose,
        hdisarmed'⟩
      rw [hg, hx.back exit d' hp hfollow]
  · rw [hp] at hheld
    rw [hc] at hcycles
    obtain ⟨g', hg, hlike'⟩ := hcycles.of_error
    rw [hp]
    exact ⟨⟨g', hg, hlike'.trans hlike fun _ _ _ h h' => h' ▸ h⟩,
      ⟨hinjector.trans hd.injector?, hcoherent, hheld⟩, hchoose⟩

/-- Faithful rounds that end with a signal are cycles that do. -/
theorem cycles_of_rounds {k : Nat} {x : Word × Nat} {d d' : Debugger} {s : Signal} (hd : Ready d)
    (harmed : ∀ a, (Debugger.session d).armed a = true → a = x.1) (hx : FaithfulFrom x d)
    {g : Guest Session} (h : g.Like (Session.Agree everywhere) d.guest)
    (hrounds : rounds k x d = .error s d') :
    ∃ n g', g.cycles Session.observer d.choose n (.entry x.1) = .error s g' ∧
      g'.Like (Session.Agree everywhere) d'.guest ∧ Ready d' ∧ d'.choose = d.choose := by
  induction k generalizing x d g with
  | zero => cases hrounds
  | succ k ih =>
    obtain ⟨count, -, hround⟩ := cycles_of_round hd harmed (hx 0 x d rfl) h
    rw [rounds_succ] at hrounds
    cases hr : round x d with
    | error s₁ d₁ =>
      simp only [hr] at hround hrounds
      cases hrounds
      obtain ⟨⟨g', hcycles, hlike⟩, hready, hchoose⟩ := hround
      exact ⟨count, g', hcycles, hlike, hready, hchoose⟩
    | ok x₁ d₁ =>
      simp only [hr] at hround hrounds
      obtain ⟨⟨g₁, hcycles, hlike⟩, hready, hchoose, hdisarmed⟩ := hround
      -- Behind the first round no breakpoint is passed over any more.
      have hnone (a : Word) (ha : (Debugger.session d₁).armed a = true) : a = x₁.1 := by
        rw [hdisarmed a] at ha
        cases ha
      obtain ⟨n, g', hrest, hlike', hready', hchoose'⟩ :=
        ih hready hnone (hx.round hr) hlike hrounds
      refine ⟨count + n, g', ?_, hlike', hready', hchoose'.trans hchoose⟩
      rw [Guest.cycles_add, bind_apply, hcycles]
      rw [hchoose] at hrest
      exact hrest

/-- Cycles that end with a signal are faithful rounds that do. -/
theorem rounds_of_cycles {n : Nat} {x : Word × Nat} {d : Debugger} {s : Signal} (hd : Ready d)
    (harmed : ∀ a, (Debugger.session d).armed a = true → a = x.1) (hx : FaithfulFrom x d)
    {g g' : Guest Session} (h : g.Like (Session.Agree everywhere) d.guest)
    (hcycles : g.cycles Session.observer d.choose n (.entry x.1) = .error s g') :
    ∃ k d', rounds k x d = .error s d' ∧ g'.Like (Session.Agree everywhere) d'.guest ∧ Ready d' ∧
      d'.choose = d.choose := by
  induction n using Nat.strongRecOn generalizing x d g with
  | ind n ih =>
    -- A round takes at least one cycle.
    obtain ⟨count, hcount, hround⟩ := cycles_of_round hd harmed (hx 0 x d rfl) h
    cases hr : round x d with
    | error s₁ d₁ =>
      simp only [hr] at hround
      obtain ⟨⟨g₁, hfirst, hlike⟩, hready, hchoose⟩ := hround
      obtain ⟨rfl, rfl⟩ := Guest.cycles_error_unique hfirst hcycles
      refine ⟨1, d₁, ?_, hlike, hready, hchoose⟩
      rw [rounds_succ, hr]
    | ok x₁ d₁ =>
      simp only [hr] at hround
      obtain ⟨⟨g₁, hfirst, hlike⟩, hready, hchoose, hdisarmed⟩ := hround
      have hnone (a : Word) (ha : (Debugger.session d₁).armed a = true) : a = x₁.1 := by
        rw [hdisarmed a] at ha
        cases ha
      obtain ⟨rest, rfl, hrest⟩ := Guest.cycles_split hfirst hcycles
      rw [← hchoose] at hrest
      obtain ⟨k, d', hrounds, hlike', hready', hchoose'⟩ :=
        ih rest (by omega) hready hnone (hx.round hr) hlike hrest
      refine ⟨k + 1, d', ?_, hlike', hready', hchoose'.trans hchoose⟩
      rw [rounds_succ, hr]
      exact hrounds

/-! ## Plain rounds -/

/-- The block at an address stores nothing. -/
def storesNothing (pc : Word) (d : Debugger) : Bool :=
  match blockAt pc d with
  | .ok b n => b.storesNothing Session.observer n.guest
  | .error _ _ => true

/-- The outermost routine returns to the return address, if it returns. -/
def comesBack (x : Word × Nat) (d : Debugger) : Bool :=
  match pass Session.observer x.1 d with
  | .ok exit d' => (exit.follow? x.2).isSome || returnAddress d' == exit.target
  | .error _ _ => true

/-- No stop is requested, nothing is stored, and the outermost routine returns to the return
address: a round of which all this is computed. -/
def plain (x : Word × Nat) (d : Debugger) : Bool :=
  !d.core.stopped && storesNothing x.1 d && comesBack x d

/-- At most `n` rounds, all of them plain, end with a signal. -/
def endsPlainly : Nat → Word × Nat → Debugger → Bool
  | 0, _, _ => false
  | n + 1, x, d => plain x d &&
    match round x d with
    | .error _ _ => true
    | .ok x' d' => endsPlainly n x' d'

/-- A plain round is faithful. -/
theorem faithful_of_plain {x : Word × Nat} {d : Debugger} (h : plain x d = true) : Faithful x d := by
  simp only [plain, Bool.and_eq_true, Bool.not_eq_true'] at h
  obtain ⟨⟨hstopped, hstores⟩, hback⟩ := h
  refine ⟨hstopped, fun b n hb => ?_, fun exit d' hpass hfollow => ?_⟩
  · simp only [storesNothing, hb] at hstores
    obtain ⟨hwritten, hund⟩ := Block.undisturbed_of_storesNothing hstores
    refine ⟨hund, fun ⟨a, ha, _⟩ => ?_⟩
    rw [hwritten] at ha
    cases ha
  · simp only [comesBack, hpass, hfollow, Option.isSome_none, Bool.false_or, beq_iff_eq] at hback
    exact hback

/-- Rounds that are plain up to the signal that ends them are faithful. -/
theorem faithfulFrom_of_endsPlainly {n : Nat} {x : Word × Nat} {d : Debugger}
    (h : endsPlainly n x d = true) : FaithfulFrom x d := by
  induction n generalizing x d with
  | zero => cases h
  | succ n ih =>
    rw [endsPlainly, Bool.and_eq_true] at h
    obtain ⟨hplain, hrest⟩ := h
    intro k x' d' hrounds
    cases k with
    | zero =>
      cases hrounds
      -- The first round is checked for itself, and the rest by induction.
      exact faithful_of_plain hplain
    | succ k =>
      rw [rounds_succ] at hrounds
      cases hround : round x d with
      | error s d₁ =>
        rw [hround] at hrounds
        cases hrounds
      | ok x₁ d₁ =>
        simp only [hround] at hrounds hrest
        exact ih hrest k x' d' hrounds

/-- A run whose rounds are plain up to its end is faithful. -/
theorem runsFaithfully_of_endsPlainly (n : Nat) {d : Debugger}
    (h : endsPlainly n (Debugger.pc d, 0) (resumed d) = true) : RunsFaithfully d :=
  faithfulFrom_of_endsPlainly h

end Debugger

end MipsMonitor.Debug
