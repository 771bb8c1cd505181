import MipsMonitor.Proofs.Debug.Stepping

/-!
# Running up to an address

Steps execute one instruction at a time and carry out jumps to registers themselves; a run executes
block after block and follows calls and returns. Where steps come to an address for the first time, a
run up to that address comes there too, in the same state (`Debugger.runUntil_of_steps`): both do
what cycles do, the steps one by one (`Debugger.cycles_of_steps`) and the run as far as its rounds
are faithful (`Debugger.rounds_of_cycles`).
-/

namespace MipsMonitor.Debug

open Machine

namespace Debugger

variable {d : Debugger} {address : Word}

/-- Whether there is a word to execute at an address. -/
def fetchable (address : Word) (d : Debugger) : Bool :=
  d.core.view?.any fun v => (Block.instructionAt v.backing address).isOk

/-- A run up to an address stops where a run with a breakpoint there stops. -/
theorem runUntil_of_rounds {k fuel : Nat} {d₁ : Debugger} {s : Signal}
    (hview : d.core.view?.isSome = true)
    (h : rounds k (Debugger.pc d, 0) (resumed (changeBreakpoints address (·.place address) d)) =
      .error s d₁) (hfuel : k < fuel) :
    runUntil address fuel d = .ok (some (halt s d₁).1) (dropBreakpoint address (halt s d₁).2) := by
  have hrun : run fuel (changeBreakpoints address (·.place address) d) =
      .ok (some (halt s d₁).1) (halt s d₁).2 := run_of_rounds hview h hfuel
  simp only [runUntil, hrun]

/-- Where steps come to an address, rounds of a debugger that is guarded there and otherwise the same
come to a stop in the same state. -/
theorem rounds_of_steps {d₀ : Debugger} {n : Nat} (hready : Ready d₀)
    (hguards : (session d₀).Guards address)
    (harmed : ∀ a, (session d₀).armed a = true → a = Debugger.pc d)
    (hruns : FaithfulFrom (Debugger.pc d, 0) d₀) (hcalm : Calm d)
    (hlike : d₀.guest.Like (Session.Agree (· ≠ address)) d.guest)
    (hsteps : ∀ k < n, Unhindered address (steps k d)) (hpc : Debugger.pc (steps n d) = address)
    (hfetch : fetchable address (steps n d) = true) :
    ∃ k d₁, rounds k (Debugger.pc d, 0) d₀ = .error (.breakpoint address) d₁ ∧
      d₁.guest.Like (Session.Agree fun _ => False) (steps n d).guest := by
  have hchoose (a : Word) (ha : a ≠ address) (i? : Option Instruction) :
      d₀.choose a i? = d.choose a i? := by
    have henabled : (session d₀).breakpoints.hasEnabled a = (session d).breakpoints.hasEnabled a :=
      hlike.context.hasEnabled ha
    rw [hready.choose_eq, Session.injector_eq, henabled, ← Session.injector_eq]
    unfold choose
    rw [hcalm.injector?]
    rfl
  -- The steps are cycles, and the next cycle is stopped.
  obtain ⟨count, p, g, hcycles, harrives⟩ := cycles_of_steps hcalm hsteps hchoose hlike
  obtain rfl := harrives.place
  rw [hpc, hready.choose_eq] at hcycles
  obtain ⟨v, hv, hi⟩ := (Option.any_eq_true _ _).mp hfetch
  obtain ⟨i?, hi⟩ : ∃ i?, Block.instructionAt v.backing address = .ok i? := by
    cases hat : Block.instructionAt v.backing address with
    | error t =>
      rw [hat] at hi
      cases hi
    | ok i? => exact ⟨i?, rfl⟩
  have hguarded : g.context.Guards address :=
    Guest.keeps_cycles (Session.keeps_guards address) hguards hcycles
  have hview : g.core.view? = some v := harrives.like.core.view?.trans hv
  have hend : d₀.guest.cycles Session.observer d₀.choose (count + 1) (.entry (Debugger.pc d)) =
      .error (.breakpoint address)
        ⟨g.core, (Session.observer.check (Session.observer.sync g.context address).1 address).1⟩ := by
    rw [hready.choose_eq]
    exact Guest.cycles_stop hcycles (hguarded.cycle hguards.1 hview hi)
  have hself : d₀.guest.Like (Session.Agree everywhere) d₀.guest := .refl (.refl _)
  obtain ⟨k, d₁, hrounds, hlike₁, -, -⟩ := rounds_of_cycles hready harmed hruns hself hend
  refine ⟨k, d₁, hrounds, ⟨?_, ?_⟩⟩
  · exact ⟨hlike₁.core.registers.symm.trans harrives.like.core.registers,
      hlike₁.core.view?.symm.trans harrives.like.core.view?,
      hlike₁.core.sink.symm.trans harrives.like.core.sink, trivial⟩
  · exact ⟨hlike₁.context.frames.symm.trans harrives.like.context.frames,
      hlike₁.context.trace.symm.trans harrives.like.context.trace, fun _ h => h.elim⟩

/-- An address that steps come to for the first time is not where the debugger stands because of a
breakpoint, unless there are no steps. -/
theorem lastHit?_ne_of_steps {n : Nat} (hd : Sound d)
    (hlast : n = 0 → (session d).lastHit? ≠ some address)
    (hsteps : ∀ k < n, Unhindered address (steps k d)) : (session d).lastHit? ≠ some address := by
  by_cases hn : n = 0
  · exact hlast hn
  · obtain ⟨i?, hi⟩ := (hsteps 0 (Nat.pos_of_ne_zero hn)).mem_executed
    exact fun h => (hsteps 0 (Nat.pos_of_ne_zero hn)).away _ hi (hd.stand address h)

/-- A sound debugger is calm before unhindered steps, as the only breakpoint that may be armed is
where it stands. -/
theorem calm_of_steps {n : Nat} (hd : Sound d)
    (hlast : n = 0 → (session d).lastHit? ≠ some address)
    (hsteps : ∀ k < n, Unhindered address (steps k d)) (hpc : Debugger.pc (steps n d) = address) :
    Calm d := by
  refine ⟨hd.injector?, fun a => ?_, hd.zero⟩
  rw [← Bool.not_eq_true]
  intro harmed
  have hstop := hd.held.lastHit? harmed
  obtain rfl := hd.stand a hstop
  by_cases hn : n = 0
  · subst hn
    exact hlast rfl (hpc ▸ hstop)
  · obtain ⟨i?, hi⟩ := (hsteps 0 (Nat.pos_of_ne_zero hn)).mem_executed
    have hclear := (hsteps 0 (Nat.pos_of_ne_zero hn)).clear _ hi
    cases hclear.symm.trans (Session.hasEnabled_of_armed harmed)

/-- A breakpoint that is placed is switched on, and keeps its hits if it was there. -/
theorem getElem?_changeBreakpoints_place (address a : Word) (d : Debugger) :
    (session (changeBreakpoints address (·.place address) d)).breakpoints[a]? =
      if address = a then some ((d.breakpoints[a]?.map fun b => { b with enabled := true }).getD .fresh)
      else d.breakpoints[a]? := Breakpoints.getElem?_place _ _ _

/-- A breakpoint that is placed where execution did not stop last guards its address. -/
theorem guards_place (hd : Sound d) (hlast : (session d).lastHit? ≠ some address) :
    (session (changeBreakpoints address (·.place address) d)).Guards address := by
  refine ⟨?_, ?_⟩
  · rw [Breakpoints.hasEnabled_eq, getElem?_changeBreakpoints_place, if_pos rfl]
    cases d.breakpoints[address]? <;> rfl
  · rw [← Bool.not_eq_true]
    exact fun harmed => hlast ((hd.placeBreakpoint address).held.lastHit? harmed)

/-- A breakpoint that is placed does not show elsewhere. -/
theorem like_place (address : Word) (d : Debugger) :
    (resumed (changeBreakpoints address (·.place address) d)).guest.Like
      (Session.Agree (· ≠ address)) d.guest := by
  refine ⟨⟨rfl, rfl, rfl, trivial⟩, rfl, rfl, fun a ha => ?_⟩
  have hother := (getElem?_changeBreakpoints_place address a d).trans (if_neg (Ne.symm ha))
  exact congrArg (Option.map Breakpoint.force) hother

/-- Where steps come to an address for the first time, a run up to that address stops in the same
state, as far as its rounds are faithful. -/
theorem runUntil_of_steps {n : Nat} (hd : Sound d)
    (hlast : n = 0 → (session d).lastHit? ≠ some address)
    (hsteps : ∀ k < n, Unhindered address (steps k d)) (hpc : Debugger.pc (steps n d) = address)
    (hfetch : fetchable address (steps n d) = true)
    (hruns : RunsFaithfully (changeBreakpoints address (·.place address) d)) :
    ∃ least, ∀ fuel, least ≤ fuel → ∃ hits d',
      runUntil address fuel d = .ok (some (.breakpoint address hits)) d' ∧ d'.Shows (steps n d) := by
  have hplaced := hd.placeBreakpoint address
  have hguards := guards_place hd (lastHit?_ne_of_steps hd hlast hsteps)
  have hcalm := calm_of_steps hd hlast hsteps hpc
  have hview : d.core.view?.isSome = true := hd.view
  obtain ⟨k, d₁, hrounds, hlike₁⟩ := rounds_of_steps (d := d) hplaced.toReady.resumed hguards
    (fun a ha => (hplaced.stand a (hplaced.held.lastHit? ha)).symm) hruns hcalm
    (like_place address d) hsteps hpc hfetch
  refine ⟨k + 1, fun fuel hfuel => ⟨_, _, runUntil_of_rounds hview hrounds (by omega), ?_⟩⟩
  -- The breakpoint is removed again, where the debugger stands.
  obtain ⟨hdrop, hpc'⟩ := like_dropBreakpoint address (halt (.breakpoint address) d₁).2
  have hend : (dropBreakpoint address (halt (.breakpoint address) d₁).2).guest.Like
      (Session.Agree fun _ => False) (steps n d).guest :=
    hdrop.trans ((like_halt (.breakpoint address) d₁).trans hlike₁ fun _ _ _ => Session.Agree.trans)
      fun _ _ _ => Session.Agree.trans
  exact shows_of_like hend ((hpc'.trans (pc_halt _ _)).trans hpc.symm)

end Debugger

namespace Detouring

open Debugger

/-- Eight instructions: `addiu $t0, $zero, 1`, `jal 0x18`, `addiu $t0, $t0, 1`, `addiu $t1, $t0, 1`,
`syscall`, `nop`, `jr $ra`, `addiu $t0, $t0, 1`. A routine is called and returns, and both delay slots
count. -/
def image : Image :=
  ⟨0, ⟨#[0x01, 0, 0x08, 0x24, 0x06, 0, 0, 0x0C, 0x01, 0, 0x08, 0x25, 0x01, 0, 0x09, 0x25,
    0x0C, 0, 0, 0, 0, 0, 0, 0, 0x08, 0, 0xE0, 0x03, 0x01, 0, 0x08, 0x25]⟩, by decide⟩

/-- Three steps go through the call and its return, and a run up to where the routine returns to
stops there. -/
theorem runUntil_behind_call : ∃ least, ∀ fuel, least ≤ fuel → ∃ hits d',
    runUntil 0x0C fuel (atReset image) = .ok (some (.breakpoint 0x0C hits)) d' ∧
      d'.Shows (steps 3 (atReset image)) := by
  have hruns : RunsFaithfully (changeBreakpoints 0x0C (·.place 0x0C) (atReset image)) := by
    rw [atReset_eq]
    exact runsFaithfully_of_endsPlainly 3 (by decide +kernel)
  refine runUntil_of_steps (sound_atReset image) (fun h => by cases h) ?_ ?_ ?_ hruns
  all_goals
    rw [atReset_eq]
    decide +kernel

end Detouring

namespace Returning

open Debugger

/-- Six instructions: `addiu $ra, $zero, 0x10`, `jr $ra`, `addiu $ra, $zero, 0x14`, `nop`, `nop`,
`syscall`. The delay slot of the return changes the return address. -/
def image : Image :=
  ⟨0, ⟨#[0x10, 0, 0x1F, 0x24, 0x08, 0, 0xE0, 0x03, 0x14, 0, 0x1F, 0x24, 0, 0, 0, 0, 0, 0, 0, 0,
    0x0C, 0, 0, 0]⟩, by decide⟩

/-- Two steps come to where the return leads, but a run up to that address goes on behind the return
at what the delay slot left in the register, and traps there. -/
theorem runUntil_overshoots :
    (∀ k < 2, Unhindered 0x10 (steps k (atReset image))) ∧
      Debugger.pc (steps 2 (atReset image)) = 0x10 ∧
      fetchable 0x10 (steps 2 (atReset image)) = true ∧
      answer? (runUntil 0x10 8 (atReset image)) = some (some (.exception 0x14)) := by
  rw [atReset_eq]
  decide +kernel

end Returning

end MipsMonitor.Debug
