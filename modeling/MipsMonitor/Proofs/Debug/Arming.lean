import MipsMonitor.Proofs.Debug.Commands

/-!
# Armed breakpoints

A breakpoint where execution stopped is armed to let the program pass when it goes on. While the
program runs, what is armed may be used up (`Session.Held`), but between commands exactly the
breakpoint where execution stopped last is armed, and execution still stands there
(`Session.Poised`). Every command keeps this up (`Debugger.invariant_poised`), so it holds of every
debugger that commands lead to (`Debugger.armed_iff_lastHit`).
-/

namespace MipsMonitor.Debug

open Machine

namespace Session

variable {s s' : Session}

/-- Exactly the breakpoint where execution stopped last would let the program pass, and execution
stands there. -/
structure Poised (s : Session) : Prop where
  /-- The armed breakpoint is the one where execution stopped last. -/
  armed : ∀ a, s.skips a = true ↔ s.lastHit? = some a
  /-- Execution has not moved on from there. -/
  stands : ∀ a, s.lastHit? = some a → s.pc = a

/-- At most the breakpoint where execution stopped last lets the program pass. -/
theorem Poised.held (h : s.Poised) : s.Held := fun a => (h.armed a).mp

/-- Only the program counter, the armed breakpoints and the last stop matter. -/
theorem Poised.congr (h : s.Poised) (hskips : ∀ a, s'.skips a = s.skips a)
    (hlast : s'.lastHit? = s.lastHit?) (hpc : s'.pc = s.pc) : s'.Poised where
  armed a := by rw [hskips, hlast, h.armed]
  stands a ha := hpc.trans (h.stands a (hlast ▸ ha))

/-- A session that has not begun has nothing armed. -/
theorem poised_fresh : fresh.Poised where
  armed a := by
    have hnone : fresh.breakpoints[a]? = none := Std.ExtTreeMap.getElem?_empty
    rw [skips, hnone]
    exact iff_of_false Bool.false_ne_true (Option.some_ne_none a).symm
  stands a ha := by cases ha

/-- Behind a move nothing is armed. -/
theorem Held.poised_moveTo (h : s.Held) (pc : Word) : (s.moveTo pc).Poised where
  armed a := by
    rw [h.skips_moveTo pc a, lastHit?_moveTo]
    exact iff_of_false Bool.false_ne_true (Option.some_ne_none a).symm
  stands a ha := by
    rw [lastHit?_moveTo] at ha
    cases ha

/-- A breakpoint where execution stays is armed, and nothing else is. -/
theorem Held.poised_stayAt (h : s.Held) {address : Word}
    (hexists : s.breakpoints[address]?.isSome = true) : (s.stayAt address).Poised where
  armed a := by
    have hskips : (s.stayAt address).skips a = _ :=
      skips_setSkipOnce (s.moveTo address) address a true
    rw [h.skips_moveTo address a, Bool.true_and] at hskips
    rw [hskips]
    change _ ↔ some address = some a
    rw [Option.some.injEq]
    split
    · next ha =>
      -- The move to the breakpoint may disarm another one, but removes none.
      have hstays := (s.isSome_moveTo address address).trans hexists
      exact iff_of_true (ha ▸ hstays) ha
    · next ha => exact iff_of_false Bool.false_ne_true ha
  stands a ha := (s.pc_stayAt address).trans (Option.some.inj ha)

end Session

namespace Debugger

variable {d : Debugger}

/-- Removing a breakpoint disarms it. -/
theorem poised_dropBreakpoint (h : (session d).Poised) (address : Word) :
    (session (dropBreakpoint address d)).Poised := by
  have hget := getElem?_dropBreakpoint address d
  have hlast (a : Word) : (session (dropBreakpoint address d)).lastHit? = some a ↔
      (session d).lastHit? = some a ∧ a ≠ address := by
    obtain ⟨hnone, heq⟩ | ⟨lastHit?, heq, hiff⟩ := dropBreakpoint_eq address d
    · -- Where there is no breakpoint, execution did not stop last.
      rw [heq]
      refine ⟨fun ha => ⟨ha, fun he => ?_⟩, And.left⟩
      obtain ⟨b, hb, -⟩ := (Option.any_eq_true _ _).mp ((h.armed a).mpr ha)
      cases hnone.symm.trans (he ▸ hb)
    · rw [heq, ← hiff a]
      rfl
  have hpc : (session (dropBreakpoint address d)).pc = (session d).pc :=
    (like_dropBreakpoint address d).2
  refine ⟨fun a => ?_, fun a ha => hpc.trans (h.stands a ((hlast a).mp ha).1)⟩
  rw [hlast, Session.skips, hget]
  split
  · next ha => exact iff_of_false Bool.false_ne_true fun h => h.2 ha.symm
  · next ha => exact (h.armed a).trans ⟨fun h => ⟨h, Ne.symm ha⟩, And.left⟩

/-- Between commands exactly the breakpoint where execution stopped last is armed. -/
theorem invariant_poised :
    Invariant (fun d => (session d).Poised) (fun d => (session d).Held) where
  run h := h.held
  beside h hbeside := h.congr
    (fun a => by rw [Session.skips, Session.skips, hbeside.breakpoints]) hbeside.lastHit? hbeside.pc
  -- While the program runs only `Held` is known, as a breakpoint that let it pass is armed no more.
  besideRunning h hbeside a ha := by
    rw [Session.skips, hbeside.breakpoints] at ha
    exact hbeside.lastHit?.trans (h a ha)
  reset {d} pc v h := by
    have hmove := h.held.poised_moveTo pc
    exact hmove.congr
      (fun a => ((session d).moveTo pc).breakpoints.any_skipOnce_resetHits a) rfl rfl
  moveTo pc h := h.poised_moveTo pc
  stayAt address h hexists := h.poised_stayAt hexists
  place {d} address h := h.congr (fun a => d.breakpoints.any_skipOnce_place address a) rfl rfl
  setEnabled {d} address on h :=
    h.congr (fun a => d.breakpoints.any_skipOnce_setEnabled address a on) rfl rfl
  drop address h := poised_dropBreakpoint h address
  pass pc h := keeps_pass Session.keeps_held h pc
  executeOne pc h := keeps_executeOne Session.keeps_held h pc

/-- Commands given to a debugger that began afresh lead to one that is poised. -/
theorem poised_of_reachable (h : Reachable (fun d => session d = .fresh) d) : (session d).Poised :=
  invariant_poised.reachable (fun d (h : session d = .fresh) => h ▸ Session.poised_fresh) h

/-- Whatever commands were given to a debugger that began afresh, a breakpoint is armed exactly if
execution stopped there last, and execution then stands there. So at most one breakpoint is armed,
and none where execution does not stand. -/
theorem armed_iff_lastHit (h : Reachable (fun d => session d = .fresh) d) (a : Word) :
    ((∃ b, d.breakpoints[a]? = some b ∧ b.skipOnce = true) ↔ (session d).lastHit? = some a) ∧
      ((session d).lastHit? = some a → Debugger.pc d = a) ∧
      ((∃ b, d.breakpoints[a]? = some b ∧ b.skipOnce = true) → Debugger.pc d = a) := by
  have hpoised : (session d).Poised :=
    invariant_poised.reachable (fun d (h : session d = .fresh) => h ▸ Session.poised_fresh) h
  have harmed : (∃ b, d.breakpoints[a]? = some b ∧ b.skipOnce = true) ↔
      (session d).lastHit? = some a := by
    rw [← hpoised.armed a]
    exact ((Option.any_eq_true _ _).trans (Iff.rfl)).symm
  exact ⟨harmed, hpoised.stands a, fun h => hpoised.stands a (harmed.mp h)⟩

end Debugger

namespace Pausing

open Debugger

/-- A debugger that was reset is reachable. -/
theorem reachable_fresh : Reachable (fun d => session d = .fresh) start := by
  have hdetached : Reachable (fun d => session d = .fresh) (detached .standard) := .start rfl
  have hreset := hdetached.perform (.reset 0 (.direct { Ram.blank with images := [image] })) rfl
  exact hreset.perform (.setBreakpoint 4) rfl

/-- Behind a run that stops at the breakpoint it is armed, and execution stands there. -/
theorem armed_pausing : ∃ d, (Command.run 8).perform start = some d ∧
    (∃ b, d.breakpoints[(4 : Word)]? = some b ∧ b.skipOnce = true) ∧ Debugger.pc d = 4 := by
  have hstop : ((Command.run 8).perform start).map (fun d => (session d).lastHit?) =
      some (some 4) := by
    rw [start, atReset_eq]
    decide +kernel
  obtain ⟨d, hperform, hlast⟩ := Option.map_eq_some_iff.mp hstop
  obtain ⟨harmed, hstands, -⟩ := armed_iff_lastHit (reachable_fresh.perform (.run 8) hperform) 4
  exact ⟨d, hperform, harmed.mpr hlast, hstands hlast⟩

end Pausing

end MipsMonitor.Debug
