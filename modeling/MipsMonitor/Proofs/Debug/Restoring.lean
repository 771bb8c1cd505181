import MipsMonitor.Proofs.Debug.Arming
import MipsMonitor.Proofs.Debug.Checks
import MipsMonitor.Proofs.Debug.RunUntil

/-!
# Breakpoints behind a run up to an address

A run changes hits and disarms breakpoints, but it neither places nor removes any and switches none
(`Debugger.enabled_of_run`). A run up to an address has a breakpoint there for its time. However it
ends, the breakpoints elsewhere are what they were before, with their switches, and there is none at
the address (`Debugger.runUntil_breakpoints`).

So the breakpoints are given back exactly if there was none at the address. One that a user had
placed there is not told from the one for the time of the run and goes with it, and so does one that
was switched off, which the run switches on (`Pausing.runUntil_takes`).
-/

namespace MipsMonitor.Debug

open Machine

/-- No call of a session places, removes or switches breakpoints. -/
theorem Session.keeps_enabled (s : Session) :
    observer.Keeps fun s' => ∀ a : Word,
      s'.breakpoints[a]?.map Breakpoint.enabled = s.breakpoints[a]?.map Breakpoint.enabled where
  sync _ _ h := h
  check s' a h x := (s'.breakpoints.enabled_hit a x).trans (h x)
  enter _ _ h := h
  leave _ h := h
  write _ _ _ _ h := h

namespace Debugger

variable {d d' : Debugger} {r : StopReason} {fuel : Nat} {address : Word}

/-- A run that comes to a stand has placed, removed and switched no breakpoints. -/
theorem enabled_of_run (h : run fuel d = .ok (some r) d') (a : Word) :
    d'.breakpoints[a]?.map Breakpoint.enabled = d.breakpoints[a]?.map Breakpoint.enabled := by
  have hview : d.core.view?.isSome = true := by
    by_contra hno
    cases h.symm.trans (run_refused hno fuel)
  obtain ⟨k, s, d₁, hrounds, hhalt⟩ := rounds_of_run hview h
  have hkept := leads_rounds
    (J := fun d₂ => ∀ a : Word, d₂.breakpoints[a]?.map Breakpoint.enabled =
      d.breakpoints[a]?.map Breakpoint.enabled)
    (fun d₂ pc h => keeps_pass (Session.keeps_enabled (session d)) h pc)
    (fun d₂ pc h a => ((session d₂).enabled_moveTo pc a).trans (h a))
    (d := resumed d) (fun _ => rfl) k (Debugger.pc d, 0)
  rw [hrounds] at hkept
  obtain rfl : (halt s d₁).2 = d' := congrArg Prod.snd hhalt
  exact (enabled_halt s d₁ a).trans (hkept a)

/-- Behind a run up to an address there is no breakpoint at the address, and elsewhere there are the
same ones as before, with the same switches. -/
theorem enabled_of_runUntil (h : runUntil address fuel d = .ok (some r) d') (a : Word) :
    d'.breakpoints[a]?.map Breakpoint.enabled =
      if a = address then none else d.breakpoints[a]?.map Breakpoint.enabled := by
  unfold runUntil at h
  cases hrun : run fuel (changeBreakpoints address (·.place address) d) with
  | error e d₁ =>
    rw [hrun] at h
    cases h
  | ok reason? d₁ =>
    rw [hrun] at h
    cases h
    have hdrop := getElem?_dropBreakpoint address d₁ a
    have hkept := enabled_of_run hrun a
    have hplace := getElem?_changeBreakpoints_place address a d
    -- At the address itself whatever stands there is dropped in the end.
    by_cases ha : a = address
    · rw [if_pos ha.symm] at hdrop
      rw [if_pos ha]
      exact congrArg (Option.map Breakpoint.enabled) hdrop
    · rw [if_neg (Ne.symm ha)] at hdrop hplace
      rw [if_neg ha]
      calc (dropBreakpoint address d₁).breakpoints[a]?.map Breakpoint.enabled
        _ = d₁.breakpoints[a]?.map Breakpoint.enabled := congrArg (Option.map _) hdrop
        _ = d.breakpoints[a]?.map Breakpoint.enabled :=
          hkept.trans (congrArg (Option.map _) hplace)

/-- However a run up to an address ends, the breakpoints behind it are those that were there before,
with their switches, but for one at the address. If there was none, they are the same. -/
theorem runUntil_breakpoints (h : runUntil address fuel d = .ok (some r) d') :
    (∀ a : Word, d'.breakpoints[a]?.map Breakpoint.enabled =
      if a = address then none else d.breakpoints[a]?.map Breakpoint.enabled) ∧
      (d.breakpoints[address]? = none → ∀ a : Word,
        d'.breakpoints[a]?.map Breakpoint.enabled = d.breakpoints[a]?.map Breakpoint.enabled) := by
  refine ⟨enabled_of_runUntil h, fun hnone a => ?_⟩
  rw [enabled_of_runUntil h a]
  split
  · next ha => rw [ha, hnone, Option.map_none]
  · rfl

end Debugger

namespace Pausing

open Debugger

/-- A run up to the third instruction that is stopped at the second one leaves the breakpoint there
and none at the third. -/
theorem runUntil_passes : ∃ d', runUntil 8 8 start = .ok (some (.breakpoint 4 1)) d' ∧
    d'.breakpoints[(4 : Word)]?.map Breakpoint.enabled = some true ∧
    d'.breakpoints[(8 : Word)]?.map Breakpoint.enabled = none := by
  have hanswer : answer? (runUntil 8 8 start) = some (some (.breakpoint 4 1)) := by
    rw [start, atReset_eq]
    decide +kernel
  have hstart : start.breakpoints[(4 : Word)]?.map Breakpoint.enabled = some true := by
    rw [start, atReset_eq]
    decide +kernel
  obtain ⟨hbreakpoints, -⟩ := runUntil_breakpoints (eq_of_answer? hanswer)
  refine ⟨_, eq_of_answer? hanswer, ?_, hbreakpoints 8⟩
  exact (hbreakpoints 4).trans hstart

/-- A run up to an address takes a breakpoint that was there before. -/
theorem runUntil_takes :
    ¬∀ d, Reachable (fun d => session d = .fresh) d → ∀ address fuel r d',
      runUntil address fuel d = .ok (some r) d' → ∀ a : Word,
        d'.breakpoints[a]?.map Breakpoint.enabled = d.breakpoints[a]?.map Breakpoint.enabled := by
  intro h
  have hanswer : answer? (runUntil 4 8 start) = some (some (.breakpoint 4 1)) := by
    rw [start, atReset_eq]
    decide +kernel
  have hstart : start.breakpoints[(4 : Word)]?.map Breakpoint.enabled = some true := by
    rw [start, atReset_eq]
    decide +kernel
  have hgone := enabled_of_runUntil (eq_of_answer? hanswer) 4
  have hsame := h start reachable_fresh 4 8 _ _ (eq_of_answer? hanswer) 4
  cases hgone.symm.trans (hsame.trans hstart)

end Pausing

end MipsMonitor.Debug
