import MipsMonitor.Proofs.Debug.Arming
import MipsMonitor.Proofs.Debug.Twins

/-!
# A reset forgets

A reset starts the processor and the session afresh. What it leaves of the debugger it was given are
the breakpoints with their switches, the listeners, and where reports go: the hits are forgotten, and no
breakpoint stays armed, as only the one where execution stopped last can be and a reset moves on from
there. So two debuggers with the same breakpoints and the same listeners are twins behind a reset onto
the same memory, whatever their histories, and answer all that they are asked from then on alike
(`Debugger.reset_forgets`).

The listeners have to be the same because they survive: a reset tells them that a step was made, and
they may answer with a request to stop (`Subscribed.reset_tells`).
-/

namespace MipsMonitor.Debug

open Machine

variable {d d' : Debugger}

/-- What is left of a breakpoint is whether it is switched on, if only the one where execution stopped
last can be armed. -/
theorem Session.Held.getElem?_resetHits_moveTo {s : Session} (h : s.Held) (pc a : Word) :
    (s.moveTo pc).breakpoints.resetHits[a]? =
      (s.breakpoints[a]?.map Breakpoint.enabled).map fun enabled => ⟨enabled, 0, false⟩ := by
  have hdisarmed := h.skips_moveTo pc a
  rw [Breakpoints.resetHits, Std.ExtTreeMap.getElem?_map, ← s.enabled_moveTo pc a]
  unfold skips at hdisarmed
  cases hb : (s.moveTo pc).breakpoints[a]? with
  | none => rfl
  | some b =>
    rw [hb] at hdisarmed
    obtain ⟨enabled, hits, skipOnce⟩ := b
    cases hdisarmed
    rfl

namespace Debugger

/-- What starts afresh are the breakpoints and the listeners; the rest is new. -/
theorem afresh_eq (pc : Word) (s : Session) : afresh pc s =
    ⟨pc, [pc], (s.moveTo pc).breakpoints.resetHits, none, Session.untraced, s.listeners, s.events⟩ := by
  unfold afresh Session.moveTo
  cases s.lastHit? <;> rfl

/-- Two debuggers that began afresh and have breakpoints at the same addresses, with the same ones
switched on, and the same listeners are twins behind a reset to the same address and onto memories that
hold the same, whatever commands they were given before. From then on they answer all calls alike, and
stay twins. -/
theorem reset_forgets (hd : Reachable (fun d => session d = .fresh) d)
    (hd' : Reachable (fun d => session d = .fresh) d')
    (hbreakpoints : ∀ a : Word,
      d.breakpoints[a]?.map Breakpoint.enabled = d'.breakpoints[a]?.map Breakpoint.enabled)
    (hlisteners : (session d).listeners = (session d').listeners) {v v' : View Ram}
    (hv : v.ResetsAs v') (pc : Word) (calls : List Call) :
    Twins (session d).events (session d').events (reset pc v d) (reset pc v' d') ∧
      (serveAll calls (reset pc v d)).1 = (serveAll calls (reset pc v' d')).1 ∧
      Twins (session d).events (session d').events (serveAll calls (reset pc v d)).2
        (serveAll calls (reset pc v' d')).2 := by
  -- Behind the reset no breakpoint is armed and none has hits, so that the switches are all there is.
  have hresetHits : ((session d').moveTo pc).breakpoints.resetHits =
      ((session d).moveTo pc).breakpoints.resetHits := by
    refine Std.ExtTreeMap.ext_getElem? fun a => ?_
    have hswitched : (session d').breakpoints[a]?.map Breakpoint.enabled =
        (session d).breakpoints[a]?.map Breakpoint.enabled := (hbreakpoints a).symm
    rw [(poised_of_reachable hd').held.getElem?_resetHits_moveTo,
      (poised_of_reachable hd).held.getElem?_resetHits_moveTo, hswitched]
  -- No event has occurred yet since the two pasts ended.
  have hsince : Session.Since (session d).events (session d').events (afresh pc (session d))
      (afresh pc (session d')) := by
    refine ⟨#[], ?_, ?_⟩
    · rw [afresh_eq, Array.append_empty]
    · rw [afresh_eq, afresh_eq, hresetHits, hlisteners, Array.append_empty]
  have htwins := twins_reset hv hsince
  exact ⟨htwins, htwins.serveAll calls⟩

end Debugger

namespace Pausing

open Debugger

/-- A debugger that was never reset and reports elsewhere, with a breakpoint at the second instruction. -/
def newcomer : Debugger := changeBreakpoints 4 (·.place 4) (Debugger.detached .recorder)

/-- What there is to see of a session that has no listeners. -/
def glance (s : Session) : Option Word × Breakpoints × Nat × Bool :=
  (s.lastHit?, s.breakpoints, s.listeners.next, s.listeners.entries.isEmpty)

/-- A debugger that stands at its breakpoint, armed and with a hit, answers all calls behind a reset as
one does that was just made. -/
theorem reset_pausing : ∃ d, (Command.run 8).perform start = some d ∧
    d.breakpoints[(4 : Word)]? = some ⟨true, 1, true⟩ ∧
    ∀ calls, (serveAll calls (reset 0 (.direct { Ram.blank with images := [image] }) d)).1 =
      (serveAll calls (reset 0 (.direct { Ram.blank with images := [image] }) newcomer)).1 := by
  have hrun : ((Command.run 8).perform start).map (fun d => glance (session d)) =
      some (some 4, (∅ : Breakpoints).insert 4 ⟨true, 1, true⟩, 0, true) := by
    rw [start, atReset_eq]
    decide +kernel
  obtain ⟨d, hperform, hglance⟩ := Option.map_eq_some_iff.mp hrun
  simp only [glance, Prod.mk.injEq] at hglance
  obtain ⟨-, hbreakpoints, hnext, hentries⟩ := hglance
  -- The listeners hold functions, so they are compared by what the glance says of them.
  have hnew : newcomer.breakpoints = (∅ : Breakpoints).insert 4 .fresh := by decide +kernel
  have hdetached : Reachable (fun d => session d = .fresh) (detached .standard) := .start rfl
  have hreset := hdetached.perform (.reset 0 (.direct { Ram.blank with images := [image] })) rfl
  have hstart : Reachable (fun d => session d = .fresh) start := hreset.perform (.setBreakpoint 4) rfl
  have hrecorder : Reachable (fun d => session d = .fresh) (Debugger.detached .recorder) := .start rfl
  refine ⟨d, hperform, ?_, fun calls => ?_⟩
  · change (session d).breakpoints[(4 : Word)]? = _
    rw [hbreakpoints]
    decide +kernel
  · refine (reset_forgets (hstart.perform (.run 8) hperform) (hrecorder.perform (.setBreakpoint 4) rfl)
      (fun a => ?_) ?_ (.refl _) 0 calls).2.1
    · change (session d).breakpoints[a]?.map _ = newcomer.breakpoints[a]?.map _
      rw [hbreakpoints, hnew, Breakpoints.getElem?_insert, Breakpoints.getElem?_insert]
      split <;> rfl
    · change (session d).listeners = .none
      cases hlisteners : (session d).listeners with
      | mk next entries =>
        rw [hlisteners] at hnext hentries
        simp only at hnext hentries
        rw [hnext, List.isEmpty_iff.mp hentries]
        rfl

end Pausing

namespace Subscribed

open Debugger

/-- A debugger without listeners. -/
def quiet : Debugger := Debugger.detached .standard

/-- The debugger with a listener that requests a stop when it is called first. -/
def listening : Debugger :=
  endState (listen .stepped (fun calls _ => if calls = 1 then [.stop] else []) quiet)

/-- Two debuggers without breakpoints, one of them with a listener: behind the same reset a stop is
requested of that one alone. -/
theorem reset_tells :
    Reachable (fun d => session d = .fresh) listening ∧
      Reachable (fun d => session d = .fresh) quiet ∧
      listening.breakpoints = quiet.breakpoints ∧
      (reset 0 (.direct Ram.blank) listening).core.stopped = true ∧
      (reset 0 (.direct Ram.blank) quiet).core.stopped = false := by
  have hquiet : Reachable (fun d => session d = .fresh) quiet := .start rfl
  exact ⟨hquiet.perform (.listen _ _) rfl, hquiet, rfl, rfl, rfl⟩

end Subscribed

end MipsMonitor.Debug
