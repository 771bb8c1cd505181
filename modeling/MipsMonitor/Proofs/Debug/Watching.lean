import MipsMonitor.Machine.Plan
import MipsMonitor.Machine.Recorder
import MipsMonitor.Proofs.Debug.Soundness
import MipsMonitor.Proofs.Machine.Transparency
import MipsMonitor.Proofs.Machine.Watching

/-!
# Watching does not show

A session that has no breakpoint switched on, and whose listeners request no stop, only watches
(`Session.onlyWatches`), and so does the recorder while it stops nowhere (`Recorder.onlyWatches`).
Machines that start without translations therefore run alike whatever injector and observer they
have, as long as the observers only watch, and a debugger without breakpoints runs a program as the
bare machine does (`runAlike_watched`).
-/

namespace MipsMonitor

/-- The observer that learns nothing only watches where no look at breakpoints is asked for. -/
theorem Observer.onlyWatches_silent {σ : Type} :
    (silent σ).OnlyWatches none fun _ => True where
  keeps := ⟨fun _ _ h => h, fun _ _ h => h, fun _ _ h => h, fun _ h => h, fun _ _ _ _ h => h⟩
  sync _ _ _ := List.not_mem_nil
  enter _ _ _ := List.not_mem_nil
  leave _ _ := List.not_mem_nil
  check injector h := by cases h
  write _ _ _ _ _ _ := ⟨List.not_mem_nil, rfl⟩

namespace Recorder

/-- A recorder that stops nowhere. -/
def Passive (r : Recorder) : Prop := r.breakpoints = [] ∧ r.stopAt? = none

/-- A recorder that stops nowhere only watches, whatever the injector asks for. -/
theorem onlyWatches (injector? : Option (Injector Recorder)) :
    observer.OnlyWatches injector? Passive where
  keeps := ⟨fun _ _ h => h, fun _ _ h => h, fun _ _ h => h, fun _ h => h, fun _ _ _ _ h => h⟩
  sync r a h := by
    have hnever : (r.stopAt? = some a) = False := by
      rw [h.2]
      exact eq_false (Option.some_ne_none a).symm
    simp only [observer, hnever, if_false]
    exact List.not_mem_nil
  enter _ _ _ := List.not_mem_nil
  leave _ _ := List.not_mem_nil
  check injector _ r a i? _ _ r' h' := by
    simp only [Observer.Passes, observer, h'.1]
    exact ⟨List.not_mem_nil, rfl⟩
  write _ _ _ _ _ _ := ⟨List.not_mem_nil, rfl⟩

end Recorder

namespace Debug

namespace Session

/-- A session without a breakpoint that is switched on, whose listeners request no stop. -/
structure Passive (s : Session) : Prop where
  /-- No breakpoint is switched on. -/
  unchecked : ∀ a, s.breakpoints.hasEnabled a = false
  /-- No listener requests a stop. -/
  reports : ∀ l ∈ s.listeners.entries, ∀ n info, Notice.stop ∉ l.respond n info

variable {s : Session}

/-- Listeners that are called count the call, and that is all. -/
theorem Passive.emit (h : s.Passive) (event : Event) :
    (s.emit event).1.Passive ∧ Notice.stop ∉ (s.emit event).2 := by
  refine ⟨⟨h.unchecked, fun l hl n info => ?_⟩, fun hstop => ?_⟩
  · obtain ⟨l₀, hl₀, rfl⟩ := List.mem_map.mp hl
    have hreports := h.reports l₀ hl₀ n info
    dsimp only
    split <;> exact hreports
  · obtain ⟨l, hl, hresponse⟩ := List.mem_flatMap.mp hstop
    exact h.reports l (List.mem_filter.mp hl).1 _ _ hresponse

/-- A session without breakpoints only watches. -/
theorem onlyWatches {injector? : Option (Injector Session)}
    (hinjector : ∀ injector, injector? = some injector → injector = Session.injector) :
    observer.OnlyWatches injector? Passive where
  keeps := {
    sync := fun s a h => ⟨h.unchecked, h.reports⟩
    check := fun s a h => ⟨fun x => (s.breakpoints.hasEnabled_hit a x).trans (h.unchecked x), h.reports⟩
    enter := fun s a h => (Passive.emit (s := { s with frames := _ :: s.frames })
      ⟨h.unchecked, h.reports⟩ .steppedInto).1
    leave := fun s h => (Passive.emit (s := { s with frames := s.frames.tail })
      ⟨h.unchecked, h.reports⟩ .steppedOut).1
    write := fun s f t w h => ⟨h.unchecked, h.reports⟩ }
  sync _ _ _ := List.not_mem_nil
  enter s _ h := (Passive.emit (s := { s with frames := _ :: s.frames })
    ⟨h.unchecked, h.reports⟩ .steppedInto).2
  leave s h := (Passive.emit (s := { s with frames := s.frames.tail })
    ⟨h.unchecked, h.reports⟩ .steppedOut).2
  check injector heq s a i? h hcheck := by
    rw [hinjector injector heq, injector_unchecked (h.unchecked a)] at hcheck
    exact absurd (List.mem_of_ne_of_mem Action.noConfusion hcheck) (check_notMem_follow a i?)
  write s f t w _ hne := by
    simp only [observer, recordAt, if_neg hne]
    exact ⟨List.not_mem_nil, trivial⟩

end Session

open Machine

/-- Machines with the same core that start without translations run and step alike, whatever
injectors they have and whatever watches them, as long as it only watches. In particular a debugger
without a breakpoint that is switched on runs and steps as the bare machine does. -/
theorem runAlike_watched :
    (∀ {σ τ : Type} {observer : Observer σ} {observer' : Observer τ} {injector? : Option (Injector σ)}
        {injector'? : Option (Injector τ)} {P : σ → Prop} {P' : τ → Prop},
      observer.OnlyWatches injector? P → observer'.OnlyWatches injector'? P' →
      ∀ (c : Core) (s : σ) (s' : τ), P s → P' s' →
        RunAlike observer ⟨⟨c, s⟩, ∅, injector?⟩ observer' ⟨⟨c, s'⟩, ∅, injector'?⟩) ∧
      ∀ d : Debugger, (∀ injector, d.injector? = some injector → injector = Session.injector) →
        d.session.Passive →
        RunAlike Session.observer d.invalidateAll (.silent Unit) ⟨⟨d.core, ()⟩, ∅, none⟩ :=
  ⟨fun ho ho' c _ _ hs hs' => runAlike_fresh ho ho' c hs hs',
    fun d hinjector hd => runAlike_fresh (Session.onlyWatches hinjector) Observer.onlyWatches_silent
      d.core hd trivial⟩

namespace Calling

/-- Five instructions: `jal 0x10`, `nop`, `syscall`, `nop`, `jr $ra`, and a word that stays zero. -/
def image : Image :=
  ⟨0, ⟨#[0x04, 0, 0, 0x0C, 0, 0, 0, 0, 0x0C, 0, 0, 0, 0, 0, 0, 0, 0x08, 0, 0xE0, 0x03]⟩, by decide⟩

/-- Every instruction is told and looked at for a breakpoint, and calls and returns are followed. -/
def plan : Plan := ⟨[.sync, .check], [], [], [.enter], [.leave]⟩

/-- A machine at power-on with the five instructions at address zero, which a recorder watches. -/
def recorded : Machine Recorder := (Machine.powerOn image .fresh).withInjector (some plan.injector)

/-- Recorded, in the debugger and bare, the program runs alike, up to the system call behind the
return. -/
theorem runAlike_calling :
    RunAlike Recorder.observer recorded (.silent Unit) ⟨⟨recorded.core, ()⟩, ∅, none⟩ ∧
      RunAlike Session.observer (Debugger.atReset image).invalidateAll (.silent Unit)
        ⟨⟨(Debugger.atReset image).core, ()⟩, ∅, none⟩ ∧
      faultOf (recorded.execute Recorder.observer 4 0) = some (.architectural .syscall) := by
  refine ⟨?_, ?_, ?_⟩
  · exact runAlike_watched.1 (Recorder.onlyWatches _) Observer.onlyWatches_silent recorded.core
      .fresh () ⟨rfl, rfl⟩ trivial
  · refine runAlike_watched.2 (Debugger.atReset image) (fun injector h => ?_) ⟨fun a => ?_, ?_⟩
    · exact Option.some.inj (h.symm.trans (by rw [Debugger.atReset_eq]; rfl))
    · rw [Breakpoints.hasEnabled_eq, Debugger.atReset_eq]
      change (Breakpoints.resetHits ∅)[a]?.any (·.enabled) = false
      rw [Breakpoints.resetHits, Std.ExtTreeMap.getElem?_map, Std.ExtTreeMap.getElem?_empty]
      rfl
    · rw [Debugger.atReset_eq]
      exact fun l hl => absurd hl List.not_mem_nil
  · unfold recorded
    rw [Machine.powerOn_eq]
    decide +kernel

end Calling

end Debug

end MipsMonitor
