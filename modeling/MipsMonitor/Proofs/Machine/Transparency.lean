import MipsMonitor.Proofs.Machine.Coherence
import MipsMonitor.Proofs.Machine.PowerOn

/-!
# Translations do not show

What a machine reaches from power-on by runs and single steps has good translations, as long as no
block on the way misses (`Machine.Reached.coherent`), and then a run cannot tell whether anything
was translated before (`Machine.execute_alike_invalidateAll`).

The condition cannot be left out. `Stale.machine` stores an instruction through the second copy of
main memory over one that was executed at its address in the first copy; a run from there still
executes what was there before (`Stale.translation_shows`).
-/

namespace MipsMonitor

variable {σ : Type}

/-- What went wrong in the end, if something did. -/
def faultOf {α : Type} : EStateM.Result Signal σ α → Option Fault
  | .error (.trap t) _ => t.cause?
  | _ => none

namespace Machine

/-- The machines that power-on, runs and single steps lead to while no block misses. Between two of
them the context may change in anything that the injector does not look at. -/
inductive Reached : Machine σ → Prop where
  /-- At power-on. -/
  | reset (v : View Ram) (m : Machine σ) : Reached (m.reset v)
  /-- With another context. -/
  | context {m : Machine σ} (hm : Reached m) (s : σ)
      (hchoose : (m.onContext fun _ => s).choose = m.choose) : Reached (m.onContext fun _ => s)
  /-- Behind a run, whatever ends it. -/
  | execute {m : Machine σ} (hm : Reached m) {observer : Observer σ}
      (ho : observer.Steady m.injector?) {pc : Word} (hclean : m.resumed.Clean observer pc)
      (fuel : Nat) : Reached (endState (m.execute observer fuel pc))
  /-- Behind a single step. -/
  | executeOne {m : Machine σ} (hm : Reached m) {observer : Observer σ}
      (ho : observer.Steady m.injector?) {pc : Word}
      (hclean : ∀ b n, translate .single pc m = .ok b n → ¬ n.Misses observer b) :
      Reached (endState (m.executeOne observer pc))

/-- A machine shadows itself. -/
theorem Shadows.refl (m : Machine σ) : m.Shadows m :=
  ⟨⟨⟨rfl, rfl, rfl, rfl⟩, rfl⟩, rfl, fun _ _ h => h⟩

/-- A translation keeps the others as good as they are. -/
theorem Coherent.translate {m : Machine σ} (h : m.Coherent) (extent : Extent) (start : Word) :
    Leads (fun n => n.Coherent ∧ n.injector? = m.injector?) (translate extent start m) :=
  leads_translate ⟨h, rfl⟩ ⟨h.onCore rfl, rfl⟩
    (fun entries => ⟨h.onCore (m.core.view?_note entries), rfl⟩) extent start

/-- In every machine reached, each translation is what translating again would give. -/
theorem Reached.coherent {m : Machine σ} (h : m.Reached) : m.Coherent := by
  induction h with
  | reset v m =>
    intro start b hb
    rw [Machine.reset, Std.ExtTreeMap.getElem?_empty] at hb
    cases hb
  -- What is translated depends on the context through the choice of actions only.
  | context hm s hchoose ih =>
    intro start b hb
    obtain ⟨v, hv, htranslate⟩ := ih start b hb
    exact ⟨v, hv, hchoose ▸ htranslate⟩
  | @execute m hm observer ho pc hclean fuel ih =>
    have hrun := Shadows.alike_invoke (.refl m.resumed) (ih.onCore rfl) ho hclean .start fuel
    obtain ⟨_, -, hcoherent⟩ := hrun.leads.endState
    exact hcoherent
  | @executeOne m hm observer ho pc hclean ih =>
    have htranslate := ih.translate .single pc
    unfold Machine.executeOne
    rw [bind_apply]
    cases hb : Machine.translate .single pc m with
    | error s n =>
      rw [hb] at htranslate
      exact htranslate.1
    | ok b n =>
      rw [hb] at htranslate
      obtain ⟨hn, hinjector⟩ := htranslate
      have hrun := hn.runBlock (hinjector ▸ ho) (hclean b n hb)
      simp only
      rw [bind_apply]
      cases hr : Machine.runBlock observer b n <;> rw [hr] at hrun <;> exact hrun

/-- In a machine reached from power-on, a run that misses nothing ends as it would with all
translations dropped first: with the same answer or signal, the same registers and memory and the
same context, hence after the same calls of the observer. It leaves translations that are as good as
new. -/
theorem execute_alike_invalidateAll {m : Machine σ} (hm : m.Reached) {observer : Observer σ}
    (ho : observer.Steady m.injector?) {pc : Word} (hclean : m.resumed.Clean observer pc)
    (fuel : Nat) :
    Alike (fun n n' => n.guest.Agree (· = ·) (· = ·) n'.guest ∧ n.Coherent)
      (m.execute observer fuel pc) (m.invalidateAll.execute observer fuel pc) := by
  rw [execute_eq, execute_eq]
  have hshadows : m.resumed.Shadows m.invalidateAll.resumed := by
    refine ⟨⟨⟨rfl, rfl, rfl, rfl⟩, rfl⟩, rfl, fun start b hb => ?_⟩
    have hb : (∅ : Translations)[start]? = some b := hb
    rw [Std.ExtTreeMap.getElem?_empty] at hb
    cases hb
  have hrun := hshadows.alike_invoke (hm.coherent.onCore rfl) ho hclean .start fuel
  exact hrun.mono fun _ _ ⟨hs, hc⟩ => ⟨hs.guest, hc⟩

/-- What the first block of a run stores to. -/
def stored (observer : Observer σ) (pc : Word) (m : Machine σ) : List Word :=
  match blockAt pc m with
  | .ok b n => (endState (b.run observer n.guest)).core.written
  | .error _ _ => []

/-- A run that ends with its first block is clean if the block stores nothing. -/
theorem clean_of_pass {observer : Observer σ} {pc : Word} {m : Machine σ}
    (hpass : (faultOf (pass observer pc m)).isSome = true) (hstored : m.stored observer pc = []) :
    m.Clean observer pc := by
  -- The first pass does not complete, so the run visits nothing but its start.
  have hstart {m' : Machine σ} {pc' : Word} {depth : Nat}
      (hvisits : Visits observer m pc m' pc' depth) : m' = m ∧ pc' = pc := by
    induction hvisits with
    | start => exact ⟨rfl, rfl⟩
    | pass _ hok _ ih =>
      obtain ⟨rfl, rfl⟩ := ih
      rw [hok] at hpass
      cases hpass
  intro m' pc' depth hvisits b n hb ⟨a, ha, _⟩
  obtain ⟨rfl, rfl⟩ := hstart hvisits
  simp only [stored, hb] at hstored
  rw [hstored] at ha
  cases ha

end Machine

/-- The observer that keeps silent leaves alone what an injector looks at. -/
theorem Observer.steady_silent (injector? : Option (Injector σ)) :
    (Observer.silent σ).Steady injector? := fun _ =>
  ⟨fun _ _ h => h, fun _ _ h => h, fun _ _ h => h, fun _ h => h, fun _ _ _ _ h => h⟩

namespace Stale

/-- Four instructions: `syscall`, `lui $t0, 0x20`, `ori $t1, $zero, 0x0d`, `sb $t1, 0($t0)`. The
last one turns the first one into `break`, through the second copy of main memory. -/
def image : Image :=
  ⟨0, ⟨#[0x0C, 0, 0, 0, 0x20, 0, 0x08, 0x3C, 0x0D, 0, 0x09, 0x34, 0, 0, 0x09, 0xA1]⟩, by decide⟩

/-- A machine at power-on with the four instructions at address zero. -/
def powerOn : Machine Unit := Machine.powerOn image ()

/-- Behind a run from the first instruction, which traps. -/
def executed : Machine Unit := endState (powerOn.execute (.silent Unit) 1 0)

/-- Behind single steps over the three others. -/
def overwritten : Machine Unit :=
  [4, 8, 12].foldl (fun m pc => endState (m.executeOne (.silent Unit) pc)) executed

/-- The machine of the example is reached. -/
theorem reached_executed : executed.Reached := by
  have hpowerOn : powerOn.Reached := by
    unfold powerOn Machine.powerOn
    exact .reset _ _
  have hclean : powerOn.resumed.Clean (.silent Unit) 0 := by
    rw [powerOn, Machine.powerOn_eq]
    exact Machine.clean_of_pass (by decide +kernel) (by decide +kernel)
  exact .execute hpowerOn (Observer.steady_silent _) hclean 1

/-- The machine of the example is clean where it runs next. -/
theorem clean_executed : executed.resumed.Clean (.silent Unit) 0 := by
  unfold executed
  rw [powerOn, Machine.powerOn_eq]
  exact Machine.clean_of_pass (by decide +kernel) (by decide +kernel)

/-- The run from the first instruction again, with its translation kept or dropped. -/
theorem execute_alike_executed :
    Alike (fun n n' => n.guest.Agree (· = ·) (· = ·) n'.guest ∧ n.Coherent)
      (executed.execute (.silent Unit) 1 0) (executed.invalidateAll.execute (.silent Unit) 1 0) :=
  Machine.execute_alike_invalidateAll reached_executed (Observer.steady_silent _) clean_executed 1

/-- The run from the first instruction still executes `syscall`, but `break` once translations are
dropped. -/
theorem translation_shows :
    faultOf (overwritten.execute (.silent Unit) 1 0) = some (.architectural .syscall) ∧
      faultOf (overwritten.invalidateAll.execute (.silent Unit) 1 0) =
        some (.architectural .breakpoint) := by
  unfold overwritten executed
  rw [powerOn, Machine.powerOn_eq]
  decide +kernel

end Stale

end MipsMonitor
