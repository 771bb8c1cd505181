import MipsMonitor.Proofs.Machine.Cycles

/-!
# Instants

What steps come to, instruction by instruction. An instant is an instruction that is about to take
effect: its address, its operation, and the guest as the actions before it leave it (`Instant`). The
instants of some steps end with the instruction that raises a signal, if one does, and do not
include an instruction whose own actions stop the program (`Block.instants`).

A relation between two guests and the instants between them that holds of each single step holds of
any number of them (`Block.Recounts.runSteps`).
-/

namespace MipsMonitor

variable {σ : Type}

/-- An instruction about to take effect. -/
structure Instant (σ : Type) where
  /-- The guest, behind the actions before the instruction. -/
  guest : Guest σ
  /-- The address of the instruction. -/
  address : Word
  /-- What it asks for. -/
  operation : Operation

namespace Instant

/-- What the instruction comes to. -/
def effect (i : Instant σ) : Except Trap Effect :=
  i.operation.effect i.address i.guest.core.registers i.guest.core.view?

end Instant

namespace Block

/-- The instructions of steps that take effect, one behind the other. -/
def instants (observer : Observer σ) : List Step → Guest σ → List (Instant σ)
  | [], _ => []
  | s :: rest, g =>
    match g.actAll observer s.address s.actions with
    | .error _ _ => []
    | .ok _ g₁ =>
      ⟨g₁, s.address, s.operation⟩ ::
        match g₁.perform observer s.address s.operation with
        | .error _ _ => []
        | .ok _ g₂ => instants observer rest g₂

variable {observer : Observer σ}

/-- A step takes effect once the actions before it are carried out. -/
theorem instants_singleton {s : Step} {g g₁ : Guest σ} {u : Unit}
    (h : g.actAll observer s.address s.actions = .ok u g₁) :
    instants observer [s] g = [⟨g₁, s.address, s.operation⟩] := by
  simp only [instants, h]
  cases g₁.perform observer s.address s.operation <;> rfl

/-- A step whose actions stop the program does not take effect. -/
theorem instants_stopped {s : Step} {g g₁ : Guest σ} {e : Signal}
    (h : g.actAll observer s.address s.actions = .error e g₁) : instants observer [s] g = [] := by
  simp only [instants, h]

/-- The instants of the first step come first. -/
theorem instants_cons (s : Step) (rest : List Step) (g : Guest σ) :
    instants observer (s :: rest) g = instants observer [s] g ++
      match s.run observer g with
      | .error _ _ => []
      | .ok _ g' => instants observer rest g' := by
  simp only [instants, Step.run, bind_apply]
  cases g.actAll observer s.address s.actions with
  | error e g₁ => rfl
  | ok u g₁ =>
    simp only
    cases g₁.perform observer s.address s.operation <;> rfl

/-- A relation between two guests and the instants between them holds of every step of some kind,
and of steps one behind the other. -/
structure Recounts (observer : Observer σ) (P : Step → Prop)
    (R : List (Instant σ) → Guest σ → Guest σ → Prop) : Prop where
  /-- It holds where nothing happens. -/
  refl : ∀ g, R [] g g
  /-- It holds of what happens in two goes. -/
  trans : ∀ {xs ys g g' g''}, R xs g g' → R ys g' g'' → R (xs ++ ys) g g''
  /-- It holds of a single step. -/
  step : ∀ {s}, P s → ∀ g, Leads (R (instants observer [s] g) g) (s.run observer g)

/-- What recounts single steps recounts steps one behind the other, however they end. -/
theorem Recounts.runSteps {P : Step → Prop} {R : List (Instant σ) → Guest σ → Guest σ → Prop}
    (hR : Recounts observer P R) {steps : List Step} (hsteps : ∀ s ∈ steps, P s) (exit : Exit)
    (g : Guest σ) : Leads (R (instants observer steps g) g) (runSteps observer exit steps g) := by
  induction steps generalizing exit g with
  | nil => exact hR.refl g
  | cons s rest ih =>
    have hfirst := hR.step (hsteps s List.mem_cons_self) g
    rw [instants_cons, runSteps_cons]
    cases hrun : s.run observer g with
    | error e g' =>
      rw [hrun] at hfirst
      simp only [List.append_nil]
      exact hfirst
    | ok flow g' =>
      rw [hrun] at hfirst
      -- Behind the first step the rest is run from the guest that it leaves.
      have hrest := ih (fun t ht => hsteps t (List.mem_cons_of_mem s ht)) (exit.after flow) g'
      exact hrest.mono fun _ h => hR.trans hfirst h

end Block

end MipsMonitor
