/-!
# Outcomes

A computation with a state ends with an answer or an error, and in a state either way. `Leads` says
something of that state, `Fails` something of an error and the state that it leaves, and `Alike`
relates the outcomes of two computations that give the same answer or the same error. They pass
through sequences (`Leads.bind`, `Fails.bind`, `Alike.bind`), so what holds of steps is carried to
runs.
-/

namespace MipsMonitor

variable {ε α β σ τ : Type}

/-- A sequence goes on with the answer of its first part. -/
theorem bind_apply (x : EStateM ε σ α) (f : α → EStateM ε σ β) (s : σ) :
    (x >>= f) s = match x s with
      | .ok a s' => f a s'
      | .error e s' => .error e s' := by
  change EStateM.bind x f s = _
  unfold EStateM.bind
  cases x s <;> rfl

/-- A sequence gives an answer if both of its parts do. -/
theorem bind_eq_ok {x : EStateM ε σ α} {f : α → EStateM ε σ β} {s s'' : σ} {b : β} :
    (x >>= f) s = .ok b s'' ↔ ∃ a s', x s = .ok a s' ∧ f a s' = .ok b s'' := by
  rw [bind_apply]
  cases x s with
  | ok a s' => exact ⟨fun h => ⟨a, s', rfl, h⟩, fun ⟨_, _, rfl, h⟩ => h⟩
  | error e s' => exact ⟨fun h => (by cases h), fun ⟨_, _, h, _⟩ => (by cases h)⟩

/-- A sequence fails as its first part does, or as the second one does behind it. -/
theorem bind_eq_error {x : EStateM ε σ α} {f : α → EStateM ε σ β} {s s'' : σ} {e : ε} :
    (x >>= f) s = .error e s'' ↔
      x s = .error e s'' ∨ ∃ a s', x s = .ok a s' ∧ f a s' = .error e s'' := by
  rw [bind_apply]
  cases x s with
  | ok a s' =>
    exact ⟨fun h => .inr ⟨a, s', rfl, h⟩, fun h => h.elim (fun h => (by cases h))
      fun ⟨_, _, rfl, h⟩ => h⟩
  | error e' s' =>
    exact ⟨fun h => .inl (by cases h; rfl), fun h => h.elim (fun h => (by cases h; rfl))
      fun ⟨_, _, h, _⟩ => (by cases h)⟩

/-- The state in which a computation ends. -/
def endState : EStateM.Result ε σ α → σ
  | .ok _ s => s
  | .error _ s => s

/-- What is made of an answer leaves the end state alone. -/
theorem endState_bind_pure (x : EStateM ε σ α) (f : α → β) (s : σ) :
    endState ((x >>= fun a => pure (f a)) s) = endState (x s) := by
  rw [bind_apply]
  cases x s <;> rfl

/-- The answer of a computation, if it gives one. -/
def answer? : EStateM.Result ε σ α → Option α
  | .ok a _ => some a
  | .error _ _ => none

/-- An answer comes with the state that the computation ended in. -/
theorem eq_of_answer? {r : EStateM.Result ε σ α} {a : α} (h : answer? r = some a) :
    r = .ok a (endState r) := by
  cases r with
  | ok b s =>
    cases h
    rfl
  | error e s => cases h

/-- What is answered is an outcome with an answer. -/
theorem isSome_answer? {r : EStateM.Result ε σ α} :
    (answer? r).isSome = true ↔ ∃ a s, r = .ok a s := by
  cases r with
  | ok a s => exact ⟨fun _ => ⟨a, s, rfl⟩, fun _ => rfl⟩
  | error e s => exact ⟨fun h => (by cases h), fun ⟨_, _, h⟩ => (by cases h)⟩

/-- What is not answered is an outcome with an error. -/
theorem isNone_answer? {r : EStateM.Result ε σ α} :
    (answer? r).isNone = true ↔ ∃ e s, r = .error e s := by
  cases r with
  | ok a s => exact ⟨fun h => (by cases h), fun ⟨_, _, h⟩ => (by cases h)⟩
  | error e s => exact ⟨fun _ => ⟨e, s, rfl⟩, fun _ => rfl⟩

/-- The state in which a computation ends satisfies `P`. -/
def Leads (P : σ → Prop) : EStateM.Result ε σ α → Prop
  | .ok _ s => P s
  | .error _ s => P s

namespace Leads

/-- What an outcome leads to holds of the state at its end. -/
theorem endState {P : σ → Prop} {r : EStateM.Result ε σ α} (h : Leads P r) : P (endState r) := by
  cases r with
  | ok _ s => exact h
  | error _ s => exact h

/-- What holds of the state at the end is led to. -/
theorem of_endState {P : σ → Prop} {r : EStateM.Result ε σ α} (h : P (MipsMonitor.endState r)) :
    Leads P r := by
  cases r with
  | ok _ s => exact h
  | error _ s => exact h

/-- What an outcome leads to holds behind an answer. -/
theorem of_ok {P : σ → Prop} {r : EStateM.Result ε σ α} (h : Leads P r) {a : α} {s : σ}
    (hr : r = .ok a s) : P s := by
  subst hr
  exact h

/-- An outcome leads to whatever follows from what it leads to. -/
theorem mono {P Q : σ → Prop} {r : EStateM.Result ε σ α} (h : Leads P r) (hPQ : ∀ s, P s → Q s) :
    Leads Q r := by
  cases r with
  | ok _ s => exact hPQ s h
  | error _ s => exact hPQ s h

/-- An outcome leads to both of what it leads to. -/
theorem and {P Q : σ → Prop} {r : EStateM.Result ε σ α} (h : Leads P r) (h' : Leads Q r) :
    Leads (fun s => P s ∧ Q s) r := by
  cases r with
  | ok _ s => exact ⟨h, h'⟩
  | error _ s => exact ⟨h, h'⟩

/-- What a first computation leads to and a second one keeps, their sequence leads to. -/
theorem bind {P Q : σ → Prop} {x : EStateM ε σ α} {f : α → EStateM ε σ β} {s : σ}
    (hx : Leads P (x s)) (herror : ∀ s', P s' → Q s') (hf : ∀ a s', P s' → Leads Q (f a s')) :
    Leads Q ((x >>= f) s) := by
  rw [bind_apply]
  cases h : x s with
  | ok a s' =>
    rw [h] at hx
    exact hf a s' hx
  | error e s' =>
    rw [h] at hx
    exact herror s' hx

end Leads

/-- If a computation ends with an error, `P` holds of the error and the state. -/
def Fails (P : ε → σ → Prop) : EStateM.Result ε σ α → Prop
  | .ok _ _ => True
  | .error e s => P e s

namespace Fails

/-- What is known of a failure holds of the error and of the state it leaves. -/
theorem of_error {P : ε → σ → Prop} {r : EStateM.Result ε σ α} (h : Fails P r) {e : ε} {s : σ}
    (hr : r = .error e s) : P e s := by
  subst hr
  exact h

/-- A failure gives whatever follows from what is known of it. -/
theorem mono {P Q : ε → σ → Prop} {r : EStateM.Result ε σ α} (h : Fails P r)
    (hPQ : ∀ e s, P e s → Q e s) : Fails Q r := by
  cases r with
  | ok _ _ => trivial
  | error e s => exact hPQ e s h

/-- A sequence fails as one of its parts does. -/
theorem bind {P : ε → σ → Prop} {x : EStateM ε σ α} {f : α → EStateM ε σ β} {s : σ}
    (hx : Fails P (x s)) (hf : ∀ a s', x s = .ok a s' → Fails P (f a s')) :
    Fails P ((x >>= f) s) := by
  rw [bind_apply]
  cases h : x s with
  | ok a s' => exact hf a s' h
  | error e s' => exact hx.of_error h

end Fails

/-- Two computations give the same answer, or the same error, in states that `P` relates. -/
inductive Alike (P : σ → τ → Prop) : EStateM.Result ε σ α → EStateM.Result ε τ α → Prop where
  /-- Both give an answer. -/
  | ok {s : σ} {t : τ} (a : α) (h : P s t) : Alike P (.ok a s) (.ok a t)
  /-- Both give an error. -/
  | error {s : σ} {t : τ} (e : ε) (h : P s t) : Alike P (.error e s) (.error e t)

namespace Alike

/-- Outcomes that are alike are two answers or two errors. -/
theorem exists_eq {P : σ → τ → Prop} {r : EStateM.Result ε σ α} {r' : EStateM.Result ε τ α}
    (h : Alike P r r') : (∃ a s t, r = .ok a s ∧ r' = .ok a t ∧ P s t) ∨
      ∃ e s t, r = .error e s ∧ r' = .error e t ∧ P s t := by
  cases h with
  | ok a h => exact .inl ⟨a, _, _, rfl, rfl, h⟩
  | error e h => exact .inr ⟨e, _, _, rfl, rfl, h⟩

/-- Outcomes that are alike end in related states. -/
theorem endState {P : σ → τ → Prop} {r : EStateM.Result ε σ α} {r' : EStateM.Result ε τ α}
    (h : Alike P r r') : P (endState r) (MipsMonitor.endState r') := by
  cases h with
  | ok _ h => exact h
  | error _ h => exact h

/-- Where the second computation gives an answer, the first one does. -/
theorem of_ok {P : σ → τ → Prop} {r : EStateM.Result ε σ α} {a : α} {t : τ}
    (h : Alike P r (.ok a t)) : ∃ s, r = .ok a s ∧ P s t := by
  cases h with
  | ok _ h => exact ⟨_, rfl, h⟩

/-- Where the second computation fails, the first one does. -/
theorem of_error {P : σ → τ → Prop} {r : EStateM.Result ε σ α} {e : ε} {t : τ}
    (h : Alike P r (.error e t)) : ∃ s, r = .error e s ∧ P s t := by
  cases h with
  | error _ h => exact ⟨_, rfl, h⟩

/-- What relates two end states is said of the first one. -/
theorem leads {P : σ → τ → Prop} {r : EStateM.Result ε σ α} {r' : EStateM.Result ε τ α}
    (h : Alike P r r') : Leads (fun s => ∃ t, P s t) r := by
  cases h with
  | ok a h => exact ⟨_, h⟩
  | error e h => exact ⟨_, h⟩

/-- Outcomes that are alike stay so for a wider relation between their states. -/
theorem mono {P Q : σ → τ → Prop} {r : EStateM.Result ε σ α} {r' : EStateM.Result ε τ α}
    (h : Alike P r r') (hPQ : ∀ s t, P s t → Q s t) : Alike Q r r' := by
  cases h with
  | ok a h => exact .ok a (hPQ _ _ h)
  | error e h => exact .error e (hPQ _ _ h)

/-- Likeness of a second computation to a first one. -/
theorem symm {P : σ → τ → Prop} {Q : τ → σ → Prop} {r : EStateM.Result ε σ α}
    {r' : EStateM.Result ε τ α} (h : Alike P r r') (hPQ : ∀ s t, P s t → Q t s) : Alike Q r' r := by
  cases h with
  | ok a h => exact .ok a (hPQ _ _ h)
  | error e h => exact .error e (hPQ _ _ h)

/-- Likeness passes on from a second computation to a third one. -/
theorem trans {υ : Type} {P : σ → τ → Prop} {Q : τ → υ → Prop} {R : σ → υ → Prop}
    {r : EStateM.Result ε σ α} {r' : EStateM.Result ε τ α} {r'' : EStateM.Result ε υ α}
    (h : Alike P r r') (h' : Alike Q r' r'') (hR : ∀ s t u, P s t → Q t u → R s u) :
    Alike R r r'' := by
  cases h with
  | ok a hst =>
    cases h' with
    | ok _ htu => exact .ok a (hR _ _ _ hst htu)
  | error e hst =>
    cases h' with
    | error _ htu => exact .error e (hR _ _ _ hst htu)

/-- What the second computation leads to holds of the second end state. -/
theorem and_right {P : σ → τ → Prop} {Q : τ → Prop} {r : EStateM.Result ε σ α}
    {r' : EStateM.Result ε τ α} (h : Alike P r r') (hQ : Leads Q r') :
    Alike (fun s t => P s t ∧ Q t) r r' := by
  cases h with
  | ok a h => exact .ok a ⟨h, hQ⟩
  | error e h => exact .error e ⟨h, hQ⟩

/-- What the first computation leads to holds of the first end state. -/
theorem and_left {P : σ → τ → Prop} {Q : σ → Prop} {r : EStateM.Result ε σ α}
    {r' : EStateM.Result ε τ α} (h : Alike P r r') (hQ : Leads Q r) :
    Alike (fun s t => P s t ∧ Q s) r r' := by
  cases h with
  | ok a h => exact .ok a ⟨h, hQ⟩
  | error e h => exact .error e ⟨h, hQ⟩

/-- Sequences of like computations are alike. -/
theorem bind {P Q : σ → τ → Prop} {x : EStateM ε σ α} {y : EStateM ε τ α} {f : α → EStateM ε σ β}
    {g : α → EStateM ε τ β} {s : σ} {t : τ} (hx : Alike P (x s) (y t))
    (herror : ∀ s' t', P s' t' → Q s' t') (hf : ∀ a s' t', P s' t' → Alike Q (f a s') (g a t')) :
    Alike Q ((x >>= f) s) ((y >>= g) t) := by
  rw [bind_apply, bind_apply]
  obtain ⟨a, s', t', hxs, hyt, h⟩ | ⟨e, s', t', hxs, hyt, h⟩ := hx.exists_eq
  · rw [hxs, hyt]
    exact hf a s' t' h
  · rw [hxs, hyt]
    exact .error e (herror s' t' h)

/-- Outcomes that are alike once something is made of the second answer. -/
theorem exists_eq_map {P : σ → τ → Prop} {r : EStateM.Result ε σ β} {y : EStateM ε τ α} {t : τ}
    {f : α → β} (h : Alike P r ((y >>= fun a => pure (f a)) t)) :
    (∃ a s t', r = .ok (f a) s ∧ y t = .ok a t' ∧ P s t') ∨
      ∃ e s t', r = .error e s ∧ y t = .error e t' ∧ P s t' := by
  rw [bind_apply] at h
  cases hy : y t with
  | ok a t' =>
    rw [hy] at h
    obtain ⟨s, hr, hP⟩ := h.of_ok
    exact .inl ⟨a, s, t', hr, rfl, hP⟩
  | error e t' =>
    rw [hy] at h
    obtain ⟨s, hr, hP⟩ := h.of_error
    exact .inr ⟨e, s, t', hr, rfl, hP⟩

/-- What is made of like answers is alike. -/
theorem bind_pure {P : σ → τ → Prop} {x : EStateM ε σ α} {y : EStateM ε τ α} {s : σ} {t : τ}
    (h : Alike P (x s) (y t)) (f : α → β) :
    Alike P ((x >>= fun a => pure (f a)) s) ((y >>= fun a => pure (f a)) t) :=
  bind h (fun _ _ h => h) fun a _ _ h => .ok (f a) h

end Alike

end MipsMonitor
