import MipsMonitor.Machine.Basic
import MipsMonitor.Proofs.Outcome
import Mathlib.Data.List.Forall2

/-!
# Rules for what executes

One rule for each part of the machine that is made of other parts. What holds of the parts, from
whatever state they begin in, holds of the whole: of actions carried out one behind the other
(`Guest.leads_actAll`), of an operation, which reports what it reads, writes registers and changes
something beyond them (`Guest.leads_perform`), and of the steps of a block (`Block.leads_runSteps`).
Beside the rules for the state in which something ends there are those for the signal that it ends
with (`Block.fails_runSteps`) and for two machines side by side (`Block.alike_runSteps`).

Translating and looking a block up have no parts. What they do is listed case by case instead
(`Machine.translate_eq_ok`, `Machine.translate_eq_error`, `Machine.blockAt_eq_ok`,
`Machine.blockAt_eq_error`), and the rules for a single step (`Machine.leads_executeOne`) leave these
cases to whoever applies them.
-/

namespace MipsMonitor

variable {σ τ : Type} {observer : Observer σ} {observer' : Observer τ}

/-! ## Actions and operations -/

namespace Guest

variable {g : Guest σ} {u : Guest τ} {a pc : Word} {actions : List Action} {op : Operation}

/-- Of a processor, an action changes what the notices of the observer ask for. -/
theorem leads_act {P : Core → Prop} (hheed : ∀ notices, P (List.foldl Core.heed g.core notices))
    (a : Word) (action : Action) : Leads (fun g' => P g'.core) (g.act observer a action) := by
  -- A check changes the context alone; the other actions hand their notices to the core.
  cases action with
  | sync => exact hheed _
  | check =>
    simp only [act]
    split <;> exact hheed _
  | enter callSite => exact hheed _
  | leave => exact hheed _

/-- What every action keeps is kept by actions one behind the other. -/
theorem leads_actAll {P : Guest σ → Prop} (h : P g)
    (hact : ∀ action ∈ actions, ∀ g, P g → Leads P (g.act observer a action)) :
    Leads P (g.actAll observer a actions) := by
  induction actions generalizing g with
  | nil => exact h
  | cons action actions ih =>
    obtain ⟨hfirst, hrest⟩ := List.forall_mem_cons.mp hact
    unfold actAll
    exact Leads.bind (hfirst g h) (fun _ h => h) fun _ _ h => ih h hrest

/-- Actions fail as one of them does. -/
theorem fails_actAll {P : Signal → Guest σ → Prop}
    (hact : ∀ action ∈ actions, ∀ g : Guest σ, Fails P (g.act observer a action)) (g : Guest σ) :
    Fails P (g.actAll observer a actions) := by
  induction actions generalizing g with
  | nil => trivial
  | cons action actions ih =>
    obtain ⟨hfirst, hrest⟩ := List.forall_mem_cons.mp hact
    unfold actAll
    exact Fails.bind (hfirst g) fun _ g' _ => ih hrest g'

/-- Actions that are carried out alike one by one are so in sequence. -/
theorem alike_actAll {P : Guest σ → Guest τ → Prop} (h : P g u)
    (hact : ∀ action ∈ actions, ∀ g u, P g u →
      Alike P (g.act observer a action) (u.act observer' a action)) :
    Alike P (g.actAll observer a actions) (u.actAll observer' a actions) := by
  induction actions generalizing g u with
  | nil => exact .ok () h
  | cons action actions ih =>
    obtain ⟨hfirst, hrest⟩ := List.forall_mem_cons.mp hact
    unfold actAll
    exact Alike.bind (hfirst g u h) (fun _ _ h => h) fun _ _ _ h => ih h hrest

/-- A write to a register leaves the registers that the observer gives back, and a core that has
heeded it. -/
theorem holds_write {P : Core → Prop} {t : Tracked} {w : Word} (h : P g.core)
    (hset : t ≠ .zero →
      P { g.core with registers := (observer.write g.context g.core.registers t w).2.2 })
    (hheed : ∀ c notices, P c → P (List.foldl Core.heed c notices)) :
    P (g.write observer t w).core := by
  unfold write
  by_cases ht : t = .zero
  · rw [if_pos ht]
    exact h
  · rw [if_neg ht]
    exact hheed _ _ (hset ht)

/-- What each write to a register keeps is kept by all of them. -/
theorem writes_induction {P : Guest σ → Prop} (h : P g) (writes : List (Tracked × Word))
    (hwrite : ∀ t w g, P g → P (g.write observer t w)) :
    P (writes.foldl (fun g (t, w) => g.write observer t w) g) := by
  induction writes generalizing g with
  | nil => exact h
  | cons tw writes ih => exact ih (hwrite tw.1 tw.2 g h)

/-- What each write to a register keeps of two guests is kept by all of them. -/
theorem writes_induction₂ {P : Guest σ → Guest τ → Prop} (h : P g u) (writes : List (Tracked × Word))
    (hwrite : ∀ t w g u, P g u → P (g.write observer t w) (u.write observer' t w)) :
    P (writes.foldl (fun g (t, w) => g.write observer t w) g)
      (writes.foldl (fun u (t, w) => u.write observer' t w) u) := by
  induction writes generalizing g u with
  | nil => exact h
  | cons tw writes ih => exact ih (hwrite tw.1 tw.2 g u h)

/-- A store that is refused raises a trap. -/
theorem leads_store {P : Core → Prop} {bs : List UInt8} {flow : Flow}
    (hstore : Leads P (g.core.store a bs))
    (htrap : ∀ t (g : Guest σ), P g.core → Leads (fun g' => P g'.core) (g.trap t)) :
    Leads (fun g' => P g'.core) (g.change pc (.store a bs) flow) := by
  simp only [change]
  cases h : g.core.store a bs with
  | ok u core => exact hstore.of_ok h
  | error e core =>
    rw [h] at hstore
    exact htrap (e.trap pc) ⟨core, g.context⟩ hstore

/-- An operation ends as what it comes to at last: a trap, if it has no effect, and otherwise its
change outside of the watched registers, if there is one. Up to there it has reported what it reads
and has written registers. -/
theorem leads_perform {P Q : Guest σ → Prop} (hnotes : Q (g.noteReads op))
    (hwrite : ∀ t w g, Q g → Q (g.write observer t w))
    (htrap : ∀ t g', Q g' → Leads P (g'.trap t))
    (hdone : ∀ e g', op.effect pc (g.noteReads op).core.registers (g.noteReads op).core.view? = .ok e →
      e.change? = none → Q g' → P g')
    (hchange : ∀ e what g',
      op.effect pc (g.noteReads op).core.registers (g.noteReads op).core.view? = .ok e →
      e.change? = some what → Q g' → Leads P (g'.change pc what e.flow)) :
    Leads P (g.perform observer pc op) := by
  simp only [perform]
  cases he : op.effect pc (g.noteReads op).core.registers (g.noteReads op).core.view? with
  | error t => exact htrap t _ hnotes
  | ok e =>
    -- The writes come first, so what they keep holds where the change is made.
    have hwrites := writes_induction hnotes e.writes hwrite
    simp only
    cases hc : e.change? with
    | none => exact hdone e _ he hc hwrites
    | some what => exact hchange e what _ he hc hwrites

end Guest

/-! ## Steps -/

namespace Block

variable {g : Guest σ} {u : Guest τ} {steps steps' : List Step}

/-- What every step keeps is kept by steps one behind the other. -/
theorem leads_runSteps {P : Guest σ → Prop} (h : P g)
    (hstep : ∀ s ∈ steps, ∀ g, P g → Leads P (s.run observer g)) (exit : Exit) :
    Leads P (runSteps observer exit steps g) := by
  induction steps generalizing exit g with
  | nil => exact h
  | cons s steps ih =>
    obtain ⟨hfirst, hrest⟩ := List.forall_mem_cons.mp hstep
    unfold runSteps
    refine Leads.bind (hfirst g h) (fun _ h => h) fun flow _ h => ?_
    cases flow with
    | next => exact ih h hrest exit
    | jump target transfer => exact ih h hrest ⟨target, transfer⟩

/-- What every step keeps is kept by a block. -/
theorem leads_run {P : Guest σ → Prop} {b : Block} (h : P g)
    (hstep : ∀ s ∈ b.steps, ∀ g, P g → Leads P (s.run observer g)) : Leads P (b.run observer g) :=
  leads_runSteps h hstep ⟨b.stop, .plain⟩

/-- Steps fail as one of them does. -/
theorem fails_runSteps {P : Signal → Guest σ → Prop}
    (hstep : ∀ s ∈ steps, ∀ g : Guest σ, Fails P (s.run observer g)) (exit : Exit) (g : Guest σ) :
    Fails P (runSteps observer exit steps g) := by
  induction steps generalizing exit g with
  | nil => trivial
  | cons s steps ih =>
    obtain ⟨hfirst, hrest⟩ := List.forall_mem_cons.mp hstep
    unfold runSteps
    refine Fails.bind (hfirst g) fun flow g' _ => ?_
    cases flow with
    | next => exact ih hrest exit g'
    | jump target transfer => exact ih hrest ⟨target, transfer⟩ g'

/-- Steps that run alike one by one do so in sequence. -/
theorem alike_runSteps {P : Guest σ → Guest τ → Prop} (h : P g u)
    (hstep : List.Forall₂ (fun s s' => ∀ g u, P g u → Alike P (s.run observer g) (s'.run observer' u))
      steps steps') (exit : Exit) :
    Alike P (runSteps observer exit steps g) (runSteps observer' exit steps' u) := by
  induction hstep generalizing exit g u with
  | nil => exact .ok exit h
  | cons hfirst _ ih =>
    unfold runSteps
    refine Alike.bind (hfirst g u h) (fun _ _ h => h) fun flow _ _ h => ?_
    cases flow with
    | next => exact ih h exit
    | jump target transfer => exact ih h ⟨target, transfer⟩

end Block

/-! ## Machines -/

namespace Machine

variable {m n : Machine σ} {u : Machine τ} {b b' : Block} {pc : Word} {e : Signal}

/-- Translating reports what is fetched, and changes nothing else, unless there is no memory. -/
theorem translate_noting (extent : Extent) (start : Word) (m : Machine σ) :
    translate extent start m = match m.core.view? with
      | none => .error (.trap (.detached start)) (m.onCore Core.requestStop)
      | some v =>
        match Block.translate v.backing m.choose extent start with
        | .error t => .error (.trap t) m
        | .ok b => .ok b (m.onCore (Core.note · (b.fetchNotes v.backing))) := by
  unfold translate
  cases m.core.view? with
  | none => rfl
  | some v =>
    simp only
    cases Block.translate v.backing m.choose extent start with
    | error t => rfl
    | ok b =>
      simp only
      -- To note nothing is to leave the core alone.
      split
      · next hnone => simp only [onCore, Core.note, hnone, if_true]
      · rfl

/-- Translating changes nothing but the log, unless there is no memory. -/
theorem translate_eq (extent : Extent) (start : Word) (m : Machine σ) :
    ∃ entries, translate extent start m = match m.core.view? with
      | none => .error (.trap (.detached start)) (m.onCore Core.requestStop)
      | some v =>
        match Block.translate v.backing m.choose extent start with
        | .error t => .error (.trap t) m
        | .ok b => .ok b (m.onCore (Core.note · entries)) := by
  rw [translate_noting]
  cases m.core.view? with
  | none => exact ⟨[], rfl⟩
  | some v =>
    simp only
    cases Block.translate v.backing m.choose extent start with
    | error t => exact ⟨[], rfl⟩
    | ok b => exact ⟨_, rfl⟩

/-- A block that is translated is one of memory. -/
theorem translate_eq_ok {extent : Extent} (h : translate extent pc m = .ok b n) :
    ∃ v entries, m.core.view? = some v ∧ Block.translate v.backing m.choose extent pc = .ok b ∧
      n = m.onCore (Core.note · entries) := by
  obtain ⟨entries, heq⟩ := translate_eq extent pc m
  rw [heq] at h
  cases hv : m.core.view? with
  | none =>
    rw [hv] at h
    cases h
  | some v =>
    -- Without a view, or without a block, there is no success.
    simp only [hv] at h
    cases htranslate : Block.translate v.backing m.choose extent pc with
    | error t =>
      rw [htranslate] at h
      cases h
    | ok b' =>
      rw [htranslate] at h
      cases h
      exact ⟨v, entries, rfl, htranslate, rfl⟩

/-- Without memory there is nothing to translate and a stop is requested, and otherwise the address is
to blame. -/
theorem translate_eq_error {extent : Extent} (h : translate extent pc m = .error e n) :
    (m.core.view? = none ∧ e = .trap (.detached pc) ∧ n = m.onCore Core.requestStop) ∨
      ∃ v t, m.core.view? = some v ∧ Block.translate v.backing m.choose extent pc = .error t ∧
        e = .trap t ∧ n = m := by
  obtain ⟨entries, heq⟩ := translate_eq extent pc m
  rw [heq] at h
  cases hv : m.core.view? with
  | none =>
    rw [hv] at h
    cases h
    exact .inl ⟨rfl, rfl, rfl⟩
  | some v =>
    simp only [hv] at h
    cases htranslate : Block.translate v.backing m.choose extent pc with
    | ok b =>
      rw [htranslate] at h
      cases h
    | error t =>
      rw [htranslate] at h
      cases h
      exact .inr ⟨v, t, rfl, htranslate, rfl, rfl⟩

/-- Translating keeps what reports and requests to stop do not touch. -/
theorem leads_translate {P : Machine σ → Prop} (h : P m) (hstop : P (m.onCore Core.requestStop))
    (hnote : ∀ entries, P (m.onCore (Core.note · entries))) (extent : Extent) (start : Word) :
    Leads P (translate extent start m) := by
  cases htranslate : translate extent start m with
  | error e n =>
    obtain ⟨-, -, rfl⟩ | ⟨v, t, -, -, -, rfl⟩ := translate_eq_error htranslate
    · exact hstop
    · exact h
  | ok b n =>
    obtain ⟨v, entries, -, -, rfl⟩ := translate_eq_ok htranslate
    exact hnote entries

/-- What cannot be translated traps. -/
theorem traps_translate (extent : Extent) (start : Word) (m : Machine σ) :
    Fails (fun e _ => ∃ t, e = .trap t) (translate extent start m) := by
  cases h : translate extent start m with
  | ok b n => trivial
  | error e n =>
    obtain ⟨-, rfl, -⟩ | ⟨v, t, -, -, rfl, -⟩ := translate_eq_error h
    · exact ⟨_, rfl⟩
    · exact ⟨t, rfl⟩

/-- Looking a block up finds one that is kept, or translates one and keeps it. -/
theorem blockAt_of_ok (h : blockAt pc m = .ok b n) :
    (m.blocks[pc]? = some b ∧ n = m) ∨ m.blocks[pc]? = none ∧
      ∃ n', translate .block pc m = .ok b n' ∧
        n = ⟨n'.guest, n'.blocks.insert pc b, n'.injector?⟩ := by
  unfold blockAt at h
  cases hb : m.blocks[pc]? with
  | some b' =>
    simp only [hb] at h
    cases h
    exact .inl ⟨rfl, rfl⟩
  | none =>
    simp only [hb] at h
    cases htranslate : translate .block pc m with
    | error e n' =>
      rw [htranslate] at h
      cases h
    | ok b' n' =>
      rw [htranslate] at h
      cases h
      exact .inr ⟨rfl, n', rfl, rfl⟩

/-- Looking a block up fails where none is kept and none can be translated. -/
theorem blockAt_of_error (h : blockAt pc m = .error e n) :
    m.blocks[pc]? = none ∧ translate .block pc m = .error e n := by
  unfold blockAt at h
  cases hb : m.blocks[pc]? with
  | some b =>
    simp only [hb] at h
    cases h
  | none =>
    simp only [hb] at h
    cases htranslate : translate .block pc m with
    | ok b n' =>
      rw [htranslate] at h
      cases h
    | error e' n' =>
      rw [htranslate] at h
      cases h
      exact ⟨rfl, rfl⟩

/-- Looking a block up adds to the log and to the translations, if it finds or makes the block. -/
theorem blockAt_eq_ok (h : blockAt pc m = .ok b n) :
    (m.blocks[pc]? = some b ∧ n = m) ∨
      ∃ v entries, m.core.view? = some v ∧ Block.translate v.backing m.choose .block pc = .ok b ∧
        n = ⟨⟨m.core.note entries, m.context⟩, m.blocks.insert pc b, m.injector?⟩ := by
  obtain hkept | ⟨-, n', htranslate, hn⟩ := blockAt_of_ok h
  · exact .inl hkept
  · obtain ⟨v, entries, hv, hb, rfl⟩ := translate_eq_ok htranslate
    exact .inr ⟨v, entries, hv, hb, hn⟩

/-- Looking a block up fails by a trap, and at most requests a stop. -/
theorem blockAt_eq_error (h : blockAt pc m = .error e n) :
    (∃ t, e = .trap t) ∧ (n = m ∨ n = m.onCore Core.requestStop) := by
  obtain ⟨-, rfl, rfl⟩ | ⟨v, t, -, -, rfl, rfl⟩ := translate_eq_error (blockAt_of_error h).2
  · exact ⟨⟨_, rfl⟩, .inr rfl⟩
  · exact ⟨⟨t, rfl⟩, .inl rfl⟩

/-- A block runs on the guest, and what follows it on the machine. -/
theorem runBlock_eq (observer : Observer σ) (b : Block) (m : Machine σ) :
    runBlock observer b m = match b.run observer m.guest with
      | .ok exit g => .ok exit (settle b.length ⟨g, m.blocks, m.injector?⟩)
      | .error s g => .error s (settle b.length ⟨g, m.blocks, m.injector?⟩) := rfl

/-- What a block leads to on the guest and what follows it makes of that. -/
theorem leads_runBlock {Q : Guest σ → Prop} {P : Machine σ → Prop}
    (hrun : Leads Q (b.run observer m.guest))
    (hsettle : ∀ g, Q g → P (settle b.length ⟨g, m.blocks, m.injector?⟩)) :
    Leads P (runBlock observer b m) := by
  rw [runBlock_eq]
  cases h : b.run observer m.guest with
  | ok exit g => exact hsettle g (hrun.of_ok h)
  | error e g =>
    rw [h] at hrun
    exact hsettle g hrun

/-- A block fails on the machine as it does on the guest. -/
theorem fails_runBlock {Q : Signal → Guest σ → Prop} {P : Signal → Machine σ → Prop}
    (hrun : Fails Q (b.run observer m.guest))
    (hsettle : ∀ e g, Q e g → P e (settle b.length ⟨g, m.blocks, m.injector?⟩)) :
    Fails P (runBlock observer b m) := by
  rw [runBlock_eq]
  cases h : b.run observer m.guest with
  | ok exit g => trivial
  | error e g => exact hsettle e g (hrun.of_error h)

/-- Blocks that run alike on the guests do so on the machines if what follows them does not undo it. -/
theorem alike_runBlock {Q : Guest σ → Guest τ → Prop} {P : Machine σ → Machine τ → Prop}
    (hrun : Alike Q (b.run observer m.guest) (b'.run observer' u.guest))
    (hsettle : ∀ g g', Q g g' → P (settle b.length ⟨g, m.blocks, m.injector?⟩)
      (settle b'.length ⟨g', u.blocks, u.injector?⟩)) :
    Alike P (runBlock observer b m) (runBlock observer' b' u) := by
  rw [runBlock_eq, runBlock_eq]
  obtain ⟨exit, g, g', h, h', hg⟩ | ⟨e, g, g', h, h', hg⟩ := hrun.exists_eq
  · rw [h, h']
    exact .ok exit (hsettle g g' hg)
  · rw [h, h']
    exact .error e (hsettle g g' hg)

/-- A single step executes what it has translated. -/
theorem executeOne_of_ok (h : translate .single pc m = .ok b n) :
    executeOne observer pc m = (runBlock observer b >>= fun exit => pure exit.target) n := by
  unfold executeOne
  rw [bind_apply, h]

/-- A single step executes a translation of memory that is not kept. -/
theorem executeOne_of_translate {v : View Ram} (hv : m.core.view? = some v)
    (h : Block.translate v.backing m.choose .single pc = .ok b) :
    ∃ entries, executeOne observer pc m =
      (runBlock observer b >>= fun exit => pure exit.target) (m.onCore (Core.note · entries)) := by
  obtain ⟨entries, htranslate⟩ := translate_eq .single pc m
  simp only [hv, h] at htranslate
  exact ⟨entries, executeOne_of_ok htranslate⟩

/-- A single step that completes has executed a translation. -/
theorem executeOne_eq_ok {target : Word} (h : executeOne observer pc m = .ok target n) :
    ∃ v b entries exit, m.core.view? = some v ∧
      Block.translate v.backing m.choose .single pc = .ok b ∧
      runBlock observer b (m.onCore (Core.note · entries)) = .ok exit n ∧ exit.target = target := by
  obtain ⟨b, n', htranslate, h⟩ := bind_eq_ok.mp h
  obtain ⟨exit, n'', hrun, hpure⟩ := bind_eq_ok.mp h
  obtain ⟨v, entries, hv, hb, rfl⟩ := translate_eq_ok htranslate
  cases hpure
  exact ⟨v, b, entries, exit, hv, hb, hrun, rfl⟩

/-- A single step translates, and then runs a block or is at its end. -/
theorem leads_executeOne {P : Machine σ → Prop}
    (herror : ∀ e n, translate .single pc m = .error e n → P n)
    (hrun : ∀ b n, translate .single pc m = .ok b n → Leads P (runBlock observer b n)) :
    Leads P (executeOne observer pc m) := by
  unfold executeOne
  rw [bind_apply]
  cases h : translate .single pc m with
  | error e n => exact herror e n h
  | ok b n => exact Leads.bind (hrun b n h) (fun _ h => h) fun _ _ h => h

/-- Single steps are alike where both machines translate blocks that run alike, or fail to alike. -/
theorem alike_executeOne {P : Machine σ → Machine τ → Prop}
    (h : (∃ b m' b' u', translate .single pc m = .ok b m' ∧ translate .single pc u = .ok b' u' ∧
        Alike P (runBlock observer b m') (runBlock observer' b' u')) ∨
      ∃ e m' u', translate .single pc m = .error e m' ∧ translate .single pc u = .error e u' ∧ P m' u') :
    Alike P (executeOne observer pc m) (executeOne observer' pc u) := by
  unfold executeOne
  rw [bind_apply, bind_apply]
  obtain ⟨b, m', b', u', hm, hu, hrun⟩ | ⟨e, m', u', hm, hu, h⟩ := h
  · rw [hm, hu]
    exact hrun.bind_pure _
  · rw [hm, hu]
    exact .error e h

end Machine

end MipsMonitor
