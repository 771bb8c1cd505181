import MipsMonitor.Proofs.Machine.Coherence

/-!
# Observers that only watch

The actions before an instruction are there for the observer. One that requests no stop, lets the
program pass each breakpoint that it is made to look at, and writes registers as it is told
(`Observer.OnlyWatches`) does not show in the program. A machine that it watches runs as the bare
machine does, which has the same core, the same blocks without their actions, and nothing that
watches it (`Machine.Bares`): each block ends alike (`Block.alike_run_bare`), and so do runs and
single steps (`Machine.Bares.alike_execute`, `Machine.Bares.alike_executeOne`). Two machines that
differ only in what watches them are thereby compared through the bare one
(`Machine.runAlike_fresh`).
-/

namespace MipsMonitor

variable {σ : Type}

/-! ## The steps of translations -/

/-- Every step of every translation satisfies `p`. -/
def Translations.Every (p : Step → Prop) (blocks : Translations) : Prop :=
  ∀ (start : Word) (b : Block), blocks[start]? = some b → ∀ s ∈ b.steps, p s

namespace Translations

variable {p : Step → Prop} {blocks : Translations}

/-- Where nothing is translated, every step is as desired. -/
theorem every_empty (p : Step → Prop) : (∅ : Translations).Every p := fun start b hb => by
  rw [Std.ExtTreeMap.getElem?_empty] at hb
  cases hb

/-- Every step stays as desired with one more translation. -/
theorem Every.insert (h : blocks.Every p) {start : Word} {b : Block} (hb : ∀ s ∈ b.steps, p s) :
    Every p (blocks.insert start b) := fun start' b' hb' => by
  obtain ⟨-, rfl⟩ | hb' := of_getElem?_insert hb'
  · exact hb
  · exact h start' b' hb'

/-- Translations that are kept are as they were. -/
theorem Every.foldl_invalidate (h : blocks.Every p) (written : List Word) :
    Every p (written.foldl invalidate blocks) := fun start b hb =>
  h start b (getElem?_foldl_invalidate.mp hb).1

end Translations

/-! ## Observers -/

/-- A look at a breakpoint lets the program pass, and requests no stop. -/
def Observer.Passes (observer : Observer σ) (s : σ) (a : Word) : Prop :=
  Notice.stop ∉ (observer.check s a).2.1 ∧ (observer.check s a).2.2 = none

/-- An observer that only watches while its context satisfies `P`: it requests no stop, it lets the
program pass where the injector makes it look at breakpoints, and it writes registers as it is
told. -/
structure Observer.OnlyWatches (observer : Observer σ) (injector? : Option (Injector σ))
    (P : σ → Prop) : Prop where
  /-- The context satisfies `P` behind every call. -/
  keeps : observer.Keeps P
  /-- No stop is requested when an address is told. -/
  sync : ∀ s a, P s → Notice.stop ∉ (observer.sync s a).2
  /-- No stop is requested when a routine is entered. -/
  enter : ∀ s a, P s → Notice.stop ∉ (observer.enter s a).2
  /-- No stop is requested when a routine is left. -/
  leave : ∀ s, P s → Notice.stop ∉ (observer.leave s).2
  /-- The program passes where it is asked for a look at breakpoints. -/
  check : ∀ injector, injector? = some injector → ∀ s a i?, P s → Action.check ∈ injector s a i? →
    ∀ s', P s' → observer.Passes s' a
  /-- Registers are written as told, and no stop is requested for it. -/
  write : ∀ s f t w, P s → t ≠ .zero → Notice.stop ∉ (observer.write s f t w).2.1 ∧
    (observer.write s f t w).2.2 = f.setTracked t w

/-- A look at breakpoints before the step lets the program pass. -/
def Step.Lets (observer : Observer σ) (P : σ → Prop) (s : Step) : Prop :=
  Action.check ∈ s.actions → ∀ c, P c → observer.Passes c s.address

/-- The step without its actions. -/
def Step.bare (s : Step) : Step := { s with actions := [] }

/-- The block without its actions. -/
def Block.bare (b : Block) : Block := ⟨b.start, b.steps.map Step.bare⟩

section Bare

variable (b : Block)

/-- A block without its actions is as long. -/
theorem Block.length_bare : b.bare.length = b.length := List.length_map _

/-- A block without its actions ends where it did. -/
theorem Block.stop_bare : b.bare.stop = b.stop := by
  unfold Block.stop
  rw [b.length_bare]
  rfl

/-- Actions do not take up addresses, so a block is found as without them. -/
theorem Translations.finds_bare (a start : Word) : finds a start b.bare = finds a start b := by
  unfold finds Block.covers
  rw [b.stop_bare]
  rfl

end Bare

/-- Notices that only report leave the core alike. -/
theorem Core.Agree.heed_reports {c c' : Core} (h : c.Agree (· = ·) c') {notices : List Notice}
    (hstop : Notice.stop ∉ notices) : (notices.foldl Core.heed c).Agree (· = ·) c' := by
  induction notices generalizing c with
  | nil => exact h
  | cons notice notices ih =>
    obtain ⟨hne, hrest⟩ := not_or.mp (List.mem_cons.not.mp hstop)
    cases notice with
    | stop => exact absurd rfl hne
    | report entry => exact ih (h.note [entry] []) hrest

namespace Guest

variable {observer : Observer σ} {injector? : Option (Injector σ)} {P : σ → Prop} {g : Guest σ}
  {u : Guest Unit}

/-- A guest whose context satisfies `P`, and one that nothing watches, have cores that agree. -/
abbrev Watched (P : σ → Prop) : Guest σ → Guest Unit → Prop := Agree (· = ·) fun s _ => P s

/-- An action leaves the core alike. -/
theorem Watched.act (ho : observer.OnlyWatches injector? P) (h : g.Watched P u) {address : Word}
    {action : Action}
    (hlets : action = .check → ∀ c, P c → observer.Passes c address) :
    ∃ g', g.act observer address action = .ok () g' ∧ g'.Watched P u := by
  cases action with
  | sync =>
    exact ⟨_, rfl, h.core.heed_reports (ho.sync _ _ h.context), ho.keeps.sync _ _ h.context⟩
  | check =>
    obtain ⟨hstop, hpass⟩ := hlets rfl _ h.context
    have hact : g.act observer address .check = .ok ()
        ⟨(observer.check g.context address).2.1.foldl Core.heed g.core,
          (observer.check g.context address).1⟩ := by
      simp only [Guest.act, hpass]
    exact ⟨_, hact, h.core.heed_reports hstop, ho.keeps.check _ _ h.context⟩
  | enter callSite =>
    exact ⟨_, rfl, h.core.heed_reports (ho.enter _ _ h.context), ho.keeps.enter _ _ h.context⟩
  | leave => exact ⟨_, rfl, h.core.heed_reports (ho.leave _ h.context), ho.keeps.leave _ h.context⟩

/-- Actions that let the program pass leave it watched. -/
theorem Watched.actAll (ho : observer.OnlyWatches injector? P) (h : g.Watched P u) {address : Word}
    {actions : List Action}
    (hlets : .check ∈ actions → ∀ c, P c → observer.Passes c address) :
    ∃ g', g.actAll observer address actions = .ok () g' ∧ g'.Watched P u := by
  induction actions generalizing g with
  | nil => exact ⟨g, rfl, h⟩
  | cons action actions ih =>
    obtain ⟨g₁, hact, h₁⟩ := h.act ho fun hcheck => hlets (hcheck ▸ List.mem_cons_self)
    obtain ⟨g₂, hrest, h₂⟩ := ih h₁ fun hmem => hlets (List.mem_cons_of_mem _ hmem)
    refine ⟨g₂, ?_, h₂⟩
    unfold Guest.actAll
    rw [bind_apply, hact]
    exact hrest

/-- A register is written as without an observer. -/
theorem Watched.write (ho : observer.OnlyWatches injector? P) (h : g.Watched P u) (t : Tracked)
    (w : Word) : (g.write observer t w).Watched P (u.write (.silent Unit) t w) := by
  unfold Guest.write
  split
  · exact h
  · next hne =>
    obtain ⟨hstop, hset⟩ := ho.write _ g.core.registers t w h.context hne
    refine ⟨Core.Agree.heed_reports ?_ hstop, ho.keeps.write _ _ t w h.context⟩
    rw [hset, h.core.registers]
    exact h.core.withRegisters _

/-- A watched operation does what it does unwatched. -/
theorem Watched.alike_perform (ho : observer.OnlyWatches injector? P) (h : g.Watched P u) (pc : Word)
    (op : Operation) :
    Alike (Watched P) (g.perform observer pc op) (u.perform (.silent Unit) pc op) := by
  obtain ⟨entries, hnotes⟩ := noteReads_eq op g
  obtain ⟨entries', hnotes'⟩ := noteReads_eq op u
  have h₁ : (g.noteReads op).Watched P (u.noteReads op) := by
    rw [hnotes, hnotes']
    exact ⟨h.core.note entries entries', h.context⟩
  simp only [perform]
  generalize g.noteReads op = g₁ at h₁ ⊢
  generalize u.noteReads op = u₁ at h₁ ⊢
  -- What is read off the core is the same on both sides, and so is what is written to it.
  rw [← h₁.core.registers, ← h₁.core.view?]
  cases op.effect pc g₁.core.registers g₁.core.view? with
  | error t => exact alike_trap Aside.kept_eq h₁ t
  | ok e =>
    have h₂ := writes_induction₂ h₁ e.writes fun t w _ _ h => Watched.write ho h t w
    simp only
    cases e.change? with
    | none => exact .ok e.flow h₂
    | some what => exact alike_change Aside.kept_eq h₂ pc what e.flow

end Guest

section

variable {observer : Observer σ} {injector? : Option (Injector σ)} {P : σ → Prop} {g : Guest σ}
  {u : Guest Unit}

/-- A watched step does what it does without its actions. -/
theorem Step.alike_run_bare (ho : observer.OnlyWatches injector? P) {s : Step}
    (hs : s.Lets observer P) (h : g.Watched P u) :
    Alike (Guest.Watched P) (s.run observer g) (s.bare.run (.silent Unit) u) := by
  obtain ⟨g₁, hacts, h₁⟩ := h.actAll ho hs
  unfold Step.run
  rw [bind_apply, bind_apply, hacts]
  exact h₁.alike_perform ho s.address s.operation

/-- A watched block does what it does without its actions. -/
theorem Block.alike_run_bare (ho : observer.OnlyWatches injector? P) {b : Block}
    (hb : ∀ s ∈ b.steps, s.Lets observer P) (h : g.Watched P u) :
    Alike (Guest.Watched P) (b.run observer g) (b.bare.run (.silent Unit) u) := by
  unfold Block.run
  rw [b.stop_bare]
  refine alike_runSteps h ?_ ⟨b.stop, .plain⟩
  rw [Block.bare, List.forall₂_map_right_iff, List.forall₂_same]
  exact fun s hs _ _ h => s.alike_run_bare ho (hb s hs) h

/-- Without actions the same instructions are translated. -/
theorem Block.translate_bare (r : Ram) (choose : Word → Option Instruction → List Action)
    (extent : Extent) (start : Word) :
    Block.translate r (fun _ _ => []) extent start =
      (Block.translate r choose extent start).map Block.bare := by
  unfold Block.translate Block.translateBy
  split
  · cases ByteMemory.readWord r start with
    | error e => rfl
    | ok w =>
      simp only [Except.map, Block.bare, List.map_map]
      rfl
  · rfl

end

namespace Machine

/-- A machine whose observer only watches, and the bare one: their cores agree, they have the same
translations but for the actions, and the second one has no injector. -/
structure Bares (observer : Observer σ) (injector? : Option (Injector σ)) (P : σ → Prop)
    (m : Machine σ) (n : Machine Unit) : Prop where
  /-- The cores agree, and the context satisfies `P`. -/
  guest : m.guest.Watched P n.guest
  /-- The injector is the one that the observer goes with. -/
  injector? : m.injector? = injector?
  /-- The second machine has no injector. -/
  bare : n.injector? = none
  /-- Without the actions the translations are the same. -/
  blocks : ∀ start : Word, n.blocks[start]? = m.blocks[start]?.map Block.bare
  /-- Each look at breakpoints lets the program pass. -/
  lets : m.blocks.Every (Step.Lets observer P)

namespace Bares

variable {observer : Observer σ} {injector? : Option (Injector σ)} {P : σ → Prop} {m : Machine σ}
  {n : Machine Unit}

/-- A machine and the bare one stay so if their cores are changed alike. -/
theorem onCore (h : m.Bares observer injector? P n) {f f' : Core → Core}
    (hf : (f m.core).Agree (· = ·) (f' n.core)) :
    Bares observer injector? P (m.onCore f) (n.onCore f') :=
  ⟨⟨hf, h.guest.context⟩, h.injector?, h.bare, h.blocks, h.lets⟩

/-- What the injector asks for lets the program pass. -/
theorem lets_choose (ho : observer.OnlyWatches injector? P) (h : m.Bares observer injector? P n)
    {a : Word} {i? : Option Instruction} (hcheck : Action.check ∈ m.choose a i?) {s : σ} (hs : P s) :
    observer.Passes s a := by
  unfold choose at hcheck
  cases hi : m.injector? with
  | none =>
    rw [hi] at hcheck
    cases hcheck
  | some injector =>
    rw [hi] at hcheck
    exact ho.check injector (h.injector?.symm.trans hi) m.context a i? h.guest.context hcheck s hs

/-- Both machines translate the same instructions at an address, or fail alike. -/
theorem translate (ho : observer.OnlyWatches injector? P) (h : m.Bares observer injector? P n)
    (extent : Extent) (start : Word) :
    (∃ b m' n', Machine.translate extent start m = .ok b m' ∧
        Machine.translate extent start n = .ok b.bare n' ∧ m'.Bares observer injector? P n' ∧
        m'.blocks = m.blocks ∧ n'.blocks = n.blocks ∧ ∀ s ∈ b.steps, s.Lets observer P) ∨
      ∃ e m' n', Machine.translate extent start m = .error e m' ∧
        Machine.translate extent start n = .error e n' ∧ m'.Bares observer injector? P n' := by
  obtain ⟨entries, heq⟩ := translate_eq extent start m
  obtain ⟨entries', heq'⟩ := translate_eq extent start n
  have hnone : n.choose = fun _ _ => [] := by
    funext a i?
    unfold choose
    rw [h.bare]
  -- Both translate the same words; without an injector every step is bare.
  rw [← show m.core.view? = n.core.view? from h.guest.core.view?, hnone] at heq'
  rw [heq, heq']
  cases m.core.view? with
  | none =>
    exact .inr ⟨_, _, _, rfl, rfl, h.onCore (h.guest.core.requestStop Aside.kept_eq)⟩
  | some v =>
    simp only
    rw [Block.translate_bare v.backing m.choose]
    cases htranslate : Block.translate v.backing m.choose extent start with
    | error t => exact .inr ⟨_, _, _, rfl, rfl, h⟩
    | ok b =>
      refine .inl ⟨b, _, _, rfl, rfl, h.onCore (h.guest.core.note _ _), rfl, rfl, fun s hs => ?_⟩
      obtain ⟨-, -, rfl⟩ := Block.translate_eq_ok.mp htranslate
      obtain ⟨p, -, rfl⟩ := List.mem_map.mp hs
      exact fun hcheck c hc => h.lets_choose ho (List.mem_filter.mp hcheck).1 hc

/-- Both machines look up the same block at an address, or fail alike. -/
theorem blockAt (ho : observer.OnlyWatches injector? P) (h : m.Bares observer injector? P n)
    (start : Word) :
    (∃ b m' n', Machine.blockAt start m = .ok b m' ∧ Machine.blockAt start n = .ok b.bare n' ∧
        m'.Bares observer injector? P n' ∧ ∀ s ∈ b.steps, s.Lets observer P) ∨
      ∃ e m' n', Machine.blockAt start m = .error e m' ∧ Machine.blockAt start n = .error e n' ∧
        m'.Bares observer injector? P n' := by
  have hblocks := h.blocks start
  unfold Machine.blockAt
  cases hb : m.blocks[start]? with
  | some b =>
    rw [hb] at hblocks
    simp only [hblocks, Option.map_some]
    exact .inl ⟨b, m, n, rfl, rfl, h, h.lets start b hb⟩
  | none =>
    rw [hb] at hblocks
    simp only [hblocks, Option.map_none]
    obtain ⟨b, m', n', hm, hn, hbares, hkept, hkept', hlets⟩ | ⟨e, m', n', hm, hn, hbares⟩ :=
      h.translate ho .block start
    -- The two keep what they translated under the same address.
    · rw [hm, hn]
      refine .inl ⟨b, _, _, rfl, rfl, ⟨hbares.guest, hbares.injector?, hbares.bare, fun a => ?_,
        hbares.lets.insert hlets⟩, hlets⟩
      simp only [Std.ExtTreeMap.getElem?_insert]
      split
      · rfl
      · exact hbares.blocks a
    · rw [hm, hn]
      exact .inr ⟨e, m', n', rfl, rfl, hbares⟩

/-- What follows a block drops the same translations and leaves the cores alike. -/
theorem settle (h : m.Bares observer injector? P n) {g : Guest σ} {u : Guest Unit}
    (hg : g.Watched P u) (ticks : Nat) :
    Bares observer injector? P (settle ticks ⟨g, m.blocks, m.injector?⟩)
      (settle ticks ⟨u, n.blocks, n.injector?⟩) where
  guest := ⟨hg.core.forgetWritten.clock ticks, hg.context⟩
  injector? := h.injector?
  bare := h.bare
  blocks start := by
    have hwritten : g.core.written = u.core.written := congrArg Aside.written hg.core.aside
    change (u.core.written.foldl Translations.invalidate n.blocks)[start]? =
      (g.core.written.foldl Translations.invalidate m.blocks)[start]?.map Block.bare
    -- A block is found at the same addresses without its actions, so the same ones are kept.
    apply Option.ext
    intro c
    rw [Translations.getElem?_foldl_invalidate, h.blocks, Option.map_eq_some_iff,
      Option.map_eq_some_iff, ← hwritten]
    constructor
    · rintro ⟨⟨b, hb, rfl⟩, hclear⟩
      simp only [Translations.finds_bare] at hclear
      exact ⟨b, Translations.getElem?_foldl_invalidate.mpr ⟨hb, hclear⟩, rfl⟩
    · rintro ⟨b, hb, rfl⟩
      obtain ⟨hb, hclear⟩ := Translations.getElem?_foldl_invalidate.mp hb
      refine ⟨⟨b, hb, rfl⟩, ?_⟩
      simp only [Translations.finds_bare]
      exact hclear
  lets := h.lets.foldl_invalidate _

/-- Both machines run a block alike. -/
theorem alike_runBlock (ho : observer.OnlyWatches injector? P) (h : m.Bares observer injector? P n)
    {b : Block} (hb : ∀ s ∈ b.steps, s.Lets observer P) :
    Alike (Bares observer injector? P) (runBlock observer b m)
      (runBlock (.silent Unit) b.bare n) := by
  refine Machine.alike_runBlock (Block.alike_run_bare ho hb h.guest) fun g u hwatched => ?_
  rw [b.length_bare]
  exact h.settle hwatched b.length

/-- Both machines make a pass alike. -/
theorem alike_pass (ho : observer.OnlyWatches injector? P) (h : m.Bares observer injector? P n)
    (pc : Word) :
    Alike (Bares observer injector? P) (pass observer pc m) (pass (.silent Unit) pc n) := by
  have hstopped : m.core.stopped = n.core.stopped := congrArg Aside.stopped h.guest.core.aside
  refine Machine.alike_pass h hstopped ?_
  obtain ⟨b, m', n', hm, hn, hbares, hlets⟩ | hfails := h.blockAt ho pc
  · exact .inl ⟨b, m', b.bare, n', hm, hn, hbares.alike_runBlock ho hlets⟩
  · exact .inr hfails

/-- Both machines run alike. -/
theorem alike_execute (ho : observer.OnlyWatches injector? P) (h : m.Bares observer injector? P n)
    (fuel : Nat) (pc : Word) :
    Alike (Bares observer injector? P) (m.execute observer fuel pc)
      (n.execute (.silent Unit) fuel pc) := by
  have hresumed : m.resumed.Bares observer injector? P n.resumed := h.onCore h.guest.core.forgetStop
  rw [execute_eq, execute_eq]
  exact Machine.alike_invoke (fun pc h => h.alike_pass ho pc) hresumed fuel pc 0

/-- Both machines make a single step alike. -/
theorem alike_executeOne (ho : observer.OnlyWatches injector? P) (h : m.Bares observer injector? P n)
    (pc : Word) :
    Alike (Bares observer injector? P) (m.executeOne observer pc)
      (n.executeOne (.silent Unit) pc) := by
  refine Machine.alike_executeOne ?_
  obtain ⟨b, m', n', hm, hn, hbares, -, -, hlets⟩ | hfails := h.translate ho .single pc
  · exact .inl ⟨b, m', b.bare, n', hm, hn, hbares.alike_runBlock ho hlets⟩
  · exact .inr hfails

end Bares

/-- Two machines run alike, whatever watches them: from every address, runs and single steps end
with the same answer or signal, and leave the same registers, the same memory and isolation of the
cache, and the same clock. -/
def RunAlike {τ : Type} (observer : Observer σ) (m : Machine σ) (observer' : Observer τ)
    (n : Machine τ) : Prop :=
  (∀ fuel pc, Alike (fun m' n' => m'.core.Agree (· = ·) n'.core) (m.execute observer fuel pc)
      (n.execute observer' fuel pc)) ∧
    ∀ pc, Alike (fun m' n' => m'.core.Agree (· = ·) n'.core) (m.executeOne observer pc)
      (n.executeOne observer' pc)

/-- A machine without translations, whose observer only watches, and the bare one. -/
theorem bares_fresh {observer : Observer σ} {injector? : Option (Injector σ)} {P : σ → Prop}
    (c : Core) {s : σ} (hs : P s) :
    Bares observer injector? P ⟨⟨c, s⟩, ∅, injector?⟩ ⟨⟨c, ()⟩, ∅, none⟩ where
  guest := ⟨⟨rfl, rfl, rfl, rfl⟩, hs⟩
  injector? := rfl
  bare := rfl
  blocks start := by
    rw [Std.ExtTreeMap.getElem?_empty]
    rfl
  lets := Translations.every_empty _

/-- Machines with the same core and without translations run alike if their observers only watch. -/
theorem runAlike_fresh {τ : Type} {observer : Observer σ} {injector? : Option (Injector σ)}
    {P : σ → Prop} (ho : observer.OnlyWatches injector? P) {observer' : Observer τ}
    {injector'? : Option (Injector τ)} {P' : τ → Prop} (ho' : observer'.OnlyWatches injector'? P')
    (c : Core) {s : σ} {s' : τ} (hs : P s) (hs' : P' s') :
    RunAlike observer ⟨⟨c, s⟩, ∅, injector?⟩ observer' ⟨⟨c, s'⟩, ∅, injector'?⟩ := by
  have hbare : Bares observer injector? P ⟨⟨c, s⟩, ∅, injector?⟩ ⟨⟨c, ()⟩, ∅, none⟩ :=
    bares_fresh c hs
  have hbare' : Bares observer' injector'? P' ⟨⟨c, s'⟩, ∅, injector'?⟩ ⟨⟨c, ()⟩, ∅, none⟩ :=
    bares_fresh c hs'
  have hcores {m : Machine σ} {n : Machine τ} {u : Machine Unit}
      (h : m.Bares observer injector? P u) (h' : n.Bares observer' injector'? P' u) :
      m.core.Agree (· = ·) n.core :=
    ⟨h.guest.core.registers.trans h'.guest.core.registers.symm,
      h.guest.core.view?.trans h'.guest.core.view?.symm,
      h.guest.core.sink.trans h'.guest.core.sink.symm,
      h.guest.core.aside.trans h'.guest.core.aside.symm⟩
  -- Both run as the bare machine does.
  have hjoin {α : Type} {r : EStateM.Result Signal (Machine σ) α}
      {r' : EStateM.Result Signal (Machine τ) α} {u : EStateM.Result Signal (Machine Unit) α}
      (h : Alike (Bares observer injector? P) r u) (h' : Alike (Bares observer' injector'? P') r' u) :
      Alike (fun m' n' => m'.core.Agree (· = ·) n'.core) r r' :=
    h.trans (h'.symm fun _ _ h => h) fun _ _ _ => hcores
  exact ⟨fun fuel pc => hjoin (hbare.alike_execute ho fuel pc) (hbare'.alike_execute ho' fuel pc),
    fun pc => hjoin (hbare.alike_executeOne ho pc) (hbare'.alike_executeOne ho' pc)⟩

end Machine

end MipsMonitor
