import MipsMonitor.Proofs.Machine.Cycles
import MipsMonitor.Proofs.Machine.Watching

/-!
# What machines keep

The steps of a translation are made for the injector of the machine: each has the operation of an
instruction, and actions that the injector chooses in some context (`Step.MadeFor`). A machine that
keeps only such translations is genuine, and stays so whatever it executes (`Machine.Genuine`).

What every step made for an injector keeps of a guest, and what is done between the steps does not
touch, a machine keeps (`Machine.Keeps`): over a block (`Machine.Keeps.runBlock`), a pass, a run
(`Machine.Keeps.execute`) and a single step (`Machine.Keeps.executeOne`).
-/

namespace MipsMonitor

variable {σ : Type}

/-- What an injector chooses in a context. -/
def Machine.chosen (injector? : Option (Injector σ)) (context : σ) :
    Word → Option Instruction → List Action := (Machine.mk ⟨default, context⟩ ∅ injector?).choose

/-- The step has the operation of an instruction, or of a word that encodes none, and the actions
that the injector chooses before it in some context. -/
def Step.MadeFor (injector? : Option (Injector σ)) (s : Step) : Prop :=
  ∃ (context : σ) (extent : Extent) (p : Word × Option Instruction),
    s = Block.stepFor (Machine.chosen injector? context) extent p

/-- A step that was made from a word executes what the word encodes. -/
theorem Step.MadeFor.exists_operation {injector? : Option (Injector σ)} {s : Step}
    (h : s.MadeFor injector?) : ∃ i?, s.operation = .ofInstruction? i? s.address := by
  obtain ⟨context, extent, p, rfl⟩ := h
  exact ⟨p.2, rfl⟩

namespace Machine

variable {observer : Observer σ} {m n : Machine σ} {b : Block} {pc : Word}

/-- What is translated is made for the injector. -/
theorem madeFor_of_translate {r : Ram} {extent : Extent}
    (h : Block.translate r m.choose extent pc = .ok b) :
    ∀ s ∈ b.steps, s.MadeFor m.injector? := by
  obtain ⟨-, -, rfl⟩ := Block.translate_eq_ok.mp h
  intro s hs
  obtain ⟨p, -, rfl⟩ := List.mem_map.mp hs
  exact ⟨m.context, extent, p, rfl⟩

/-! ## Translations that were made -/

/-- Every step of every translation that is kept was made for the injector. -/
def Genuine (m : Machine σ) : Prop := m.blocks.Every (Step.MadeFor m.injector?)

/-- A machine without translations has only genuine ones. -/
theorem genuine_of_empty (guest : Guest σ) (injector? : Option (Injector σ)) :
    (Machine.mk guest ∅ injector?).Genuine := Translations.every_empty _

/-- Fewer translations stay genuine. -/
theorem Genuine.congr (h : m.Genuine) (hinjector : n.injector? = m.injector?)
    (hblocks : ∀ (start : Word) (b : Block), n.blocks[start]? = some b →
      m.blocks[start]? = some b) : n.Genuine := fun start b hb =>
  hinjector ▸ h start b (hblocks start b hb)

/-- The block that is looked up was made for the injector, and what is kept stays genuine. -/
theorem Genuine.blockAt (h : m.Genuine) (hok : blockAt pc m = .ok b n) :
    n.Genuine ∧ ∀ s ∈ b.steps, s.MadeFor n.injector? := by
  obtain ⟨hb, rfl⟩ | ⟨v, entries, -, htranslate, rfl⟩ := blockAt_eq_ok hok
  · exact ⟨h, h pc b hb⟩
  · have hmade := madeFor_of_translate htranslate
    exact ⟨Translations.Every.insert h hmade, hmade⟩

/-- What follows a block drops translations, and makes none. -/
theorem Genuine.settle (h : m.Genuine) (g : Guest σ) (ticks : Nat) :
    (settle ticks ⟨g, m.blocks, m.injector?⟩).Genuine :=
  Translations.Every.foldl_invalidate h g.core.written

/-- What every step made for an injector keeps of a guest. What is done between steps, which is to
report, to count and to request or forget a stop, does not touch it. -/
structure Keeps (observer : Observer σ) (injector? : Option (Injector σ)) (P : Guest σ → Prop) :
    Prop where
  /-- It is a matter of the context, the registers, the memory and the sink. -/
  beside : ∀ {g g' : Guest σ}, P g → g'.context = g.context →
    g'.core.registers = g.core.registers → g'.core.view? = g.core.view? →
    g'.core.sink = g.core.sink → P g'
  /-- Every step keeps it. -/
  step : ∀ {g : Guest σ} {s : Step}, s.MadeFor injector? → P g → Leads P (s.run observer g)

/-- A genuine machine, a guest of which something is said. -/
structure Holds (injector? : Option (Injector σ)) (P : Guest σ → Prop) (m : Machine σ) : Prop where
  /-- It is said of the guest. -/
  guest : P m.guest
  /-- The machine is genuine. -/
  genuine : m.Genuine
  /-- The injector of the machine is the one that steps are made for. -/
  injector? : m.injector? = injector?

namespace Keeps

variable {injector? : Option (Injector σ)} {P : Guest σ → Prop}
  (hP : Keeps observer injector? P)
include hP

/-- What follows a block keeps what the clock keeps. -/
theorem settle {g : Guest σ} (hg : P g) (ticks : Nat) (blocks : Translations) :
    P (settle ticks ⟨g, blocks, injector?⟩).guest :=
  hP.beside hg rfl (Core.registers_clock _ _) (Core.view?_clock _ _) (Core.sink_clock _ _)

/-- A block made for the injector keeps what its steps keep. -/
theorem runBlock (hm : Holds injector? P m) (hsteps : ∀ s ∈ b.steps, s.MadeFor injector?) :
    Leads (Holds injector? P) (runBlock observer b m) := by
  obtain ⟨hguest, hgenuine, rfl⟩ := hm
  refine leads_runBlock (Block.leads_run hguest fun s hs _ hg => hP.step (hsteps s hs) hg) fun g hg => ?_
  exact ⟨hP.settle hg b.length _, hgenuine.settle g b.length, rfl⟩

/-- A change of the core that spares registers, memory and sink keeps what depends on them. -/
theorem onCore (hm : Holds injector? P m) {f : Core → Core}
    (hregisters : (f m.core).registers = m.core.registers) (hview : (f m.core).view? = m.core.view?)
    (hsink : (f m.core).sink = m.core.sink) : Holds injector? P (m.onCore f) :=
  ⟨hP.beside hm.guest rfl hregisters hview hsink, hm.genuine, hm.injector?⟩

/-- A note keeps what depends on registers, memory and sink. -/
theorem note (hm : Holds injector? P m) (entries : List Entry) :
    Holds injector? P (m.onCore (Core.note · entries)) :=
  hP.onCore hm (Core.registers_note _ _) (Core.view?_note _ _) (Core.sink_note _ _)

/-- A pass keeps what its steps keep. -/
theorem pass (hm : Holds injector? P m) (pc : Word) :
    Leads (Holds injector? P) (pass observer pc m) := by
  refine leads_pass hm (fun e n herror => ?_) fun b n hblock => ?_
  · obtain ⟨-, rfl | rfl⟩ := blockAt_eq_error herror
    · exact hm
    · exact hP.onCore hm rfl rfl rfl
  · obtain ⟨hgenuine, hsteps⟩ := hm.genuine.blockAt hblock
    have hn : Holds injector? P n := by
      obtain ⟨-, rfl⟩ | ⟨v, entries, -, -, rfl⟩ := blockAt_eq_ok hblock
      · exact hm
      · exact ⟨(hP.note hm entries).guest, hgenuine, hm.injector?⟩
    exact hP.runBlock hn (hn.injector? ▸ hsteps)

/-- A run keeps what its steps keep, whether it ends or not. -/
theorem invoke (hm : Holds injector? P m) (fuel : Nat) (pc : Word) (depth : Nat) :
    Leads (Holds injector? P) (invoke observer fuel pc depth m) :=
  leads_invoke (fun pc h => hP.pass h pc) hm fuel pc depth

/-- A run keeps what its steps keep. -/
theorem execute (hm : Holds injector? P m) (fuel : Nat) (pc : Word) :
    Leads (Holds injector? P) (execute observer fuel pc m) := by
  rw [execute_eq]
  exact hP.invoke (hP.onCore hm rfl rfl rfl) fuel pc 0

/-- A single step keeps what its steps keep. -/
theorem executeOne (hm : Holds injector? P m) (pc : Word) :
    Leads (Holds injector? P) (executeOne observer pc m) := by
  refine leads_executeOne (fun e n herror => ?_) fun b n htranslate => ?_
  · obtain ⟨-, -, rfl⟩ | ⟨v, t, -, -, -, rfl⟩ := translate_eq_error herror
    · exact hP.onCore hm rfl rfl rfl
    · exact hm
  · obtain ⟨v, entries, -, hb, rfl⟩ := translate_eq_ok htranslate
    exact hP.runBlock (hP.note hm entries) (hm.injector? ▸ madeFor_of_translate hb)

end Keeps

end Machine

/-! ## What cores keep -/

/-- What an operation writes to the geometry coprocessor goes to the data registers, if the operation
does not name another register. -/
theorem Operation.dest_of_geometry {op : Operation} {pc : Word} {f : RegisterFile}
    {view? : Option (View Ram)} {e : Effect} (h : op.effect pc f view? = .ok e) {dest : Register}
    {w : Word} (hchange : e.change? = some (.geometry dest w)) :
    dest.bank = .cop2Data ∨ ∃ source, op = .moveToGeometry dest source := by
  cases op with
  | moveToGeometry dest' source =>
    cases h
    cases hchange
    exact .inr ⟨source, rfl⟩
  | store what source l =>
    simp only [effect] at h
    repeat' split at h
    all_goals cases h
    cases what <;> cases hchange
  | _ =>
    -- Among the others only a load of a data register changes the coprocessor.
    simp only [effect] at h
    repeat' split at h
    all_goals
      cases h
      try cases hchange
    all_goals exact .inl rfl

/-- What an instruction writes to the geometry coprocessor goes to a register of it. -/
theorem Operation.bank_of_ofInstruction? {i? : Option Instruction} {pc pc' : Word} {f : RegisterFile}
    {view? : Option (View Ram)} {e : Effect}
    (h : (ofInstruction? i? pc).effect pc' f view? = .ok e) {dest : Register} {w : Word}
    (hchange : e.change? = some (.geometry dest w)) :
    dest.bank = .cop2Data ∨ dest.bank = .cop2Control := by
  obtain hdata | ⟨source, hop⟩ := dest_of_geometry h hchange
  · exact .inl hdata
  · -- The instructions that name a register name one of the geometry coprocessor.
    cases i? with
    | none => cases hop
    | some i =>
      obtain ⟨m, raw⟩ := i
      cases m <;> cases hop <;> first
        | exact .inl rfl
        | exact .inr rfl

/-- What is kept by the changes that instructions make to a core. -/
structure Core.Keeps (P : Core → Prop) : Prop where
  /-- It is a matter of the registers, the memory and the sink. -/
  beside : ∀ {c c' : Core}, P c → c'.registers = c.registers → c'.view? = c.view? →
    c'.sink = c.sink → P c'
  /-- Of the registers, those for system control matter. -/
  registers : ∀ {c : Core} {f : RegisterFile}, P c →
    (∀ i, f.get ⟨.cop0, i⟩ = c.registers.get ⟨.cop0, i⟩) → P { c with registers := f }
  /-- Writing a register for system control keeps it. -/
  system : ∀ {c : Core} (index : Nat) (w : Word), P c → P (c.writeSystem index w)
  /-- Writing memory keeps it. -/
  poke : ∀ {c : Core} (a : Word) (bs : List UInt8), P c → Leads P (c.poke a bs)

/-- An observer writes no register for system control. -/
def Observer.SparesSystem (observer : Observer σ) : Prop :=
  ∀ s f t w i, t ≠ .zero → (observer.write s f t w).2.2.get ⟨.cop0, i⟩ = f.get ⟨.cop0, i⟩

namespace Core.Keeps

variable {observer : Observer σ} {P : Core → Prop} (hP : Core.Keeps P)
include hP

/-- What is asked of a core keeps what depends on registers, memory and sink. -/
theorem heed {c : Core} (h : P c) (notices : List Notice) : P (notices.foldl Core.heed c) := by
  have hself := Core.Agree.refl c
  have hagree := hself.heed_heed notices []
  exact hP.beside h hagree.registers hagree.view? hagree.sink

/-- A store keeps what writes to memory keep. -/
theorem store {c : Core} (h : P c) (a : Word) (bs : List UInt8) : Leads P (c.store a bs) := by
  have hpoke := hP.poke a bs h
  unfold Core.store
  cases hp : c.poke a bs with
  | ok u c' =>
    rw [hp] at hpoke
    exact hP.beside hpoke rfl rfl rfl
  | error e c' =>
    rw [hp] at hpoke
    exact hpoke

/-- Actions keep what depends on registers, memory and sink. -/
theorem actAll {g : Guest σ} (h : P g.core) (a : Word) (actions : List Action) :
    Leads (fun g' => P g'.core) (g.actAll observer a actions) :=
  Guest.leads_actAll (P := fun g => P g.core) h fun action _ _ h =>
    Guest.leads_act (hP.heed h) a action

/-- A trap keeps what depends on registers, memory and sink. -/
theorem trap {g : Guest σ} (h : P g.core) (t : Trap) :
    Leads (fun g' => P g'.core) (g.trap t) := by
  change P (if t.cause?.isNone then g.core.requestStop else g.core)
  split
  · exact hP.beside h rfl rfl rfl
  · exact h

/-- A write to a watched register keeps what depends on system control, if the observer spares
that. -/
theorem write (ho : observer.SparesSystem) {g : Guest σ} (h : P g.core) (t : Tracked) (w : Word) :
    P (g.write observer t w).core :=
  Guest.holds_write h (fun ht => hP.registers h fun i => ho _ _ _ _ i ht) fun _ notices h =>
    hP.heed h notices

/-- An instruction keeps what its changes keep. -/
theorem perform (ho : observer.SparesSystem) {g : Guest σ} (h : P g.core) (pc : Word)
    (i? : Option Instruction) :
    Leads (fun g' => P g'.core) (g.perform observer pc (.ofInstruction? i? pc)) := by
  obtain ⟨entries, hnotes⟩ := Guest.noteReads_eq (.ofInstruction? i? pc) g
  have hnoted : P (g.core.note entries) :=
    hP.beside h (Core.registers_note _ _) (Core.view?_note _ _) (Core.sink_note _ _)
  refine Guest.leads_perform (Q := fun g => P g.core) (hnotes ▸ hnoted)
    (fun t w _ h => hP.write ho h t w) (fun t _ h => hP.trap h t) (fun _ _ _ _ h => h)
    fun e what g' he hchange h => ?_
  cases what with
  | system index w => exact hP.system index w h
  | geometry dest w =>
    refine hP.registers h fun i => ?_
    rw [RegisterFile.get_set, if_neg]
    rintro rfl
    -- A geometry register is in a bank of its own.
    obtain h | h := Operation.bank_of_ofInstruction? he hchange <;> cases h
  | store a bs => exact Guest.leads_store (hP.store h a bs) fun t _ h => hP.trap h t

/-- What the changes that instructions make keep, a machine keeps. -/
theorem machine (ho : observer.SparesSystem) (injector? : Option (Injector σ)) :
    Machine.Keeps observer injector? fun g => P g.core where
  beside h _ hregisters hview hsink := hP.beside h hregisters hview hsink
  step := by
    rintro g s ⟨context, extent, p, rfl⟩ h
    unfold Step.run
    exact Leads.bind (hP.actAll h p.1 _) (fun _ h => h) fun _ g₁ h₁ => hP.perform ho h₁ p.1 p.2

end Core.Keeps

end MipsMonitor
