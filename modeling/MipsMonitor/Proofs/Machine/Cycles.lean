import MipsMonitor.Proofs.Machine.Translation

/-!
# Cycles

A program that is executed an instruction at a time, without translations: each cycle fetches the
word at the program counter, carries out the actions before it and its operation, and moves on
(`Guest.cycle`). Between two cycles only the next instruction has to be known and, in a delay slot,
where control goes behind it (`Place`).

The main statement is `Block.run_eq_cycles`. A block that leaves its own words alone while it runs
(`Block.Undisturbed`) does what as many cycles as it has instructions do, to the same end. The block
sees a delay slot behind every transfer of control and goes on behind everything else, and so do
cycles; that it stops at a fixed length makes no difference to them.
-/

namespace MipsMonitor

open ByteMemory

namespace Operation

/-- Whether control may go elsewhere than to the next instruction. -/
def transfers : Operation → Bool
  | branch .. | jump .. | jumpRegister .. | callRegister .. => true
  | _ => false

/-- The instructions with a delay slot are those that transfer control. -/
theorem transfers_operation (i : Instruction) (pc : Word) :
    (i.operation pc).transfers = i.hasDelaySlot := by
  obtain ⟨m, raw⟩ := i
  cases m <;> rfl

/-- What does not transfer control goes on with the next instruction. -/
theorem flow_of_effect {op : Operation} {pc : Word} {f : RegisterFile} {view? : Option (View Ram)}
    {e : Effect} (hop : op.transfers = false) (h : op.effect pc f view? = .ok e) :
    e.flow = .next := by
  cases op <;> simp only [effect] at h <;> try cases hop
  all_goals
    repeat' split at h
    all_goals
      cases h
      try rfl

/-- What transfers control changes nothing beside watched registers. -/
theorem change?_of_effect {op : Operation} {pc : Word} {f : RegisterFile}
    {view? : Option (View Ram)} {e : Effect} (hop : op.transfers = true)
    (h : op.effect pc f view? = .ok e) : e.change? = none := by
  cases op <;> simp only [effect] at h <;> try cases hop
  all_goals
    cases h
    rfl

end Operation

namespace Guest

variable {σ : Type} {observer : Observer σ} {pc : Word} {op : Operation} {g g' : Guest σ} {flow : Flow}

/-- Where control goes is part of the effect of an operation. -/
theorem flow_of_perform (h : g.perform observer pc op = .ok flow g') :
    ∃ f view? e, op.effect pc f view? = .ok e ∧ flow = e.flow := by
  simp only [perform] at h
  generalize g.noteReads op = g₁ at h
  cases he : op.effect pc g₁.core.registers g₁.core.view? with
  | error t =>
    rw [he] at h
    cases h
  | ok e =>
    refine ⟨_, _, e, he, ?_⟩
    simp only [he] at h
    -- A change beyond the registers passes the flow of its effect through.
    cases hchange : e.change? with
    | none =>
      simp only [hchange] at h
      cases h
      rfl
    | some what =>
      simp only [hchange] at h
      cases what with
      | system index w => cases h; rfl
      | geometry dest w => cases h; rfl
      | store a bs =>
        simp only [change] at h
        split at h
        · cases h
          rfl
        · cases h

end Guest

/-- A step that does not transfer control goes on with the next one. -/
theorem Step.flow_of_run {σ : Type} {observer : Observer σ} {s : Step} {g g' : Guest σ} {flow : Flow}
    (hs : s.operation.transfers = false) (h : s.run observer g = .ok flow g') : flow = .next := by
  obtain ⟨_, g₁, -, hperform⟩ := bind_eq_ok.mp h
  obtain ⟨f, view?, e, he, rfl⟩ := Guest.flow_of_perform hperform
  exact Operation.flow_of_effect hs he

/-- A step that transfers control leaves memory alone. -/
theorem Step.untouched_of_transfers {σ : Type} {observer : Observer σ} {s : Step}
    (hs : s.operation.transfers = true) (g : Guest σ) :
    Leads (fun g' => g.core.Untouched g'.core) (s.run observer g) := by
  unfold run
  refine Leads.bind (Guest.untouched_actAll observer s.address s.actions g) (fun _ h => h)
    fun _ g₁ h => ?_
  have hnotes := h.trans (Guest.untouched_noteReads s.operation g₁)
  simp only [Guest.perform]
  generalize g₁.noteReads s.operation = g₂ at hnotes ⊢
  cases he : s.operation.effect s.address g₂.core.registers g₂.core.view? with
  | error t => exact (Guest.untouched_trap t g₂).mono fun _ h' => hnotes.trans h'
  | ok e =>
    simp only [Operation.change?_of_effect hs he]
    exact hnotes.trans (Guest.untouched_writes observer e.writes g₂)

/-- Where a block goes at its end, as far as a step decides. -/
def Exit.after (exit : Exit) : Flow → Exit
  | .next => exit
  | .jump target transfer => ⟨target, transfer⟩

/-- Where control is transferred to, if it is. -/
def Flow.target? : Flow → Option Word
  | .next => none
  | .jump target _ => some target

/-- Where a program stands between two instructions. -/
structure Place where
  /-- The next instruction. -/
  pc : Word
  /-- Where control goes behind it, if it stands in a delay slot and does not transfer control
  itself. -/
  behind? : Option Word
deriving DecidableEq, Repr

namespace Place

/-- At an address, not in a delay slot. -/
def entry (pc : Word) : Place := ⟨pc, none⟩

/-- The place behind an instruction, given whether a delay slot follows it. -/
def next (p : Place) (slot : Bool) (flow : Flow) : Place :=
  match p.behind? with
  | some target => entry (flow.target?.getD target)
  | none =>
    let behind := p.pc + Instruction.size
    if slot then ⟨behind, some (flow.target?.getD (behind + Instruction.size))⟩
    else entry (flow.target?.getD behind)

end Place

namespace Block

/-- What the word at an address encodes, as a translation that is entered there finds it. -/
def instructionAt (r : Ram) (a : Word) : Except Trap (Option Instruction) :=
  if Word.isAligned a Instruction.size then
    match readWord r a with
    | .error e => .error (.fetch e a)
    | .ok w => .ok (Instruction.decode? w)
  else .error (.architectural .addressLoadError a)

/-- Whether the instruction at an address is followed by a delay slot. -/
def slotBehind (r : Ram) (a : Word) (i? : Option Instruction) : Bool :=
  i?.any Instruction.hasDelaySlot && (r.fetched (a + Instruction.size)).isSome

/-- While steps run, none of them changes the word of one behind it. -/
def Undisturbed {σ : Type} (observer : Observer σ) : List Step → Guest σ → Prop
  | [], _ => True
  | s :: rest, g =>
    match s.run observer g with
    | .error _ _ => True
    | .ok _ g' =>
      (∀ t ∈ rest, g'.core.word? t.address = g.core.word? t.address) ∧ Undisturbed observer rest g'

end Block

namespace Guest

variable {σ : Type}

/-- Executes one instruction, without a translation. -/
def cycle (observer : Observer σ) (choose : Word → Option Instruction → List Action) (p : Place) :
    EStateM Signal (Guest σ) Place := fun g =>
  match g.core.view? with
  | none => .error (.trap (.detached p.pc)) ⟨g.core.requestStop, g.context⟩
  | some v =>
    match Block.instructionAt v.backing p.pc with
    | .error t => .error (.trap t) g
    | .ok i? =>
      match (⟨p.pc, choose p.pc i?, .ofInstruction? i? p.pc⟩ : Step).run observer g with
      | .error s g => .error s g
      | .ok flow g => .ok (p.next (Block.slotBehind v.backing p.pc i?) flow) g

/-- Executes a number of instructions. -/
def cycles (observer : Observer σ) (choose : Word → Option Instruction → List Action) :
    Nat → Place → EStateM Signal (Guest σ) Place
  | 0, p => pure p
  | n + 1, p => cycle observer choose p >>= cycles observer choose n

variable {observer : Observer σ} {choose : Word → Option Instruction → List Action} {g g' : Guest σ}

/-- A cycle that completes has executed an instruction. -/
theorem cycle_eq_ok {p q : Place} (h : g.cycle observer choose p = .ok q g') :
    ∃ v i? flow, g.core.view? = some v ∧ Block.instructionAt v.backing p.pc = .ok i? ∧
      (⟨p.pc, choose p.pc i?, .ofInstruction? i? p.pc⟩ : Step).run observer g = .ok flow g' ∧
      q = p.next (Block.slotBehind v.backing p.pc i?) flow := by
  simp only [cycle] at h
  -- There are three things on which a cycle may fail, in the order in which it looks at them.
  cases hv : g.core.view? with
  | none =>
    rw [hv] at h
    cases h
  | some v =>
    simp only [hv] at h
    cases hi : Block.instructionAt v.backing p.pc with
    | error t =>
      rw [hi] at h
      cases h
    | ok i? =>
      simp only [hi] at h
      cases hrun : (⟨p.pc, choose p.pc i?, .ofInstruction? i? p.pc⟩ : Step).run observer g with
      | error e g₁ =>
        rw [hrun] at h
        cases h
      | ok flow g₁ =>
        rw [hrun] at h
        cases h
        exact ⟨v, i?, flow, rfl, hi, hrun, rfl⟩

/-- A cycle that does not complete traps before an instruction, or fails as an instruction does. -/
theorem cycle_eq_error {p : Place} {e : Signal} (h : g.cycle observer choose p = .error e g') :
    (∃ t, e = .trap t) ∨
      ∃ i?, (⟨p.pc, choose p.pc i?, .ofInstruction? i? p.pc⟩ : Step).run observer g =
        .error e g' := by
  -- A cycle fails for want of memory, in the fetch, or in its step.
  simp only [cycle] at h
  cases hv : g.core.view? with
  | none =>
    rw [hv] at h
    cases h
    exact .inl ⟨_, rfl⟩
  | some v =>
    simp only [hv] at h
    cases hi : Block.instructionAt v.backing p.pc with
    | error t =>
      rw [hi] at h
      cases h
      exact .inl ⟨t, rfl⟩
    | ok i? =>
      simp only [hi] at h
      cases hrun : (⟨p.pc, choose p.pc i?, .ofInstruction? i? p.pc⟩ : Step).run observer g with
      | ok flow g₁ =>
        rw [hrun] at h
        cases h
      | error e' g₁ =>
        rw [hrun] at h
        cases h
        exact .inr ⟨i?, hrun⟩

/-- The first of several cycles, and what is left of them. -/
theorem cycles_succ (n : Nat) (p : Place) :
    g.cycles observer choose (n + 1) p = match g.cycle observer choose p with
      | .error s g' => .error s g'
      | .ok q g' => g'.cycles observer choose n q := by
  change (cycle observer choose p >>= cycles observer choose n) g = _
  rw [bind_apply]
  cases g.cycle observer choose p <;> rfl

/-- One cycle is a cycle. -/
theorem cycles_one (p : Place) : g.cycles observer choose 1 p = g.cycle observer choose p := by
  rw [cycles_succ]
  cases g.cycle observer choose p <;> rfl

end Guest

namespace Block

variable {σ : Type} {observer : Observer σ} {choose : Word → Option Instruction → List Action}
  {extent : Extent}

/-- The actions that an extent leaves of those that are chosen. -/
def admitted (extent : Extent) (choose : Word → Option Instruction → List Action) (a : Word)
    (i? : Option Instruction) : List Action := (choose a i?).filter extent.admits

/-- The actions before the instructions of a block are those that are chosen. -/
theorem admitted_block (choose : Word → Option Instruction → List Action) :
    admitted .block choose = choose := by
  funext a i?
  exact List.filter_eq_self.mpr fun _ _ => rfl

/-- What is fetched at an aligned address is an instruction to be executed. -/
theorem instructionAt_eq_ok {r : Ram} {a w : Word} (ha : a.toNat % 4 = 0)
    (hw : r.fetched a = some w) : instructionAt r a = .ok (Instruction.decode? w) := by
  unfold Ram.fetched at hw
  unfold instructionAt
  rw [if_pos (Word.isAligned_iff.mpr ha)]
  cases h : readWord r a with
  | error e =>
    rw [h] at hw
    cases hw
  | ok w' =>
    rw [h] at hw
    cases hw
    rfl

/-- A cycle executes the step that a translation has at the place. -/
theorem cycle_eq {g : Guest σ} {v : View Ram} (hv : g.core.view? = some v) {p : Place} {w : Word}
    (hp : p.pc.toNat % 4 = 0) (hw : v.backing.fetched p.pc = some w) :
    g.cycle observer (admitted extent choose) p =
      match (stepFor choose extent (p.pc, Instruction.decode? w)).run observer g with
      | .error s g' => .error s g'
      | .ok flow g' => .ok (p.next (slotBehind v.backing p.pc (Instruction.decode? w)) flow) g' := by
  simp only [Guest.cycle, hv, instructionAt_eq_ok hp hw]
  rfl

/-- A cycle at an address executes the step that a translation has there. -/
theorem cycle_entry {g : Guest σ} {v : View Ram} (hv : g.core.view? = some v) {a w : Word}
    (ha : a.toNat % 4 = 0) (hw : v.backing.fetched a = some w) :
    g.cycle observer (admitted extent choose) (.entry a) =
      match (stepFor choose extent (a, Instruction.decode? w)).run observer g with
      | .error s g' => .error s g'
      | .ok flow g' =>
        .ok ((Place.entry a).next (slotBehind v.backing a (Instruction.decode? w)) flow) g' :=
  cycle_eq (p := .entry a) hv ha hw

/-- Where nothing can be fetched behind a transfer, and behind everything else, there is no delay
slot. -/
theorem slotBehind_eq_false {r : Ram} {a : Word} {i? : Option Instruction}
    (h : i?.any Instruction.hasDelaySlot = true → r.fetched (a + Instruction.size) = none) :
    slotBehind r a i? = false := by
  rw [slotBehind, ← Bool.not_eq_true, Bool.and_eq_true]
  rintro ⟨hdelay, hsome⟩
  rw [h hdelay] at hsome
  cases hsome

/-- Where something can be fetched behind a transfer, it stands in the delay slot. -/
theorem slotBehind_eq_true {r : Ram} {a w : Word} {i? : Option Instruction}
    (h : i?.any Instruction.hasDelaySlot = true) (hw : r.fetched (a + Instruction.size) = some w) :
    slotBehind r a i? = true := by
  rw [slotBehind, h, hw]
  rfl

/-- A step transfers control if its instruction has a delay slot. -/
theorem transfers_stepFor (choose : Word → Option Instruction → List Action) (extent : Extent)
    (a : Word) (i? : Option Instruction) :
    (stepFor choose extent (a, i?)).operation.transfers = i?.any Instruction.hasDelaySlot := by
  cases i? with
  | none => rfl
  | some i => exact Operation.transfers_operation i a

/-- The instruction behind an aligned one is aligned. -/
theorem toNat_add_size (a : Word) (ha : a.toNat % 4 = 0) :
    (a + Instruction.size).toNat % 4 = 0 := by
  rw [UInt32.toNat_add]
  change (a.toNat + 4) % 2 ^ 32 % 4 = 0
  omega

/-- The end of a block counted from its second instruction. -/
theorem stop_succ (a : Word) (n : Nat) :
    a + UInt32.ofNat (n + 1) * Instruction.size =
      a + Instruction.size + UInt32.ofNat n * Instruction.size := by
  rw [UInt32.ofNat_add, UInt32.add_mul, UInt32.add_comm (UInt32.ofNat n * _), ← UInt32.add_assoc]
  congr 2

/-- What is left of a block after a step is what would be translated there afterwards. -/
theorem instructionsFrom_of_undisturbed {room : Nat} {start : Word} {g g' : Guest σ}
    {v v' : View Ram} (hv : g.core.view? = some v) (hv' : g'.core.view? = some v')
    (h : ∀ t ∈ (instructionsFrom v.backing.fetched room start).map (stepFor choose extent),
      g'.core.word? t.address = g.core.word? t.address) :
    instructionsFrom v'.backing.fetched room start =
      instructionsFrom v.backing.fetched room start := by
  refine instructionsFrom_congr (v.backing.isSome_fetched v'.backing) fun p hp => ?_
  have hword := h _ (List.mem_map_of_mem hp)
  simp only [Core.word?, hv, hv', Option.map_some, Option.some.injEq] at hword
  exact congrArg Except.toOption hword

/-- Steps are executed one after the other. -/
theorem runSteps_cons (exit : Exit) (s : Step) (rest : List Step) (g : Guest σ) :
    runSteps observer exit (s :: rest) g = match s.run observer g with
      | .error e g' => .error e g'
      | .ok flow g' => runSteps observer (exit.after flow) rest g' := by
  rw [runSteps, bind_apply]
  cases s.run observer g with
  | error e g' => rfl
  | ok flow g' => cases flow <;> rfl

/-- What is done behind steps is done behind the rest of them, once the first is executed. -/
theorem runSteps_cons_bind {α : Type} (f : Exit → EStateM Signal (Guest σ) α) (exit : Exit)
    (s : Step) (rest : List Step) (g : Guest σ) :
    (runSteps observer exit (s :: rest) >>= f) g = match s.run observer g with
      | .error e g' => .error e g'
      | .ok flow g' => (runSteps observer (exit.after flow) rest >>= f) g' := by
  rw [bind_apply, runSteps_cons]
  cases s.run observer g with
  | error e g' => rfl
  | ok flow g' => exact (bind_apply _ _ _).symm

/-- A delay slot and one cycle end alike. -/
theorem runSteps_slot {g : Guest σ} {v : View Ram} (hv : g.core.view? = some v) {a w : Word}
    (ha : a.toNat % 4 = 0) (hw : v.backing.fetched a = some w) (exit : Exit) :
    (runSteps observer exit [stepFor choose extent (a, Instruction.decode? w)] >>=
      fun e => pure (Place.entry e.target)) g =
      g.cycles observer (admitted extent choose) 1 ⟨a, some exit.target⟩ := by
  rw [runSteps_cons_bind, Guest.cycles_one, cycle_eq (p := ⟨a, some exit.target⟩) hv ha hw]
  generalize stepFor choose extent (a, Instruction.decode? w) = s
  cases s.run observer g with
  | error e g' => rfl
  | ok flow g' => cases flow <;> rfl

/-- Memory stays attached while a step is executed. -/
theorem exists_view?_of_run {s : Step} {g g' : Guest σ} {flow : Flow} {v : View Ram}
    (hv : g.core.view? = some v) (hrun : s.run observer g = .ok flow g') :
    ∃ v', g'.core.view? = some v' := by
  have hview := (s.stores_run observer g).endState.1
  rw [hrun] at hview
  rw [← Option.isSome_iff_exists]
  exact hview.trans (Option.isSome_of_eq_some hv)

/-- A word that a step leaves alone is fetched behind it as before. -/
theorem fetched_of_word? {g g' : Guest σ} {v v' : View Ram} (hv : g.core.view? = some v)
    (hv' : g'.core.view? = some v') {a : Word} (h : g'.core.word? a = g.core.word? a) :
    v'.backing.fetched a = v.backing.fetched a := by
  simp only [Core.word?, hv, hv', Option.map_some, Option.some.injEq] at h
  exact congrArg Except.toOption h

/-- Without steps, control is where the block ends, and without cycles it is there as well. -/
theorem runSteps_nil_eq_cycles {start : Word} {exit : Exit}
    (hexit : exit.target = start + UInt32.ofNat 0 * Instruction.size) (g : Guest σ) :
    (runSteps observer exit [] >>= fun e => pure (Place.entry e.target)) g =
      g.cycles observer (admitted extent choose) 0 (.entry start) := by
  rw [show UInt32.ofNat 0 * Instruction.size = 0 from rfl, UInt32.add_zero] at hexit
  rw [← hexit]
  rfl

/-- The steps of a block and as many cycles end alike. -/
theorem runSteps_eq_cycles {room : Nat} {start : Word} {g : Guest σ} {v : View Ram}
    (hv : g.core.view? = some v) (hstart : start.toNat % 4 = 0) {exit : Exit}
    (hexit : exit.target = start +
      UInt32.ofNat (instructionsFrom v.backing.fetched room start).length * Instruction.size)
    (h : Undisturbed observer
      ((instructionsFrom v.backing.fetched room start).map (stepFor choose extent)) g) :
    (runSteps observer exit
        ((instructionsFrom v.backing.fetched room start).map (stepFor choose extent)) >>=
      fun e => pure (Place.entry e.target)) g =
      g.cycles observer (admitted extent choose)
        (instructionsFrom v.backing.fetched room start).length (.entry start) := by
  induction room generalizing start g v exit with
  | zero => exact runSteps_nil_eq_cycles hexit g
  | succ room ih =>
    cases hw : v.backing.fetched start with
    | none =>
      rw [instructionsFrom_none hw] at hexit ⊢
      exact runSteps_nil_eq_cycles hexit g
    | some w =>
      obtain ⟨rest, hbehind, his⟩ := instructionsFrom_succ room hw
      have htransfers := transfers_stepFor choose extent start (Instruction.decode? w)
      rw [his, List.length_cons, stop_succ] at hexit
      rw [his, List.map_cons, Undisturbed] at h
      rw [his, List.map_cons, List.length_cons, runSteps_cons_bind, Guest.cycles_succ,
        cycle_entry hv hstart hw]
      generalize stepFor choose extent (start, Instruction.decode? w) = s at h htransfers ⊢
      cases hrun : s.run observer g with
      | error e g' => rfl
      | ok flow g' =>
        simp only [hrun] at h ⊢
        obtain ⟨hwords, hrest⟩ := h
        obtain ⟨v', hv'⟩ := exists_view?_of_run hv hrun
        have hnext := toNat_add_size start hstart
        cases hbehind with
        | nothing hmissing =>
          -- Control goes where the step leads, or on.
          rw [slotBehind_eq_false hmissing]
          cases flow with
          | next => exact runSteps_nil_eq_cycles hexit g'
          | jump target transfer => rfl
        | @slot slot hdelay hslot =>
          -- The delay slot is executed as it was translated, and then control goes where the
          -- transfer leads.
          have hslot' : v'.backing.fetched (start + Instruction.size) = some slot :=
            (fetched_of_word? hv hv' (hwords _ List.mem_cons_self)).trans hslot
          have hplace : (Place.entry start).next true flow =
              ⟨start + Instruction.size, some (exit.after flow).target⟩ := by
            cases flow with
            | next => exact congrArg (Place.mk _ ∘ some) hexit.symm
            | jump target transfer => rfl
          rw [slotBehind_eq_true hdelay hslot, hplace]
          exact runSteps_slot hv' hnext hslot' (exit.after flow)
        | more hdelay =>
          -- What is left is what would be translated behind the step.
          obtain rfl := s.flow_of_run (htransfers.trans hdelay) hrun
          rw [slotBehind_eq_false fun h => absurd (hdelay.symm.trans h) Bool.false_ne_true]
          rw [← instructionsFrom_of_undisturbed hv hv' hwords] at hexit hrest ⊢
          exact ih hv' hnext hexit hrest

/-- Steps are undisturbed where no store goes to a word that one of them was translated from. -/
theorem undisturbed_of_stores {steps : List Step} {exit : Exit} {g : Guest σ}
    (haligned : ∀ s ∈ steps, s.address.toNat % 4 = 0)
    (h : ∀ a ∈ (endState (runSteps observer exit steps g)).core.written, ∀ s ∈ steps,
      ¬ Address.Overwrites a s.address) : Undisturbed observer steps g := by
  induction steps generalizing exit g with
  | nil => trivial
  | cons s rest ih =>
    unfold Undisturbed
    rw [runSteps_cons] at h
    cases hrun : s.run observer g with
    | error e g' => trivial
    | ok flow g' =>
      simp only [hrun] at h ⊢
      have hstep := (s.stores_run observer g).endState
      rw [hrun] at hstep
      obtain ⟨-, added, hwritten, hword⟩ := hstep
      obtain ⟨-, added', hwritten', -⟩ := (stores_runSteps observer (exit.after flow) rest g').endState
      refine ⟨fun t ht => ?_, ih (fun t ht => haligned t (List.mem_cons_of_mem s ht))
        fun a ha t ht => h a ha t (List.mem_cons_of_mem s ht)⟩
      -- A changed word was stored to, and what was stored to is still known at the end.
      by_contra hne
      obtain ⟨a, ha, hover⟩ := hword t.address (haligned t (List.mem_cons_of_mem s ht)) hne
      refine h a ?_ t (List.mem_cons_of_mem s ht) hover
      rw [hwritten']
      refine List.mem_append_right _ ?_
      rw [show g'.core.written = added ++ g.core.written from hwritten]
      exact List.mem_append_left _ ha

/-- A block of instructions at word addresses stores nothing. -/
def storesNothing (observer : Observer σ) (b : Block) (g : Guest σ) : Bool :=
  (endState (b.run observer g)).core.written.isEmpty &&
    b.steps.all fun s => s.address.toNat % 4 == 0

/-- A block that stores nothing leaves its own words alone. -/
theorem undisturbed_of_storesNothing {b : Block} {g : Guest σ}
    (h : b.storesNothing observer g = true) :
    (endState (b.run observer g)).core.written = [] ∧ Undisturbed observer b.steps g := by
  simp only [storesNothing, Bool.and_eq_true, List.isEmpty_iff, List.all_eq_true, beq_iff_eq] at h
  obtain ⟨hwritten, haligned⟩ := h
  have hspares : ∀ a ∈ (endState (runSteps observer ⟨b.stop, .plain⟩ b.steps g)).core.written,
      ∀ s ∈ b.steps, ¬ Address.Overwrites a s.address := by
    rw [show (endState (runSteps observer _ b.steps g)).core.written = [] from hwritten]
    exact fun _ ha => absurd ha List.not_mem_nil
  exact ⟨hwritten, undisturbed_of_stores haligned hspares⟩

/-- A block that leaves its own words alone does what as many cycles as it has instructions do. -/
theorem run_eq_cycles {g : Guest σ} {v : View Ram} (hv : g.core.view? = some v) {start : Word}
    {b : Block} (hb : translate v.backing choose extent start = .ok b)
    (h : Undisturbed observer b.steps g) :
    (b.run observer >>= fun e => pure (Place.entry e.target)) g =
      g.cycles observer (admitted extent choose) b.length (.entry start) := by
  obtain ⟨hstart, -, rfl⟩ := translate_eq_ok.mp hb
  unfold run
  simp only [length, List.length_map] at h ⊢
  refine runSteps_eq_cycles hv hstart ?_ h
  simp only [stop, length, List.length_map]

end Block

namespace Guest

variable {σ : Type} {T : Aside → Aside → Prop} {R R' : σ → σ → Prop} {observer : Observer σ} {g g' : Guest σ}
  {choose choose' : Word → Option Instruction → List Action}

/-- Guests that agree go through a cycle alike if they carry out the actions before it alike. What
the actions establish between the contexts may be more than what is kept between cycles. -/
theorem alike_cycle (hT : Aside.Kept T) (ho : observer.WritesAlike T R')
    (hR : ∀ s s', R' s s' → R s s') (h : g.Agree T R g') (p : Place)
    (hact : ∀ i?, Alike (Agree T R') (g.actAll observer p.pc (choose p.pc i?))
      (g'.actAll observer p.pc (choose' p.pc i?))) :
    Alike (Agree T R) (g.cycle observer choose p) (g'.cycle observer choose' p) := by
  simp only [cycle]
  rw [← h.core.view?]
  cases g.core.view? with
  | none => exact .error _ ⟨h.core.requestStop hT, h.context⟩
  | some v =>
    simp only
    cases Block.instructionAt v.backing p.pc with
    | error t => exact .error _ h
    | ok i? =>
      -- Both are at the same instruction, so only the chosen actions can tell them apart.
      have hrun : Alike (Agree T R')
          ((⟨p.pc, choose p.pc i?, .ofInstruction? i? p.pc⟩ : Step).run observer g)
          ((⟨p.pc, choose' p.pc i?, .ofInstruction? i? p.pc⟩ : Step).run observer g') :=
        Alike.bind (hact i?) (fun _ _ h => h) fun _ _ _ h' => alike_perform hT ho h' p.pc _
      simp only
      generalize Step.run observer ⟨p.pc, choose p.pc i?, _⟩ g = r at hrun ⊢
      generalize Step.run observer ⟨p.pc, choose' p.pc i?, _⟩ g' = r' at hrun ⊢
      cases hrun with
      | ok flow h' => exact .ok _ ⟨h'.core, hR _ _ h'.context⟩
      | error s h' => exact .error s ⟨h'.core, hR _ _ h'.context⟩

/-- Guests that agree go through cycles alike if they carry out all actions alike. -/
theorem alike_cycles (hT : Aside.Kept T) (ho : observer.WritesAlike T R')
    (hR : ∀ s s', R' s s' → R s s')
    (hact : ∀ (g g' : Guest σ), g.Agree T R g' → ∀ a i?, Alike (Agree T R')
      (g.actAll observer a (choose a i?)) (g'.actAll observer a (choose' a i?)))
    (h : g.Agree T R g') (n : Nat) (p : Place) :
    Alike (Agree T R) (g.cycles observer choose n p) (g'.cycles observer choose' n p) := by
  induction n generalizing g g' p with
  | zero => exact .ok p h
  | succ n ih =>
    unfold cycles
    exact Alike.bind (alike_cycle hT ho hR h p (hact g g' h p.pc)) (fun _ _ h => h)
      fun p' _ _ h' => ih h' p'

/-- Guests that agree go through the same cycles alike. -/
theorem alike_cycles_of_eq (observer : Observer σ)
    (choose : Word → Option Instruction → List Action) (h : g.Like (· = ·) g') (n : Nat) (p : Place) :
    Alike (Like (· = ·)) (g.cycles observer choose n p) (g'.cycles observer choose n p) :=
  alike_cycles Aside.kept_true (observer.writesAlike_eq Aside.kept_true) (fun _ _ h => h)
    (fun _ _ h a _ => alike_actAll h fun action _ _ _ h => alike_act_of_eq Aside.kept_true h a action)
    h n p

/-- Cycles follow each other. -/
theorem cycles_add (m n : Nat) (p : Place) :
    g.cycles observer choose (m + n) p = (cycles observer choose m p >>= cycles observer choose n) g := by
  induction m generalizing g p with
  | zero =>
    rw [Nat.zero_add]
    rfl
  | succ m ih =>
    rw [Nat.succ_add]
    unfold cycles
    rw [bind_apply, bind_apply, bind_apply]
    cases g.cycle observer choose p with
    | error s g' => rfl
    | ok p' g' =>
      simp only
      rw [ih, bind_apply]

/-- A cycle that fails ends the cycles before it. -/
theorem cycles_stop {n : Nat} {p q : Place} {s : Signal} {g'' : Guest σ}
    (hok : g.cycles observer choose n p = .ok q g')
    (hstop : g'.cycle observer choose q = .error s g'') :
    g.cycles observer choose (n + 1) p = .error s g'' := by
  rw [cycles_add, bind_apply, hok]
  simp only
  rw [cycles_one, hstop]

/-- Behind an instruction in a delay slot that does not transfer control itself, a program goes where
the transfer before it leads. -/
theorem cycle_behind {v : View Ram} (hv : g.core.view? = some v) {a w : Word} (ha : a.toNat % 4 = 0)
    (hw : v.backing.fetched a = some w)
    (hdelay : (Instruction.decode? w).any Instruction.hasDelaySlot = false) {q : Place}
    (h : g.cycle observer choose (.entry a) = .ok q g') (target : Word) :
    g.cycle observer choose ⟨a, some target⟩ = .ok (.entry target) g' := by
  have hi : Block.instructionAt v.backing a = .ok (Instruction.decode? w) :=
    Block.instructionAt_eq_ok ha hw
  have htransfers : (Operation.ofInstruction? (Instruction.decode? w) a).transfers = false := by
    rw [← hdelay]
    cases Instruction.decode? w with
    | none => rfl
    | some i => exact Operation.transfers_operation i a
  -- The same step was run at the entry, and what does not transfer control goes on behind it.
  obtain ⟨v', i?, flow, hv', hi', hrun, -⟩ := cycle_eq_ok h
  obtain rfl := Option.some.inj (hv.symm.trans hv')
  obtain rfl := Except.ok.inj (hi.symm.trans hi')
  obtain rfl := Step.flow_of_run htransfers hrun
  simp only [Place.entry] at hrun
  simp only [cycle, hv, hi, hrun]
  rfl

/-- What ends a program ends every longer run of it. -/
theorem cycles_error_add {m : Nat} {p : Place} {s : Signal}
    (h : g.cycles observer choose m p = .error s g') (n : Nat) :
    g.cycles observer choose (m + n) p = .error s g' := by
  rw [cycles_add, bind_apply, h]

/-- A program ends in one way. -/
theorem cycles_error_unique {m n : Nat} {p : Place} {s s' : Signal} {g'' : Guest σ}
    (h : g.cycles observer choose m p = .error s g')
    (h' : g.cycles observer choose n p = .error s' g'') : s = s' ∧ g' = g'' := by
  have hm := cycles_error_add h n
  have hn := cycles_error_add h' m
  rw [Nat.add_comm, hm] at hn
  cases hn
  exact ⟨rfl, rfl⟩

/-- Where a program ends, an earlier cycle that completes is followed by others. -/
theorem cycles_split {m n : Nat} {p q : Place} {s : Signal} {g'' : Guest σ}
    (h : g.cycles observer choose m p = .ok q g')
    (h' : g.cycles observer choose n p = .error s g'') :
    ∃ k, n = m + k ∧ g'.cycles observer choose k q = .error s g'' := by
  have hlt : m < n := by
    by_contra hle
    obtain ⟨k, rfl⟩ : ∃ k, m = n + k := ⟨m - n, by omega⟩
    rw [cycles_error_add h' k] at h
    cases h
  obtain ⟨k, rfl⟩ : ∃ k, n = m + k := ⟨n - m, by omega⟩
  refine ⟨k, rfl, ?_⟩
  rw [cycles_add, bind_apply, h] at h'
  exact h'

end Guest

end MipsMonitor
