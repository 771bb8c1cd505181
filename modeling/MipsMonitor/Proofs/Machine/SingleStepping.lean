import MipsMonitor.Proofs.Machine.Cycles
import MipsMonitor.Proofs.Machine.Passes
import MipsMonitor.Proofs.Machine.PowerOn
import MipsMonitor.Machine.Recorder

/-!
# Blocks and single steps

A single step executes an instruction and its delay slot in a translation of its own, without a look
at breakpoints. It does what one or two cycles do (`Machine.alike_executeOne`), and so the single
steps over the instructions of a block do together what the block does
(`Machine.block_alike_strides`): the delay slot of a transfer is executed by the step over the
transfer, everything else has a step of its own, and breakpoints make no difference whose looks let
the program pass and do not show.

To let the program pass is not enough: a look may also change what the context makes of later calls,
and single steps make no looks. So contexts are compared up to a relation that the observer respects
and in which looks do not show (`Observer.Quiet`), and the calls leave alone what the injector looks
at (`Observer.Steady`). For the calls of the observer to be part of the comparison, it keeps a journal
of them (`Observer.journaled`).
-/

namespace MipsMonitor

open ByteMemory

variable {σ : Type}

/-- Looking at breakpoints lets the program pass, and does not show otherwise. -/
def Observer.Quiet (observer : Observer σ) (R : σ → σ → Prop) : Prop :=
  ∀ s s' a, R s s' → R (observer.check s a).1 s' ∧ (observer.check s a).2.2 = none

namespace Guest

variable {R : σ → σ → Prop} {observer : Observer σ} {g g' : Guest σ}

/-- Actions are carried out alike with and without looks at breakpoints. -/
theorem alike_actAll_single (ho : observer.Respects R) (hquiet : observer.Quiet R)
    (h : g.Like R g') (address : Word) (actions : List Action) :
    Alike (Like R) (g.actAll observer address actions)
      (g'.actAll observer address (actions.filter Extent.single.admits)) := by
  induction actions generalizing g g' with
  | nil => exact .ok () h
  | cons action actions ih =>
    by_cases haction : action = .check
    · -- The look is made on one side alone, and does not show.
      subst haction
      obtain ⟨hR, hnone⟩ := hquiet _ _ address h.context
      have hact : g.act observer address .check = .ok ()
          ⟨(observer.check g.context address).2.1.foldl Core.heed g.core,
            (observer.check g.context address).1⟩ := by
        simp only [act, hnone]
      rw [actAll, bind_apply, hact]
      exact ih ⟨h.core.heed_heed _ [], hR⟩
    · rw [List.filter_cons_of_pos (by simpa [Extent.admits] using haction)]
      unfold actAll
      exact Alike.bind (alike_act ho h address haction) (fun _ _ h => h) fun _ _ _ h' => ih h'

end Guest

namespace Block

variable {observer : Observer σ} {choose : Word → Option Instruction → List Action}
  {extent : Extent}

/-- A translation of a single instruction has that and its delay slot. -/
theorem instructionsFrom_one {fetch : Word → Option Word} {a w : Word} (hw : fetch a = some w) :
    instructionsFrom fetch 1 a = (a, Instruction.decode? w) ::
      if (Instruction.decode? w).any Instruction.hasDelaySlot then
        (fetch (a + Instruction.size)).toList.map fun slot =>
          (a + Instruction.size, Instruction.decode? slot)
      else [] := by
  simp only [instructionsFrom, hw]
  cases Instruction.decode? w with
  | none => rfl
  | some i =>
    simp only [Option.any_some, ite_self]

/-- The single steps that execute steps of a block: a transfer of control takes its delay slot
along, everything else has a single step of its own. -/
def strides : List Step → Nat
  | [] => 0
  | s :: rest => if s.operation.transfers then 1 else strides rest + 1

/-- A block that begins with a transfer of control is a single step. -/
theorem instructionsFrom_transfer {fetch : Word → Option Word} {room : Nat} {a w : Word}
    (hw : fetch a = some w) (hdelay : (Instruction.decode? w).any Instruction.hasDelaySlot = true) :
    instructionsFrom fetch (room + 1) a = instructionsFrom fetch 1 a := by
  obtain ⟨i, hi, hi'⟩ := (Option.any_eq_true _ _).mp hdelay
  simp only [instructionsFrom, hw, hi, hi', if_true]

/-- A cycle at an instruction without a delay slot is its step in a block, and goes on behind it. -/
theorem run_of_cycle {g g' : Guest σ} {v : View Ram} (hv : g.core.view? = some v) {a w : Word}
    (ha : a.toNat % 4 = 0) (hw : v.backing.fetched a = some w)
    (hdelay : (Instruction.decode? w).any Instruction.hasDelaySlot = false) {q : Place}
    (h : g.cycle observer choose (.entry a) = .ok q g') :
    (stepFor choose .block (a, Instruction.decode? w)).run observer g = .ok .next g' ∧
      q = .entry (a + Instruction.size) := by
  have hcycle : g.cycle observer (admitted .block choose) (.entry a) = _ := cycle_entry hv ha hw
  rw [admitted_block, h, slotBehind_eq_false fun h => absurd (hdelay.symm.trans h) Bool.false_ne_true]
    at hcycle
  -- What does not transfer control goes on behind itself.
  cases hrun : (stepFor choose .block (a, Instruction.decode? w)).run observer g with
  | error e g₁ =>
    rw [hrun] at hcycle
    cases hcycle
  | ok flow g₁ =>
    rw [hrun] at hcycle
    obtain rfl := Step.flow_of_run ((transfers_stepFor choose .block a _).trans hdelay) hrun
    cases hcycle
    exact ⟨rfl, rfl⟩

/-- The same instructions run alike where the actions before each of them do. -/
theorem alike_runSteps_map {R R' : σ → σ → Prop} (hR : observer.WritesAlike (fun _ _ => True) R')
    (hkeep : ∀ s s', R' s s' → R s s') {choose' : Word → Option Instruction → List Action}
    {extent' : Extent} {is : List (Word × Option Instruction)}
    (hact : ∀ p ∈ is, ∀ g g' : Guest σ, g.Like R g' → Alike (Guest.Like R')
      (g.actAll observer p.1 (admitted extent choose p.1 p.2))
      (g'.actAll observer p.1 (admitted extent' choose' p.1 p.2)))
    (exit : Exit) {g g' : Guest σ} (h : g.Like R g') :
    Alike (Guest.Like R) (runSteps observer exit (is.map (stepFor choose extent)) g)
      (runSteps observer exit (is.map (stepFor choose' extent')) g') := by
  refine alike_runSteps h ?_ exit
  rw [List.forall₂_map_left_iff, List.forall₂_map_right_iff, List.forall₂_same]
  intro p hp g g' h
  refine Alike.mono (P := Guest.Like R') ?_ fun _ _ h => ⟨h.core, hkeep _ _ h.context⟩
  exact Alike.bind (hact p hp g g' h) (fun _ _ h => h) fun _ _ _ h' =>
    Guest.alike_perform Aside.kept_true hR h' p.1 _

/-- A single step has no later words to disturb. -/
theorem undisturbed_singleton (s : Step) (g : Guest σ) : Undisturbed observer [s] g := by
  unfold Undisturbed
  split
  · trivial
  · exact ⟨fun t ht => (by cases ht), trivial⟩

/-- A single step leaves its delay slot alone. -/
theorem undisturbed_single (fetch : Word → Option Word) (start : Word) (g : Guest σ) :
    Undisturbed observer ((instructionsFrom fetch 1 start).map (stepFor choose extent)) g := by
  cases hw : fetch start with
  | none =>
    rw [instructionsFrom_none hw]
    trivial
  | some w =>
    obtain ⟨rest, hbehind, his⟩ := instructionsFrom_succ 0 hw
    rw [his]
    cases hbehind with
    | nothing => exact undisturbed_singleton _ g
    | more => exact undisturbed_singleton _ g
    -- Only the slot lies behind, and the transfer before it stores nothing.
    | @slot slot hdelay hslot =>
      have htransfers := (transfers_stepFor choose extent start (Instruction.decode? w)).trans hdelay
      rw [List.map_cons]
      generalize stepFor choose extent (start, Instruction.decode? w) = s at htransfers ⊢
      have huntouched : Leads _ (s.run observer g) := s.untouched_of_transfers htransfers g
      unfold Undisturbed
      cases hrun : s.run observer g with
      | error e g' => trivial
      | ok flow g' =>
        refine ⟨fun t _ => ?_, undisturbed_singleton _ g'⟩
        rw [Core.word?, Core.word?, (huntouched.of_ok hrun).view?]

/-- Cycles over an instruction and its delay slot do what a translation of them does. -/
theorem cycles_alike_run {R R' : σ → σ → Prop} (hR : observer.WritesAlike (fun _ _ => True) R')
    (hkeep : ∀ s s', R' s s' → R s s') {choose' : Word → Option Instruction → List Action}
    {g g' : Guest σ} (h : g.Like R g') {v : View Ram} (hv : g.core.view? = some v) {start : Word}
    {b : Block} (hb : translate v.backing choose' .single start = .ok b)
    (hact : ∀ p ∈ instructionsFrom v.backing.fetched 1 start, ∀ g g' : Guest σ, g.Like R g' →
      Alike (Guest.Like R') (g.actAll observer p.1 (choose p.1 p.2))
        (g'.actAll observer p.1 (admitted .single choose' p.1 p.2))) :
    Alike (Guest.Like R) (g.cycles observer choose b.length (.entry start))
      ((b.run observer >>= fun exit => pure (Place.entry exit.target)) g') := by
  obtain ⟨hstart, -, rfl⟩ := translate_eq_ok.mp hb
  simp only [run, stop, length, List.length_map, Extent.room]
  generalize hexit : (⟨start + UInt32.ofNat
    (instructionsFrom v.backing.fetched 1 start).length * Instruction.size, .plain⟩ : Exit) = exit
  -- The translation is run as its cycles are, with all actions admitted.
  have hcycles : (runSteps observer exit _ >>= fun exit => pure (Place.entry exit.target)) g =
      g.cycles observer (admitted .block choose) _ (.entry start) :=
    runSteps_eq_cycles hv hstart (hexit ▸ rfl) (undisturbed_single v.backing.fetched start g)
  rw [admitted_block] at hcycles
  rw [← hcycles]
  refine (alike_runSteps_map hR hkeep (fun p hp g g' hg => ?_) exit h).bind_pure _
  rw [admitted_block]
  exact hact p hp g g' hg

end Block

namespace Machine

variable {R : σ → σ → Prop} {observer : Observer σ}

/-- A single step does what one or two cycles do. What the actions before an instruction establish
between the contexts may be more than what is kept between instructions. -/
theorem cycles_alike_executeOne {R' : σ → σ → Prop} (hR : observer.WritesAlike (fun _ _ => True) R')
    (hkeep : ∀ s s', R' s s' → R s s') {m : Machine σ} (ho : observer.Steady m.injector?)
    {g : Guest σ} (h : g.Like R m.guest) {v : View Ram} (hv : g.core.view? = some v)
    {start w : Word} (hstart : start.toNat % 4 = 0) (hw : v.backing.fetched start = some w)
    {choose : Word → Option Instruction → List Action}
    (hact : ∀ p ∈ Block.instructionsFrom v.backing.fetched 1 start, ∀ g g' : Guest σ, g.Like R g' →
      Alike (Guest.Like R') (g.actAll observer p.1 (choose p.1 p.2))
        (g'.actAll observer p.1 (Block.admitted .single m.choose p.1 p.2))) :
    Alike (fun g' n => g'.Like R n.guest ∧ n.injector? = m.injector? ∧ n.choose = m.choose)
      (g.cycles observer choose (Block.instructionsFrom v.backing.fetched 1 start).length
        (.entry start))
      ((executeOne observer start >>= fun target => pure (Place.entry target)) m) := by
  have hview : m.core.view? = some v := h.core.view?.symm.trans hv
  obtain ⟨b, hb⟩ : ∃ b, Block.translate v.backing m.choose .single start = .ok b :=
    ⟨_, Block.translate_eq_ok.mpr ⟨hstart, Option.isSome_of_eq_some hw, rfl⟩⟩
  have hlength : (Block.instructionsFrom v.backing.fetched 1 start).length = b.length := by
    obtain ⟨-, -, rfl⟩ := Block.translate_eq_ok.mp hb
    exact (List.length_map _).symm
  -- Running the translated step is running its cycles, up to what the translation notes.
  obtain ⟨entries, hexecute⟩ : ∃ entries, executeOne observer start m = _ :=
    executeOne_of_translate hview hb
  have hone : (executeOne observer start >>= fun target => pure (Place.entry target)) m =
      (runBlock observer b >>= fun exit => pure (Place.entry exit.target))
        (m.onCore (Core.note · entries)) := by
    rw [bind_apply, hexecute, bind_apply, bind_apply]
    cases runBlock observer b (m.onCore (Core.note · entries)) <;> rfl
  have hnoted : g.Like R (m.onCore (Core.note · entries)).guest :=
    ⟨h.core.note [] entries, h.context⟩
  have hrun := Block.cycles_alike_run hR hkeep hnoted hv hb hact
  have hkept : Leads (fun n => n.injector? = m.injector? ∧ n.choose = m.choose)
      (runBlock observer b (m.onCore (Core.note · entries))) :=
    choose_runBlock (m := m.onCore (Core.note · entries)) ho b
  have hblock := (run_alike_runBlock observer b (m.onCore (Core.note · entries))).and_right hkept
  rw [hlength, hone]
  exact hrun.trans (hblock.bind_pure _) fun _ _ _ h h' =>
    ⟨h.trans h'.1 fun _ _ _ h h' => h' ▸ h, h'.2⟩

/-- A single step that does not look at breakpoints does what one or two cycles do that look at them. -/
theorem cycles_alike_single (hR : observer.Respects R) (hquiet : observer.Quiet R) {m : Machine σ}
    (ho : observer.Steady m.injector?) {g : Guest σ} (h : g.Like R m.guest) {v : View Ram}
    (hv : g.core.view? = some v) {start w : Word} (hstart : start.toNat % 4 = 0)
    (hw : v.backing.fetched start = some w) :
    Alike (fun g' n => g'.Like R n.guest ∧ n.injector? = m.injector? ∧ n.choose = m.choose)
      (g.cycles observer m.choose (Block.instructionsFrom v.backing.fetched 1 start).length
        (.entry start))
      ((executeOne observer start >>= fun target => pure (Place.entry target)) m) :=
  cycles_alike_executeOne hR.writesAlike (fun _ _ h => h) ho h hv hstart hw fun p _ _ _ hg =>
    Guest.alike_actAll_single hR hquiet hg p.1 (m.choose p.1 p.2)

/-- Single steps one after the other. -/
def strides (observer : Observer σ) : Nat → Word → EStateM Signal (Machine σ) Word
  | 0, pc => pure pc
  | n + 1, pc => executeOne observer pc >>= strides observer n

/-- One stride is a single step. -/
theorem strides_one (observer : Observer σ) (pc : Word) (m : Machine σ) :
    strides observer 1 pc m = executeOne observer pc m := by
  unfold strides
  rw [bind_apply]
  cases executeOne observer pc m <;> rfl

/-- The single step over a transfer of control takes the delay slot along, with which the block ends. -/
theorem cycles_alike_strides_transfer (hR : observer.Respects R) (hquiet : observer.Quiet R)
    {room : Nat} {m : Machine σ} (ho : observer.Steady m.injector?) {g : Guest σ}
    (h : g.Like R m.guest) {v : View Ram} (hv : g.core.view? = some v) {start w : Word}
    (hstart : start.toNat % 4 = 0) (hw : v.backing.fetched start = some w)
    (hdelay : (Instruction.decode? w).any Instruction.hasDelaySlot = true) :
    Alike (fun g' n => g'.Like R n.guest)
      ((Guest.cycles observer m.choose
        (Block.instructionsFrom v.backing.fetched (room + 1) start).length (.entry start) >>=
          fun p => pure p.pc) g)
      (strides observer (Block.strides ((Block.instructionsFrom v.backing.fetched (room + 1) start).map
        (Block.stepFor m.choose .block))) start m) := by
  have htransfers := Block.transfers_stepFor m.choose .block start (Instruction.decode? w)
  have hcount : Block.strides ((Block.instructionsFrom v.backing.fetched 1 start).map
      (Block.stepFor m.choose .block)) = 1 := by
    rw [Block.instructionsFrom_one hw, List.map_cons, Block.strides, if_pos (htransfers.trans hdelay)]
  rw [Block.instructionsFrom_transfer hw hdelay, hcount, strides_one, bind_apply]
  -- The one single step ends as the two cycles do.
  obtain ⟨target, g', n, hc, hr, h', -⟩ | ⟨e, g', n, hc, hr, h', -⟩ :=
    (cycles_alike_single hR hquiet ho h hv hstart hw).exists_eq_map
  · rw [hc, hr]
    exact .ok target h'
  · rw [hc, hr]
    exact .error e h'

/-- The cycles over the instructions of a block and the single steps over them end alike. -/
theorem cycles_alike_strides (hR : observer.Respects R) (hquiet : observer.Quiet R) {room : Nat}
    {m : Machine σ} (ho : observer.Steady m.injector?) {g : Guest σ} (h : g.Like R m.guest)
    {v : View Ram} (hv : g.core.view? = some v) {start : Word} (hstart : start.toNat % 4 = 0)
    (hund : Block.Undisturbed observer
      ((Block.instructionsFrom v.backing.fetched room start).map (Block.stepFor m.choose .block)) g) :
    Alike (fun g' n => g'.Like R n.guest)
      ((Guest.cycles observer m.choose (Block.instructionsFrom v.backing.fetched room start).length
        (.entry start) >>= fun p => pure p.pc) g)
      (strides observer (Block.strides ((Block.instructionsFrom v.backing.fetched room start).map
        (Block.stepFor m.choose .block))) start m) := by
  induction room generalizing m g v start with
  | zero => exact .ok start h
  | succ room ih =>
    cases hw : v.backing.fetched start with
    | none =>
      simp only [Block.instructionsFrom, hw]
      exact .ok start h
    | some w =>
      have hone := cycles_alike_single hR hquiet ho h hv hstart hw
      have htransfers := Block.transfers_stepFor m.choose .block start (Instruction.decode? w)
      cases hdelay : (Instruction.decode? w).any Instruction.hasDelaySlot with
      | true => exact cycles_alike_strides_transfer hR hquiet ho h hv hstart hw hdelay
      | false =>
        -- One single step does what the first cycle does; the rest of the block begins behind it.
        obtain ⟨rest, hbehind, his⟩ := Block.instructionsFrom_succ room hw
        have hlength : (Block.instructionsFrom v.backing.fetched 1 start).length = 1 := by
          rw [Block.instructionsFrom_one hw, hdelay]
          rfl
        have hcount : Block.strides ((start, Instruction.decode? w) :: rest |>.map
            (Block.stepFor m.choose .block)) =
            Block.strides (rest.map (Block.stepFor m.choose .block)) + 1 := by
          rw [List.map_cons, Block.strides, htransfers, hdelay, if_neg Bool.false_ne_true]
        rw [hlength, Guest.cycles_one] at hone
        rw [his, hcount, List.length_cons, bind_apply, Guest.cycles_succ, strides, bind_apply]
        obtain ⟨target, g', n, hc, hr, hlike, hinjector, hchoose⟩ | ⟨e, g', n, hc, hr, h', -⟩ :=
          hone.exists_eq_map
        · obtain ⟨hrun, hplace⟩ := Block.run_of_cycle hv hstart hw hdelay hc
          rw [hc, hr]
          cases hbehind with
          | nothing => exact .ok target hlike
          | slot hslot => exact absurd (hdelay.symm.trans hslot) Bool.false_ne_true
          | more =>
            rw [his, List.map_cons, Block.Undisturbed, hrun] at hund
            obtain ⟨hwords, hrest⟩ := hund
            -- The step may have stored, but to none of the words that are left: gathered afresh
            -- from the memory as it now is, the rest is the same.
            obtain ⟨v', hv'⟩ := Block.exists_view?_of_run hv hrun
            obtain rfl : target = start + Instruction.size := congrArg Place.pc hplace
            rw [← hchoose] at hwords hrest ⊢
            rw [← Block.instructionsFrom_of_undisturbed hv hv' hwords] at hrest ⊢
            have hnext := ih (hinjector ▸ ho) hlike hv' (Block.toNat_add_size start hstart) hrest
            rw [bind_apply] at hnext
            exact hnext
        · rw [hc, hr]
          exact .error e h'

/-- A block that leaves its own words alone does what the single steps over its instructions do. -/
theorem run_alike_strides (hR : observer.Respects R) (hquiet : observer.Quiet R) {m : Machine σ}
    (ho : observer.Steady m.injector?) {g : Guest σ} (h : g.Like R m.guest) {v : View Ram}
    (hv : g.core.view? = some v) {start : Word} {b : Block}
    (hb : Block.translate v.backing m.choose .block start = .ok b)
    (hund : Block.Undisturbed observer b.steps g) :
    Alike (fun g' n => g'.Like R n.guest) ((b.run observer >>= fun exit => pure exit.target) g)
      (strides observer (Block.strides b.steps) start m) := by
  have hcycles := Block.run_eq_cycles hv hb hund
  have htarget : (b.run observer >>= fun exit => pure exit.target) g =
      (Guest.cycles observer m.choose b.length (.entry start) >>= fun p => pure p.pc) g := by
    rw [Block.admitted_block] at hcycles
    rw [bind_apply, bind_apply, ← hcycles, bind_apply]
    cases b.run observer g <;> rfl
  obtain ⟨hstart, -, rfl⟩ := Block.translate_eq_ok.mp hb
  rw [htarget, Block.length, List.length_map]
  exact cycles_alike_strides hR hquiet ho h hv hstart hund

/-- Runs what is translated afresh from an address, and says where control goes. -/
def runFresh (observer : Observer σ) (extent : Extent) (start : Word) :
    EStateM Signal (Machine σ) Word := do
  let b ← translate extent start
  let exit ← runBlock observer b
  pure exit.target

/-- A single step runs a translation of one instruction. -/
theorem executeOne_eq (observer : Observer σ) (start : Word) :
    executeOne observer start = runFresh observer .single start := rfl

/-- The single steps that execute the block at an address. The step that finds nothing to translate
counts. -/
def stridesAt (start : Word) (m : Machine σ) : Nat :=
  match translate .block start m with
  | .ok b _ => Block.strides b.steps
  | .error _ _ => 1

/-- A block that is translated afresh and leaves its own words alone does what the single steps over
its instructions do. -/
theorem runFresh_alike_strides (hR : observer.Respects R) (hquiet : observer.Quiet R)
    {m : Machine σ} (ho : observer.Steady m.injector?) (hcontext : R m.context m.context)
    {start : Word} (hund : ∀ b n, translate .block start m = .ok b n →
      Block.Undisturbed observer b.steps n.guest) :
    Alike (fun n n' => n.guest.Like R n'.guest) (runFresh observer .block start m)
      (strides observer (stridesAt start m) start m) := by
  have hself : m.guest.Like R m.guest := .refl hcontext
  obtain ⟨entries, htranslate⟩ := translate_eq .block start m
  obtain ⟨entries', htranslate'⟩ := translate_eq .single start m
  have hfailed {t : Trap} {n n' : Machine σ}
      (h : translate .block start m = .error (.trap t) n)
      (h' : translate .single start m = .error (.trap t) n') (hn : n.guest.Like R n'.guest) :
      Alike (fun n n' => n.guest.Like R n'.guest) (runFresh observer .block start m)
        (strides observer (stridesAt start m) start m) := by
    rw [stridesAt, h, strides_one, executeOne_eq, runFresh, runFresh, bind_apply, bind_apply, h, h']
    exact .error _ hn
  -- A block that cannot be translated traps at once, and so does the one single step.
  cases hv : m.core.view? with
  | none =>
    simp only [hv] at htranslate htranslate'
    exact hfailed htranslate htranslate' ⟨⟨rfl, rfl, rfl, trivial⟩, hcontext⟩
  | some v =>
    simp only [hv] at htranslate htranslate'
    cases hb : Block.translate v.backing m.choose .block start with
    | error t =>
      simp only [hb, Block.translate_error hb] at htranslate htranslate'
      exact hfailed htranslate htranslate' hself
    | ok b =>
      simp only [hb] at htranslate
      have hlike : (m.onCore (Core.note · entries)).guest.Like R m.guest :=
        ⟨hself.core.note entries [], hcontext⟩
      have hview : (m.onCore (Core.note · entries)).guest.core.view? = some v :=
        hlike.core.view?.trans hv
      have hrun := run_alike_strides hR hquiet ho hlike hview hb (hund b _ htranslate)
      have hblock := ((run_alike_runBlock observer b (m.onCore (Core.note · entries))).symm
        fun _ _ h => h.symm fun _ _ h => h.symm).bind_pure (·.target)
      rw [runFresh, bind_apply, stridesAt, htranslate]
      exact hblock.trans hrun fun _ _ _ h h' => h.trans h' fun _ _ _ h h' => h ▸ h'

end Machine

namespace Observer

/-- An observer that keeps a journal of its calls beside its context, those about breakpoints
apart. -/
def journaled (observer : Observer σ) : Observer (σ × List Sighting) where
  sync s a := (((observer.sync s.1 a).1, s.2 ++ [.sync a]), (observer.sync s.1 a).2)
  check s a := (((observer.check s.1 a).1, s.2), (observer.check s.1 a).2)
  enter s a := (((observer.enter s.1 a).1, s.2 ++ [.enter a]), (observer.enter s.1 a).2)
  leave s := (((observer.leave s.1).1, s.2 ++ [.leave]), (observer.leave s.1).2)
  write s f t w :=
    (((observer.write s.1 f t w).1, s.2 ++ [.write t w]), (observer.write s.1 f t w).2)

variable {observer : Observer σ} {R : σ → σ → Prop}

/-- Related contexts with the same journal. -/
def Journaled (R : σ → σ → Prop) (s s' : σ × List Sighting) : Prop := R s.1 s'.1 ∧ s.2 = s'.2

/-- Calls that keep a relation keep it with the same journal. -/
theorem Respects.journaled (h : observer.Respects R) :
    observer.journaled.Respects (Journaled R) where
  sync _ _ a hs := ⟨h.sync _ _ a hs.1, congrArg (· ++ [_]) hs.2⟩
  enter _ _ a hs := ⟨h.enter _ _ a hs.1, congrArg (· ++ [_]) hs.2⟩
  leave _ _ hs := ⟨h.leave _ _ hs.1, congrArg (· ++ [_]) hs.2⟩
  write _ _ f t w hs :=
    ⟨⟨(h.write _ _ f t w hs.1).1, congrArg (· ++ [_]) hs.2⟩, (h.write _ _ f t w hs.1).2⟩

/-- A look at breakpoints does not show in the journal. -/
theorem Quiet.journaled (h : observer.Quiet R) : observer.journaled.Quiet (Journaled R) :=
  fun s s' a hs => ⟨⟨(h s.1 s'.1 a hs.1).1, hs.2⟩, (h s.1 s'.1 a hs.1).2⟩

/-- An injector that does not look at the journal. -/
def journaledInjector (injector? : Option (Injector σ)) : Option (Injector (σ × List Sighting)) :=
  injector?.map fun injector s => injector s.1

/-- The journal is nothing that the injector looks at. -/
theorem Steady.journaled {injector? : Option (Injector σ)} (h : observer.Steady injector?) :
    observer.journaled.Steady (journaledInjector injector?) := by
  intro choose
  have hchoose (s : σ × List Sighting) :
      (Machine.mk ⟨default, s⟩ ∅ (journaledInjector injector?)).choose =
        (Machine.mk ⟨default, s.1⟩ ∅ injector?).choose := by
    cases injector? <;> rfl
  simp only [hchoose]
  exact {
    sync := fun s a hs => (h choose).sync s.1 a hs
    check := fun s a hs => (h choose).check s.1 a hs
    enter := fun s a hs => (h choose).enter s.1 a hs
    leave := fun s hs => (h choose).leave s.1 hs
    write := fun s f t w hs => (h choose).write s.1 f t w hs }

end Observer

namespace Machine

variable {R : σ → σ → Prop} {observer : Observer σ}

/-- The machine with an empty journal. -/
def journaled (m : Machine σ) : Machine (σ × List Sighting) :=
  ⟨⟨m.core, (m.context, [])⟩, m.blocks, Observer.journaledInjector m.injector?⟩

/-- A block that is translated afresh and leaves its own words alone ends as the single steps over
its instructions do: at the same address or with the same signal, with the same registers and
memory, and after the same calls of an observer whose breakpoints let the program pass. -/
theorem block_alike_strides (hR : observer.Respects R) (hquiet : observer.Quiet R)
    {m : Machine σ} (ho : observer.Steady m.injector?) (hcontext : R m.context m.context)
    {start : Word} (hund : ∀ b n, translate .block start m.journaled = .ok b n →
      Block.Undisturbed observer.journaled b.steps n.guest) :
    Alike (fun n n' => n.core.registers = n'.core.registers ∧ n.core.view? = n'.core.view? ∧
        n.context.2 = n'.context.2 ∧ R n.context.1 n'.context.1)
      (runFresh observer.journaled .block start m.journaled)
      (strides observer.journaled (stridesAt start m.journaled) start m.journaled) := by
  have hrun := runFresh_alike_strides hR.journaled hquiet.journaled (m := m.journaled) ho.journaled
    ⟨hcontext, rfl⟩ hund
  exact hrun.mono fun n n' h =>
    ⟨h.core.registers, h.core.view?, h.context.2, h.context.1⟩

/-- The block that is translated afresh at an address runs without a store. -/
def storesNothing (observer : Observer σ) (start : Word) (m : Machine σ) : Bool :=
  match translate .block start m with
  | .ok b n => b.storesNothing observer n.guest
  | .error _ _ => false

/-- A block that runs without a store leaves its own words alone. -/
theorem undisturbed_of_storesNothing {start : Word} {m : Machine σ}
    (h : storesNothing observer start m = true) (b : Block) (n : Machine σ)
    (hb : translate .block start m = .ok b n) : Block.Undisturbed observer b.steps n.guest := by
  simp only [storesNothing, hb] at h
  exact (Block.undisturbed_of_storesNothing h).2

end Machine

namespace Counting

/-- Three instructions: `addiu $t0, $zero, 1`, `bne $t0, $zero, 0x0c`, `addiu $t0, $t0, 1`. -/
def image : Image :=
  ⟨0, ⟨#[0x01, 0, 0x08, 0x24, 0x01, 0, 0x00, 0x15, 0x01, 0, 0x08, 0x25]⟩, by decide⟩

/-- An observer that learns nothing and lets the program pass. -/
def observer : Observer Unit := { Observer.silent Unit with check := fun s _ => (s, [], none) }

/-- Every instruction is told, and looked at for a breakpoint. -/
def injector : Injector Unit := fun _ _ _ => [.sync, .check]

/-- A machine at power-on with the three instructions at address zero. -/
def machine : Machine Unit := (Machine.powerOn image ()).withInjector (some injector)

/-- The observer of the example leaves alone what the injector looks at. -/
theorem steady : observer.Steady machine.injector? := fun _ =>
  ⟨fun _ _ h => h, fun _ _ h => h, fun _ _ h => h, fun _ h => h, fun _ _ _ _ h => h⟩

/-- The block of three instructions and the two single steps over them. -/
theorem counting_alike_strides :
    Alike (fun n n' => n.core.registers = n'.core.registers ∧ n.core.view? = n'.core.view? ∧
        n.context.2 = n'.context.2 ∧ n.context.1 = n'.context.1)
      (Machine.runFresh observer.journaled .block 0 machine.journaled)
      (Machine.strides observer.journaled (Machine.stridesAt 0 machine.journaled) 0
        machine.journaled) := by
  have hstores : Machine.storesNothing observer.journaled 0 machine.journaled = true := by
    unfold machine
    rw [Machine.powerOn_eq]
    decide +kernel
  exact Machine.block_alike_strides observer.respects_eq (fun _ _ _ h => ⟨h, rfl⟩) steady rfl
    (Machine.undisturbed_of_storesNothing hstores)

end Counting

namespace Tampering

/-- An observer that lets the program pass wherever it looks at breakpoints, but writes zeros to
registers once it has looked. Its context says whether it has. -/
def observer : Observer Bool :=
  { Observer.silent Bool with
    check := fun _ _ => (true, [], none)
    write := fun looked f t w => (looked, [], f.setTracked t (if looked then 0 else w)) }

/-- A machine at power-on with the three instructions of the count at address zero. -/
def machine : Machine Bool :=
  (Machine.powerOn Counting.image false).withInjector (some fun _ _ _ => [.check])

/-- An observer that lets the program pass as well, and keeps whether it was told an address. -/
def told : Observer Bool :=
  { Observer.silent Bool with
    sync := fun _ _ => (true, [])
    check := fun s _ => (s, [], none) }

/-- A machine whose injector asks for something else once an address was told. -/
def wavering : Machine Bool :=
  (Machine.powerOn Counting.image false).withInjector
    (some fun told _ _ => if told then [.leave] else [.sync])

/-- Passing breakpoints is not enough for a block to do what single steps do. The registers differ
where a look at a breakpoint, which single steps do not take, shows in a later write. The calls of
the observer differ where they change what the injector asks for, which a block asked before. -/
theorem block_unlike_strides :
    ((∀ s a, (observer.check s a).2.2 = none) ∧
      (∀ b n, Machine.translate .block 0 machine.journaled = .ok b n →
        Block.Undisturbed observer.journaled b.steps n.guest) ∧
      ¬ Alike (fun n n' => n.core.registers = n'.core.registers)
        (Machine.runFresh observer.journaled .block 0 machine.journaled)
        (Machine.strides observer.journaled (Machine.stridesAt 0 machine.journaled) 0
          machine.journaled)) ∧
    (∀ s a, (told.check s a).2.2 = none) ∧
      (∀ b n, Machine.translate .block 0 wavering.journaled = .ok b n →
        Block.Undisturbed told.journaled b.steps n.guest) ∧
      ¬ Alike (fun n n' => n.context.2 = n'.context.2)
        (Machine.runFresh told.journaled .block 0 wavering.journaled)
        (Machine.strides told.journaled (Machine.stridesAt 0 wavering.journaled) 0
          wavering.journaled) := by
  refine ⟨⟨fun _ _ => rfl, Machine.undisturbed_of_storesNothing ?_, fun halike => ?_⟩,
    fun _ _ => rfl, Machine.undisturbed_of_storesNothing ?_, fun halike => ?_⟩
  · unfold machine
    rw [Machine.powerOn_eq]
    decide +kernel
  · -- The block leaves 0 in `$t0`, and the steps leave 2.
    have hcount := congrArg (RegisterFile.value · (.ofGpr 8)) halike.endState
    revert hcount
    unfold machine
    rw [Machine.powerOn_eq]
    decide +kernel
  · unfold wavering
    rw [Machine.powerOn_eq]
    decide +kernel
  · -- The block tells three addresses, and the steps tell one.
    have hjournal := halike.endState
    revert hjournal
    unfold wavering
    rw [Machine.powerOn_eq]
    decide +kernel

end Tampering

end MipsMonitor
