import MipsMonitor.Proofs.Machine.Coherence
import MipsMonitor.Proofs.Machine.Cycles

/-!
# Passes as stretches of cycles

With good translations, a pass looks up what translating at its address gives, whether it was
translated before or not (`Machine.blockAt_eq`). A pass over a block that leaves its own words alone
therefore does what a stretch of cycles does, at least one (`Machine.cycles_alike_pass`); a pass
that cannot begin ends as the first cycle does. So what holds of cycles is carried to runs pass by
pass.
-/

namespace MipsMonitor

open ByteMemory

namespace Block

/-- Translating fails as fetching the first instruction does. -/
theorem instructionAt_eq_error {r : Ram} {choose : Word → Option Instruction → List Action}
    {extent : Extent} {start : Word} {t : Trap} (h : translate r choose extent start = .error t) :
    instructionAt r start = .error t := by
  unfold translate translateBy at h
  unfold instructionAt
  split at h
  · next haligned =>
    rw [if_pos haligned]
    cases hw : readWord r start with
    | error e =>
      rw [hw] at h
      cases h
      rfl
    | ok w =>
      rw [hw] at h
      cases h
  · next haligned =>
    rw [if_neg haligned]
    cases h
    rfl

/-- A translation has an instruction. -/
theorem length_pos_of_translate {r : Ram} {choose : Word → Option Instruction → List Action}
    {start : Word} {b : Block} (h : translate r choose .block start = .ok b) : 0 < b.length := by
  obtain ⟨-, hsome, rfl⟩ := translate_eq_ok.mp h
  obtain ⟨w, hw⟩ := Option.isSome_iff_exists.mp hsome
  have hpos (room : Nat) : 0 < (instructionsFrom r.fetched (room + 1) start).length := by
    simp only [instructionsFrom, hw, List.length_cons]
    exact Nat.succ_pos _
  rw [length, List.length_map]
  exact hpos 63

end Block

namespace Guest

variable {σ : Type} {observer : Observer σ} {P : σ → Prop} {g g' : Guest σ}
  {choose : Word → Option Instruction → List Action}

/-- What the actions of a cycle establish and its operation keeps, holds when it has ended. -/
theorem leads_cycle (ho : observer.Keeps P) {p q : Place}
    (hact : ∀ i?, ∀ g₁, g.actAll observer p.pc (choose p.pc i?) = .ok () g₁ → P g₁.context)
    (hok : g.cycle observer choose p = .ok q g') : P g'.context := by
  obtain ⟨v, i?, flow, -, -, hrun, -⟩ := cycle_eq_ok hok
  obtain ⟨_, g₁, hacts, hperform⟩ := bind_eq_ok.mp hrun
  exact Leads.of_ok (keeps_perform ho (hact i? g₁ hacts) p.pc _) hperform

/-- Cycles keep what their steps keep and a request to stop does not touch. -/
theorem leads_cycles {Q : Guest σ → Prop}
    (hstop : ∀ g, Q g → Q ⟨g.core.requestStop, g.context⟩)
    (hstep : ∀ a i? g, Q g →
      Leads Q ((⟨a, choose a i?, .ofInstruction? i? a⟩ : Step).run observer g))
    (h : Q g) (n : Nat) (p : Place) : Leads Q (g.cycles observer choose n p) := by
  induction n generalizing g p with
  | zero => exact h
  | succ n ih =>
    unfold cycles
    -- Each cycle is a step at most, and what a step keeps the rest of the cycles keeps.
    refine Leads.bind (P := Q) ?_ (fun _ h => h) fun q g₁ h₁ => ih h₁ q
    simp only [cycle]
    cases g.core.view? with
    | none => exact hstop g h
    | some v =>
      simp only
      cases Block.instructionAt v.backing p.pc with
      | error t => exact h
      | ok i? =>
        have hkept := hstep p.pc i? g h
        simp only
        cases hrun : (⟨p.pc, choose p.pc i?, .ofInstruction? i? p.pc⟩ : Step).run observer g <;>
          rw [hrun] at hkept <;> exact hkept

/-- Cycles keep what the observer keeps. -/
theorem keeps_cycles (ho : observer.Keeps P) (h : P g.context) {n : Nat} {p q : Place}
    (hok : g.cycles observer choose n p = .ok q g') : P g'.context := by
  induction n generalizing g p with
  | zero =>
    cases hok
    exact h
  | succ n ih =>
    obtain ⟨p₁, g₁, hcycle, hrest⟩ := bind_eq_ok.mp hok
    refine ih (leads_cycle ho (fun i? g₂ hacts => ?_) hcycle) hrest
    exact Leads.of_ok (keeps_actAll ho h p.pc _) hacts

end Guest

namespace Machine

variable {σ : Type} {observer : Observer σ} {m : Machine σ}

/-- With good translations, looking a block up gives what translating there gives. -/
theorem blockAt_eq (hm : m.Coherent) (start : Word) :
    ∃ entries blocks, (Machine.mk (m.onCore (Core.note · entries)).guest blocks m.injector?).Coherent ∧
      blockAt start m = match m.core.view? with
        | none => .error (.trap (.detached start)) (m.onCore Core.requestStop)
        | some v =>
          match Block.translate v.backing m.choose .block start with
          | .error t => .error (.trap t) m
          | .ok b => .ok b ⟨(m.onCore (Core.note · entries)).guest, blocks, m.injector?⟩ := by
  obtain ⟨entries, heq⟩ := translate_eq .block start m
  unfold blockAt
  cases hb : m.blocks[start]? with
  -- A block that was kept is what would be translated now, so nothing need be noted for it.
  | some b =>
    obtain ⟨v, hv, htranslate⟩ := hm start b hb
    refine ⟨[], m.blocks, hm, ?_⟩
    simp only [hv, htranslate]
    rfl
  | none =>
    simp only
    rw [heq]
    cases hv : m.core.view? with
    | none => exact ⟨[], m.blocks, hm, rfl⟩
    | some v =>
      simp only
      cases htranslate : Block.translate v.backing m.choose .block start with
      | error t => exact ⟨[], m.blocks, hm, rfl⟩
      | ok b =>
        exact ⟨entries, m.blocks.insert start b, hm.insert hv htranslate entries, rfl⟩

/-- Looking a block up tells the observer nothing. -/
theorem context_blockAt (start : Word) (m : Machine σ) :
    Leads (fun n => n.context = m.context) (blockAt start m) := by
  cases h : blockAt start m with
  | error e n => obtain ⟨-, rfl | rfl⟩ := blockAt_eq_error h <;> exact rfl
  | ok b n => obtain ⟨-, rfl⟩ | ⟨v, entries, -, -, rfl⟩ := blockAt_eq_ok h <;> exact rfl

/-- A pass keeps what the observer keeps. -/
theorem keeps_pass {P : σ → Prop} (ho : observer.Keeps P) (h : P m.context) (pc : Word) :
    Leads (fun n => P n.context) (pass observer pc m) := by
  refine leads_pass (P := fun n => P n.context) h (fun e n herror => ?_) fun b n hblock => ?_
  · obtain ⟨-, rfl | rfl⟩ := blockAt_eq_error herror <;> exact h
  · obtain ⟨-, rfl⟩ | ⟨v, entries, -, -, rfl⟩ := blockAt_eq_ok hblock <;>
      exact leads_runBlock (b.keeps_run ho h) fun _ h => h

/-- A single step keeps what the observer keeps. -/
theorem keeps_executeOne {P : σ → Prop} (ho : observer.Keeps P) (h : P m.context) (pc : Word) :
    Leads (fun n => P n.context) (executeOne observer pc m) := by
  refine leads_executeOne (P := fun n => P n.context) (fun e n herror => ?_) fun b n htranslate => ?_
  · obtain ⟨-, -, rfl⟩ | ⟨v, t, -, -, -, rfl⟩ := translate_eq_error herror <;> exact h
  · obtain ⟨v, entries, -, -, rfl⟩ := translate_eq_ok htranslate
    exact leads_runBlock (b.keeps_run ho h) fun _ h => h

/-- A single step that completes has found an instruction. -/
theorem fetched_of_executeOne {pc target : Word} {n : Machine σ}
    (h : executeOne observer pc m = .ok target n) :
    ∃ v w, m.core.view? = some v ∧ pc.toNat % 4 = 0 ∧ v.backing.fetched pc = some w := by
  obtain ⟨b, n', htranslate, -⟩ := bind_eq_ok.mp h
  obtain ⟨v, entries, hv, hb, -⟩ := translate_eq_ok htranslate
  obtain ⟨haligned, hsome, -⟩ := Block.translate_eq_ok.mp hb
  obtain ⟨w, hw⟩ := Option.isSome_iff_exists.mp hsome
  exact ⟨v, w, hv, haligned, hw⟩

/-- A good translation that leaves its own words alone and misses nothing does what cycles over its
instructions do, and leaves translations that are as good as new. -/
theorem cycles_alike_runBlock (hm : m.Coherent) (ho : observer.Steady m.injector?) {v : View Ram}
    (hv : m.core.view? = some v) {pc : Word} {b : Block}
    (htranslate : Block.translate v.backing m.choose .block pc = .ok b)
    (hundisturbed : Block.Undisturbed observer b.steps m.guest) (hmiss : ¬ m.Misses observer b)
    {g : Guest σ} (hg : g.Like (· = ·) m.guest) :
    Alike (fun g n => g.Like (· = ·) n.guest ∧ n.Coherent ∧ n.injector? = m.injector? ∧
        n.choose = m.choose)
      (g.cycles observer m.choose b.length (.entry pc))
      ((runBlock observer b >>= fun exit => pure (Place.entry exit.target)) m) := by
  -- Cycles, the block and the machine are compared two by two.
  have hcycles := Guest.alike_cycles_of_eq observer m.choose hg b.length (.entry pc)
  have hrun := Block.run_eq_cycles hv htranslate hundisturbed
  rw [Block.admitted_block] at hrun
  rw [← hrun] at hcycles
  have hkept : Leads (fun n => n.Coherent ∧ n.injector? = m.injector? ∧ n.choose = m.choose)
      (runBlock observer b m) :=
    (Leads.of_endState (hm.runBlock ho hmiss)).and (choose_runBlock ho b)
  have hblock := (run_alike_runBlock observer b m).and_right hkept
  exact hcycles.trans (hblock.bind_pure _) fun _ _ _ h h' =>
    ⟨h.trans h'.1 fun _ _ _ => Eq.trans, h'.2⟩

/-- A pass that is not stopped, over a block that leaves its own words alone and misses nothing,
does what a stretch of cycles does. -/
theorem cycles_alike_pass (hm : m.Coherent) (ho : observer.Steady m.injector?)
    (hstopped : m.core.stopped = false) {pc : Word}
    (hblock : ∀ b n, blockAt pc m = .ok b n →
      Block.Undisturbed observer b.steps n.guest ∧ ¬ n.Misses observer b) :
    ∃ count, 0 < count ∧
      Alike (fun g n => g.Like (· = ·) n.guest ∧ n.Coherent ∧ n.injector? = m.injector? ∧
          n.choose = m.choose)
        (m.guest.cycles observer m.choose count (.entry pc))
        ((pass observer pc >>= fun exit => pure (Place.entry exit.target)) m) := by
  have hself : m.guest.Like (· = ·) m.guest := .refl rfl
  have hone (s : Signal) (g : Guest σ)
      (h : m.guest.cycle observer m.choose (.entry pc) = .error s g) :
      m.guest.cycles observer m.choose 1 (.entry pc) = .error s g := by
    rw [Guest.cycles_one, h]
  obtain ⟨entries, blocks, hcoherent, heq⟩ := blockAt_eq hm pc
  have hpass : (pass observer pc >>= fun exit => pure (Place.entry exit.target)) m =
      match blockAt pc m with
        | .error s n => .error s n
        | .ok b n => (runBlock observer b >>= fun exit => pure (Place.entry exit.target)) n := by
    rw [bind_apply, pass, if_neg (by rw [hstopped]; exact Bool.false_ne_true), bind_apply]
    cases blockAt pc m with
    | error s n => rfl
    | ok b n =>
      simp only
      rw [bind_apply]
  rw [hpass]
  rw [heq] at hblock ⊢
  cases hv : m.core.view? with
  | none =>
    refine ⟨1, Nat.one_pos, ?_⟩
    rw [hone (.trap (.detached pc)) ⟨m.core.requestStop, m.context⟩]
    · refine .error _ ⟨⟨⟨rfl, rfl, rfl, trivial⟩, rfl⟩, ?_, rfl, rfl⟩
      exact hm.onCore rfl
    · simp only [Guest.cycle, show m.guest.core.view? = none from hv]
      rfl
  | some v =>
    simp only [hv] at hblock ⊢
    cases htranslate : Block.translate v.backing m.choose .block pc with
    | error t =>
      refine ⟨1, Nat.one_pos, ?_⟩
      rw [hone (.trap t) m.guest]
      · exact .error _ ⟨hself, hm, rfl, rfl⟩
      · simp only [Guest.cycle, show m.guest.core.view? = some v from hv, Place.entry,
          Block.instructionAt_eq_error htranslate]
    | ok b =>
      simp only [htranslate] at hblock ⊢
      obtain ⟨hundisturbed, hmiss⟩ := hblock b _ rfl
      have hnoted : m.guest.Like (· = ·) (m.onCore (Core.note · entries)).guest :=
        ⟨hself.core.note [] entries, rfl⟩
      have hview : (m.onCore (Core.note · entries)).core.view? = some v :=
        (m.core.view?_note entries).trans hv
      -- The cycles go as they do behind the look-up, and there the block does what they do.
      exact ⟨b.length, Block.length_pos_of_translate htranslate,
        cycles_alike_runBlock hcoherent ho hview htranslate hundisturbed hmiss hnoted⟩

end Machine

end MipsMonitor
