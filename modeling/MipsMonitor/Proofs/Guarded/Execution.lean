import MipsMonitor.Proofs.Guarded.Translations
import MipsMonitor.Proofs.Machine.Passes
import MipsMonitor.Proofs.Machine.PowerOn

/-!
# Guarded execution

The machine with guarded translations. A run counts the calls that it is deep in with a counter that
has a greatest value.

Neither what is kept from one run to the next nor what the host does in between leads to a check
that fails: every sequence of calls from a machine without translations gives the answers that the
machine gives otherwise, and leaves the same guest (`Guarded.Machine.session_never_breaks_off`). The
one bound is that of the counter: only a run that is deeper in calls than it can count might overflow
it, and no run is deeper in calls than it has blocks (`Machine.sessionDepth_le`).
-/

namespace MipsMonitor

/-! ## What the host does -/

/-- The answer or the error of a computation. -/
def reply {ε σ α : Type} : EStateM.Result ε σ α → Except ε α
  | .ok a _ => .ok a
  | .error e _ => .error e

namespace Machine

variable {σ : Type}

/-- The most calls that a run from `pc` on is deep in, if it begins `depth` calls deep. -/
def deepest (observer : Observer σ) : (fuel : Nat) → (pc : Word) → (depth : Nat) → Machine σ → Nat
  | 0, _, depth, _ => depth
  | fuel + 1, pc, depth, m =>
    match pass observer pc m with
    | .error _ _ => depth
    | .ok exit n =>
      match exit.follow? depth with
      | none => depth
      | some (pc, depth') => max depth (deepest observer fuel pc depth' n)

/-- What the host does with a machine. -/
inductive Call (σ : Type) where
  /-- It lets the machine run from an address until the routine there returns. -/
  | execute (fuel : Nat) (pc : Word)
  /-- It lets the machine make a single step. -/
  | executeOne (pc : Word)
  /-- It changes registers or memory as it likes, without a look at translations. -/
  | change (f : Guest σ → Guest σ)
  /-- It resets the machine. -/
  | reset (v : View Ram)
  /-- It drops the translations that cover an address. -/
  | invalidate (a : Word)
  /-- It drops all translations. -/
  | invalidateAll
  /-- It replaces the injector. -/
  | inject (injector? : Option (Injector σ))

namespace Call

/-- The blocks that a call may run. -/
def fuel : Call σ → Nat
  | execute fuel _ => fuel
  | _ => 0

/-- The most calls that the guest is deep in while a call is carried out. -/
def depth : Call σ → Machine σ → Nat
  | execute fuel pc, m => deepest (.silent σ) fuel pc 0 m.resumed
  | _, _ => 0

/-- Carries out a call under the observer that learns nothing. -/
def run : Call σ → EStateM Signal (Machine σ) (Option Word)
  | execute fuel pc => Machine.execute (.silent σ) fuel pc
  | executeOne pc => do pure (some (← Machine.executeOne (.silent σ) pc))
  | change f => fun m => .ok none { m with guest := f m.guest }
  | reset v => fun m => .ok none (m.reset v)
  | invalidate a => fun m => .ok none (m.invalidate a)
  | invalidateAll => fun m => .ok none m.invalidateAll
  | inject injector? => fun m => .ok none (m.withInjector injector?)

end Call

/-- Carries out calls one after the other, whatever they end with. -/
def session : List (Call σ) → Machine σ → List (Except Signal (Option Word)) × Machine σ
  | [], m => ([], m)
  | c :: calls, m =>
    let r := c.run m
    let (replies, n) := session calls (endState r)
    (reply r :: replies, n)

/-- The most calls that the guest is deep in while calls are carried out one after the other. -/
def sessionDepth : List (Call σ) → Machine σ → Nat
  | [], _ => 0
  | c :: calls, m => max (c.depth m) (sessionDepth calls (endState (c.run m)))

/-- A run gets deeper by one call at a time. -/
theorem depth_of_follow? {exit : Exit} {depth : Nat} {next : Word × Nat}
    (h : exit.follow? depth = some next) : next.2 ≤ depth + 1 := by
  obtain ⟨target, transfer⟩ := exit
  cases transfer with
  | plain =>
    -- Only a call goes deeper, and by one.
    cases h
    exact Nat.le_succ depth
  | enter =>
    cases h
    exact Nat.le_refl _
  | leave =>
    cases depth with
    | zero => cases h
    | succ depth =>
      cases h
      simp only
      omega

/-- A run is at least as deep in calls as it begins. -/
theorem le_deepest (observer : Observer σ) (fuel : Nat) (pc : Word) (depth : Nat) (m : Machine σ) :
    depth ≤ deepest observer fuel pc depth m := by
  cases fuel with
  | zero => exact Nat.le_refl depth
  | succ fuel =>
    unfold deepest
    split
    · exact Nat.le_refl depth
    · split
      · exact Nat.le_refl depth
      · exact Nat.le_max_left _ _

/-- A run is not deeper in calls than it has blocks. -/
theorem deepest_le (observer : Observer σ) (fuel : Nat) (pc : Word) (depth : Nat) (m : Machine σ) :
    deepest observer fuel pc depth m ≤ depth + fuel := by
  induction fuel generalizing pc depth m with
  | zero => exact Nat.le_refl depth
  | succ fuel ih =>
    unfold deepest
    split
    · exact Nat.le_add_right depth _
    · next exit n _ =>
      split
      · exact Nat.le_add_right depth _
      · next pc' depth' hfollow =>
        have hdepth : depth' ≤ depth + 1 := depth_of_follow? hfollow
        have hrest := ih pc' depth' n
        exact Nat.max_le.mpr ⟨Nat.le_add_right depth _, by omega⟩

/-- The guest is not deeper in calls than the longest run has blocks. -/
theorem sessionDepth_le {limit : Nat} {calls : List (Call σ)} (h : ∀ c ∈ calls, c.fuel ≤ limit)
    (m : Machine σ) : sessionDepth calls m ≤ limit := by
  induction calls generalizing m with
  | nil => exact Nat.zero_le limit
  | cons c calls ih =>
    obtain ⟨hc, hcalls⟩ := List.forall_mem_cons.mp h
    refine Nat.max_le.mpr ⟨?_, ih hcalls _⟩
    cases c with
    | execute fuel pc =>
      have hdeepest := deepest_le (.silent σ) fuel pc 0 m.resumed
      have hfuel : fuel ≤ limit := hc
      simp only [Call.depth]
      omega
    | _ => exact Nat.zero_le limit

end Machine

namespace Guarded

variable {σ : Type}

/-! ## Guarded machines -/

/-- A processor with its translations and the injector. -/
structure Machine (σ : Type) where
  /-- The processor and the context of its observer. -/
  guest : Guest σ
  /-- The translations made so far. -/
  blocks : Translations σ
  /-- Chooses the actions in new translations. -/
  injector? : Option (Injector σ)

namespace Machine

/-- The actions that the injector chooses before an instruction. -/
def choose (m : Machine σ) (a : Word) (i? : Option Instruction) : List Action :=
  match m.injector? with
  | some injector => injector m.guest.context a i?
  | none => []

/-- The machine with its processor replaced by the value of a function. -/
def onCore (f : Core → Core) (m : Machine σ) : Machine σ :=
  { m with guest := ⟨f m.guest.core, m.guest.context⟩ }

/-- Translates the instructions from an address on, and reports what is fetched. -/
def translate (extent : Extent) (start : Word) : GuardedAction Signal (Machine σ) (Block σ) :=
  fun m =>
    match m.guest.core.view? with
    | none => pure (.error (.trap (.detached start)) (m.onCore Core.requestStop))
    | some v => do
      match ← Guarded.translate v.backing m.choose extent start with
      | .error t => pure (.error (.trap t) m)
      | .ok b =>
        let notes := b.steps.flatMap fun s =>
          ByteMemory.readNotes v.backing (Address.run s.address 4)
        pure (.ok b (m.onCore (Core.note · notes)))

/-- The translation entered at an address, made now if there is none. -/
def blockAt (start : Word) : GuardedAction Signal (Machine σ) (Block σ) := fun m =>
  match m.blocks[start]? with
  | some b => pure (.ok b m)
  | none => do
    match ← translate .block start m with
    | .error s m => pure (.error s m)
    | .ok b m => pure (.ok b { m with blocks := m.blocks.insert start b })

/-- What follows every block, however it ends. -/
def settle (ticks : Nat) (m : Machine σ) : Guarded (Machine σ) := do
  let blocks ← m.guest.core.written.foldlM Translations.invalidate m.blocks
  let core := { m.guest.core with written := [] }.clock ticks
  pure ⟨⟨core, m.guest.context⟩, blocks, m.injector?⟩

/-- Executes a block. -/
def runBlock (b : Block σ) : GuardedAction Signal (Machine σ) Exit := fun m => do
  match ← b.run m.guest with
  | .ok exit guest => do pure (.ok exit (← settle b.steps.length { m with guest }))
  | .error s guest => do pure (.error s (← settle b.steps.length { m with guest }))

/-- Executes the block at an address, unless a stop is requested. -/
def pass (pc : Word) : GuardedAction Signal (Machine σ) Exit := fun m =>
  if m.guest.core.stopped then pure (.error (.stopped pc) m)
  else (blockAt pc >>= runBlock) m

/-- Where a run goes on behind a block, unless the outermost routine has returned. The counter of
calls does not go beyond `limit`. -/
def follow? (limit : Nat) (exit : Exit) (depth : Nat) : Guarded (Option (Word × Nat)) :=
  match exit.transfer with
  | .plain => pure (some (exit.target, depth))
  | .enter => do pure (some (exit.target, ← add limit depth 1))
  | .leave => if depth = 0 then pure none else do pure (some (exit.target, ← sub depth 1))

/-- Executes blocks from `pc` on until the routine returns that is `depth` calls up. -/
def invoke (limit : Nat) : (fuel : Nat) → (pc : Word) → (depth : Nat) →
    GuardedAction Signal (Machine σ) (Option Word)
  | 0, _, _ => pure none
  | fuel + 1, pc, depth => do
    let exit ← pass pc
    match ← follow? limit exit depth with
    | none => pure (some exit.target)
    | some (pc, depth) => invoke limit fuel pc depth

/-- Runs from an address until the routine there returns. -/
def execute (limit fuel : Nat) (pc : Word) : GuardedAction Signal (Machine σ) (Option Word) :=
  fun m => invoke limit fuel pc 0 (m.onCore fun core => { core with stopped := false })

/-- Executes the instruction at an address and its delay slot, and says where control goes. -/
def executeOne (pc : Word) : GuardedAction Signal (Machine σ) Word := do
  let b ← translate .single pc
  let exit ← runBlock b
  pure exit.target

/-- Carries out a call. -/
def call (limit : Nat) : MipsMonitor.Machine.Call σ → GuardedAction Signal (Machine σ) (Option Word)
  | .execute fuel pc => execute limit fuel pc
  | .executeOne pc => do pure (some (← executeOne pc))
  | .change f => fun m => pure (.ok none { m with guest := f m.guest })
  | .reset v => fun m => pure (.ok none { m.onCore (Core.reset · v) with blocks := ∅ })
  | .invalidate a => fun m => do
    let blocks ← m.blocks.invalidate a
    pure (.ok none { m with blocks })
  | .invalidateAll => fun m => pure (.ok none { m with blocks := ∅ })
  | .inject injector? => fun m => pure (.ok none { m with blocks := ∅, injector? })

/-- Carries out calls one after the other, whatever they end with. -/
def session (limit : Nat) : List (MipsMonitor.Machine.Call σ) → Machine σ →
    Guarded (List (Except Signal (Option Word)) × Machine σ)
  | [], m => pure ([], m)
  | c :: calls, m => do
    let r ← call limit c m
    let (replies, n) ← session limit calls (endState r)
    pure (reply r :: replies, n)

end Machine

/-! ## Machines run as they do otherwise -/

open GuardedAction

namespace Machine

/-- Where the counter of calls has room for those that a run goes on in, it is known where. -/
theorem follow?_eq {limit depth : Nat} {exit : Exit}
    (h : ∀ next, exit.follow? depth = some next → next.2 ≤ limit) :
    follow? limit exit depth = .ok (exit.follow? depth) := by
  obtain ⟨target, transfer⟩ := exit
  cases transfer with
  | plain => rfl
  | enter =>
    have hadd : add limit depth 1 = .ok (depth + 1) := add_of_le (h (target, depth + 1) rfl)
    unfold follow?
    simp only [hadd]
    rfl
  -- A return from the outermost routine is not subtracted.
  | leave =>
    cases depth with
    | zero => rfl
    | succ depth =>
      unfold follow?
      simp only [sub_of_le (Nat.succ_le_succ (Nat.zero_le depth))]
      rfl

/-- A guarded machine has the guest and the injector of another one, and its translations. -/
structure Implements (m : Machine σ) (m' : MipsMonitor.Machine σ) : Prop where
  /-- The guests are the same. -/
  guest : m.guest = m'.guest
  /-- The translations do the same. -/
  blocks : m.blocks.Implements m'.blocks
  /-- The injectors are the same. -/
  injector : m.injector? = m'.injector?

namespace Implements

variable {m : Machine σ} {m' : MipsMonitor.Machine σ}

/-- Machines that do the same have the same actions chosen. -/
theorem choose (h : m.Implements m') : m.choose = m'.choose := by
  obtain ⟨guest, blocks, injector?⟩ := m
  obtain ⟨guest', blocks', injector'?⟩ := m'
  obtain rfl : guest = guest' := h.guest
  obtain rfl : injector? = injector'? := h.injector
  rfl

/-- They stay so if their cores are changed alike. -/
theorem onCore (h : m.Implements m') (f : Core → Core) : (m.onCore f).Implements (m'.onCore f) where
  guest := by
    unfold Machine.onCore
    rw [h.guest]
    rfl
  blocks := h.blocks
  injector := h.injector

/-- They stay so with a new guest. -/
theorem withGuest (h : m.Implements m') (guest : Guest σ) :
    Implements { m with guest } ⟨guest, m'.blocks, m'.injector?⟩ := ⟨rfl, h.blocks, h.injector⟩

/-- Translating never breaks off. -/
theorem translate (h : m.Implements m') (extent : Extent) (start : Word) :
    Follows (fun b b' => b.Implements b' ∧ b'.start = start) Implements
      (Machine.translate extent start m) (MipsMonitor.Machine.translate extent start m') := by
  have hview : m'.core.view? = m.guest.core.view? := congrArg (·.core.view?) h.guest.symm
  unfold Machine.translate MipsMonitor.Machine.translate
  rw [hview, ← h.choose]
  cases m.guest.core.view? with
  | none => exact .error _ (h.onCore _)
  | some v =>
    obtain ⟨result, hresult, htranslated⟩ :=
      translate_eq (σ := σ) v.backing m.choose extent start
    simp only [hresult, ok_bind]
    have hstart (b' : MipsMonitor.Block)
        (hok : MipsMonitor.Block.translate v.backing m.choose extent start = .ok b') :
        b'.start = start := by
      obtain ⟨-, -, rfl⟩ := MipsMonitor.Block.translate_eq_ok.mp hok
      rfl
    generalize MipsMonitor.Block.translate v.backing m.choose extent start = result' at *
    cases htranslated with
    | error t => exact .error _ h
    | @ok b b' hb =>
      simp only [hb.fetchNotes]
      -- Noting nothing leaves the machine as it is, so the two ways to note agree.
      have hnotes : (if (b'.fetchNotes v.backing).isEmpty then m'
          else m'.onCore (Core.note · (b'.fetchNotes v.backing))) =
          m'.onCore (Core.note · (b'.fetchNotes v.backing)) := by
        split
        · next hnone => simp only [MipsMonitor.Machine.onCore, Core.note, hnone, if_true]
        · rfl
      rw [hnotes]
      exact .ok ⟨hb, hstart b' rfl⟩ (h.onCore _)

/-- Finding the translation at an address never breaks off. -/
theorem blockAt (h : m.Implements m') (start : Word) :
    Follows Block.Implements Implements (Machine.blockAt start m)
      (MipsMonitor.Machine.blockAt start m') := by
  have hkept := h.blocks start
  unfold Machine.blockAt MipsMonitor.Machine.blockAt
  generalize m.blocks[start]? = b? at hkept
  generalize m'.blocks[start]? = b'? at hkept
  cases hkept with
  | some hb => exact .ok hb.2 h
  -- What is translated anew is the same in both, and is kept at the same address.
  | none =>
    have hnew := h.translate .block start
    simp only
    generalize Machine.translate .block start m = r at hnew
    generalize MipsMonitor.Machine.translate .block start m' = r' at hnew
    cases hnew with
    | error e hn => exact .error e hn
    | ok hb hn =>
      exact .ok hb.1 ⟨hn.guest, hn.blocks.insert hb.1 hb.2, hn.injector⟩

/-- What follows a block never breaks off. -/
theorem settle (h : m.Implements m') (ticks : Nat) :
    ∃ n, Machine.settle ticks m = .ok n ∧ n.Implements (MipsMonitor.Machine.settle ticks m') := by
  obtain ⟨blocks₁, hblocks, h₁⟩ := h.blocks.foldlM_invalidate m.guest.core.written
  refine ⟨⟨⟨{ m.guest.core with written := [] }.clock ticks, m.guest.context⟩, blocks₁,
    m.injector?⟩, ?_, ?_, ?_, h.injector⟩
  · unfold Machine.settle
    rw [hblocks]
    rfl
  · rw [h.guest]
    rfl
  · rw [h.guest] at h₁
    exact h₁

/-- Running a block never breaks off. -/
theorem runBlock (h : m.Implements m') {b : Block σ} {b' : MipsMonitor.Block}
    (hb : b.Implements b') : Follows (· = ·) Implements (Machine.runBlock b m)
      (MipsMonitor.Machine.runBlock (.silent σ) b' m') := by
  have hrun : b.run m.guest = .ok (b'.run (.silent σ) m.guest) := hb.run m.guest
  unfold Machine.runBlock
  rw [hrun, ok_bind, hb.length, MipsMonitor.Machine.runBlock_eq, ← h.guest]
  cases b'.run (.silent σ) m.guest with
  | ok exit guest =>
    obtain ⟨n, hsettle, hn⟩ := (h.withGuest guest).settle b'.length
    simp only [hsettle]
    exact .ok rfl hn
  | error e guest =>
    obtain ⟨n, hsettle, hn⟩ := (h.withGuest guest).settle b'.length
    simp only [hsettle]
    exact .error e hn

/-- A pass never breaks off. -/
theorem pass (h : m.Implements m') (pc : Word) :
    Follows (· = ·) Implements (Machine.pass pc m)
      (MipsMonitor.Machine.pass (.silent σ) pc m') := by
  have hstopped : m'.core.stopped = m.guest.core.stopped := congrArg (·.core.stopped) h.guest.symm
  unfold Machine.pass MipsMonitor.Machine.pass
  rw [hstopped]
  split
  · exact .error _ h
  · exact (h.blockAt pc).bind fun _ _ _ _ hb hn => hn.runBlock hb

/-- A run whose counter of calls has room for the deepest of them never breaks off. -/
theorem invoke {limit : Nat} (h : m.Implements m') {fuel depth : Nat} {pc : Word}
    (hlimit : MipsMonitor.Machine.deepest (.silent σ) fuel pc depth m' ≤ limit) :
    Follows (· = ·) Implements (Machine.invoke limit fuel pc depth m)
      (MipsMonitor.Machine.invoke (.silent σ) fuel pc depth m') := by
  induction fuel generalizing pc depth m m' with
  | zero => exact .ok rfl h
  | succ fuel ih =>
    have hpass := h.pass pc
    unfold Machine.invoke
    unfold MipsMonitor.Machine.deepest at hlimit
    rw [MipsMonitor.Machine.invoke_succ, GuardedAction.bind_apply]
    generalize Machine.pass pc m = r at hpass
    generalize MipsMonitor.Machine.pass (.silent σ) pc m' = r' at hpass hlimit
    cases hpass with
    | error e hn => exact .error e hn
    | @ok exit exit' n n' hexit hn =>
      subst hexit
      simp only at hlimit
      -- The rest of the run begins as deep as it goes on, so the counter has room for that.
      have hnext (next : Word × Nat) (hfollow : exit.follow? depth = some next) :
          MipsMonitor.Machine.deepest (.silent σ) fuel next.1 next.2 n' ≤ limit := by
        rw [hfollow] at hlimit
        exact Nat.le_trans (Nat.le_max_right _ _) hlimit
      have hcounts : follow? limit exit depth = .ok (exit.follow? depth) :=
        follow?_eq fun next hfollow =>
          Nat.le_trans (MipsMonitor.Machine.le_deepest _ _ _ _ _) (hnext next hfollow)
      simp only [hcounts]
      rw [bind_ok (lift_ok _ n)]
      cases hfollow : exit.follow? depth with
      | none => exact .ok rfl hn
      | some next => exact ih hn (hnext next hfollow)

/-- A run whose counter of calls has room for the deepest of them never breaks off. -/
theorem execute {limit fuel : Nat} (h : m.Implements m') {pc : Word}
    (hlimit : MipsMonitor.Machine.deepest (.silent σ) fuel pc 0 m'.resumed ≤ limit) :
    Follows (· = ·) Implements (Machine.execute limit fuel pc m)
      (MipsMonitor.Machine.execute (.silent σ) fuel pc m') :=
  (h.onCore _).invoke hlimit

/-- A single step never breaks off. -/
theorem executeOne (h : m.Implements m') (pc : Word) :
    Follows (· = ·) Implements (Machine.executeOne pc m)
      (MipsMonitor.Machine.executeOne (.silent σ) pc m') :=
  (h.translate .single pc).bind fun _ _ _ _ hb hn =>
    (hn.runBlock hb.1).bind fun _ _ _ _ hexit hn => .ok (congrArg Exit.target hexit) hn

/-- A call of the host never breaks off if the counter has room for its depth. -/
theorem call {limit : Nat} (h : m.Implements m') {c : MipsMonitor.Machine.Call σ}
    (hlimit : c.depth m' ≤ limit) :
    Follows (· = ·) Implements (Machine.call limit c m) (c.run m') := by
  cases c with
  | execute fuel pc => exact h.execute hlimit
  | executeOne pc =>
    exact (h.executeOne pc).bind fun _ _ _ _ ha hn => .ok (congrArg some ha) hn
  | change f => exact .ok rfl ⟨congrArg f h.guest, h.blocks, h.injector⟩
  | reset v =>
    exact .ok rfl ⟨(h.onCore (Core.reset · v)).guest, Translations.implements_empty, h.injector⟩
  | invalidate a =>
    obtain ⟨blocks₁, hblocks, h₁⟩ := h.blocks.invalidate a
    unfold Machine.call
    simp only [hblocks]
    exact .ok rfl ⟨h.guest, h₁, h.injector⟩
  | invalidateAll => exact .ok rfl ⟨h.guest, Translations.implements_empty, h.injector⟩
  | inject injector? => exact .ok rfl ⟨h.guest, Translations.implements_empty, rfl⟩

/-- Calls one after the other give the same replies, and leave machines that do the same. -/
theorem session {limit : Nat} (h : m.Implements m') {calls : List (MipsMonitor.Machine.Call σ)}
    (hlimit : m'.sessionDepth calls ≤ limit) :
    ∃ n, Machine.session limit calls m = .ok ((m'.session calls).1, n) ∧
      n.Implements (m'.session calls).2 := by
  -- Along the calls: each is answered alike, whether it fails or not, and the rest begins where it
  -- ended.
  induction calls generalizing m m' with
  | nil => exact ⟨m, rfl, h⟩
  | cons c calls ih =>
    obtain ⟨hc, hcalls⟩ := Nat.max_le.mp hlimit
    have hcall := h.call hc
    unfold Machine.session MipsMonitor.Machine.session
    generalize Machine.call limit c m = r at hcall
    generalize c.run m' = r' at hcall hcalls
    cases hcall with
    | ok hreply hn =>
      obtain ⟨n, hsession, hend⟩ := ih hn hcalls
      subst hreply
      refine ⟨n, ?_, hend⟩
      simp only [ok_bind, endState, hsession]
      rfl
    | error e hn =>
      obtain ⟨n, hsession, hend⟩ := ih hn hcalls
      refine ⟨n, ?_, hend⟩
      simp only [ok_bind, endState, hsession]
      rfl

end Implements

/-- Nothing that guest code does breaks a machine off: not what memory and registers hold, not what
the words there encode or fail to encode, and not what the host does in between. From a machine
without translations every sequence of calls gives the replies that it gives otherwise, and leaves
the same guest, as long as the counter of calls can count those that the guest gets deep in. -/
theorem session_never_breaks_off (limit : Nat) (g : Guest σ) (injector? : Option (Injector σ))
    (calls : List (MipsMonitor.Machine.Call σ))
    (h : MipsMonitor.Machine.sessionDepth calls ⟨g, ∅, injector?⟩ ≤ limit) :
    ∃ n, session limit calls ⟨g, ∅, injector?⟩ =
        .ok ((MipsMonitor.Machine.session calls ⟨g, ∅, injector?⟩).1, n) ∧
      n.guest = (MipsMonitor.Machine.session calls ⟨g, ∅, injector?⟩).2.guest := by
  have hfresh : Implements (⟨g, ∅, injector?⟩ : Machine σ) ⟨g, ∅, injector?⟩ :=
    ⟨rfl, Translations.implements_empty, rfl⟩
  obtain ⟨n, hsession, hn⟩ := hfresh.session h
  exact ⟨n, hsession, hn.guest⟩

end Machine

end Guarded

namespace Reckless

open Machine

/-- A program that divides by zero and writes a register for system control that does not exist:
`addiu $t0, $zero, -1`, `div $t0, $zero`, `mtc0 $t0, $20`, `jr $ra`, `sra $t0, $t0, 31`. -/
def image : Image :=
  ⟨0, ⟨#[0xFF, 0xFF, 0x08, 0x24, 0x1A, 0, 0, 0x01, 0, 0xA0, 0x88, 0x40, 0x08, 0, 0xE0, 0x03,
    0xC3, 0x47, 0x08, 0]⟩, by decide⟩

/-- The host lets the program run, makes a single step in it, and one where no instruction can
stand. -/
def calls : List (Call Unit) := [.execute 8 0, .executeOne 12, .executeOne 2]

/-- The program calls nothing and returns, and the checks that stand before its divisions and accesses
pass. -/
theorem session_reckless : sessionDepth calls ⟨(powerOn image ()).guest, ∅, none⟩ ≤ 0 ∧
    ((powerOn image ()).session calls).1.map Except.toOption =
      [some (some 0), some (some 0), none] ∧
    ∃ n, Guarded.Machine.session 0 calls ⟨(powerOn image ()).guest, ∅, none⟩ =
        .ok ((session calls ⟨(powerOn image ()).guest, ∅, none⟩).1, n) ∧
      n.guest = (session calls ⟨(powerOn image ()).guest, ∅, none⟩).2.guest := by
  have hdepth : sessionDepth calls ⟨(powerOn image ()).guest, ∅, none⟩ ≤ 0 := by
    rw [powerOn_eq]
    decide +kernel
  refine ⟨hdepth, ?_, Guarded.Machine.session_never_breaks_off 0 _ none calls hdepth⟩
  rw [powerOn_eq]
  decide +kernel

end Reckless

end MipsMonitor
