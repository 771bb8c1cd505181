import MipsMonitor.Proofs.Machine.Keeping

/-!
# Two machines side by side

Two machines that differ in something that no instruction looks at run alike, and differ in nothing
else when they have run. To show this of a relation between guests, it is enough that translating
from one and the other gives the same block, that every step made for the injector does the same to
both, and that what is done between steps keeps the relation (`Machine.Mirrors`). A block, a pass, a
run (`Machine.Mirrors.execute`) and a single step (`Machine.Mirrors.executeOne`) then keep it as
well, and give the same answer or the same signal.

Of a step it is enough that each of its parts keeps the relation: the calls of the observer, the
report of what is read, the writes of registers and the changes beyond them
(`Guest.Congruence.alike_run`).
-/

namespace MipsMonitor

variable {σ : Type}

/-! ## Steps -/

namespace Guest

variable {observer : Observer σ} {P : Guest σ → Guest σ → Prop}

/-- A relation between guests that every part of a step keeps. -/
structure Congruence (observer : Observer σ) (P : Guest σ → Guest σ → Prop) : Prop where
  /-- An action does the same. -/
  act : ∀ {g g'} a action, P g g' → Alike P (g.act observer a action) (g'.act observer a action)
  /-- What is read may be reported. -/
  noteReads : ∀ {g g'} op, P g g' → P (g.noteReads op) (g'.noteReads op)
  /-- An instruction has the same effect. -/
  effect : ∀ {g g'} i? pc, P g g' →
    (Operation.ofInstruction? i? pc).effect pc g.core.registers g.core.view? =
      (Operation.ofInstruction? i? pc).effect pc g'.core.registers g'.core.view?
  /-- A watched register may be written. -/
  write : ∀ {g g'} t w, P g g' → P (g.write observer t w) (g'.write observer t w)
  /-- A stop may be requested. -/
  requestStop : ∀ {g g'}, P g g' → P ⟨g.core.requestStop, g.context⟩ ⟨g'.core.requestStop, g'.context⟩
  /-- A register of the system coprocessor may be written. -/
  writeSystem : ∀ {g g'} index w, P g g' →
    P ⟨g.core.writeSystem index w, g.context⟩ ⟨g'.core.writeSystem index w, g'.context⟩
  /-- Any other register may be set. -/
  set : ∀ {g g'} r w, P g g' → P ⟨{ g.core with registers := g.core.registers.set r w }, g.context⟩
    ⟨{ g'.core with registers := g'.core.registers.set r w }, g'.context⟩
  /-- A store does the same. -/
  store : ∀ {g g'} a bs, P g g' → Alike (fun c c' => P ⟨c, g.context⟩ ⟨c', g'.context⟩)
    (g.core.store a bs) (g'.core.store a bs)

namespace Congruence

variable (hP : Congruence observer P) {g g' : Guest σ}
include hP

/-- Mirrored guests trap alike. -/
theorem alike_trap (h : P g g') (t : Trap) : Alike P (g.trap t) (g'.trap t) := by
  refine .error _ ?_
  split
  · exact hP.requestStop h
  · exact h

/-- A change does the same to mirrored guests. -/
theorem alike_change (h : P g g') (pc : Word) (what : Change) (flow : Flow) :
    Alike P (g.change pc what flow) (g'.change pc what flow) := by
  cases what with
  | system index w => exact .ok flow (hP.writeSystem index w h)
  | geometry dest w => exact .ok flow (hP.set dest w h)
  | store a bs =>
    simp only [change]
    obtain ⟨u, core, core', hs, hs', hstored⟩ | ⟨e, core, core', hs, hs', hstored⟩ :=
      (hP.store a bs h).exists_eq
    · rw [hs, hs']
      exact .ok flow hstored
    · rw [hs, hs']
      exact hP.alike_trap hstored _

/-- An instruction does the same to both. -/
theorem alike_perform (h : P g g') (i? : Option Instruction) (pc : Word) :
    Alike P (g.perform observer pc (.ofInstruction? i? pc))
      (g'.perform observer pc (.ofInstruction? i? pc)) := by
  have hnoted := hP.noteReads (.ofInstruction? i? pc) h
  simp only [perform, hP.effect i? pc hnoted]
  split
  · exact hP.alike_trap hnoted _
  · next e _ =>
    have hwritten := writes_induction₂ hnoted e.writes fun t w _ _ h => hP.write t w h
    split
    · exact .ok e.flow hwritten
    · next what _ => exact hP.alike_change hwritten pc what e.flow

/-- A step of a translation does the same to both. -/
theorem alike_run {injector? : Option (Injector σ)} {s : Step} (hs : s.MadeFor injector?)
    (h : P g g') : Alike P (s.run observer g) (s.run observer g') := by
  obtain ⟨i?, hop⟩ := hs.exists_operation
  unfold Step.run
  rw [hop]
  exact Alike.bind (alike_actAll h fun action _ _ _ h => hP.act s.address action h) (fun _ _ h => h)
    fun _ _ _ h' => hP.alike_perform h' i? s.address

end Congruence

end Guest

/-! ## Machines -/

namespace Machine

variable {observer : Observer σ} {injector? : Option (Injector σ)} {P : Guest σ → Guest σ → Prop}
  {m n : Machine σ} {b : Block}

/-- Two genuine machines with related guests, the same translations and the same injector. -/
structure Mirrored (injector? : Option (Injector σ)) (P : Guest σ → Guest σ → Prop)
    (m n : Machine σ) : Prop where
  /-- The guests are related. -/
  guest : P m.guest n.guest
  /-- The translations are the same. -/
  blocks : m.blocks = n.blocks
  /-- The first machine has the injector. -/
  left : m.injector? = injector?
  /-- The second machine has the injector. -/
  right : n.injector? = injector?
  /-- The translations were made for it. -/
  genuine : m.Genuine

/-- With other guests that are related, and the same translations, machines stay as they are. -/
theorem Mirrored.congr (h : Mirrored injector? P m n) {m' n' : Machine σ}
    (hguest : P m'.guest n'.guest) (hm : m'.blocks = m.blocks) (hn : n'.blocks = n.blocks)
    (hleft : m'.injector? = m.injector?) (hright : n'.injector? = n.injector?) :
    Mirrored injector? P m' n' :=
  ⟨hguest, hm.trans (h.blocks.trans hn.symm), hleft.trans h.left, hright.trans h.right,
    h.genuine.congr hleft fun _ _ hb => hm ▸ hb⟩

/-- A relation between guests that a program does not see. -/
structure Mirrors (observer : Observer σ) (injector? : Option (Injector σ))
    (P : Guest σ → Guest σ → Prop) : Prop where
  /-- A stop is requested of both, or of neither. -/
  stopped : ∀ {g g'}, P g g' → g.core.stopped = g'.core.stopped
  /-- Both have stored to the same addresses. -/
  written : ∀ {g g'}, P g g' → g.core.written = g'.core.written
  /-- Requests to stop may be forgotten. -/
  resumed : ∀ {g g'}, P g g' → P ⟨{ g.core with stopped := false }, g.context⟩
    ⟨{ g'.core with stopped := false }, g'.context⟩
  /-- What follows a block keeps it. -/
  settled : ∀ {g g'} ticks, P g g' → P ⟨{ g.core with written := [] }.clock ticks, g.context⟩
    ⟨{ g'.core with written := [] }.clock ticks, g'.context⟩
  /-- The same is translated, whatever is reported of it. -/
  translate : ∀ {m n} extent start, Mirrored injector? P m n →
    Alike (fun m' n' => P m'.guest n'.guest) (translate extent start m) (translate extent start n)
  /-- Every step does the same. -/
  step : ∀ {g g'} {s : Step}, s.MadeFor injector? → P g g' →
    Alike P (s.run observer g) (s.run observer g')

/-- What is translated is made for the injector. -/
theorem madeFor_of_translate_eq {extent : Extent} {start : Word}
    (h : translate extent start m = .ok b n) : ∀ s ∈ b.steps, s.MadeFor m.injector? := by
  obtain ⟨v, entries, -, hb, -⟩ := translate_eq_ok h
  exact madeFor_of_translate hb

namespace Mirrors

variable (hP : Mirrors observer injector? P)
include hP

/-- Both machines translate alike, to steps made for the injector. -/
theorem alike_translate (h : Mirrored injector? P m n) (extent : Extent) (start : Word) :
    Alike (Mirrored injector? P) (Machine.translate extent start m)
      (Machine.translate extent start n) := by
  have hkept (m : Machine σ) :
      Leads (fun n => n.blocks = m.blocks ∧ n.injector? = m.injector?) (Machine.translate extent start m) :=
    leads_translate ⟨rfl, rfl⟩ ⟨rfl, rfl⟩ (fun _ => ⟨rfl, rfl⟩) extent start
  have halike := ((hP.translate extent start h).and_left (hkept m)).and_right (hkept n)
  exact halike.mono fun m' n' ⟨⟨hguest, hm⟩, hn⟩ => h.congr hguest hm.1 hn.1 hm.2 hn.2

/-- Both machines look up the same block, or fail alike. -/
theorem alike_blockAt (h : Mirrored injector? P m n) (pc : Word) :
    Alike (Mirrored injector? P) (blockAt pc m) (blockAt pc n) := by
  unfold blockAt
  rw [← h.blocks]
  cases m.blocks[pc]? with
  | some b => exact .ok b h
  | none =>
    have htranslate := hP.alike_translate h .block pc
    simp only
    obtain ⟨b, m', n', hm, hn, h'⟩ | ⟨e, m', n', hm, hn, h'⟩ := htranslate.exists_eq
    · -- The block that is kept now was made for the injector, so the machine stays genuine.
      have hsteps := madeFor_of_translate_eq hm
      rw [h.left, ← h'.left] at hsteps
      rw [hm, hn]
      refine .ok b ⟨h'.guest, ?_, h'.left, h'.right, h'.genuine.insert hsteps⟩
      simp only [h'.blocks]
    · rw [hm, hn]
      exact .error e h'

/-- What follows a block is the same. -/
theorem settle (h : Mirrored injector? P m n) {g g' : Guest σ} (hg : P g g') (ticks : Nat) :
    Mirrored injector? P (settle ticks ⟨g, m.blocks, m.injector?⟩)
      (settle ticks ⟨g', n.blocks, n.injector?⟩) where
  guest := hP.settled ticks hg
  blocks := by
    simp only [Machine.settle, h.blocks, hP.written hg]
  left := h.left
  right := h.right
  genuine := h.genuine.settle g ticks

/-- A block made for the injector runs alike. -/
theorem alike_runBlock (h : Mirrored injector? P m n) (hsteps : ∀ s ∈ b.steps, s.MadeFor injector?) :
    Alike (Mirrored injector? P) (runBlock observer b m) (runBlock observer b n) := by
  refine Machine.alike_runBlock (Block.alike_runSteps h.guest ?_ ⟨b.stop, .plain⟩)
    fun g g' hg => hP.settle h hg b.length
  exact List.forall₂_same.mpr fun s hs _ _ hg => hP.step (hsteps s hs) hg

/-- A pass is alike. -/
theorem pass (h : Mirrored injector? P m n) (pc : Word) :
    Alike (Mirrored injector? P) (pass observer pc m) (pass observer pc n) := by
  refine alike_pass h (hP.stopped h.guest) ?_
  obtain ⟨b, m', n', hm, hn, h'⟩ | hfails := (hP.alike_blockAt h pc).exists_eq
  · have hsteps := (h.genuine.blockAt hm).2
    rw [h'.left] at hsteps
    exact .inl ⟨b, m', b, n', hm, hn, hP.alike_runBlock h' hsteps⟩
  · exact .inr hfails

/-- Both machines run alike. -/
theorem execute (h : Mirrored injector? P m n) (fuel : Nat) (pc : Word) :
    Alike (Mirrored injector? P) (execute observer fuel pc m) (execute observer fuel pc n) := by
  have hresumed : Mirrored injector? P m.resumed n.resumed :=
    h.congr (hP.resumed h.guest) rfl rfl rfl rfl
  rw [execute_eq, execute_eq]
  exact alike_invoke (fun pc h => hP.pass h pc) hresumed fuel pc 0

/-- Both machines make a single step alike. -/
theorem executeOne (h : Mirrored injector? P m n) (pc : Word) :
    Alike (Mirrored injector? P) (executeOne observer pc m) (executeOne observer pc n) := by
  refine alike_executeOne ?_
  obtain ⟨b, m', n', hm, hn, h'⟩ | hfails := (hP.alike_translate h .single pc).exists_eq
  · have hsteps := madeFor_of_translate_eq hm
    rw [h.left] at hsteps
    exact .inl ⟨b, m', b, n', hm, hn, hP.alike_runBlock h' hsteps⟩
  · exact .inr hfails

end Mirrors

end Machine

end MipsMonitor
