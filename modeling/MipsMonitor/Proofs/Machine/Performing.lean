import MipsMonitor.Debug.Session
import MipsMonitor.Proofs.Machine.Likeness

/-!
# What performing an operation comes to

The effect of an operation is a value; performing the operation lets it take place. The log grows by
what is read, the observer writes the watched registers, and then comes the change outside of them,
if there is one (`Guest.settleEffect`, `Guest.perform_eq`). An observer that writes registers as it
is told (`Observer.Obeys`) leaves them as the effect lists them (`RegisterFile.writeAll`).
`Guest.perform_of_effect` says so of an operation whose effect is known, `Guest.perform_eq_ok` of an
operation that has succeeded.
-/

namespace MipsMonitor

namespace RegisterFile

/-- The file with watched registers written in order, apart from the one that is always zero. -/
def writeAll (f : RegisterFile) (writes : List (Tracked × Word)) : RegisterFile :=
  writes.foldl (fun f (t, w) => if t = .zero then f else f.setTracked t w) f

/-- The first of several writes, and the rest of them. -/
theorem writeAll_cons (f : RegisterFile) (t : Tracked) (w : Word) (writes : List (Tracked × Word)) :
    f.writeAll ((t, w) :: writes) = (if t = .zero then f else f.setTracked t w).writeAll writes :=
  rfl

/-- A slot that is not written keeps what it holds. -/
theorem read_writeAll {f : RegisterFile} {writes : List (Tracked × Word)} {s : Fin slotCount}
    (h : ∀ tw ∈ writes, tw.1 = .zero ∨ tw.1.slot ≠ s) : (f.writeAll writes).read s = f.read s := by
  induction writes generalizing f with
  | nil => rfl
  | cons tw writes ih =>
    obtain ⟨t, w⟩ := tw
    obtain ⟨hfirst, hrest⟩ := List.forall_mem_cons.mp h
    rw [writeAll_cons, ih hrest]
    split
    · rfl
    · next ht =>
      rw [setTracked, read_write, if_neg (hfirst.resolve_left ht)]

end RegisterFile

/-- An observer writes registers as it is told, and asks nothing of the core for it. -/
def Observer.Obeys {σ : Type} (observer : Observer σ) : Prop :=
  ∀ s f t w, t ≠ .zero → (observer.write s f t w).2 = ([], f.setTracked t w)

/-- The observer that keeps silent obeys. -/
theorem Observer.obeys_silent {σ : Type} : (silent σ).Obeys := fun _ _ _ _ _ => rfl

/-- A session obeys: it writes down who wrote a register, and writes it as told. -/
theorem Debug.Session.obeys_observer : observer.Obeys := fun _ _ _ _ h => by
  simp only [observer, recordAt, if_neg h]

/-- Reports are added to the log, and that is all. -/
theorem Core.exists_note (c : Core) (entries : List Entry) :
    ∃ more, c.note entries = { c with log := c.log ++ more } := by
  unfold note
  split
  · exact ⟨#[], by rw [Array.append_empty]⟩
  · have hlog : c.log ++ entries = c.log ++ entries.toArray := Array.toList_inj.mp (by simp)
    exact ⟨entries.toArray, by rw [hlog]⟩

namespace Guest

variable {σ : Type} {observer : Observer σ} {g g' : Guest σ} {pc : Word} {op : Operation}
  {flow : Flow} {e : Effect}

/-- Lets an effect take place once its watched registers are written. -/
def settleEffect (pc : Word) (e : Effect) (g : Guest σ) : EStateM.Result Signal (Guest σ) Flow :=
  match e.change? with
  | none => .ok e.flow g
  | some what => g.change pc what e.flow

/-- An observer that obeys lets the writes happen as they are listed. -/
theorem exists_writeAll (ho : observer.Obeys) (writes : List (Tracked × Word)) (g : Guest σ) :
    ∃ context, writes.foldl (fun g (t, w) => g.write observer t w) g =
      ⟨{ g.core with registers := g.core.registers.writeAll writes }, context⟩ := by
  induction writes generalizing g with
  | nil => exact ⟨g.context, rfl⟩
  | cons tw writes ih =>
    obtain ⟨t, w⟩ := tw
    obtain ⟨context, hrest⟩ := ih (g.write observer t w)
    refine ⟨context, ?_⟩
    rw [List.foldl_cons, hrest, RegisterFile.writeAll_cons]
    unfold write
    split
    · rfl
    · next ht =>
      have hshown := ho g.context g.core.registers t w ht
      simp only [hshown, List.foldl_nil]

/-- Reporting what an operation reads adds to the log, and that is all. -/
theorem exists_noteReads (op : Operation) (g : Guest σ) :
    ∃ more, g.noteReads op = ⟨{ g.core with log := g.core.log ++ more }, g.context⟩ := by
  obtain ⟨entries, hnotes⟩ := noteReads_eq op g
  obtain ⟨more, hmore⟩ := g.core.exists_note entries
  exact ⟨more, by rw [hnotes, hmore]⟩

/-- The effect of an operation takes place, whatever the observer makes of its writes. -/
theorem perform_eq (observer : Observer σ)
    (he : op.effect pc g.core.registers g.core.view? = .ok e) :
    ∃ more, g.perform observer pc op = settleEffect pc e
      (e.writes.foldl (fun g (t, w) => g.write observer t w)
        ⟨{ g.core with log := g.core.log ++ more }, g.context⟩) := by
  obtain ⟨more, hnotes⟩ := exists_noteReads op g
  refine ⟨more, ?_⟩
  simp only [perform, hnotes, he]
  rfl

/-- What an operation does whose effect is known. -/
theorem perform_of_effect (ho : observer.Obeys)
    (he : op.effect pc g.core.registers g.core.view? = .ok e) :
    ∃ more context, g.perform observer pc op = settleEffect pc e
      ⟨{ g.core with
        registers := g.core.registers.writeAll e.writes
        log := g.core.log ++ more }, context⟩ := by
  obtain ⟨more, hperform⟩ := perform_eq observer he
  obtain ⟨context, hwrites⟩ := exists_writeAll ho e.writes
    ⟨{ g.core with log := g.core.log ++ more }, g.context⟩
  exact ⟨more, context, hperform.trans (congrArg (settleEffect pc e) hwrites)⟩

/-- An operation without effect traps, and nothing but the log tells of it. -/
theorem perform_of_trap (observer : Observer σ) {t : Trap}
    (he : op.effect pc g.core.registers g.core.view? = .error t) :
    ∃ more, g.perform observer pc op =
      trap t ⟨{ g.core with log := g.core.log ++ more }, g.context⟩ := by
  obtain ⟨more, hnotes⟩ := exists_noteReads op g
  exact ⟨more, by simp only [perform, hnotes, he]⟩

/-- An operation that succeeds has an effect, and has done what it says. -/
theorem perform_eq_ok (ho : observer.Obeys) (h : g.perform observer pc op = .ok flow g') :
    ∃ e more context, op.effect pc g.core.registers g.core.view? = .ok e ∧
      settleEffect pc e ⟨{ g.core with
        registers := g.core.registers.writeAll e.writes
        log := g.core.log ++ more }, context⟩ = .ok flow g' := by
  cases he : op.effect pc g.core.registers g.core.view? with
  | error t =>
    obtain ⟨more, htrap⟩ := perform_of_trap observer he
    rw [htrap] at h
    cases h
  | ok e =>
    obtain ⟨more, context, hok⟩ := perform_of_effect ho he
    exact ⟨e, more, context, rfl, hok.symm.trans h⟩

end Guest

end MipsMonitor
