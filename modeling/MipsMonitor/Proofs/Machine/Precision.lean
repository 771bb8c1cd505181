import MipsMonitor.Proofs.Machine.Storing

/-!
# Precise traps

An instruction that traps leaves nothing behind. Every trap but a refused store is found before the
effect of the operation takes place. A store is refused by its first byte or not at all, because it
stays within one word and the windows of memory begin and end with words; and an operation that
stores writes no register. So only the log can tell that a trapping instruction was begun
(`Guest.perform_error`), and the trap names the instruction that was not executed
(`Guest.precise_of_perform_error`).
-/

namespace MipsMonitor

open Address ByteMemory

/-- The trap is an exception of the instruction at `pc`. The machine itself did not give up. -/
structure Trap.RaisedAt (t : Trap) (pc : Word) : Prop where
  /-- The trap names the instruction. -/
  pc : t.pc = pc
  /-- A fault lies underneath it. -/
  cause : ∃ fault, t.cause? = some fault

namespace Operation

/-- With memory attached, an operation that has no effect raises an exception of its instruction. -/
theorem raisedAt_of_effect {op : Operation} {pc : Word} {f : RegisterFile} {v : View Ram} {t : Trap}
    (h : op.effect pc f (some v) = .error t) : t.RaisedAt pc := by
  have hfetch {span : List Word} {t : Trap} (h : fetch (some v) pc span = .error t) :
      t.RaisedAt pc := by
    unfold fetch at h
    simp only at h
    split at h
    · cases h
    · cases h
      exact ⟨rfl, _, rfl⟩
  have harchitectural (e : Exception) : (Trap.architectural e pc).RaisedAt pc := ⟨rfl, _, rfl⟩
  cases op <;> simp only [effect] at h
  case trapping g dest lhs rhs =>
    split at h
    · cases h
    · cases h
      exact harchitectural _
  case raise e =>
    cases h
    exact harchitectural e
  case storeGeometry source l =>
    split at h
    · cases h
    · cases h
      exact harchitectural _
  -- The other accesses to memory are refused for their alignment or by what they read.
  case load | store | loadGeometry =>
    split at h
    · split at h
      · cases h
      · next hread =>
        cases h
        exact hfetch hread
    · cases h
      exact harchitectural _
  all_goals cases h

/-- An operation that stores writes no watched register. -/
theorem writes_of_store {op : Operation} {pc : Word} {f : RegisterFile} {view? : Option (View Ram)}
    {e : Effect} {a : Word} {bs : List UInt8} (h : op.effect pc f view? = .ok e)
    (hstore : e.change? = some (.store a bs)) : e.writes = [] := by
  cases op <;> simp only [effect] at h
  case store | storeGeometry =>
    repeat' split at h
    all_goals
      cases h
      try rfl
  all_goals
    repeat' split at h
    all_goals
      cases h
      try cases hstore

end Operation

/-- A refused store within one word leaves what is addressed as it was. -/
theorem View.eq_of_writeBytes_error {a : Word} {bs : List UInt8} {v v' : View Ram} {e : MemoryError}
    (ha : WithinWord a bs.length) (h : writeBytes a bs v = .error e v') : v' = v := by
  cases v with
  | direct r =>
    rw [writeBytes_direct] at h
    cases hr : writeBytes a bs r with
    | ok u r' =>
      rw [hr] at h
      cases h
    | error e' r' =>
      rw [hr] at h
      cases h
      rw [Ram.eq_of_writeBytes_error ha hr]
  -- The cache refuses no write.
  | isolated c =>
    obtain ⟨c', hok, -⟩ := writeBytes_isolated a bs c
    rw [hok] at h
    cases h

namespace Core

/-- A refused store within one word shows in the log alone. -/
theorem eq_of_store_error {c c' : Core} {v : View Ram} {a : Word} {bs : List UInt8}
    {e : AccessError} (hview : c.view? = some v) (ha : WithinWord a bs.length)
    (h : c.store a bs = .error e c') :
    (∃ e', e = .memory e') ∧ ∃ entries, c' = c.note entries := by
  obtain ⟨registers, view?, stopped, ticks, sink, written, log⟩ := c
  simp only at hview
  subst hview
  simp only [store, poke] at h
  cases hw : writeBytes a bs v with
  | ok u v' =>
    rw [hw] at h
    cases h
  | error e' v' =>
    rw [hw] at h
    cases h
    rw [View.eq_of_writeBytes_error ha hw]
    exact ⟨⟨e', rfl⟩, _, rfl⟩

/-- From one state to the other, registers, memory and the addresses stored to stayed as they were. -/
structure Spared (c c' : Core) : Prop extends Untouched c c' where
  /-- Every register of every bank is the same. -/
  registers : c'.registers = c.registers

/-- A note spares the core. -/
theorem spared_note (c : Core) (entries : List Entry) : c.Spared (c.note entries) where
  toUntouched := .note c entries
  registers := c.registers_note entries

end Core

namespace Guest

variable {σ : Type} {observer : Observer σ} {g g' : Guest σ} {v : View Ram} {pc : Word}
  {op : Operation} {s : Signal}

/-- An operation that does not end well raised an exception of its instruction, and only the log
tells that it was begun. -/
theorem perform_error (hview : g.core.view? = some v)
    (h : g.perform observer pc op = .error s g') :
    ∃ t, s = .trap t ∧ t.RaisedAt pc ∧ ∃ entries, g' = ⟨g.core.note entries, g.context⟩ := by
  obtain ⟨entries, hnotes⟩ := noteReads_eq op g
  simp only [perform, hnotes, Core.registers_note, Core.view?_note, hview] at h
  cases he : op.effect pc g.core.registers (some v) with
  | error t =>
    have ht := Operation.raisedAt_of_effect he
    obtain ⟨fault, hfault⟩ := ht.cause
    simp only [he, trap, hfault, Option.isNone_some, Bool.false_eq_true, if_false] at h
    cases h
    exact ⟨t, rfl, ht, entries, rfl⟩
  | ok e =>
    simp only [he] at h
    cases hc : e.change? with
    | none =>
      rw [hc] at h
      cases h
    | some what =>
      cases what with
      | system index w =>
        rw [hc] at h
        cases h
      | geometry dest w =>
        rw [hc] at h
        cases h
      | store a bs =>
        have hword := Operation.withinWord_of_effect he hc
        -- Nothing was written before the store.
        simp only [hc, Operation.writes_of_store he hc, List.foldl_nil, change] at h
        cases hs : (g.core.note entries).store a bs with
        | ok u core =>
          rw [hs] at h
          cases h
        | error e' core =>
          obtain ⟨⟨e'', rfl⟩, entries', rfl⟩ :=
            Core.eq_of_store_error ((g.core.view?_note entries).trans hview) hword hs
          rw [hs] at h
          cases h
          rw [Core.note_note]
          exact ⟨_, rfl, ⟨rfl, _, rfl⟩, entries ++ entries', rfl⟩

/-- Traps are precise: whatever a word encodes, if executing it at `pc` does not end well, it ends
by an exception that names `pc`, and all registers, all of memory, the isolation of the cache and
the addresses stored to are as they were before. -/
theorem precise_of_perform_error (hview : g.core.view? = some v) (w : Word)
    (h : g.perform observer pc (.ofInstruction? (Instruction.decode? w) pc) = .error s g') :
    (∃ t, s = .trap t ∧ t.RaisedAt pc) ∧ g.core.Spared g'.core := by
  obtain ⟨t, hs, ht, entries, rfl⟩ := perform_error hview h
  exact ⟨⟨t, hs, ht⟩, g.core.spared_note entries⟩

end Guest

namespace Refusing

/-- A processor whose register `$ra` holds the address of the boot ROM. -/
def guest : Guest Unit :=
  ⟨{ Core.detached .standard with
    registers := RegisterFile.blank.setTracked .returnAddress Address.romStart
    view? := some (.direct .blank) }, ()⟩

/-- `sw $zero, 0($ra)` raises an exception that names it, and leaves the processor as it was. -/
theorem precise_of_perform_error_rom :
    ∃ s g', guest.perform (.silent Unit) 0x80 (.ofInstruction? (Instruction.decode? 0xAFE00000) 0x80) =
        .error s g' ∧
      (∃ t, s = .trap t ∧ t.RaisedAt 0x80) ∧ guest.core.Spared g'.core := by
  have hrefused : answer? (guest.perform (.silent Unit) 0x80
      (.ofInstruction? (Instruction.decode? 0xAFE00000) 0x80)) = none := by
    decide +kernel
  cases h : guest.perform (.silent Unit) 0x80
      (.ofInstruction? (Instruction.decode? 0xAFE00000) 0x80) with
  | ok flow g' =>
    rw [h] at hrefused
    cases hrefused
  | error s g' => exact ⟨s, g', rfl, Guest.precise_of_perform_error rfl 0xAFE00000 h⟩

end Refusing

end MipsMonitor
