import MipsMonitor.Proofs.Guarded.Basic
import MipsMonitor.Proofs.Machine.Likeness

/-!
# Guarded registers

The register file as an array that is accessed by raw numbers: the number of a bank's first slot
plus the number of a register. Some accesses look at the number first and answer nothing where there
is no such register; the others rely on their caller. A write to a register for system control also
looks up the name of the register that it reports.

`Guarded.writeSystem_eq` holds for every number, those that name no register included.
-/

namespace MipsMonitor

namespace Guarded

open Text

/-- The word in a slot. -/
def readSlot (f : RegisterFile) (slot : Nat) : Guarded Word := do
  let i ← index slotCount slot
  pure (f.read i)

/-- The file with one slot replaced. -/
def writeSlot (f : RegisterFile) (slot : Nat) (w : Word) : Guarded RegisterFile := do
  let i ← index slotCount slot
  pure (f.write i w)

/-- The contents of a watched register, if there is one of that number. -/
def tracked? (f : RegisterFile) (i : Nat) : Guarded (Option Word) :=
  if i < 34 then some <$> readSlot f (Bank.general.base + i) else pure none

/-- The file with a watched register replaced, if there is one of that number. -/
def setTracked? (f : RegisterFile) (i : Nat) (w : Word) : Guarded (Option RegisterFile) := do
  slice slotCount Bank.general.base 34
  if i < 34 then some <$> writeSlot f (Bank.general.base + i) w else pure none

/-- The contents of a register of a bank, if it has one of that number. -/
def bank? (f : RegisterFile) (b : Bank) (i : Nat) : Guarded (Option Word) := do
  slice slotCount b.base (b.base + b.size)
  if i < b.size then some <$> readSlot f (b.base + i) else pure none

/-- The file with a register of a bank replaced. That the bank has one of that number is left to the
caller. -/
def setBank (f : RegisterFile) (b : Bank) (i : Nat) (w : Word) : Guarded RegisterFile :=
  writeSlot f (b.base + i) w

/-- The name of a register of a bank. -/
def name (b : Bank) (i : Nat) : Guarded String := do
  let place ← index b.names.length i
  pure (b.names.get place)

/-- What an instruction sees in a watched register. -/
def value (f : RegisterFile) (i : Nat) : Guarded Word :=
  if i = 0 then pure 0 else do pure ((← tracked? f i).getD 0)

/-- Writes a register for system control. A number that names none is reported and nothing else
happens. -/
def writeSystem (c : Core) (i : Nat) (w : Word) : Guarded Core := do
  match ← bank? c.registers .cop0 i with
  | none =>
    pure (c.report .warn
      ("ignoring write of " ++ hex w.toNat ++ " to nonexistent cop0 register " ++ toString i))
  | some old =>
    let registers ← setBank c.registers .cop0 i w
    let name ← name .cop0 i
    let c := { c with registers }.report .debug ("writing " ++ hex w.toNat ++ " to " ++ name)
    if i = Register.status.index.val then
      pure { c with view? := c.view?.map (Core.viewFor c.sink ⟨old⟩ ⟨w⟩) }
    else pure c

/-! ## Accesses to registers never break off -/

variable (f : RegisterFile)

/-- A register is read at its slot. -/
theorem readSlot_slot (r : Register) : readSlot f (r.bank.base + r.index) = .ok (f.get r) := by
  unfold readSlot
  rw [index_of_lt r.slot_lt]
  rfl

/-- A register is written at its slot. -/
theorem writeSlot_slot (r : Register) (w : Word) :
    writeSlot f (r.bank.base + r.index) w = .ok (f.set r w) := by
  unfold writeSlot
  rw [index_of_lt r.slot_lt]
  rfl

/-- A watched register is read by its number. -/
theorem tracked?_val (t : Tracked) : tracked? f t = .ok (some (f.tracked t)) := by
  have hslot : Bank.general.base + t.val < slotCount := by
    simp only [Bank.base, slotCount]
    omega
  unfold tracked? readSlot
  rw [if_pos t.isLt, index_of_lt hslot]
  exact congrArg (fun i => Except.ok (some (f.read i))) (Fin.ext (Nat.zero_add t.val))

/-- A watched register is written by its number. -/
theorem setTracked?_val (t : Tracked) (w : Word) :
    setTracked? f t w = .ok (some (f.setTracked t w)) := by
  have hslot : Bank.general.base + t.val < slotCount := by
    simp only [Bank.base, slotCount]
    omega
  unfold setTracked? writeSlot
  rw [slice_of_le (by decide) (by decide), ok_bind, if_pos t.isLt, index_of_lt hslot]
  exact congrArg (fun i => Except.ok (some (f.write i w))) (Fin.ext (Nat.zero_add t.val))

/-- A register of a bank is read by its number, if the bank has one. -/
theorem bank?_eq (b : Bank) (i : Nat) : bank? f b i = .ok (f.get? b i) := by
  have hbank : b.base + b.size ≤ slotCount := by cases b <;> decide
  unfold bank? RegisterFile.get?
  rw [slice_of_le (Nat.le_add_right ..) hbank, ok_bind]
  split
  · next h =>
    rw [readSlot_slot f ⟨b, ⟨i, h⟩⟩]
    rfl
  · rfl

/-- A register of a bank is written by its number. -/
theorem setBank_val (r : Register) (w : Word) : setBank f r.bank r.index w = .ok (f.set r w) :=
  writeSlot_slot f r w

/-- A register of a bank is named by its number. -/
theorem name_val (r : Register) : name r.bank r.index = .ok r.name := by
  unfold name
  rw [index_of_lt (by rw [r.bank.length_names]; exact r.index.isLt)]
  rfl

/-- What an instruction sees in a watched register is read by its number. -/
theorem value_val (t : Tracked) : value f t = .ok (f.value t) := by
  unfold value RegisterFile.value
  have hzero : t = .zero ↔ t.val = 0 := Fin.ext_iff
  simp only [hzero, tracked?_val, ok_bind, pure_eq]
  split <;> rfl

/-- Off the edges of the bit that isolates the cache the view stays as it is. -/
theorem map_viewFor_self (sink : Sink) (s : Status) (view? : Option (View Ram)) :
    view?.map (Core.viewFor sink s s) = view? := by
  have hid : Core.viewFor sink s s = id := funext fun v => if_pos rfl
  rw [hid, Option.map_id_fun, id]

/-- A write to a register for system control is carried out or reported, whatever its number. -/
theorem writeSystem_eq (c : Core) (i : Nat) (w : Word) :
    writeSystem c i w = .ok (c.writeSystem i w) := by
  unfold writeSystem Core.writeSystem
  rw [bank?_eq, ok_bind]
  by_cases h : i < Bank.size .cop0
  · have hget : c.registers.get? .cop0 i = some (c.registers.get ⟨.cop0, ⟨i, h⟩⟩) := dif_pos h
    have hset : setBank c.registers .cop0 i w = .ok (c.registers.set ⟨.cop0, ⟨i, h⟩⟩ w) :=
      setBank_val c.registers ⟨.cop0, ⟨i, h⟩⟩ w
    have hname : name .cop0 i = .ok (Register.name ⟨.cop0, ⟨i, h⟩⟩) := name_val ⟨.cop0, ⟨i, h⟩⟩
    simp only [hget, hset, hname, ok_bind, pure_eq, dif_pos h]
    generalize hc₁ : Core.report _ _ _ = c₁
    have hregisters : c₁.registers = c.registers.set ⟨.cop0, ⟨i, h⟩⟩ w := by
      subst hc₁
      exact Core.registers_note _ _
    -- Only a write to the status register changes which memory is seen.
    by_cases hstatus : i = Register.status.index.val
    · have hr : (⟨.cop0, ⟨i, h⟩⟩ : Register) = .status := by
        subst hstatus
        rfl
      have hnew : c₁.registers.status = ⟨w⟩ := by
        rw [hregisters, hr]
        exact congrArg Status.mk ((c.registers.get_set .status .status w).trans (if_pos rfl))
      rw [if_pos hstatus, hnew, hr]
      rfl
    · have hne : (⟨.cop0, ⟨i, h⟩⟩ : Register) ≠ .status := fun heq =>
        hstatus (congrArg (fun r => r.index.val) heq)
      have hsame : c₁.registers.status = c.registers.status := by
        rw [hregisters]
        exact congrArg Status.mk ((c.registers.get_set _ .status w).trans (if_neg hne))
      rw [if_neg hstatus, hsame, map_viewFor_self]
  · have hget : c.registers.get? .cop0 i = none := dif_neg h
    simp only [hget, pure_eq, dif_neg h]

end Guarded

end MipsMonitor
