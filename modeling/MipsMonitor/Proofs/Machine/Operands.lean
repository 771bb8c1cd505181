import MipsMonitor.Proofs.Machine.Keeping

/-!
# Operands

An operation reads some watched registers (`Operation.sources`) and writes some
(`Operation.targets`). What a register holds that it does not read makes no difference to its effect
(`Operation.effect_setTracked`), and its effect touches no watched register but those that it writes
(`Operation.mem_targets_of_writes`, `Operation.slot_ne_of_geometry`).
-/

namespace MipsMonitor

/-- A bank of one of the coprocessors. -/
def Bank.OfCoprocessor (b : Bank) : Prop := b ≠ .general ∧ b ≠ .special

/-- System control is a coprocessor. -/
theorem Bank.ofCoprocessor_cop0 : Bank.OfCoprocessor .cop0 := ⟨nofun, nofun⟩

/-- The data registers of the geometry engine are those of a coprocessor. -/
theorem Bank.ofCoprocessor_cop2Data : Bank.OfCoprocessor .cop2Data := ⟨nofun, nofun⟩

/-- The control registers of the geometry engine are those of a coprocessor. -/
theorem Bank.ofCoprocessor_cop2Control : Bank.OfCoprocessor .cop2Control := ⟨nofun, nofun⟩

/-- Registers of the coprocessors are not watched. -/
theorem Register.slot_ne_of_bank {r : Register} (hbank : r.bank.OfCoprocessor) (t : Tracked) :
    r.slot ≠ t.slot := by
  intro h
  have hval : r.bank.base + r.index.val = t.val := congrArg Fin.val h
  have hlt := t.isLt
  -- The watched registers are the slots before those of the coprocessors.
  have hbase : 34 ≤ r.bank.base := by
    obtain ⟨hgeneral, hspecial⟩ := hbank
    cases hb : r.bank with
    | general => exact absurd hb hgeneral
    | special => exact absurd hb hspecial
    | _ => decide
  omega

namespace RegisterFile

variable (f : RegisterFile) {s t : Tracked} {r : Register} (v w : Word)

/-- A write to one watched register does not show in another. -/
theorem value_setTracked (h : s ≠ t) : (f.setTracked t w).value s = f.value s := by
  unfold value
  rw [tracked_setTracked, if_neg (Ne.symm h)]

/-- A write to a watched register does not show in the other slots. -/
theorem get_setTracked (h : r.slot ≠ t.slot) : (f.setTracked t w).get r = f.get r := by
  unfold get setTracked
  rw [read_write, if_neg (Ne.symm h)]

/-- A watched register is none for system control. -/
theorem get_cop0_setTracked (t : Tracked) (i : Fin (Bank.size .cop0)) :
    (f.setTracked t w).get ⟨.cop0, i⟩ = f.get ⟨.cop0, i⟩ :=
  f.get_setTracked w (Register.slot_ne_of_bank Bank.ofCoprocessor_cop0 t)

/-- A write to a watched register does not show in the status. -/
theorem status_setTracked (t : Tracked) : (f.setTracked t w).status = f.status :=
  congrArg Status.mk (f.get_cop0_setTracked w t _)

/-- Writes to different slots may be exchanged. -/
theorem write_comm {i j : Fin slotCount} (h : i ≠ j) :
    (f.write i v).write j w = (f.write j w).write i v :=
  congrArg mk (Vector.set_comm _ _ fun hij => h (Fin.ext hij))

/-- Writes to different watched registers commute. -/
theorem setTracked_comm (h : s ≠ t) :
    (f.setTracked s v).setTracked t w = (f.setTracked t w).setTracked s v :=
  f.write_comm v w fun hslot => h (Fin.ext (congrArg (fun i : Fin slotCount => i.val) hslot))

/-- A write to a register of a coprocessor touches no watched register. -/
theorem tracked_set (hbank : r.bank.OfCoprocessor) (t : Tracked) :
    (f.set r w).tracked t = f.tracked t := by
  unfold set tracked
  rw [read_write, if_neg (Register.slot_ne_of_bank hbank t)]

/-- A write to a watched register commutes with one to another slot. -/
theorem set_setTracked_comm (h : r.slot ≠ t.slot) :
    (f.setTracked t w).set r v = (f.set r v).setTracked t w :=
  f.write_comm w v (Ne.symm h)

end RegisterFile

/-- The watched registers that a second operand reads. -/
def Source.registers : Source → List Tracked
  | register r => [.ofGpr r]
  | constant _ => []

namespace Operation

/-- The watched registers that an operation reads. The register that a load fills counts, since a
part of it may stay. -/
def sources : Operation → List Tracked
  | arithmetic _ _ lhs rhs | trapping _ _ lhs rhs => .ofGpr lhs :: rhs.registers
  | long _ lhs rhs | branch _ lhs rhs _ _ => [.ofGpr lhs, .ofGpr rhs]
  | move _ source => [source]
  | load _ dest l => [.ofGpr dest, .ofGpr l.base]
  | store _ source l => [.ofGpr source, .ofGpr l.base]
  | loadGeometry _ l | storeGeometry _ l => [.ofGpr l.base]
  | jumpRegister source | callRegister source _ _ => [.ofGpr source]
  | moveFrom _ bank index => Tracked.all.filter (·.val = bank.base + index)
  | moveToSystem _ source | moveToGeometry _ source => [.ofGpr source]
  | jump .. | returnFromException | geometryCommand | raise _ => []

/-- The watched registers that an operation writes. -/
def targets : Operation → List Tracked
  | arithmetic _ dest _ _ | trapping _ dest _ _ | load _ dest _ | callRegister _ dest _
  | moveFrom dest _ _ => [.ofGpr dest]
  | long .. => [.hi, .lo]
  | move dest _ => [dest]
  | branch _ _ _ _ link? | jump _ link? => if link?.isSome then [.returnAddress] else []
  | moveToGeometry dest _ => Tracked.all.filter (·.slot = dest.slot)
  | store .. | loadGeometry .. | storeGeometry .. | jumpRegister _ | moveToSystem ..
  | returnFromException | geometryCommand | raise _ => []

variable {op : Operation} {pc : Word} {f : RegisterFile} {view? : Option (View Ram)} {e : Effect}
  {t : Tracked}

/-- A general register other than the written one is read as before. -/
theorem gpr_setTracked {r : Gpr} (h : t ≠ .ofGpr r) (f : RegisterFile) (w : Word) :
    gpr (f.setTracked t w) r = gpr f r := f.value_setTracked w (Ne.symm h)

/-- An operand that is not the written register is read as before. -/
theorem operand_setTracked {rhs : Source} (h : t ∉ rhs.registers) (f : RegisterFile) (w : Word) :
    operand (f.setTracked t w) rhs = operand f rhs := by
  cases rhs with
  | register r => exact gpr_setTracked (List.ne_of_not_mem_cons h) f w
  | constant c => rfl

/-- An address whose base is not the written register is worked out as before. -/
theorem address_setTracked {l : Location} (h : t ≠ .ofGpr l.base) (f : RegisterFile) (w : Word) :
    address (f.setTracked t w) l = address f l := congrArg (· + l.offset) (gpr_setTracked h f w)

/-- What an operation reads from memory does not depend on registers that it does not read. -/
theorem span_setTracked (h : t ∉ op.sources) (f : RegisterFile) (w : Word) :
    op.span (f.setTracked t w) = op.span f := by
  cases op with
  | load _ _ l | store _ _ l | loadGeometry _ l =>
    have hbase : t ≠ .ofGpr l.base := fun hb => h (hb ▸ by simp [sources])
    simp only [span, address_setTracked hbase]
  | _ => rfl

/-- What an operation does not read makes no difference to its effect. -/
theorem effect_setTracked (h : t ∉ op.sources) (pc : Word) (f : RegisterFile) (w : Word)
    (view? : Option (View Ram)) :
    op.effect pc (f.setTracked t w) view? = op.effect pc f view? := by
  cases op with
  | arithmetic g dest lhs rhs | trapping g dest lhs rhs =>
    obtain ⟨hlhs, hrhs⟩ := not_or.mp (List.mem_cons.not.mp h)
    simp only [effect, gpr_setTracked hlhs, operand_setTracked hrhs]
  | long g lhs rhs | branch _ lhs rhs _ _ =>
    obtain ⟨hlhs, hrhs⟩ := not_or.mp (List.mem_cons.not.mp h)
    simp only [effect, gpr_setTracked hlhs, gpr_setTracked (List.ne_of_not_mem_cons hrhs)]
  | move dest source =>
    simp only [effect, f.value_setTracked w (Ne.symm (List.ne_of_not_mem_cons h))]
  | load what dest l | store what dest l =>
    obtain ⟨hdest, hbase⟩ := not_or.mp (List.mem_cons.not.mp h)
    simp only [effect, gpr_setTracked hdest, address_setTracked (List.ne_of_not_mem_cons hbase)]
  | loadGeometry dest l =>
    simp only [effect, address_setTracked (List.ne_of_not_mem_cons h)]
  | storeGeometry source l =>
    have hdata : Register.slot ⟨.cop2Data, source⟩ ≠ t.slot :=
      Register.slot_ne_of_bank Bank.ofCoprocessor_cop2Data t
    simp only [effect, address_setTracked (List.ne_of_not_mem_cons h), f.get_setTracked w hdata]
  | jumpRegister source | callRegister source _ _ | moveToSystem _ source
  | moveToGeometry _ source =>
    simp only [effect, gpr_setTracked (List.ne_of_not_mem_cons h)]
  | moveFrom dest bank index =>
    have hget : (f.setTracked t w).get? bank index = f.get? bank index := by
      unfold RegisterFile.get?
      split
      · next hindex =>
        -- A watched register that shares the slot is among those that are read.
        refine congrArg some (f.get_setTracked w fun hslot => h ?_)
        have hval : bank.base + index = t.val := congrArg (fun i : Fin slotCount => i.val) hslot
        exact List.mem_filter.mpr ⟨List.mem_finRange t, decide_eq_true hval.symm⟩
      · rfl
    simp only [effect, hget]
  | returnFromException => simp only [effect, f.status_setTracked]
  | jump | geometryCommand | raise => rfl

/-- What an operation writes to watched registers goes to its targets. -/
theorem mem_targets_of_writes (h : op.effect pc f view? = .ok e) :
    ∀ tw ∈ e.writes, tw.1 ∈ op.targets := by
  cases op with
  | branch _ _ _ _ link? | jump _ link? =>
    cases h
    cases link? with
    | none => exact List.forall_mem_nil _
    | some link => exact List.forall_mem_singleton.mpr (List.mem_singleton_self _)
  | long g lhs rhs =>
    cases h
    refine List.forall_mem_cons.mpr ⟨List.mem_cons_self, List.forall_mem_singleton.mpr ?_⟩
    exact List.mem_cons_of_mem _ List.mem_cons_self
  -- The rest writes at most one register, which it names.
  | _ =>
    simp only [effect] at h
    repeat' split at h
    all_goals cases h
    all_goals first
      | exact List.forall_mem_nil _
      | exact List.forall_mem_singleton.mpr (List.mem_singleton_self _)

/-- What an operation writes to the geometry coprocessor goes to no watched register but its
targets. -/
theorem slot_ne_of_geometry (h : op.effect pc f view? = .ok e) {dest : Register} {w : Word}
    (hchange : e.change? = some (.geometry dest w)) (ht : t ∉ op.targets) : dest.slot ≠ t.slot := by
  obtain hdata | ⟨source, rfl⟩ := dest_of_geometry h hchange
  · exact Register.slot_ne_of_bank (hdata ▸ Bank.ofCoprocessor_cop2Data) t
  · intro hslot
    exact ht (List.mem_filter.mpr ⟨List.mem_finRange t, decide_eq_true hslot.symm⟩)

end Operation

end MipsMonitor
