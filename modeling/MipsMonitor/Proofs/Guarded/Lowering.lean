import MipsMonitor.Proofs.Guarded.Actions
import MipsMonitor.Proofs.Guarded.Decoding

/-!
# Guarded lowering

Instructions are lowered to actions once, when their block is translated (`Guarded.lower`): the
operands are taken out of the word and become the parameters of the action of a family.

`Guarded.lower_agrees` says for every word that lowering it does not break off, and that its action
does in every state what its operation does under an observer that keeps silent.
-/

namespace MipsMonitor

namespace Guarded

variable {σ : Type}

/-- A function that has a value for all words. -/
def total (f : Arithmetic) (a b : Word) : Guarded Word := pure (f.apply a b)

/-- Moves a word by the low five bits of another one. -/
def shiftBy (shift : Word → Nat → Guarded Word) (a b : Word) : Guarded Word :=
  shift a (b &&& (0x1F : Word)).toNat

/-- The action of a word at an address, given what it encodes. -/
def lower (i? : Option Instruction) (pc : Word) : Guarded (Acting σ Flow) :=
  match i? with
  | none => pure (raise .reservedInstruction pc)
  | some i => do
    let o ← operands i pc
    let registers (f : Arithmetic) := binary o.rd o.rs (.register o.rt) (total f)
    let constant (f : Arithmetic) (w : Word) := binary o.rt o.rs (.constant w) (total f)
    let loads (what : Load) := loadRegister what o.rt o.base o.offset pc
    let stores (what : Store) := storeRegister what o.rt o.base o.offset pc
    match i.mnemonic with
    | .add => pure (checked .add o.rd o.rs (.register o.rt) pc)
    | .addi => pure (checked .add o.rt o.rs (.constant o.signed) pc)
    | .sub => pure (checked .sub o.rd o.rs (.register o.rt) pc)
    | .addu => pure (registers .add)
    | .addiu => pure (constant .add o.signed)
    | .subu => pure (registers .sub)
    | .and => pure (registers .and)
    | .andi => pure (constant .and o.immediate)
    | .or => pure (registers .or)
    | .ori => pure (constant .or o.immediate)
    | .xor => pure (registers .xor)
    | .xori => pure (constant .xor o.immediate)
    | .nor => pure (registers .nor)
    | .slt => pure (registers .lessSigned)
    | .slti => pure (constant .lessSigned o.signed)
    | .sltu => pure (registers .less)
    | .sltiu => pure (constant .less o.signed)
    | .lui => do
      let high ← shiftLeft o.immediate 16
      pure (binary o.rt 0 (.constant high) (total .second))
    | .sll => pure (binary o.rd o.rt (.constant o.amount) fun a b => shiftLeft a b.toNat)
    | .srl => pure (binary o.rd o.rt (.constant o.amount) fun a b => shiftRight a b.toNat)
    | .sra => pure (binary o.rd o.rt (.constant o.amount) fun a b => shiftRightSigned a b.toNat)
    | .sllv => pure (binary o.rd o.rt (.register o.rs) (shiftBy shiftLeft))
    | .srlv => pure (binary o.rd o.rt (.register o.rs) (shiftBy shiftRight))
    | .srav => pure (binary o.rd o.rt (.register o.rs) (shiftBy shiftRightSigned))
    | .mult => pure (longArithmetic .multiplySigned o.rs o.rt)
    | .multu => pure (longArithmetic .multiply o.rs o.rt)
    | .div => pure (longArithmetic .divideSigned o.rs o.rt)
    | .divu => pure (longArithmetic .divide o.rs o.rt)
    | .mfhi => pure (move o.rd 32)
    | .mflo => pure (move o.rd 33)
    | .mthi => pure (move 32 o.rs)
    | .mtlo => pure (move 33 o.rs)
    | .lb => pure (loads .byteSigned)
    | .lbu => pure (loads .byte)
    | .lh => pure (loads .halfSigned)
    | .lhu => pure (loads .half)
    | .lw => pure (loads .word)
    | .lwl => pure (loads .left)
    | .lwr => pure (loads .right)
    | .lwc2 => pure (loadGeometry o.rt o.base o.offset pc)
    | .sb => pure (stores .byte)
    | .sh => pure (stores .half)
    | .sw => pure (stores .word)
    | .swl => pure (stores .left)
    | .swr => pure (stores .right)
    | .swc2 => pure (storeGeometry o.rt o.base o.offset pc)
    | .beq => pure (branch .equal o.rs o.rt o.target none)
    | .bne => pure (branch .notEqual o.rs o.rt o.target none)
    | .bgtz => pure (branch .positive o.rs 0 o.target none)
    | .blez => pure (branch .notPositive o.rs 0 o.target none)
    | .bgez => pure (branch .notNegative o.rs 0 o.target none)
    | .bltz => pure (branch .negative o.rs 0 o.target none)
    | .bgezal => pure (branch .notNegative o.rs 0 o.target (some o.link))
    | .bltzal => pure (branch .negative o.rs 0 o.target (some o.link))
    | .j => pure (pure (.jump o.target .plain))
    | .jal => pure (call o.target o.link)
    | .jr => pure (jumpRegister o.rs)
    | .jalr => pure (callRegister o.rs o.rd o.link)
    | .syscall => pure (raise .syscall pc)
    | .breakpoint => pure (raise .breakpoint pc)
    | .mfc0 => pure (moveFrom o.rt .cop0 o.rd)
    | .mtc0 => pure (moveToSystem o.rd o.rt)
    | .rfe => pure returnFromException
    | .mfc2 => pure (moveFrom o.rt .cop2Data o.rd)
    | .cfc2 => pure (moveFrom o.rt .cop2Control o.rd)
    | .mtc2 => pure (moveToGeometry .cop2Data o.rd o.rt)
    | .ctc2 => pure (moveToGeometry .cop2Control o.rd o.rt)
    | .cop2 => pure (pure .next)

/-! ## Lowered instructions do what their operations do -/

open GuardedAction

/-- A shift of words and the function that it computes. -/
inductive Shifts : (Word → Nat → Guarded Word) → Arithmetic → Prop where
  | left : Shifts shiftLeft .shiftLeft
  | right : Shifts shiftRight .shiftRight
  | rightSigned : Shifts shiftRightSigned .shiftRightSigned

/-- The five low bits of a word as a number. -/
theorem toNat_lowFive (w : Word) : (w &&& (0x1F : Word)).toNat = w.toNat % 32 :=
  Nat.and_two_pow_sub_one_eq_mod w.toNat 5

/-- Of a signed amount, too, only the low five bits count. -/
theorem smod_lowFive (w : Word) :
    (w &&& (0x1F : Word)).toBitVec.smod 32 = w.toBitVec.smod 32 := by
  have hlow := toNat_lowFive w
  have hsigned (v : Word) : v.toBitVec.toInt =
      if 2 * v.toNat < 2 ^ 32 then (v.toNat : Int) else (v.toNat : Int) - 2 ^ 32 :=
    BitVec.toInt_eq_toNat_cond v.toBitVec
  apply BitVec.eq_of_toInt_eq
  rw [BitVec.toInt_smod, BitVec.toInt_smod]
  change Int.fmod _ 32 = Int.fmod _ 32
  rw [Int.fmod_eq_emod_of_nonneg _ (by decide), Int.fmod_eq_emod_of_nonneg _ (by decide),
    hsigned, hsigned]
  omega

/-- Only the low five bits of an amount count. -/
theorem Shifts.apply_lowFive {shift : Word → Nat → Guarded Word} {f : Arithmetic}
    (h : Shifts shift f) (a b : Word) : f.apply a (b &&& (0x1F : Word)) = f.apply a b := by
  have hlow := toNat_lowFive b
  cases h with
  | left =>
    apply UInt32.toNat_inj.mp
    simp only [Arithmetic.apply, UInt32.toNat_shiftLeft, hlow, Nat.mod_mod]
  | right =>
    apply UInt32.toNat_inj.mp
    simp only [Arithmetic.apply, UInt32.toNat_shiftRight, hlow, Nat.mod_mod]
  | rightSigned =>
    have hshift : a.toInt32 >>> (b &&& (0x1F : Word)).toInt32 = a.toInt32 >>> b.toInt32 := by
      apply Int32.toBitVec_inj.mp
      rw [Int32.toBitVec_shiftRight, Int32.toBitVec_shiftRight]
      exact congrArg _ (smod_lowFive b)
    exact congrArg Int32.toUInt32 hshift

/-- A shift by less than 32 bits has a result. -/
theorem Shifts.of_lt {shift : Word → Nat → Guarded Word} {f : Arithmetic} (h : Shifts shift f)
    {b : Word} (hb : b.toNat < 32) (a : Word) : shift a b.toNat = .ok (f.apply a b) := by
  have hamount : b.toNat.toUInt32 = b := UInt32.ofNat_toNat
  cases h with
  | left => rw [shiftLeft_of_lt hb, hamount, Arithmetic.apply]
  | right => rw [shiftRight_of_lt hb, hamount, Arithmetic.apply]
  | rightSigned => rw [shiftRightSigned_of_lt hb, hamount, Arithmetic.apply]

/-- A shift by the low five bits of a word has a result. -/
theorem Shifts.shiftBy_eq {shift : Word → Nat → Guarded Word} {f : Arithmetic} (h : Shifts shift f)
    (a b : Word) : shiftBy shift a b = .ok (f.apply a b) := by
  unfold shiftBy
  rw [h.of_lt (by rw [toNat_lowFive]; exact Nat.mod_lt _ (by decide)), h.apply_lowFive]

/-- Shifts by a constant do what the operation does, for the constant has five bits. -/
theorem shift_agrees {shift : Word → Nat → Guarded Word} {f : Arithmetic} (h : Shifts shift f)
    (i : Instruction) (pc : Word) (dest lhs : Gpr) (g : Guest σ) :
    (binary dest lhs (.constant (i.getD .shift)) fun a b => shift a b.toNat).Agrees
      (Guest.perform (.silent σ) pc (.arithmetic f dest lhs (.constant (i.getD .shift)))) g :=
  binary_agrees g pc dest lhs (.constant _) (h.of_lt (i.getD_lt rfl))

/-- Shifts by a register do what the operation does, for only its five low bits count. -/
theorem shiftBy_agrees {shift : Word → Nat → Guarded Word} {f : Arithmetic} (h : Shifts shift f)
    (pc : Word) (dest lhs rhs : Gpr) (g : Guest σ) :
    (binary dest lhs (.register rhs) (shiftBy shift)).Agrees
      (Guest.perform (.silent σ) pc (.arithmetic f dest lhs (.register rhs))) g :=
  binary_agrees g pc dest lhs (.register rhs) fun a => h.shiftBy_eq a _

/-- Every word is lowered, and its action never breaks off: it does what the operation does. -/
theorem lower_agrees (i? : Option Instruction) (pc : Word) :
    ∃ op : Acting σ Flow, lower i? pc = .ok op ∧
      ∀ g, op.Agrees (Guest.perform (.silent σ) pc (.ofInstruction? i? pc)) g := by
  cases i? with
  | none => exact ⟨_, rfl, fun g => raise_agrees g pc _⟩
  | some i =>
    unfold lower
    simp only [operands_eq, ok_bind]
    obtain ⟨m, raw⟩ := i
    let rs := Instruction.gpr ⟨m, raw⟩ .source
    let rd := Instruction.gpr ⟨m, raw⟩ .destination
    -- Mnemonics that lower to one operation with different parameters share a case.
    cases m with
    | addu | subu | and | or | xor | nor | slt | sltu =>
      exact ⟨_, rfl, fun g => binary_agrees g pc _ _ (.register _) fun _ => rfl⟩
    | addiu | andi | ori | xori | slti | sltiu =>
      exact ⟨_, rfl, fun g => binary_agrees g pc _ _ (.constant _) fun _ => rfl⟩
    | lui => exact ⟨_, rfl, fun g => binary_agrees g pc _ .zero (.constant _) fun _ => rfl⟩
    | add | sub => exact ⟨_, rfl, fun g => checked_agrees g pc _ _ _ (.register _)⟩
    | addi => exact ⟨_, rfl, fun g => checked_agrees g pc _ _ _ (.constant _)⟩
    | sll => exact ⟨_, rfl, fun g => shift_agrees .left ⟨.sll, raw⟩ pc _ _ g⟩
    | srl => exact ⟨_, rfl, fun g => shift_agrees .right ⟨.srl, raw⟩ pc _ _ g⟩
    | sra => exact ⟨_, rfl, fun g => shift_agrees .rightSigned ⟨.sra, raw⟩ pc _ _ g⟩
    | sllv => exact ⟨_, rfl, fun g => shiftBy_agrees .left pc _ _ _ g⟩
    | srlv => exact ⟨_, rfl, fun g => shiftBy_agrees .right pc _ _ _ g⟩
    | srav => exact ⟨_, rfl, fun g => shiftBy_agrees .rightSigned pc _ _ _ g⟩
    | mult | multu | div | divu => exact ⟨_, rfl, fun g => longArithmetic_agrees g pc _ _ _⟩
    | mfhi => exact ⟨_, rfl, fun g => move_agrees g pc (.ofGpr rd) .hi⟩
    | mflo => exact ⟨_, rfl, fun g => move_agrees g pc (.ofGpr rd) .lo⟩
    | mthi => exact ⟨_, rfl, fun g => move_agrees g pc .hi (.ofGpr rs)⟩
    | mtlo => exact ⟨_, rfl, fun g => move_agrees g pc .lo (.ofGpr rs)⟩
    | lb | lbu | lh | lhu | lw | lwl | lwr =>
      exact ⟨_, rfl, fun g => loadRegister_agrees g pc _ _ (Instruction.location _)⟩
    | sb | sh | sw | swl | swr =>
      exact ⟨_, rfl, fun g => storeRegister_agrees g pc _ _ (Instruction.location _)⟩
    | lwc2 => exact ⟨_, rfl, fun g => loadGeometry_agrees g pc _ (Instruction.location _)⟩
    | swc2 => exact ⟨_, rfl, fun g => storeGeometry_agrees g pc _ (Instruction.location _)⟩
    | beq | bne => exact ⟨_, rfl, fun g => branch_agrees g pc _ _ _ _ _⟩
    | bgtz | blez | bgez | bltz | bgezal | bltzal =>
      exact ⟨_, rfl, fun g => branch_agrees g pc _ _ .zero _ _⟩
    | j => exact ⟨_, rfl, fun g => jump_agrees g pc _⟩
    | jal => exact ⟨_, rfl, fun g => call_agrees g pc _ _⟩
    | jr => exact ⟨_, rfl, fun g => jumpRegister_agrees g pc _⟩
    | jalr => exact ⟨_, rfl, fun g => callRegister_agrees g pc _ _ _⟩
    | syscall | breakpoint => exact ⟨_, rfl, fun g => raise_agrees g pc _⟩
    | mfc0 | mfc2 | cfc2 => exact ⟨_, rfl, fun g => moveFrom_agrees g pc _ _ _⟩
    | mtc0 => exact ⟨_, rfl, fun g => moveToSystem_agrees g pc _ _⟩
    | mtc2 => exact ⟨_, rfl, fun g => moveToGeometry_agrees g pc ⟨.cop2Data, _⟩ _⟩
    | ctc2 => exact ⟨_, rfl, fun g => moveToGeometry_agrees g pc ⟨.cop2Control, _⟩ _⟩
    | rfe => exact ⟨_, rfl, fun g => returnFromException_agrees g pc⟩
    | cop2 => exact ⟨_, rfl, fun g => next_agrees g pc⟩

end Guarded

end MipsMonitor
