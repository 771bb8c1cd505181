import MipsMonitor.Proofs.Instruction.Assembling
import MipsMonitor.Proofs.Machine.Exactness
import MipsMonitor.Proofs.Machine.Performing
import MipsMonitor.Proofs.Machine.ZeroRegister

/-!
# The results of the integer instructions

What arithmetic, shifts, comparisons, multiplication and division leave in registers, stated without
the words that compute it: the operands are cut out of the instruction word by division, the result
is a number (`Mnemonic.result?`), and the register receives that number modulo `2 ^ 32`.
`Guest.computes` shows it of every word that decodes, for every state of the processor.

An operation computes the number exactly before it is cut off (`Operation.Computes`), by
`Arithmetic.toNat_apply` for each function of words; that an instruction puts the right operands
into the right function is `Instruction.computes_of_result?`, one case for each mnemonic.
-/

namespace MipsMonitor

open Word

/-! ## Fields of instruction words -/

namespace Word

/-- The general register that is numbered by the five bits from `low` on. -/
def register (w : Word) (low : Nat) : Gpr :=
  ⟨w.toNat / 2 ^ low % 32, Nat.mod_lt _ (by decide)⟩

/-- The amount of a shift: five bits from the sixth on. -/
def amount (w : Word) : Nat := w.toNat / 2 ^ 6 % 32

/-- The constant of an instruction: its low half. -/
def constant (w : Word) : Nat := w.toNat % 65536

/-- The constant of an instruction with its sign. -/
def signedConstant (w : Word) : Int :=
  if w.constant < 32768 then (w.constant : Int) else w.constant - 65536

end Word

/-- The registers after one of them has received a word; the one that is always zero receives
nothing. -/
def RegisterFile.receive (f : RegisterFile) (r : Register) (w : Word) : RegisterFile :=
  if r = .zero then f else f.set r w

namespace Mnemonic

/-- The register that an instruction word leaves its result in, and the result as a number. -/
def result? (m : Mnemonic) (w : Word) (f : RegisterFile) : Option (Register × Int) :=
  let s := Operation.gpr f (w.register 21)
  let t := Operation.gpr f (w.register 16)
  let toRd (n : Int) : Option (Register × Int) := some (⟨.general, w.register 11⟩, n)
  let toRt (n : Int) : Option (Register × Int) := some (⟨.general, w.register 16⟩, n)
  match m with
  | .add | .addu => toRd (signed s + signed t)
  | .addi | .addiu => toRt (signed s + w.signedConstant)
  | .sub | .subu => toRd (signed s - signed t)
  | .and => toRd (s.toNat &&& t.toNat : Nat)
  | .or => toRd (s.toNat ||| t.toNat : Nat)
  | .xor => toRd (s.toNat ^^^ t.toNat : Nat)
  | .nor => toRd (4294967295 - (s.toNat ||| t.toNat : Nat))
  | .andi => toRt (s.toNat &&& w.constant : Nat)
  | .ori => toRt (s.toNat ||| w.constant : Nat)
  | .xori => toRt (s.toNat ^^^ w.constant : Nat)
  | .slt => toRd (if signed s < signed t then 1 else 0)
  | .slti => toRt (if signed s < w.signedConstant then 1 else 0)
  | .sltu => toRd (if s.toNat < t.toNat then 1 else 0)
  | .sltiu => toRt (if s.toNat < w.signedConstant % 4294967296 then 1 else 0)
  | .lui => toRt (w.constant * 65536 : Nat)
  | .sll => toRd (t.toNat * 2 ^ w.amount : Nat)
  | .srl => toRd (t.toNat / 2 ^ w.amount : Nat)
  | .sra => toRd (signed t / 2 ^ w.amount)
  | .sllv => toRd (t.toNat * 2 ^ (s.toNat % 32) : Nat)
  | .srlv => toRd (t.toNat / 2 ^ (s.toNat % 32) : Nat)
  | .srav => toRd (signed t / 2 ^ (s.toNat % 32))
  | .mfhi => toRd (f.get .hi).toNat
  | .mflo => toRd (f.get .lo).toNat
  | .mthi => some (.hi, s.toNat)
  | .mtlo => some (.lo, s.toNat)
  | _ => none

/-- Whether a result outside of the range of signed words is an overflow. -/
def traps : Mnemonic → Bool
  | add | addi | sub => true
  | _ => false

/-- The function of two registers that has two results, if the instruction computes one. -/
def long? : Mnemonic → Option LongArithmetic
  | mult => some .multiplySigned
  | multu => some .multiply
  | div => some .divideSigned
  | divu => some .divide
  | _ => none

end Mnemonic

namespace Instruction

variable {i : Instruction} {op : Operand} {low : Nat}

/-- An operand is the number that its bits spell in the word. -/
theorem toNat_getD {width : Nat} (h : i.get? op = some (Word.bits i.raw low width))
    (hlow : low < 32) (hwidth : width ≤ 32) :
    (i.getD op).toNat = i.raw.toNat / 2 ^ low % 2 ^ width := by
  rw [getD, h, Option.getD_some, Word.toNat_bits _ hlow hwidth, Nat.shiftRight_eq_div_pow,
    Nat.one_shiftLeft]

/-- The register of an operand is the one whose number stands in the word. -/
theorem gpr_eq (h : i.get? op = some (Word.bits i.raw low 5)) (hlow : low < 32) :
    i.gpr op = i.raw.register low := by
  apply Fin.ext
  rw [gpr, toNat_getD h hlow (by decide)]
  exact Nat.mod_mod _ _

/-- The shift amount is that of the word. -/
theorem toNat_shift (h : i.get? .shift = some (Word.bits i.raw 6 5)) :
    (i.getD .shift).toNat = i.raw.amount := toNat_getD h (by decide) (by decide)

/-- The immediate is the constant of the word. -/
theorem toNat_immediate (h : i.get? .immediate = some (Word.bits i.raw 0 16)) :
    (i.getD .immediate).toNat = i.raw.constant := by
  rw [toNat_getD h (by decide) (by decide), Nat.pow_zero, Nat.div_one]
  rfl

/-- The signed immediate is the signed constant of the word. -/
theorem signed_signedImmediate (h : i.get? .immediate = some (Word.bits i.raw 0 16)) :
    signed i.signedImmediate = i.raw.signedConstant := by
  have hconstant := toNat_immediate h
  have hlt : i.raw.constant < 65536 := Nat.mod_lt _ (by decide)
  have hsigned : signed i.signedImmediate = (i.getD .immediate).toUInt16.toBitVec.toInt :=
    Int16.toInt_toInt32 _
  have hhalf : (i.getD .immediate).toUInt16.toNat = (i.getD .immediate).toNat % 65536 :=
    UInt32.toNat_toUInt16 _
  have hcond := (i.getD .immediate).toUInt16.toBitVec.toInt_eq_toNat_cond
  rw [UInt16.toNat_toBitVec] at hcond
  rw [hsigned, hcond, signedConstant]
  omega

end Instruction

/-! ## What operations compute -/

/-- An operation computes a number for a register, and traps if the number is out of range or
not. -/
inductive Operation.Computes (f : RegisterFile) : Operation → Bool → Register → Int → Prop where
  | arithmetic (g : Arithmetic) (dest lhs : Gpr) (rhs : Source) :
    Computes f (.arithmetic g dest lhs rhs) false ⟨.general, dest⟩
      (g.exact (gpr f lhs) (operand f rhs))
  | trapping (g : Trapping) (dest lhs : Gpr) (rhs : Source) :
    Computes f (.trapping g dest lhs rhs) true ⟨.general, dest⟩
      (g.exact (gpr f lhs) (operand f rhs))
  | move (dest source : Tracked) {r : Register} (h : r.slot = dest.slot) :
    Computes f (.move dest source) false r (f.value source).toNat

/-- The operation of an instruction computes the result of the instruction. -/
theorem Instruction.computes_of_result? {w : Word} {i : Instruction} {f : RegisterFile}
    {r : Register} {n : Int} (hi : decode? w = some i)
    (h : i.mnemonic.result? w f = some (r, n)) (pc : Word) :
    (i.operation pc).Computes f i.mnemonic.traps r n := by
  obtain ⟨rfl, -⟩ := decode?_eq_some_iff.mp hi
  obtain ⟨m, w⟩ := i
  have hs (h : get? ⟨m, w⟩ .source = some (Word.bits w 21 5)) := gpr_eq h (by decide)
  have ht (h : get? ⟨m, w⟩ .target = some (Word.bits w 16 5)) := gpr_eq h (by decide)
  have hd (h : get? ⟨m, w⟩ .destination = some (Word.bits w 11 5)) := gpr_eq h (by decide)
  have hk := toNat_immediate (i := ⟨m, w⟩)
  have hz := signed_signedImmediate (i := ⟨m, w⟩)
  have ha := toNat_shift (i := ⟨m, w⟩)
  -- The operands are put back into the result as the instruction reads them.
  cases m <;> simp only [Mnemonic.result?, Option.some.injEq, Prod.mk.injEq, reduceCtorEq] at h <;>
    obtain ⟨rfl, rfl⟩ := h
  case addu | subu | and | or | xor | nor | slt | sltu | sllv | srlv | srav =>
    rw [← hd rfl, ← hs rfl, ← ht rfl]
    exact .arithmetic _ _ _ (.register _)
  case add | sub =>
    rw [← hd rfl, ← hs rfl, ← ht rfl]
    exact .trapping _ _ _ (.register _)
  case addi =>
    rw [← ht rfl, ← hs rfl, ← hz rfl]
    exact .trapping _ _ _ (.constant _)
  case addiu | slti =>
    rw [← ht rfl, ← hs rfl, ← hz rfl]
    exact .arithmetic _ _ _ (.constant _)
  case andi | ori | xori =>
    rw [← ht rfl, ← hs rfl, ← hk rfl]
    exact .arithmetic _ _ _ (.constant _)
  case sltiu =>
    rw [← ht rfl, ← hs rfl, ← hz rfl, ← toNat_eq]
    simp only [Int.ofNat_lt]
    exact .arithmetic _ _ _ (.constant _)
  case lui =>
    have hupper : (getD ⟨.lui, w⟩ .immediate <<< 16).toNat = w.constant * 65536 := by
      have hlt : w.constant < 65536 := Nat.mod_lt _ (by decide)
      rw [UInt32.toNat_shiftLeft, hk rfl, Nat.shiftLeft_eq]
      exact Nat.mod_eq_of_lt (Nat.mul_lt_mul_of_pos_right hlt (by decide))
    rw [← ht rfl, ← hupper]
    exact .arithmetic .second _ .zero (.constant _)
  case sll | srl | sra =>
    have hamount : w.amount = w.amount % 32 := (Nat.mod_mod _ _).symm
    rw [← hd rfl, ← ht rfl, hamount, ← ha rfl]
    exact .arithmetic _ _ _ (.constant _)
  case mfhi =>
    rw [← hd rfl]
    exact .move (.ofGpr _) .hi (Fin.ext (Nat.zero_add _))
  case mflo =>
    rw [← hd rfl]
    exact .move (.ofGpr _) .lo (Fin.ext (Nat.zero_add _))
  case mthi =>
    rw [← hs rfl]
    exact .move .hi (.ofGpr _) rfl
  case mtlo =>
    rw [← hs rfl]
    exact .move .lo (.ofGpr _) rfl

/-- An instruction with two results reads the registers that its word numbers. -/
theorem Instruction.operation_of_long? {w : Word} {i : Instruction} {f : LongArithmetic}
    (hi : decode? w = some i) (h : i.mnemonic.long? = some f) (pc : Word) :
    i.operation pc = .long f (w.register 21) (w.register 16) := by
  obtain ⟨rfl, -⟩ := decode?_eq_some_iff.mp hi
  obtain ⟨m, w⟩ := i
  have hs (h : get? ⟨m, w⟩ .source = some (Word.bits w 21 5)) := gpr_eq h (by decide)
  have ht (h : get? ⟨m, w⟩ .target = some (Word.bits w 16 5)) := gpr_eq h (by decide)
  cases m <;> cases h
  all_goals
    rw [← hs rfl, ← ht rfl]
    rfl

/-! ## What registers receive -/

namespace RegisterFile

variable {f : RegisterFile} {r : Register} {t : Tracked}

/-- A watched register receives what is written to it. -/
theorem writeAll_singleton (h : r.slot = t.slot) (w : Word) :
    f.writeAll [(t, w)] = f.receive r w := by
  have hzero : t = .zero ↔ r = .zero := by
    constructor
    · rintro rfl
      exact Register.slot_injective h
    · rintro rfl
      exact Fin.ext (congrArg Fin.val h).symm
  simp only [writeAll, List.foldl_cons, List.foldl_nil, receive, hzero, set, setTracked, h]

end RegisterFile

namespace Guest

variable {σ : Type} {observer : Observer σ} {g : Guest σ} {pc : Word} {op : Operation}
  {writes : List (Tracked × Word)}

/-- An operation that reads no memory reports nothing. -/
theorem noteReads_of_span (h : op.span g.core.registers = []) : g.noteReads op = g := by
  unfold noteReads
  split
  · rw [h]
    rfl
  · rfl

/-- An operation that only writes watched registers changes nothing else. -/
theorem perform_of_writes (ho : observer.Obeys) (g : Guest σ) (pc : Word) (op : Operation)
    (hspan : op.span g.core.registers = [])
    (he : op.effect pc g.core.registers g.core.view? = .ok { writes }) :
    ∃ context, g.perform observer pc op =
      .ok .next ⟨{ g.core with registers := g.core.registers.writeAll writes }, context⟩ := by
  obtain ⟨context, hwrites⟩ := exists_writeAll ho writes g
  refine ⟨context, ?_⟩
  simp only [perform, noteReads_of_span hspan, he, hwrites]

/-- A computed number is left in its register modulo `2 ^ 32`, or traps. -/
theorem perform_of_computes {traps : Bool} {r : Register} {n : Int} (ho : observer.Obeys)
    (h : op.Computes g.core.registers traps r n) (pc : Word) :
    if traps = true ∧ ¬(-2147483648 ≤ n ∧ n < 2147483648) then
      g.perform observer pc op = .error (.trap (.architectural .overflow pc)) g
    else
      ∃ v context, (v.toNat : Int) = n % 4294967296 ∧ g.perform observer pc op =
        .ok .next ⟨{ g.core with registers := g.core.registers.receive r v }, context⟩ := by
  have hslot (dest : Gpr) : Register.slot ⟨.general, dest⟩ = (Tracked.ofGpr dest).slot :=
    Fin.ext (Nat.zero_add _)
  -- Only the trapping form compares the exact result with the range; the other two always write.
  cases h with
  | arithmetic f dest lhs rhs =>
    rw [if_neg fun htraps => by cases htraps.1]
    obtain ⟨context, hperform⟩ := perform_of_writes ho g pc (.arithmetic f dest lhs rhs) rfl rfl
    refine ⟨_, context, f.toNat_apply _ _, ?_⟩
    rw [hperform, RegisterFile.writeAll_singleton (hslot dest)]
  | trapping f dest lhs rhs =>
    split
    · next hout =>
      have he : (Operation.trapping f dest lhs rhs).effect pc g.core.registers g.core.view? =
          .error (.architectural .overflow pc) := by
        simp only [Operation.effect, Trapping.value?_eq_none hout.2]
      have hnotes : g.noteReads (.trapping f dest lhs rhs) = g := noteReads_of_span rfl
      simp only [perform, hnotes, he]
      rfl
    · next hin =>
      have hrange := Decidable.not_not.mp fun hout => hin ⟨rfl, hout⟩
      have he : (Operation.trapping f dest lhs rhs).effect pc g.core.registers g.core.view? =
          .ok { writes := [(.ofGpr dest, UInt32.ofInt (f.exact (Operation.gpr g.core.registers lhs)
            (Operation.operand g.core.registers rhs)))] } := by
        simp only [Operation.effect, Trapping.value?_eq_some hrange]
      obtain ⟨context, hperform⟩ := perform_of_writes ho g pc _ rfl he
      refine ⟨_, context, toNat_ofInt _, ?_⟩
      rw [hperform, RegisterFile.writeAll_singleton (hslot dest)]
  | move dest source hr =>
    rw [if_neg fun htraps => by cases htraps.1]
    obtain ⟨context, hperform⟩ := perform_of_writes ho g pc (.move dest source) rfl rfl
    refine ⟨g.core.registers.value source, context, ?_, ?_⟩
    · have hlt := (g.core.registers.value source).toNat_lt
      omega
    · rw [hperform, RegisterFile.writeAll_singleton hr]

/-- The two results of an operation are left in the result registers. -/
theorem perform_of_long (ho : observer.Obeys) (f : LongArithmetic) (lhs rhs : Gpr) (pc : Word)
    (g : Guest σ) :
    ∃ high low context,
      f.Leaves (Operation.gpr g.core.registers lhs) (Operation.gpr g.core.registers rhs) high low ∧
      g.perform observer pc (.long f lhs rhs) = .ok .next
        ⟨{ g.core with registers := (g.core.registers.set .hi high).set .lo low }, context⟩ := by
  obtain ⟨context, hperform⟩ := perform_of_writes ho g pc (.long f lhs rhs) rfl rfl
  exact ⟨_, _, context, f.leaves_apply _ _, hperform⟩

/-- The integer instructions compute the results of exact arithmetic. Whatever word decodes and
whatever the registers hold: the register that the word names receives the result modulo `2 ^ 32`,
unless the instruction traps on overflow and the result is no signed word, when nothing changes at
all; and the two result registers receive what a multiplication or division leaves. Nothing else of
the processor changes. -/
theorem computes {w : Word} {i : Instruction} (ho : observer.Obeys)
    (hi : Instruction.decode? w = some i) (pc : Word) (g : Guest σ) :
    (∀ r n, i.mnemonic.result? w g.core.registers = some (r, n) →
      if i.mnemonic.traps = true ∧ ¬(-2147483648 ≤ n ∧ n < 2147483648) then
        g.perform observer pc (i.operation pc) = .error (.trap (.architectural .overflow pc)) g
      else
        ∃ v context, (v.toNat : Int) = n % 4294967296 ∧ g.perform observer pc (i.operation pc) =
          .ok .next ⟨{ g.core with registers := g.core.registers.receive r v }, context⟩) ∧
    ∀ f, i.mnemonic.long? = some f →
      ∃ high low context,
        f.Leaves (Operation.gpr g.core.registers (w.register 21))
          (Operation.gpr g.core.registers (w.register 16)) high low ∧
        g.perform observer pc (i.operation pc) = .ok .next
          ⟨{ g.core with registers := (g.core.registers.set .hi high).set .lo low }, context⟩ := by
  refine ⟨fun r n h => perform_of_computes ho (i.computes_of_result? hi h pc) pc, fun f hf => ?_⟩
  rw [i.operation_of_long? hi hf pc]
  exact perform_of_long ho f _ _ pc g

end Guest

namespace Extremes

/-- A processor with the least signed number in register 8 and minus one in register 9. -/
def guest : Guest Unit :=
  ⟨{ Core.detached .standard with
    registers := (RegisterFile.blank.setTracked ⟨8, by decide⟩ 0x80000000).setTracked
      ⟨9, by decide⟩ 0xFFFFFFFF }, ()⟩

/-- `div t0, t1` divides the least signed number by minus one and leaves `2 ^ 31`, and
`add t2, t0, t1` overflows. -/
theorem computed :
    (∃ low context, low.toNat = 2147483648 ∧
      guest.perform (.silent Unit) 0 (Instruction.operation ⟨.div, 0x0109001A⟩ 0) = .ok .next
        ⟨{ guest.core with registers := (guest.core.registers.set .hi 0).set .lo low }, context⟩) ∧
    guest.perform (.silent Unit) 0 (Instruction.operation ⟨.add, 0x01095020⟩ 0) =
      .error (.trap (.architectural .overflow 0)) guest := by
  have hdiv := (Guest.computes (w := 0x0109001A) (i := ⟨.div, 0x0109001A⟩) Observer.obeys_silent
    (by decide) 0 guest).2 .divideSigned rfl
  -- The sum of the example is one less than the least number of 32 bits.
  have hadd := (Guest.computes (w := 0x01095020) (i := ⟨.add, 0x01095020⟩) Observer.obeys_silent
    (by decide) 0 guest).1 ⟨.general, (10 : Fin 32)⟩ (-2147483649) (by decide)
  constructor
  · obtain ⟨high, low, context, hleaves, hperform⟩ := hdiv
    unfold LongArithmetic.Leaves at hleaves
    rw [if_neg (by decide), if_pos (by decide)] at hleaves
    obtain ⟨rfl, hlow, -⟩ := hleaves
    exact ⟨low, context, hlow, hperform⟩
  · rwa [if_pos (by decide)] at hadd

end Extremes

end MipsMonitor
