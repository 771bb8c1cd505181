import MipsMonitor.Machine.Operation
import MipsMonitor.Proofs.Guarded.Basic

/-!
# Guarded decoding

Words are taken apart by shifts that depend on the pattern of an instruction, and what comes out is
used as the number of a register or as the amount of a shift. All patterns fill the word from its
highest bit to its lowest one (`Mnemonic.fits`), so that no shift is too wide
(`Guarded.decode?_eq`), and fields that name registers or amounts have five bits
(`Instruction.getD_lt`), so that their values are numbers of registers as they stand
(`Guarded.operands_eq`).
-/

namespace MipsMonitor

/-- A run of bits lies within the word. -/
def Component.Fits (c : Component) : Prop := 0 < c.len ∧ c.shift + c.len ≤ 32

instance (c : Component) : Decidable c.Fits :=
  inferInstanceAs (Decidable (0 < c.len ∧ c.shift + c.len ≤ 32))

/-- Whether a field holds the number of a general register or the amount of a shift. -/
def Operand.isShort (op : Operand) : Bool := op.isRegister || op == .shift

/-- A field that holds the number of a register or the amount of a shift has five bits. -/
def Component.Sized (c : Component) : Prop :=
  ∀ op ∈ Operand.all, c.content = .operand op → op.isShort = true → c.len = 5

instance (c : Component) : Decidable c.Sized := by
  unfold Component.Sized
  infer_instance

/-- The patterns of all instructions fill the word. -/
theorem Mnemonic.fits (m : Mnemonic) :
    ∀ c ∈ m.encoding.pattern.components, c.Fits ∧ c.Sized := by
  have hall : ∀ m ∈ Mnemonic.all, ∀ c ∈ m.encoding.pattern.components, c.Fits ∧ c.Sized := by
    decide +kernel
  exact hall m m.mem_all

/-- Every operand is in the list of all of them. -/
theorem Operand.mem_all (op : Operand) : op ∈ all := by cases op <;> decide

namespace Instruction

/-- A field of so many bits holds a number of so many bits. -/
theorem getD_lt_of_len (i : Instruction) {op : Operand} {width : Nat}
    (h : ∀ c ∈ i.mnemonic.encoding.pattern.components, c.content = .operand op → c.len ≤ width) :
    (i.getD op).toNat < 1 <<< width := by
  rw [Nat.one_shiftLeft]
  unfold getD get? Pattern.get?
  cases hfind : List.findSome? _ i.mnemonic.encoding.pattern.components with
  | none => exact Nat.two_pow_pos width
  | some w =>
    obtain ⟨c, hc, hw⟩ := List.exists_of_findSome?_eq_some hfind
    obtain ⟨⟨hlen, hfits⟩, -⟩ := i.mnemonic.fits c hc
    split at hw
    · next hcontent =>
      cases hw
      -- The field fits in its component, and its component in the width.
      rw [Option.getD_some, Component.extract, Word.toNat_bits _ (by omega) (by omega),
        Nat.one_shiftLeft]
      exact Nat.lt_of_lt_of_le (Nat.mod_lt _ (Nat.two_pow_pos _))
        (Nat.pow_le_pow_right (by decide) (h c hc hcontent))
    · cases hw

/-- The number of a register and the amount of a shift are below 32. -/
theorem getD_lt (i : Instruction) {op : Operand} (h : op.isShort = true) :
    (i.getD op).toNat < 32 := by
  have hlen : ∀ c ∈ i.mnemonic.encoding.pattern.components, c.content = .operand op → c.len ≤ 5 :=
    fun c hc hcontent => Nat.le_of_eq ((i.mnemonic.fits c hc).2 op op.mem_all hcontent h)
  exact i.getD_lt_of_len hlen

/-- The number of a register is that of a general register as it stands. -/
theorem val_gpr (i : Instruction) {op : Operand} (h : op.isShort = true) :
    (i.gpr op).val = (i.getD op).toNat := Nat.mod_eq_of_lt (i.getD_lt h)

end Instruction

namespace Guarded

/-- The bits of a word at a place. -/
def extract (w : Word) (shift len : Nat) : Guarded Word :=
  if len = 32 then pure w
  else do
    let low ← shiftRight w shift
    let next ← shiftLeft 1 len
    let mask ← sub next.toNat 1
    pure (low &&& UInt32.ofNat mask)

/-- Whether a word has all fixed bits of a pattern. -/
def accepts (p : Pattern) (w : Word) : Guarded Bool :=
  p.components.allM fun c =>
    match c.content with
    | .fixed value => do pure ((← extract w c.shift c.len) == value)
    | .operand _ => pure true

/-- The instruction that a word encodes, if it encodes one. -/
def decode? (w : Word) : Guarded (Option Instruction) := do
  let m? ← Mnemonic.all.findM? fun m => accepts m.encoding.pattern w
  pure (m?.map (⟨·, w⟩))

/-- The value of an operand, if the encoding has it. -/
def get? (i : Instruction) (op : Operand) : Guarded (Option Word) :=
  i.mnemonic.encoding.pattern.components.findSomeM? fun c =>
    if c.content = .operand op then some <$> extract i.raw c.shift c.len else pure none

/-- The value of an operand, or zero if the encoding does not have it. -/
def getD (i : Instruction) (op : Operand) : Guarded Word := do pure ((← get? i op).getD 0)

/-- Where control goes if that does not depend on a register. -/
def staticTarget? (i : Instruction) (pc : Word) : Guarded (Option Word) :=
  let delaySlot := pc + Instruction.size
  if i.mnemonic.isBranch then do
    match ← get? i .offset with
    | some offset =>
      let distance ← shiftLeft (Word.signExtendHalf offset) 2
      pure (some (delaySlot + distance))
    | none => pure none
  else if i.mnemonic == .j || i.mnemonic == .jal then do
    match ← get? i .jumpIndex with
    | some index =>
      let low ← shiftLeft index 2
      pure (some ((delaySlot &&& (0xF0000000 : Word)) ||| low))
    | none => pure none
  else pure none

/-- The operands of an instruction at an address as numbers, zero where the encoding has none. -/
structure Operands where
  /-- The first source register. -/
  rs : Nat
  /-- The second source register, or the register that is loaded or stored. -/
  rt : Nat
  /-- The register that takes the result. -/
  rd : Nat
  /-- The register that holds the base address of a load or store. -/
  base : Nat
  /-- The amount of a shift. -/
  amount : Word
  /-- The constant. -/
  immediate : Word
  /-- The constant, extended by its sign. -/
  signed : Word
  /-- The distance of a load or store from its base. -/
  offset : Word
  /-- The return address. -/
  link : Word
  /-- Where control goes. -/
  target : Word

/-- Takes the operands of an instruction at an address out of its word. -/
def operands (i : Instruction) (pc : Word) : Guarded Operands := do
  let rs ← getD i .source
  let rt ← getD i .target
  let rd ← getD i .destination
  let amount ← getD i .shift
  let immediate ← getD i .immediate
  let offset ← getD i .offset
  let base ← getD i .base
  let target? ← staticTarget? i pc
  pure {
    rs := rs.toNat
    rt := rt.toNat
    rd := rd.toNat
    base := base.toNat
    amount
    immediate
    signed := Word.signExtendHalf immediate
    offset := Word.signExtendHalf offset
    link := pc + 2 * Instruction.size
    target := target?.getD 0 }

/-! ## Decoding never breaks off -/

/-- Bits are taken out of a word by shifts that are not too wide. -/
theorem extract_eq (w : Word) {c : Component} (h : c.Fits) :
    extract w c.shift c.len = .ok (c.extract w) := by
  obtain ⟨hlen, hfits⟩ := h
  unfold extract Component.extract
  split
  · next hwhole =>
    have hshift : c.shift = 0 := by omega
    rw [hwhole, hshift]
    apply congrArg Except.ok
    apply UInt32.toNat_inj.mp
    rw [Word.toNat_bits w (by omega) (by omega)]
    exact (Nat.mod_eq_of_lt w.toNat_lt).symm
  · next hwhole =>
    have hlt : c.len < 32 := by omega
    have hamount : c.len.toUInt32.toNat = c.len :=
      UInt32.toNat_ofNat_of_lt' (Nat.lt_trans hlt (by decide))
    -- One is shifted by less than the width, so no bit is lost and taking one away leaves the mask.
    have hnext : (1 <<< c.len.toUInt32 : Word).toNat = 2 ^ c.len := by
      have hpow : 2 ^ c.len < 2 ^ 32 := Nat.pow_lt_pow_right (by omega) hlt
      rw [UInt32.toNat_shiftLeft, hamount, Nat.mod_eq_of_lt hlt]
      simp only [UInt32.toNat_one, Nat.one_shiftLeft]
      exact Nat.mod_eq_of_lt hpow
    have hpos : 0 < 2 ^ c.len := Nat.two_pow_pos _
    have hle : (1 : Word) ≤ 1 <<< c.len.toUInt32 := by
      rw [UInt32.le_iff_toNat_le, hnext]
      exact hpos
    rw [shiftRight_of_lt (by omega), ok_bind, shiftLeft_of_lt hlt, ok_bind,
      sub_of_le (by rw [hnext]; exact hpos), ok_bind, pure_eq]
    unfold Word.bits Word.lowMask
    rw [if_pos hlt]
    congr 2
    apply UInt32.toNat_inj.mp
    rw [UInt32.toNat_sub_of_le _ _ hle]
    exact UInt32.toNat_ofNat_of_lt' (Nat.lt_of_le_of_lt (Nat.sub_le ..) (UInt32.toNat_lt _))

/-- Matching a word against the pattern of a mnemonic never breaks off. -/
theorem accepts_eq (m : Mnemonic) (w : Word) :
    accepts m.encoding.pattern w = .ok (m.encoding.pattern.accepts w) := by
  refine allM_ok fun c hc => ?_
  unfold Component.accepts
  cases c.content with
  | operand op => rfl
  | fixed value =>
    simp only
    rw [extract_eq w (m.fits c hc).1]
    rfl

/-- Every word is decoded, or found to encode nothing. -/
theorem decode?_eq (w : Word) : decode? w = .ok (Instruction.decode? w) := by
  unfold decode?
  rw [findM?_ok fun m _ => accepts_eq m w]
  rfl

/-- Taking an operand out of an instruction never breaks off. -/
theorem get?_eq (i : Instruction) (op : Operand) : get? i op = .ok (i.get? op) := by
  refine findSomeM?_ok fun c hc => ?_
  split
  · rw [extract_eq i.raw (i.mnemonic.fits c hc).1]
    rfl
  · rfl

/-- Taking an operand out of an instruction, or zero, never breaks off. -/
theorem getD_eq (i : Instruction) (op : Operand) : getD i op = .ok (i.getD op) := by
  unfold getD
  rw [get?_eq]
  rfl

/-- Working out the target of a jump never breaks off. -/
theorem staticTarget?_eq (i : Instruction) (pc : Word) :
    staticTarget? i pc = .ok (i.staticTarget? pc) := by
  unfold staticTarget? Instruction.staticTarget?
  simp only [get?_eq, ok_bind]
  split
  · cases i.get? .offset <;> rfl
  · split
    · cases i.get? .jumpIndex <;> rfl
    · rfl

/-- The operands of an instruction are taken out of its word, and the numbers of registers need not
be cut to size. -/
theorem operands_eq (i : Instruction) (pc : Word) :
    operands i pc = .ok {
      rs := i.gpr .source
      rt := i.gpr .target
      rd := i.gpr .destination
      base := i.gpr .base
      amount := i.getD .shift
      immediate := i.getD .immediate
      signed := i.signedImmediate
      offset := i.location.offset
      link := Instruction.returnAddress pc
      target := (i.staticTarget? pc).getD 0 } := by
  unfold operands
  simp only [getD_eq, ok_bind, staticTarget?_eq, pure_eq]
  rw [i.val_gpr rfl, i.val_gpr rfl, i.val_gpr rfl, i.val_gpr rfl]
  rfl

end Guarded

end MipsMonitor
