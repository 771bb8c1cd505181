/-!
# Register banks

The processor has five banks of registers: the general registers, the two results of
multiplication and division, the system control coprocessor, and the data and control registers of
the geometry coprocessor. A register is a bank and an index in it (`Register`); all of them lie in
one file of 114 slots, bank after bank (`Register.slot`, which is injective), and the first 34
slots, the general registers and the two results, are those whose writes are watched (`Tracked`).
-/

namespace MipsMonitor

/-- A bank of registers. -/
inductive Bank where
  /-- The general registers. -/
  | general
  /-- The high and the low half of a product, or the remainder and the quotient of a division. -/
  | special
  /-- The system control coprocessor. -/
  | cop0
  /-- The data registers of the geometry coprocessor. -/
  | cop2Data
  /-- The control registers of the geometry coprocessor. -/
  | cop2Control
deriving DecidableEq, Repr

/-- The index names no register of its bank. -/
structure InvalidIndex where
  /-- The index that was asked for. -/
  index : Int
deriving DecidableEq, Repr

/-- The wording of the error. -/
def InvalidIndex.message (e : InvalidIndex) : String :=
  "invalid register index: " ++ toString e.index

namespace Bank

/-- The banks in the order of their slots. -/
def all : List Bank := [.general, .special, .cop0, .cop2Data, .cop2Control]

/-- The number of registers in a bank. -/
def size : Bank → Nat
  | general => 32
  | special => 2
  | cop0 => 16
  | cop2Data => 32
  | cop2Control => 32

/-- The slot of the first register of a bank. -/
def base : Bank → Nat
  | general => 0
  | special => 32
  | cop0 => 34
  | cop2Data => 50
  | cop2Control => 82

/-- The names of the registers of a bank, by index. -/
def names : Bank → List String
  | general =>
    ["zero", "at", "v0", "v1", "a0", "a1", "a2", "a3", "t0", "t1", "t2", "t3", "t4", "t5", "t6",
     "t7", "s0", "s1", "s2", "s3", "s4", "s5", "s6", "s7", "t8", "t9", "k0", "k1", "gp", "sp",
     "fp", "ra"]
  | special => ["hi", "lo"]
  | cop0 =>
    ["r0", "r1", "r2", "bpc", "r4", "bda", "jumpdest", "dcic", "badvaddr", "bdam", "r10", "bpcm",
     "sr", "cause", "epc", "prid"]
  | cop2Data =>
    ["vxy0", "vz0", "vxy1", "vz1", "vxy2", "vz2", "rgbc", "otz", "ir0", "ir1", "ir2", "ir3",
     "sxy0", "sxy1", "sxy2", "sxyp", "sz0", "sz1", "sz2", "sz3", "rgb0", "rgb1", "rgb2", "res1",
     "mac0", "mac1", "mac2", "mac3", "irgb", "orgb", "lzcs", "lzcr"]
  | cop2Control =>
    ["rt11rt12", "rt13rt21", "rt22rt23", "rt31rt32", "rt33", "trx", "try", "trz", "l11l12",
     "l13l21", "l22l23", "l31l32", "l33", "rbk", "gbk", "bbk", "lr1lr2", "lr3lg1", "lg2lg3",
     "lb1lb2", "lb3", "rfc", "gfc", "bfc", "ofx", "ofy", "h", "dqa", "dqb", "zsf3", "zsf4", "flag"]

/-- Every register of a bank has a name. -/
theorem length_names (b : Bank) : b.names.length = b.size := by cases b <;> rfl

/-- The name at an index, if the bank has a register there. -/
def name? (b : Bank) (index : Nat) : Option String := b.names[index]?

/-- The name of a register of the bank. -/
def name (b : Bank) (index : Fin b.size) : String :=
  b.names.get ⟨index.val, by rw [b.length_names]; exact index.isLt⟩

/-- The index of a register, from any integer. -/
def index (b : Bank) (n : Int) : Except InvalidIndex (Fin b.size) :=
  if h : 0 ≤ n ∧ n.toNat < b.size then .ok ⟨n.toNat, h.2⟩ else .error ⟨n⟩

/-- A name is found exactly below the size of the bank. -/
theorem name?_isSome {b : Bank} {i : Nat} : (b.name? i).isSome = true ↔ i < b.size := by
  simp [name?, b.length_names]

end Bank

/-- The number of slots in the register file. -/
def slotCount : Nat := 114

/-- A register: a bank and an index in it. -/
structure Register where
  /-- The bank. -/
  bank : Bank
  /-- The index in the bank. -/
  index : Fin bank.size
deriving DecidableEq, Repr

namespace Register

/-- The name of a register. -/
def name (r : Register) : String := r.bank.name r.index

/-- Every register has a slot in the file. -/
theorem slot_lt (r : Register) : r.bank.base + r.index < slotCount := by
  obtain ⟨b, ⟨i, h⟩⟩ := r
  cases b <;> simp only [Bank.size, Bank.base, slotCount] at h ⊢ <;> omega

/-- The slot of a register in the file. -/
def slot (r : Register) : Fin slotCount := ⟨r.bank.base + r.index, r.slot_lt⟩

/-- Registers of different name never share a slot. -/
theorem slot_injective {r s : Register} (h : r.slot = s.slot) : r = s := by
  obtain ⟨b, ⟨i, hi⟩⟩ := r
  obtain ⟨c, ⟨j, hj⟩⟩ := s
  simp only [slot, Fin.mk.injEq] at h
  have hb : b = c := by
    cases b <;> cases c <;> simp only [Bank.base, Bank.size, reduceCtorEq] at hi hj h ⊢ <;> omega
  subst hb
  have hij : i = j := by omega
  subst hij
  rfl

/-- The status register. -/
def status : Register := ⟨.cop0, (12 : Fin 16)⟩

/-- The cause register. -/
def cause : Register := ⟨.cop0, (13 : Fin 16)⟩

/-- The address whose translation or access failed last. -/
def badAddress : Register := ⟨.cop0, (8 : Fin 16)⟩

/-- The register that tells which processor this is. -/
def processorId : Register := ⟨.cop0, (15 : Fin 16)⟩

/-- The high half of a product, or the remainder of a division. -/
def hi : Register := ⟨.special, (0 : Fin 2)⟩

/-- The low half of a product, or the quotient of a division. -/
def lo : Register := ⟨.special, (1 : Fin 2)⟩

end Register

/-- A general register, by number. -/
abbrev Gpr := Fin 32

/-- The general register that always reads as zero. -/
def Gpr.zero : Gpr := ⟨0, by decide⟩

/-- A general register or one of the two results, by slot: a register whose writes are watched. -/
abbrev Tracked := Fin 34

namespace Tracked

/-- The register that always reads as zero. -/
def zero : Tracked := 0

/-- The register that calls leave the return address in. -/
def returnAddress : Tracked := 31

/-- The high half of a product, or the remainder of a division. -/
def hi : Tracked := 32

/-- The low half of a product, or the quotient of a division. -/
def lo : Tracked := 33

/-- The slot of a watched register. -/
def slot (t : Tracked) : Fin slotCount := ⟨t.val, Nat.lt_of_lt_of_le t.isLt (by decide)⟩

/-- A general register as a watched register. -/
def ofGpr (r : Gpr) : Tracked := ⟨r.val, Nat.lt_of_lt_of_le r.isLt (by decide)⟩

/-- All watched registers, in the order of their slots. -/
def all : List Tracked := List.finRange 34

/-- The name of a watched register. -/
def name (t : Tracked) : String :=
  if h : t.val < 32 then Bank.name .general ⟨t.val, h⟩
  else Bank.name .special ⟨t.val - 32, by simp only [Bank.size]; omega⟩

end Tracked

end MipsMonitor
