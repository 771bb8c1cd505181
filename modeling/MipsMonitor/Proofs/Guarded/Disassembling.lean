import MipsMonitor.Debug.Debugger
import MipsMonitor.Instruction.Text
import MipsMonitor.Proofs.Guarded.Blocks
import MipsMonitor.Proofs.Guarded.Execution
import MipsMonitor.Proofs.Guarded.Registers

/-!
# Guarded disassembly

Instructions are shown with the names of their registers, which are taken from a table by the number
in a field. A field has room for 32 numbers, and so have all tables but that of the system control
coprocessor, which has 16 names. So the one access that fails is that of a move to or from a system
control register that does not exist (`Instruction.Nameless`): what has a text otherwise is shown,
and what has none breaks off there (`Guarded.format_renders`,
`Guarded.disassembly_breaks_off_iff`).
-/

namespace MipsMonitor

open Text

namespace Instruction

/-- A move to or from a system control register that does not exist, and so has no name. -/
def Nameless (i : Instruction) : Prop :=
  (i.mnemonic = .mfc0 ∨ i.mnemonic = .mtc0) ∧ 16 ≤ (i.getD .destination).toNat

instance (i : Instruction) : Decidable i.Nameless :=
  inferInstanceAs (Decidable (_ ∧ _))

end Instruction

namespace Guarded

/-- One operand as text. The base of a load or store is shown with the offset. -/
def operandText (i : Instruction) (delaySlot : Option Word) (op : Operand) (style : NumberStyle) :
    Guarded String := do
  let number ← getD i op
  match i.mnemonic.operandBank? op with
  | some bank => name bank number.toNat
  | none =>
    if op = .offset && (i.mnemonic.isLoad || i.mnemonic.isStore) then do
      let number' ← getD i .base
      let base ← name .general number'.toNat
      pure (style.format number ++ "(" ++ base ++ ")")
    else
      match op, delaySlot with
      | .jumpIndex, some slot => do
        let low ← shiftLeft number 2
        pure (hexWord ((slot &&& (0xF0000000 : Word)) ||| low))
      | _, _ => pure (style.format number)

/-- Operands as text, each but the last one with a comma behind it. -/
def operandTexts (i : Instruction) (delaySlot : Option Word) :
    List (Operand × NumberStyle) → Guarded String
  | [] => pure ""
  | (op, style) :: rest =>
    if op = .base then operandTexts i delaySlot rest
    else do
      let text ← operandText i delaySlot op style
      let comma := if rest.all (fun (op, _) => op = .base) then "" else ", "
      pure (text ++ comma ++ (← operandTexts i delaySlot rest))

/-- The text of an instruction, given the address of its delay slot if that is known. -/
def format (i : Instruction) (delaySlot : Option Word) : Guarded String :=
  let operands := i.mnemonic.encoding.operands
  if i.raw == 0 then pure "nop"
  else if operands.isEmpty then pure i.mnemonic.name
  else do pure (column 8 i.mnemonic.name ++ (← operandTexts i delaySlot operands))

/-- The instruction at an address as text, or why it cannot be read. -/
def disassemble (d : Debug.Debugger) (a : Word) : Guarded (Except Debug.RequestError String) := do
  let rest ← remainder a Instruction.size
  if rest == 0 then
    match d.core.view? with
    | none => pure (.error (.access .detached))
    | some v =>
      match ← readWord v.backing a with
      | .error e => pure (.error (.access (.memory e)))
      | .ok w =>
        match ← decode? w with
        | some i => do pure (.ok (← format i (some (a + Instruction.size))))
        | none => pure (.ok (".word   " ++ hexWord w))
  else pure (.error (.access (.misaligned a)))

/-! ## What has a text is shown -/

/-- A computation gives a text, or breaks off where there is none at a look into a table. -/
def Renders (x : Guarded String) : Option String → Prop
  | some s => x = .ok s
  | none => ∃ i size, x = .error (.index i size)

variable {x : Guarded String} {text? : Option String}

namespace Renders

/-- The name of a register is looked up as it is without checks. -/
theorem name (b : Bank) (i : Nat) : Renders (name b i) (b.name? i) := by
  unfold Guarded.name Bank.name?
  by_cases h : i < b.names.length
  · rw [index_of_lt h, List.getElem?_eq_getElem h]
    rfl
  · rw [List.getElem?_eq_none (Nat.not_lt.mp h)]
    exact ⟨i, b.names.length, by rw [index, dif_neg h]; rfl⟩

/-- What is written behind a text is rendered if both parts are. -/
theorem bind {f : String → Guarded String} {g : String → Option String} (h : Renders x text?)
    (hf : ∀ s, Renders (f s) (g s)) : Renders (x >>= f) (text?.bind g) := by
  cases text? with
  | some s =>
    have hx : x = .ok s := h
    rw [hx]
    exact hf s
  | none =>
    obtain ⟨i, size, hx⟩ := h
    exact ⟨i, size, by rw [hx]; rfl⟩

/-- What is made of a rendered text is rendered. -/
theorem map (h : Renders x text?) (f : String → String) :
    Renders (x >>= fun s => pure (f s)) (text?.map f) := by
  rw [Option.map_eq_bind]
  exact h.bind fun _ => rfl

end Renders

variable {i : Instruction} {delaySlot : Option Word}

/-- The text of an operand is rendered. -/
theorem operandText_renders (op : Operand) (style : NumberStyle) :
    Renders (operandText i delaySlot op style) (i.operandText? delaySlot op style) := by
  unfold operandText Instruction.operandText?
  simp only [getD_eq, ok_bind]
  cases i.mnemonic.operandBank? op with
  | some bank => exact Renders.name bank _
  | none =>
    simp only
    split
    · exact (Renders.name .general _).map _
    · cases op with
      -- The target of a jump takes its upper bits from the delay slot, if that is given.
      | jumpIndex =>
        cases delaySlot with
        | some slot =>
          simp only [shiftLeft_of_lt (show 2 < 32 by decide)]
          rfl
        | none => rfl
      | _ => rfl

/-- A comma stands behind a text if there is another one. -/
theorem intercalate_cons (s : String) (ss : List String) :
    ", ".intercalate (s :: ss) = s ++ (if ss.isEmpty then "" else ", ") ++ ", ".intercalate ss := by
  cases ss with
  | nil => simp
  | cons t ss => simp

/-- There are texts if there are operands to show. -/
theorem isEmpty_of_mapM {ops : List (Operand × NumberStyle)} {texts : List String}
    (h : ops.mapM (fun p => i.operandText? delaySlot p.1 p.2) = some texts) :
    texts.isEmpty = ops.isEmpty := by
  cases ops with
  | nil =>
    cases h
    rfl
  | cons p rest =>
    rw [List.mapM_cons] at h
    obtain ⟨text, -, h⟩ := Option.bind_eq_some_iff.mp h
    obtain ⟨others, -, h⟩ := Option.bind_eq_some_iff.mp h
    cases h
    rfl

/-- The texts of the operands are rendered one after the other. -/
theorem operandTexts_renders (i : Instruction) (delaySlot : Option Word)
    (ops : List (Operand × NumberStyle)) :
    Renders (operandTexts i delaySlot ops)
      (((ops.filter (·.1 ≠ Operand.base)).mapM fun p =>
        i.operandText? delaySlot p.1 p.2).map ", ".intercalate) := by
  induction ops with
  | nil => exact congrArg Except.ok String.intercalate_nil.symm
  | cons p rest ih =>
    obtain ⟨op, style⟩ := p
    rw [operandTexts]
    split
    · next hbase => rwa [List.filter_cons_of_neg (by simpa using hbase)]
    · next hother =>
      rw [List.filter_cons_of_pos (by simpa using hother), List.mapM_cons, Option.bind_eq_bind,
        Option.map_bind]
      refine (operandText_renders op style).bind fun text => ?_
      have hrest := ih.map fun s =>
        text ++ (if rest.all (·.1 = Operand.base) then "" else ", ") ++ s
      cases hothers : (rest.filter (·.1 ≠ Operand.base)).mapM fun p =>
          i.operandText? delaySlot p.1 p.2 with
      | none =>
        rw [hothers] at hrest
        exact hrest
      | some others =>
        -- The separator is left out behind the last operand that is shown.
        have hlast : rest.all (·.1 = Operand.base) = others.isEmpty := by
          rw [isEmpty_of_mapM hothers]
          refine Bool.eq_iff_iff.mpr ?_
          simp only [List.all_eq_true, List.isEmpty_iff, List.filter_eq_nil_iff, ne_eq,
            decide_not, Bool.not_eq_true', Bool.not_eq_false]
        rw [hothers, hlast] at hrest
        rw [hlast]
        refine Eq.trans hrest (congrArg Except.ok ?_)
        exact (intercalate_cons text others).symm

/-- The text of an instruction is rendered. -/
theorem format_renders (i : Instruction) (delaySlot : Option Word) :
    Renders (format i delaySlot) (i.format? delaySlot) := by
  unfold format Instruction.format?
  simp only
  split
  · rfl
  split
  · rfl
  · have htexts := (operandTexts_renders i delaySlot i.mnemonic.encoding.operands).map
      (column 8 i.mnemonic.name ++ ·)
    rwa [Option.map_map] at htexts

end Guarded

/-! ## What has no text -/

/-- A list of computations gives a list if all of them give something. -/
theorem isSome_mapM {α β : Type} {f : α → Option β} {as : List α} :
    (as.mapM f).isSome = true ↔ ∀ a ∈ as, (f a).isSome = true := by
  induction as with
  | nil => simp
  | cons a as ih =>
    rw [List.mapM_cons, List.forall_mem_cons, ← ih]
    cases f a with
    | none => simp
    | some b => cases as.mapM f <;> simp

namespace Mnemonic

/-- The destination of a move to or from the system control coprocessor is one of its registers. -/
def NumbersSystem (m : Mnemonic) (op : Operand) : Prop :=
  op = .destination ∧ (m = .mfc0 ∨ m = .mtc0)

instance (m : Mnemonic) (op : Operand) : Decidable (m.NumbersSystem op) :=
  inferInstanceAs (Decidable (_ ∧ _))

/-- What numbers a register has five bits, and there are 32 registers but for system control. -/
theorem operandBank?_cases {m : Mnemonic} {op : Operand} {bank : Bank}
    (h : m.operandBank? op = some bank) :
    op.isShort = true ∧
      (m.NumbersSystem op ∧ bank.size = 16 ∨ ¬m.NumbersSystem op ∧ bank.size = 32) := by
  have hall : ∀ m ∈ Mnemonic.all, ∀ op ∈ Operand.all, ∀ bank ∈ m.operandBank? op,
      op.isShort = true ∧
        (m.NumbersSystem op ∧ bank.size = 16 ∨ ¬m.NumbersSystem op ∧ bank.size = 32) := by
    decide +kernel
  exact hall m m.mem_all op op.mem_all bank h

/-- A move to or from the system control coprocessor shows its destination. -/
theorem shows_destination {m : Mnemonic} (h : m = .mfc0 ∨ m = .mtc0) :
    ∃ p ∈ m.encoding.operands.filter (·.1 ≠ Operand.base), p.1 = .destination := by
  rcases h with rfl | rfl <;> decide

/-- An operand that numbers a register for system control is of that bank. -/
theorem operandBank?_of_numbersSystem {m : Mnemonic} {op : Operand} (h : m.NumbersSystem op) :
    m.operandBank? op = some .cop0 := by
  obtain ⟨rfl, rfl | rfl⟩ := h <;> rfl

end Mnemonic

namespace Instruction

variable {i : Instruction} {delaySlot : Option Word}

/-- An operand has a text but for the number of a system control register that does not exist. -/
theorem operandText?_isSome {op : Operand} {style : NumberStyle} :
    (i.operandText? delaySlot op style).isSome = true ↔ ¬(op = .destination ∧ i.Nameless) := by
  have hnameless : op = .destination ∧ i.Nameless ↔
      i.mnemonic.NumbersSystem op ∧ 16 ≤ (i.getD op).toNat := by
    unfold Nameless Mnemonic.NumbersSystem
    constructor
    · rintro ⟨rfl, hmove, hge⟩
      exact ⟨⟨rfl, hmove⟩, hge⟩
    · rintro ⟨⟨rfl, hmove⟩, hge⟩
      exact ⟨rfl, hmove, hge⟩
  rw [hnameless]
  unfold operandText?
  simp only
  cases hbank : i.mnemonic.operandBank? op with
  | some bank =>
    obtain ⟨hshort, hsize⟩ := Mnemonic.operandBank?_cases hbank
    have hlt := i.getD_lt hshort
    simp only [Bank.name?_isSome]
    -- The system bank alone is smaller than a field of five bits can number.
    rcases hsize with ⟨hsystem, hsize⟩ | ⟨hother, hsize⟩
    · simp only [hsystem, true_and, hsize, Nat.not_le]
    · simp only [hother, false_and, not_false_eq_true, hsize, hlt]
  | none =>
    have hother : ¬i.mnemonic.NumbersSystem op := fun hsystem => by
      cases hbank.symm.trans (Mnemonic.operandBank?_of_numbersSystem hsystem)
    refine iff_of_true ?_ fun h => hother h.1
    simp only
    split
    · rw [Option.isSome_map, Bank.name?_isSome]
      exact i.getD_lt rfl
    · split <;> rfl

/-- All fields of the word zero are zero. -/
theorem getD_of_raw_eq_zero (h : i.raw = 0) (op : Operand) : i.getD op = 0 := by
  unfold getD get? Pattern.get?
  cases hfind : List.findSome? _ i.mnemonic.encoding.pattern.components with
  | none => rfl
  | some w =>
    obtain ⟨c, -, hw⟩ := List.exists_of_findSome?_eq_some hfind
    split at hw
    · cases hw
      rw [Option.getD_some, h, Component.extract, Word.bits, UInt32.zero_shiftRight,
        UInt32.zero_and]
    · cases hw

/-- An instruction has a text but for a move to or from a register that does not exist. -/
theorem format?_isSome (delaySlot : Option Word) :
    (i.format? delaySlot).isSome = true ↔ ¬i.Nameless := by
  unfold format?
  simp only
  split
  · -- The word zero is `nop`, which is written without operands.
    next hraw =>
    refine iff_of_true rfl fun h => ?_
    have hge := h.2
    rw [getD_of_raw_eq_zero (eq_of_beq hraw)] at hge
    exact absurd hge (by decide)
  split
  · -- A mnemonic without operands shows no destination.
    next hempty =>
    refine iff_of_true rfl fun h => ?_
    obtain ⟨p, hp, -⟩ := Mnemonic.shows_destination h.1
    rw [List.isEmpty_iff.mp hempty] at hp
    cases hp
  · rw [Option.isSome_map, isSome_mapM]
    constructor
    · -- Some operand is shown in place of the destination, and that one has no text.
      intro hall hnameless
      obtain ⟨p, hp, hdestination⟩ := Mnemonic.shows_destination hnameless.1
      exact operandText?_isSome.mp (hall p hp) ⟨hdestination, hnameless⟩
    · intro hnamed p _
      exact operandText?_isSome.mpr fun h => hnamed h.2

end Instruction

/-! ## Disassembly -/

/-- An action on the core replies through the machine as it does on the core. -/
theorem Machine.reply_atCore {ε σ α : Type} (action : EStateM ε Core α) (m : Machine σ) :
    reply (atCore action m) = reply (action m.core) := by
  obtain ⟨⟨core, context⟩, blocks, injector?⟩ := m
  simp only [atCore, Machine.core]
  cases action core <;> rfl

/-- The word behind the cache, if there is a memory and the address is mapped in it. -/
theorem Core.reply_peekBacking (c : Core) (a : Word) :
    reply (c.peekBacking a) =
      match c.view? with
      | none => .error .detached
      | some v => (ByteMemory.readWord v.backing a).mapError .memory := by
  unfold peekBacking readFrom ByteMemory.readWord ByteMemory.readNumber
  cases c.view? with
  | none => rfl
  | some v =>
    simp only
    cases ByteMemory.readBytes v.backing (Address.run a 4) <;> rfl

namespace Debug.Debugger

variable (d : Debugger) (a : Word)

/-- The instruction that a debugger finds at an address: there is a word, and it encodes one. -/
def found? : Option Instruction :=
  match reply (Machine.readInstruction a d) with
  | .ok w => Instruction.decode? w
  | .error _ => none

/-- What is read as an instruction is the word behind the cache, at an aligned address. -/
theorem reply_readInstruction :
    reply (Machine.readInstruction a d) =
      if Word.isAligned a Instruction.size then reply (d.core.peekBacking a)
      else .error (.misaligned a) := by
  unfold Machine.readInstruction
  split
  · exact Machine.reply_atCore _ d
  · rfl

/-- A disassembly is the text of what is read. -/
theorem reply_disassemble :
    reply (disassemble a d) =
      match reply (Machine.readInstruction a d) with
      | .error e => .error (.access e)
      | .ok w =>
        match Instruction.decode? w with
        | some i => .ok (i.disassemble? a)
        | none => .ok (some (".word   " ++ hexWord w)) := by
  unfold disassemble
  rw [bind_apply]
  unfold access
  cases Machine.readInstruction a d with
  | error e d' => rfl
  | ok w d' =>
    simp only [reply]
    cases Instruction.decode? w <;> rfl

end Debug.Debugger

namespace Guarded

open Debug Debugger

variable (d : Debugger) (a : Word)

/-- A guarded disassembly is the guarded text of what is read. -/
theorem disassemble_eq :
    disassemble d a =
      match reply (Machine.readInstruction a d) with
      | .error e => .ok (.error (.access e))
      | .ok w =>
        match Instruction.decode? w with
        | some i => format i (some (a + Instruction.size)) >>= fun s => .ok (.ok s)
        | none => .ok (.ok (".word   " ++ hexWord w)) := by
  rw [reply_readInstruction, Core.reply_peekBacking]
  unfold disassemble
  rw [remainder_of_ne (by decide), ok_bind]
  unfold Word.isAligned
  split
  · -- In both the word is read from the memory behind the view.
    cases d.core.view? with
    | none => rfl
    | some v =>
      simp only [readWord_eq, ok_bind, decode?_eq]
      cases ByteMemory.readWord v.backing a with
      | error e => rfl
      | ok w =>
        simp only [Except.mapError]
        cases Instruction.decode? w <;> rfl
  · rfl

/-- The text of an instruction is computed unless a register in it has no name. -/
theorem format_iff {i : Instruction} (delaySlot : Option Word) :
    (∃ s, format i delaySlot = .ok s ∧ i.format? delaySlot = some s) ↔ ¬i.Nameless := by
  rw [← Instruction.format?_isSome delaySlot, Option.isSome_iff_exists]
  have hrenders := format_renders i delaySlot
  constructor
  · rintro ⟨s, -, hs⟩
    exact ⟨s, hs⟩
  · rintro ⟨s, hs⟩
    rw [hs] at hrenders
    exact ⟨s, hrenders, hs⟩

/-- Where a register has no name, the look for the name breaks off. -/
theorem format_of_nameless {i : Instruction} (h : i.Nameless) (delaySlot : Option Word) :
    ∃ n size, format i delaySlot = .error (.index n size) := by
  have hrenders := format_renders i delaySlot
  have hnone : i.format? delaySlot = none :=
    Option.not_isSome_iff_eq_none.mp fun hsome => (Instruction.format?_isSome delaySlot).mp hsome h
  rwa [hnone] at hrenders

/-- A disassembly is given if what is found at the address has only registers with names. -/
theorem disassemble_iff :
    (∃ answer, disassemble d a = .ok answer ∧
      reply (Debugger.disassemble a d) = answer.map some) ↔ ∀ i ∈ d.found? a, ¬i.Nameless := by
  rw [disassemble_eq, reply_disassemble, found?]
  cases reply (Machine.readInstruction a d) with
  | error e => simp [Except.map]
  | ok w =>
    simp only
    cases hi : Instruction.decode? w with
    | none => simp [Except.map]
    | some i =>
      simp only [Option.mem_some_iff, forall_eq']
      constructor
      · -- Without a name for its destination the guarded text breaks off, and so answers nothing.
        rintro ⟨answer, hanswer, -⟩ hnameless
        obtain ⟨n, size, hformat⟩ :=
          format_of_nameless hnameless (some (a + Instruction.size))
        rw [hformat] at hanswer
        cases hanswer
      · intro hnamed
        obtain ⟨s, hformat, hs⟩ :=
          (format_iff (some (a + Instruction.size))).mpr hnamed
        exact ⟨.ok s, by rw [hformat]; rfl, by rw [Instruction.disassemble?, hs]; rfl⟩

/-- Text and disassembly are computed for all instructions but the moves to and from registers of
system control that do not exist. So a debugger shows what is in memory, whatever the memory holds,
unless it finds such a move at the address; then it breaks off. -/
theorem disassembly_breaks_off_iff (i : Instruction) (pc : Word) (d : Debugger) (a : Word) :
    (((∃ s, format i none = .ok s ∧ i.text? = some s) ∧
        ∃ s, format i (some (pc + Instruction.size)) = .ok s ∧ i.disassemble? pc = some s) ↔
      ¬i.Nameless) ∧
    ((∃ answer, disassemble d a = .ok answer ∧
        reply (Debugger.disassemble a d) = answer.map some) ↔
      ∀ found ∈ d.found? a, ¬found.Nameless) :=
  ⟨(and_congr (format_iff _) (format_iff _)).trans (and_self_iff), disassemble_iff d a⟩

end Guarded

namespace Nameless

open Debug

/-- One instruction: `mfc0 $zero, $16`. -/
def image : Image := ⟨0, ⟨#[0, 0x80, 0, 0x40]⟩, by decide⟩

/-- A debugger whose memory holds the instruction. -/
def debugger : Debugger := .powerOn image .fresh

/-- `mfc0` with a register for system control that does not exist breaks off wherever it is
printed. -/
theorem breaks_off :
    Instruction.decode? 0x40008000 = some ⟨.mfc0, 0x40008000⟩ ∧
      Guarded.format ⟨.mfc0, 0x40008000⟩ none = .error (.index 16 16) ∧
      Guarded.format ⟨.mfc0, 0x40008000⟩ (some 4) = .error (.index 16 16) ∧
      Guarded.disassemble debugger 0 = .error (.index 16 16) := by
  refine ⟨by decide, by decide +kernel, by decide +kernel, ?_⟩
  rw [debugger, Machine.powerOn_eq]
  decide +kernel

end Nameless

end MipsMonitor
