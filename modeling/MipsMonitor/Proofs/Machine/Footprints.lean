import MipsMonitor.Proofs.Machine.Isolation
import MipsMonitor.Proofs.Machine.Operands
import MipsMonitor.Proofs.Machine.Performing
import MipsMonitor.Proofs.Memory.Bytes

/-!
# What an instruction changes

An instruction changes what it names and nothing else. `Instruction.named` lists the registers that
it names as its destination, read off the mnemonic and the fields of the word, and
`Instruction.ChangesOnly` says of two states of the core that between them nothing but those
registers, the aligned word that a store addresses, and what follows from the status register is
different. `Guest.changesOnly_of_perform` shows it for every instruction that succeeds.

All banks share one file, in which the registers of a bank are found by adding the number of the
register to the place of the bank. A number of the system control coprocessor has five bits, and its
bank has sixteen registers: the other numbers are those of the first data registers of the geometry
coprocessor, and a write through them has to be dropped. That is why the banks are looked at by
themselves.
-/

namespace MipsMonitor

open ByteMemory

/-- The bank of the coprocessor that instructions of this name write to. -/
def Mnemonic.bank? : Mnemonic → Option Bank
  | mtc0 | rfe => some .cop0
  | lwc2 | mtc2 => some .cop2Data
  | ctc2 => some .cop2Control
  | _ => none

namespace Instruction

/-- The general register that an operand numbers, unless it is the one that is always zero. -/
def general (i : Instruction) (op : Operand) : List Register :=
  if i.gpr op = .zero then [] else [⟨.general, i.gpr op⟩]

/-- The registers that an instruction names as its destination. Returning from an exception is for
the status register by what it is; what a move to a register of system control names is a register
only if its number is one of the bank. -/
def named (i : Instruction) : List Register :=
  match i.mnemonic with
  | .add | .addu | .sub | .subu | .and | .or | .xor | .nor | .slt | .sltu | .sll | .srl | .sra
  | .sllv | .srlv | .srav | .mfhi | .mflo | .jalr => i.general .destination
  | .addi | .addiu | .andi | .ori | .xori | .slti | .sltiu | .lui | .lb | .lbu | .lh | .lhu | .lw
  | .lwl | .lwr | .mfc0 | .mfc2 | .cfc2 => i.general .target
  | .mult | .multu | .div | .divu => [.hi, .lo]
  | .mthi => [.hi]
  | .mtlo => [.lo]
  | .jal | .bgezal | .bltzal => [⟨.general, ⟨31, by decide⟩⟩]
  | .mtc0 =>
    if h : (i.gpr .destination).val < Bank.size .cop0 then [⟨.cop0, ⟨_, h⟩⟩] else []
  | .rfe => [.status]
  | .lwc2 => [⟨.cop2Data, i.gpr .target⟩]
  | .mtc2 => [⟨.cop2Data, i.gpr .destination⟩]
  | .ctc2 => [⟨.cop2Control, i.gpr .destination⟩]
  | .sb | .sh | .sw | .swl | .swr | .swc2 | .beq | .bne | .bgtz | .blez | .bgez | .bltz | .j | .jr
  | .syscall | .breakpoint | .cop2 => []

/-- The start of the aligned word that a load or store addresses. -/
def wordAddressed (i : Instruction) (f : RegisterFile) : Word :=
  Word.alignDown (Operation.address f i.location)

/-- Between two states of the core nothing has changed but what an instruction names. -/
structure ChangesOnly (i : Instruction) (c c' : Core) : Prop where
  /-- Every slot of the register file but those of the named registers holds what it held. -/
  slots : ∀ s : Fin slotCount, (∀ r ∈ i.named, r.slot ≠ s) →
    c'.registers.read s = c.registers.read s
  /-- A register of a coprocessor is changed by an instruction for its bank, and by its number. -/
  banks : ∀ r : Register, r.bank.OfCoprocessor → c'.registers.get r ≠ c.registers.get r →
    i.mnemonic.bank? = some r.bank ∧ r ∈ i.named
  /-- Memory stays attached, or stays away. -/
  attached : c'.view?.isSome = c.view?.isSome
  /-- No byte of memory is changed except by a store, and within the word that it addresses. -/
  memory : ∀ v v', c.view? = some v → c'.view? = some v' → ∀ x,
    readByte v'.backing x ≠ readByte v.backing x →
      i.mnemonic.isStore = true ∧
        ∃ k < 4, Address.SameCell (i.wordAddressed c.registers + UInt32.ofNat k) x
  /-- The same holds of what loads and stores reach, while memory stays hidden or in sight. -/
  reached : ∀ v v', c.view? = some v → c'.view? = some v' → v'.isIsolated = v.isIsolated → ∀ x,
    readByte v' x ≠ readByte v x →
      i.mnemonic.isStore = true ∧
        ∃ k < 4, v.SameByte (i.wordAddressed c.registers + UInt32.ofNat k) x
  /-- Memory is hidden or comes back with a write to the status register only. -/
  view : ∀ v v', c.view? = some v → c'.view? = some v' → v'.isIsolated ≠ v.isIsolated →
    Register.status ∈ i.named

end Instruction

/-! ## The effect of an instruction -/

/-- An operation is for the change: the register is the one that it names, the bytes begin in the
word that it addresses. -/
def Operation.IsFor (f : RegisterFile) : Operation → Change → Prop
  | store _ _ l, .store a _ | storeGeometry _ l, .store a _ =>
    Word.alignDown a = Word.alignDown (address f l)
  | loadGeometry dest _, .geometry r _ => r = ⟨.cop2Data, dest⟩
  | moveToGeometry dest _, .geometry r _ => r = dest
  | moveToSystem index _, .system n _ => n = index
  | returnFromException, .system n _ => n = Register.status.index
  | _, _ => False

/-- The start of a word is the start of its word. -/
theorem Word.alignDown_alignDown (a : Word) : alignDown (alignDown a) = alignDown a := by
  apply UInt32.toNat_inj.mp
  simp only [toNat_alignDown]
  omega

namespace Operation

variable {op : Operation} {pc : Word} {f : RegisterFile} {view? : Option (View Ram)} {e : Effect}

/-- The change in an effect is one that the operation is for. -/
theorem isFor_of_effect (h : op.effect pc f view? = .ok e) {what : Change}
    (hchange : e.change? = some what) : op.IsFor f what := by
  cases op with
  | store how source l =>
    simp only [effect] at h
    repeat' split at h
    all_goals cases h
    cases how with
    | byte | half | word =>
      cases hchange
      exact rfl
    -- What merges with a word stores all of it, at its aligned address.
    | left | right =>
      cases hchange
      exact Word.alignDown_alignDown _
  | _ =>
    simp only [effect] at h
    repeat' split at h
    all_goals
      cases h
      try cases hchange
    all_goals exact rfl

end Operation

namespace Instruction

variable {i : Instruction} {pc : Word} {f : RegisterFile} {r : Register}

/-- A change is one of what the instruction names: of a register that it names, or of bytes from an
address in the word that it addresses. -/
def Names (i : Instruction) (f : RegisterFile) : Change → Prop
  | .system n _ => ∀ h : n < Bank.size .cop0, ⟨.cop0, ⟨n, h⟩⟩ ∈ i.named
  | .geometry r _ => r ∈ i.named
  | .store a _ => i.mnemonic.isStore = true ∧ Word.alignDown a = i.wordAddressed f

/-- What the operation of an instruction is for, the instruction names. -/
theorem names_of_isFor {what : Change} (h : (i.operation pc).IsFor f what) : i.Names f what := by
  obtain ⟨m, raw⟩ := i
  -- Stores name their word, the coprocessors one register each; nothing else changes anything.
  cases m <;> cases what <;> first
    | exact h.elim
    | exact ⟨rfl, h⟩
    | exact List.mem_singleton.mpr h
    | skip
  case mtc0.system n w =>
    intro hn
    cases (h : n = _)
    change _ ∈ if h : _ then _ else _
    rw [dif_pos hn]
    exact List.mem_singleton_self _
  case rfe.system n w =>
    intro hn
    cases (h : n = _)
    exact List.mem_singleton_self _

/-- What the operation of an instruction writes to watched registers goes to registers that the
instruction names. -/
theorem exists_named_of_target {t : Tracked} (h : t ∈ (i.operation pc).targets) :
    t = .zero ∨ ∃ r ∈ i.named, r.slot = t.slot := by
  -- Most instructions write one general register at most, which an operand names.
  have hgeneral (op : Operand) (ht : t = .ofGpr (i.gpr op)) :
      t = .zero ∨ ∃ r ∈ i.general op, r.slot = t.slot := by
    subst ht
    unfold general
    split
    · next hzero => exact .inl (congrArg Tracked.ofGpr hzero)
    · exact .inr ⟨_, List.mem_singleton_self _, Fin.ext (Nat.zero_add _)⟩
  -- The rest write `$ra`, `HI` and `LO`, or registers of the second coprocessor.
  obtain ⟨m, raw⟩ := i
  cases m <;> simp only [operation, Operation.targets, List.mem_cons, List.not_mem_nil, or_false,
    Option.isSome_some, Option.isSome_none, Bool.false_eq_true, if_true, if_false] at h
  case jal | bgezal | bltzal | mthi | mtlo =>
    subst h
    exact .inr ⟨_, List.mem_singleton_self _, rfl⟩
  case mult | multu | div | divu =>
    obtain rfl | rfl := h
    · exact .inr ⟨_, List.mem_cons_self, rfl⟩
    · exact .inr ⟨_, List.mem_cons_of_mem _ List.mem_cons_self, rfl⟩
  case mtc2 | ctc2 =>
    exact .inr ⟨_, List.mem_singleton_self _, (of_decide_eq_true (List.mem_filter.mp h).2).symm⟩
  all_goals exact hgeneral _ h

/-- The registers of a coprocessor are named by the instructions for its bank. -/
theorem bank?_of_mem_named (h : r ∈ i.named) (hbank : r.bank.OfCoprocessor) :
    i.mnemonic.bank? = some r.bank := by
  -- What an operand names is a general register, and none of those belongs to a coprocessor.
  have hgeneral (op : Operand) (hr : r ∈ i.general op) : False := by
    unfold general at hr
    split at hr
    · cases hr
    · cases List.mem_singleton.mp hr
      exact hbank.1 rfl
  obtain ⟨m, raw⟩ := i
  cases m with
  | mtc0 =>
    change _ ∈ if h : _ then _ else _ at h
    split at h
    · cases List.mem_singleton.mp h
      rfl
    · cases h
  | rfe | lwc2 | mtc2 | ctc2 =>
    cases List.mem_singleton.mp h
    rfl
  | jal | bgezal | bltzal =>
    cases List.mem_singleton.mp h
    exact absurd rfl hbank.1
  | mthi | mtlo =>
    cases List.mem_singleton.mp h
    exact absurd rfl hbank.2
  | mult | multu | div | divu =>
    obtain rfl | hlo := List.mem_cons.mp h
    · exact absurd rfl hbank.2
    · cases List.mem_singleton.mp hlo
      exact absurd rfl hbank.2
  | sb | sh | sw | swl | swr | swc2 | beq | bne | bgtz | blez | bgez | bltz | j | jr
  | syscall | breakpoint | cop2 => cases h
  | _ => exact (hgeneral _ h).elim

end Instruction

/-! ## What the changes leave alone -/

namespace View

variable {v v' : View Ram} {a x : Word} {bs : List UInt8}

/-- Bytes that are written change nothing that other addresses reach. -/
theorem readByte_writeBytes (h : writeBytes a bs v = .ok () v')
    (hx : ∀ k < bs.length, ¬v.SameByte (a + UInt32.ofNat k) x) : readByte v' x = readByte v x := by
  induction bs generalizing a v with
  | nil =>
    cases h
    rfl
  | cons b bs ih =>
    unfold writeBytes at h
    cases hrefusal : refusal? v a with
    | some e =>
      rw [hrefusal] at h
      cases h
    | none =>
      rw [hrefusal] at h
      have hfirst : ¬v.SameByte a x := by
        have := hx 0 (Nat.succ_pos _)
        rwa [show a + UInt32.ofNat 0 = a from UInt32.add_zero a] at this
      -- The bytes behind the first one lie elsewhere too.
      rw [ih h fun k hk => ?_, (readByte_put b hrefusal).2 hfirst]
      rw [sameByte_congr (v.isIsolated_put a b), ← Address.add_ofNat_succ]
      exact hx (k + 1) (Nat.succ_lt_succ hk)

/-- Nor do they change other bytes of memory, and none at all while memory is hidden. -/
theorem readByte_backing_writeBytes (h : writeBytes a bs v = .ok () v')
    (hx : ∀ k < bs.length, ¬Address.SameCell (a + UInt32.ofNat k) x) :
    readByte v'.backing x = readByte v.backing x := by
  cases v with
  | direct r =>
    have hsame := readByte_writeBytes h hx
    rw [writeBytes_direct] at h
    split at h
    · cases h
      exact hsame
    · cases h
  | isolated c =>
    obtain ⟨c', hok, hhidden⟩ := writeBytes_isolated a bs c
    rw [hok] at h
    cases h
    exact congrArg (readByte · x) hhidden

end View

/-- The bytes of a store within one word are bytes of that word. -/
theorem Address.exists_in_word {a w : Word} {n k : Nat} (hwithin : WithinWord a n)
    (hword : Word.alignDown a = w) (hk : k < n) :
    ∃ j < 4, a + UInt32.ofNat k = w + UInt32.ofNat j := by
  obtain ⟨x, hx, ha⟩ := exists_aligned a
  have hlt : a.toNat % 4 < 4 := Nat.mod_lt _ (by decide)
  obtain rfl : x = w := by rw [← hword, ha, Word.alignDown_add hx hlt]
  unfold WithinWord at hwithin
  refine ⟨a.toNat % 4 + k, by omega, ?_⟩
  rw [UInt32.ofNat_add, ← UInt32.add_assoc, ← ha]

namespace Core

/-- A store that succeeds has written its bytes to what is attached, and to no register. -/
theorem of_store_ok {a : Word} {bs : List UInt8} {c c' : Core} (h : c.store a bs = .ok () c') :
    ∃ v v', c.view? = some v ∧ c'.view? = some v' ∧ c'.registers = c.registers ∧
      writeBytes a bs v = .ok () v' := by
  obtain ⟨registers, view?, stopped, ticks, sink, written, log⟩ := c
  cases view? with
  | none => cases h
  | some v =>
    simp only [store, poke] at h
    cases hw : writeBytes a bs v with
    | error e v' =>
      rw [hw] at h
      cases h
    | ok u v' =>
      rw [hw] at h
      cases h
      exact ⟨v, v', rfl, view?_note _ _, registers_note _ _, hw⟩

/-- Neither hiding memory nor giving it back changes a byte of it. -/
theorem readByte_backing_viewFor (sink : Sink) (old new : Status) (v : View Ram) (x : Word) :
    readByte (viewFor sink old new v).backing x = readByte v.backing x := by
  have hsink (r : Ram) : readByte (ByteMemory.withSink r sink) x = readByte r x := by
    rw [Ram.readByte_eq, Ram.readByte_eq]
    cases Address.cell? x with
    | none => rfl
    | some c => cases c <;> rfl
  unfold viewFor
  split
  · rfl
  · split
    · cases v <;> exact hsink _
    · cases v <;> rfl

/-- While memory stays hidden or in sight, the same bytes are reached. -/
theorem readByte_viewFor {sink : Sink} {old new : Status} {v : View Ram}
    (h : (viewFor sink old new v).isIsolated = v.isIsolated) (x : Word) :
    readByte (viewFor sink old new v) x = readByte v x := by
  unfold viewFor at h ⊢
  split
  · rfl
  · next hedge =>
    rw [if_neg hedge] at h
    split
    · next hnew =>
      rw [if_pos hnew] at h
      -- Hidden memory that stays hidden is the same, and a view that changes is excluded.
      cases v with
      | direct r => cases h
      | isolated c => rfl
    · next hnew =>
      rw [if_neg hnew] at h
      cases v with
      | direct r => rfl
      | isolated c => cases h

end Core

namespace Instruction.ChangesOnly

variable {i : Instruction} {c c' : Core}

/-- The registers of the coprocessors are among the slots. -/
theorem of_slots (hslots : ∀ s : Fin slotCount, (∀ r ∈ i.named, r.slot ≠ s) →
      c'.registers.read s = c.registers.read s)
    {r : Register} (hbank : r.bank.OfCoprocessor)
    (hne : c'.registers.get r ≠ c.registers.get r) :
    i.mnemonic.bank? = some r.bank ∧ r ∈ i.named := by
  have hnamed : r ∈ i.named := by
    by_contra hother
    exact hne (hslots r.slot fun s hs hslot => hother (Register.slot_injective hslot ▸ hs))
  exact ⟨i.bank?_of_mem_named hnamed hbank, hnamed⟩

/-- Where memory is left alone, only the registers count. -/
theorem of_view?_eq (hview : c'.view? = c.view?) (hslots : ∀ s : Fin slotCount,
      (∀ r ∈ i.named, r.slot ≠ s) → c'.registers.read s = c.registers.read s) :
    i.ChangesOnly c c' := by
  have hsame {v v' : View Ram} (hv : c.view? = some v) (hv' : c'.view? = some v') : v' = v :=
    Option.some.inj (hv'.symm.trans (hview.trans hv))
  refine ⟨hslots, fun _ => of_slots hslots, by rw [hview], fun v v' hv hv' x hne => ?_,
    fun v v' hv hv' _ x hne => ?_, fun v v' hv hv' hne => ?_⟩
  all_goals
    obtain rfl := hsame hv hv'
    exact absurd rfl hne

/-- A write to a register of system control changes that register, and the view with the status
register. -/
theorem writeSystem {f : RegisterFile} {index : Nat} {w : Word} {more : Array Entry}
    (hnames : i.Names c.registers (.system index w))
    (hslots : ∀ s : Fin slotCount, (∀ r ∈ i.named, r.slot ≠ s) →
      f.read s = c.registers.read s) :
    i.ChangesOnly c (Core.writeSystem { c with registers := f, log := c.log ++ more } index w) := by
  unfold Core.writeSystem
  split
  · next hindex =>
    have hnamed : ⟨.cop0, ⟨index, hindex⟩⟩ ∈ i.named := hnames hindex
    generalize (⟨.cop0, ⟨index, hindex⟩⟩ : Register) = r at hnamed ⊢
    simp only [Core.report, Core.registers_note, Core.view?_note, Core.sink_note]
    have hset (s : Fin slotCount) (hs : ∀ r ∈ i.named, r.slot ≠ s) :
        (f.set r w).read s = c.registers.read s := by
      rw [RegisterFile.set, RegisterFile.read_write, if_neg (hs r hnamed), hslots s hs]
    have hview {v v' : View Ram} (hv : c.view? = some v)
        (hv' : c.view?.map (Core.viewFor c.sink f.status (f.set r w).status) = some v') :
        v' = Core.viewFor c.sink f.status (f.set r w).status v := by
      rw [hv] at hv'
      exact (Option.some.inj hv').symm
    refine ⟨hset, fun _ => of_slots hset, Option.isSome_map, fun v v' hv hv' x hne => ?_,
      fun v v' hv hv' hsame x hne => ?_, fun v v' hv hv' hne => ?_⟩
    · rw [hview hv hv'] at hne
      exact absurd (Core.readByte_backing_viewFor ..) hne
    · rw [hview hv hv'] at hne hsame
      exact absurd (Core.readByte_viewFor hsame x) hne
    · rw [hview hv hv'] at hne
      -- The view changes with the status register only.
      by_contra hother
      have hstatus : (f.set r w).status = f.status := by
        have hne : r ≠ .status := fun hr => hother (hr ▸ hnamed)
        rw [RegisterFile.status, RegisterFile.get_set, if_neg hne]
        rfl
      rw [hstatus, Core.viewFor, if_pos rfl] at hne
      exact hne rfl
  · refine of_view?_eq (Core.view?_note _ _) fun s hs => ?_
    rw [Core.report, Core.registers_note]
    exact hslots s hs

/-- A store within the word that the instruction addresses changes bytes of that word. -/
theorem store {a : Word} {bs : List UInt8} {f : RegisterFile} {more : Array Entry}
    (hnames : i.Names c.registers (.store a bs)) (hwithin : Address.WithinWord a bs.length)
    (hslots : ∀ s : Fin slotCount, (∀ r ∈ i.named, r.slot ≠ s) →
      f.read s = c.registers.read s)
    (h : Core.store a bs { c with registers := f, log := c.log ++ more } = .ok () c') :
    i.ChangesOnly c c' := by
  obtain ⟨hstore, hword⟩ := hnames
  obtain ⟨v, v', hv, hv', hregisters, hw⟩ := Core.of_store_ok h
  change c.view? = some v at hv
  change c'.registers = f at hregisters
  subst hregisters
  have hisolated : v'.isIsolated = v.isIsolated := by
    have hkeep := v.isIsolated_writeBytes a bs
    rw [hw] at hkeep
    exact hkeep
  -- An address that shares no byte with the word shares none with what is stored in it.
  have hout (P : Word → Prop) (hno : ¬∃ k < 4, P (i.wordAddressed c.registers + UInt32.ofNat k))
      (k : Nat) (hk : k < bs.length) : ¬P (a + UInt32.ofNat k) := fun hsame => by
    obtain ⟨j, hj, heq⟩ := Address.exists_in_word hwithin hword hk
    exact hno ⟨j, hj, heq ▸ hsame⟩
  refine ⟨hslots, fun _ => of_slots hslots, by rw [hv, hv']; rfl,
    fun v₁ v₂ h₁ h₂ x hne => ⟨hstore, ?_⟩, fun v₁ v₂ h₁ h₂ _ x hne => ⟨hstore, ?_⟩,
    fun v₁ v₂ h₁ h₂ hne => ?_⟩
  all_goals
    obtain rfl : v₁ = v := Option.some.inj (h₁.symm.trans hv)
    obtain rfl : v₂ = v' := Option.some.inj (h₂.symm.trans hv')
  · by_contra hno
    exact hne (View.readByte_backing_writeBytes hw (hout (Address.SameCell · x) hno))
  · by_contra hno
    exact hne (View.readByte_writeBytes hw (hout (v₁.SameByte · x) hno))
  · exact absurd hisolated hne

end Instruction.ChangesOnly

namespace Guest

variable {σ : Type} {observer : Observer σ} {g g' : Guest σ} {flow : Flow}

/-- An instruction that succeeds has changed only what it names, in whatever state it was executed:
every other slot of the register file holds what it held, the coprocessors are written by their own
instructions and by numbers of their own banks, memory has changed at most within the aligned word
that a store addresses, and it is hidden or given back by writes to the status register alone. -/
theorem changesOnly_of_perform (ho : observer.Obeys) (pc : Word) (i : Instruction)
    (h : g.perform observer pc (i.operation pc) = .ok flow g') :
    i.ChangesOnly g.core g'.core := by
  obtain ⟨e, more, context, he, hsettle⟩ := perform_eq_ok ho h
  have hslots (s : Fin slotCount) (hs : ∀ r ∈ i.named, r.slot ≠ s) :
      (g.core.registers.writeAll e.writes).read s = g.core.registers.read s := by
    refine RegisterFile.read_writeAll fun tw htw => ?_
    have htarget := Operation.mem_targets_of_writes he tw htw
    refine (i.exists_named_of_target htarget).imp_right fun ⟨r, hr, hslot⟩ => ?_
    exact hslot ▸ hs r hr
  -- The written registers are named; what is left is the change beyond the registers, one case for
  -- each of its kinds.
  unfold settleEffect at hsettle
  cases hchange : e.change? with
  | none =>
    rw [hchange] at hsettle
    cases hsettle
    exact .of_view?_eq rfl hslots
  | some what =>
    rw [hchange] at hsettle
    have hnames := i.names_of_isFor (Operation.isFor_of_effect he hchange)
    cases what with
    | system index w =>
      cases hsettle
      exact .writeSystem hnames hslots
    | geometry dest w =>
      cases hsettle
      refine .of_view?_eq rfl fun s hs => ?_
      rw [RegisterFile.set, RegisterFile.read_write, if_neg (hs dest hnames)]
      exact hslots s hs
    | store a bs =>
      simp only [change] at hsettle
      split at hsettle
      · next hstore =>
        cases hsettle
        exact .store hnames (Operation.withinWord_of_effect he hchange) hslots hstore
      · cases hsettle

end Guest

namespace OutOfBank

/-- Moves register 31 to register 16 of system control, whose bank has registers 0 to 15. -/
def instruction : Instruction := ⟨.mtc0, 0x409F8000⟩

/-- A processor with memory attached and one in register 31. -/
def guest : Guest Unit :=
  ⟨{ Core.detached .standard with
    registers := RegisterFile.blank.setTracked .returnAddress 1
    view? := some (.direct .blank) }, ()⟩

/-- The move lands in no bank. -/
theorem changes_nothing : Instruction.decode? 0x409F8000 = some instruction ∧
    ∃ g', guest.perform (.silent Unit) 0 (instruction.operation 0) = .ok .next g' ∧
      instruction.ChangesOnly guest.core g'.core ∧
      ∀ s, g'.core.registers.read s = guest.core.registers.read s := by
  obtain ⟨g', h⟩ : ∃ g', guest.perform (.silent Unit) 0 (instruction.operation 0) = .ok .next g' :=
    ⟨_, rfl⟩
  have hnamed : instruction.named = [] := by decide
  have honly := Guest.changesOnly_of_perform Observer.obeys_silent 0 instruction h
  refine ⟨by decide, g', h, honly, fun s => honly.slots s ?_⟩
  rw [hnamed]
  exact List.forall_mem_nil _

end OutOfBank

end MipsMonitor
