import Mathlib.Data.List.Nodup
import Mathlib.Data.List.TakeWhile
import MipsMonitor.Instruction.Text
import MipsMonitor.Proofs.Guarded.Decoding
import MipsMonitor.Proofs.Instruction.Assembling
import MipsMonitor.Proofs.Text.Numerals

/-!
# What texts say about words

The text of an instruction begins with its mnemonic, up to the first blank or to the end
(`Instruction.takeWhile_text`). So two instructions of the same text have the same mnemonic, and
their texts hold the same operands in the same order; no operand has a comma in its text, so the
texts of the operands are the same one by one (`Text.eq_of_intercalate_eq`). Each of them is known
by its text: the names of a bank are all different, a numeral spells one number, and the target of a
jump holds the index of the jump below the segment (`Instruction.getD_eq_of_operandText?`). All
operands of an instruction are shown, but for the free bits of a trap (`Mnemonic.shows_operand`), and
a word is assembled from its operands. That makes `Instruction.text_tells_word`: but for traps, no
two words have the same text, and the word zero alone is shown as `nop`.
-/

namespace MipsMonitor

namespace Text

variable {c : Char} {cs : List Char} {radix n m : Nat}

/-- What stands before the first mark and what stands behind it is the same in both. -/
theorem eq_and_eq_of_append_cons {before before' after after' : List Char} (h : c ∉ before)
    (h' : c ∉ before') (heq : before ++ c :: after = before' ++ c :: after') :
    before = before' ∧ after = after' := by
  -- Were one beginning longer than the other, the mark behind the shorter one would stand in it.
  rcases List.append_eq_append_iff.mp heq with ⟨more, rfl, hmore⟩ | ⟨more, rfl, hmore⟩
  all_goals
    cases more with
    | nil => simp_all
    | cons b more =>
      cases hmore
      simp at h h'

/-- Texts without commas are told from what they are listed as. -/
theorem eq_of_intercalate_eq {ss ts : List String} (hlength : ss.length = ts.length)
    (hss : ∀ s ∈ ss, ',' ∉ s.toList) (hts : ∀ t ∈ ts, ',' ∉ t.toList)
    (h : ", ".intercalate ss = ", ".intercalate ts) : ss = ts := by
  induction ss generalizing ts with
  | nil => exact (List.length_eq_zero_iff.mp hlength.symm).symm
  | cons s ss ih =>
    obtain ⟨t, ts, rfl⟩ := List.exists_cons_of_length_eq_add_one hlength.symm
    simp only [List.forall_mem_cons] at hss hts
    cases ss with
    | nil =>
      obtain rfl : ts = [] := List.length_eq_zero_iff.mp (Nat.succ.inj hlength.symm)
      rw [String.intercalate_singleton, String.intercalate_singleton] at h
      rw [h]
    | cons s' ss =>
      obtain ⟨t', ts, rfl⟩ := List.exists_cons_of_length_eq_add_one (Nat.succ.inj hlength.symm)
      rw [String.intercalate_cons_cons, String.intercalate_cons_cons, ← String.toList_inj] at h
      simp only [String.toList_append, String.reduceToList, List.append_assoc, List.cons_append,
        List.nil_append] at h
      -- The first comma of the list is the one behind its first text.
      obtain ⟨hfirst, hrest⟩ := eq_and_eq_of_append_cons hss.1 hts.1 h
      rw [List.cons.injEq, String.toList_inj] at hrest
      rw [String.toList_inj.mp hfirst, ih (Nat.succ.inj hlength) hss.2 hts.2 hrest.2]

/-! ## Numbers -/

/-- Neither a comma nor a bracket is a digit. -/
theorem Digits.notMem (hradix : radix ≤ 16) (h : Digits radix cs n) (hc : c = ',' ∨ c = '(') :
    c ∉ cs := by
  have hcomma : ∀ d < 16, ',' ≠ d.digitChar ∧ ',' ≠ d.digitChar.toUpper := by decide
  have hbracket : ∀ d < 16, '(' ≠ d.digitChar ∧ '(' ≠ d.digitChar.toUpper := by decide
  intro hmem
  obtain ⟨d, hd, hdigit⟩ := h.forall_mem c hmem
  have hd : d < 16 := by omega
  have hother : c ≠ d.digitChar ∧ c ≠ d.digitChar.toUpper := by
    rcases hc with rfl | rfl
    · exact hcomma d hd
    · exact hbracket d hd
  exact hdigit.elim hother.1 hother.2

/-- Signed digits hold no comma and no parenthesis. -/
theorem Signed.notMem {k : Int} (hradix : radix ≤ 16) (h : Signed radix cs k)
    (hc : c = ',' ∨ c = '(') : c ∉ cs := by
  have hsign : c ≠ '+' ∧ c ≠ '-' := by rcases hc with rfl | rfl <;> decide
  cases h with
  | plain h => exact h.notMem hradix hc
  | plus h => exact List.not_mem_cons_of_ne_of_not_mem hsign.1 (h.notMem hradix hc)
  | minus h => exact List.not_mem_cons_of_ne_of_not_mem hsign.2 (h.notMem hradix hc)

/-- Numbers printed alike in hexadecimal are equal. -/
theorem eq_of_hex_eq (h : hex n = hex m) : n = m := by
  have hdigits : hexDigits n = hexDigits m := by
    simpa only [hex, String.append_right_inj, String.ofList_inj] using h
  have hn : Digits 16 (hexDigits n) n := digits_toDigits (by decide) (Nat.le_refl 16) n
  have hm : Digits 16 (hexDigits m) m := digits_toDigits (by decide) (Nat.le_refl 16) m
  exact (hdigits ▸ hn).unique (Nat.le_refl 16) hm

/-- Words printed alike in hexadecimal are equal. -/
theorem eq_of_hexWord_eq {v w : Word} (h : hexWord v = hexWord w) : v = w := by
  have hdigits : (hexDigits v.toNat).leftpad 8 '0' = (hexDigits w.toNat).leftpad 8 '0' := by
    simpa only [hexWord, hexPadded, String.append_right_inj, String.ofList_inj] using h
  have hv : Digits 16 ((hexDigits v.toNat).leftpad 8 '0') v.toNat :=
    (digits_toDigits (by decide) (Nat.le_refl 16) _).leftpad 8
  have hw : Digits 16 ((hexDigits w.toNat).leftpad 8 '0') w.toNat :=
    (digits_toDigits (by decide) (Nat.le_refl 16) _).leftpad 8
  exact UInt32.toNat_inj.mp ((hdigits ▸ hv).unique (Nat.le_refl 16) hw)

/-- Behind its mark a numeral in base sixteen has digits alone. -/
theorem notMem_marked (hc : c = ',' ∨ c = '(') (h : Digits 16 cs n) :
    c ∉ ("0x" ++ String.ofList cs).toList := by
  have hmark : c ∉ ['0', 'x'] := by rcases hc with rfl | rfl <;> decide
  have hds : (String.ofList cs).toList = cs := String.toList_ofList
  rw [String.toList_append, hds, List.mem_append, not_or]
  exact ⟨hmark, h.notMem (Nat.le_refl 16) hc⟩

/-- A hexadecimal number holds no comma and no parenthesis. -/
theorem notMem_hex (hc : c = ',' ∨ c = '(') : c ∉ (hex n).toList :=
  notMem_marked hc (digits_toDigits (by decide) (Nat.le_refl 16) n)

/-- A hexadecimal word holds no comma and no parenthesis. -/
theorem notMem_hexWord {w : Word} (hc : c = ',' ∨ c = '(') : c ∉ (hexWord w).toList :=
  notMem_marked hc ((digits_toDigits (by decide) (Nat.le_refl 16) w.toNat).leftpad 8)

/-- Integers printed alike are equal. -/
theorem eq_of_toString_eq {k l : Int} (h : toString k = toString l) : k = l :=
  (h ▸ signed_toString k).unique (by decide) (signed_toString l)

end Text

open Text

namespace NumberStyle

variable {style : NumberStyle} {v w : Word}

/-- A style shows all of a number, or the number has no more than the half that is shown. -/
def Covers (style : NumberStyle) (w : Word) : Prop := style = .unsigned32 ∨ w.toNat < 1 <<< 16

/-- Words below sixteen bits that agree in their low half are equal. -/
theorem toUInt16_inj (hv : v.toNat < 1 <<< 16) (hw : w.toNat < 1 <<< 16)
    (h : v.toUInt16 = w.toUInt16) : v = w := by
  rw [Nat.one_shiftLeft] at hv hw
  have hhalf := congrArg UInt16.toNat h
  rw [UInt32.toNat_toUInt16, UInt32.toNat_toUInt16, Nat.mod_eq_of_lt hv, Nat.mod_eq_of_lt hw] at hhalf
  exact UInt32.toNat_inj.mp hhalf

/-- A number is known by its text. -/
theorem eq_of_format_eq (hv : style.Covers v) (hw : style.Covers w)
    (h : style.format v = style.format w) : v = w := by
  cases style with
  | signed16 =>
    have hv : v.toNat < 1 <<< 16 := hv.resolve_left nofun
    have hw : w.toNat < 1 <<< 16 := hw.resolve_left nofun
    have hhalf : v.toUInt16.toInt16 = w.toUInt16.toInt16 := Int16.toInt_inj.mp (eq_of_toString_eq h)
    exact toUInt16_inj hv hw (congrArg Int16.toUInt16 hhalf)
  | unsigned16 =>
    have hv : v.toNat < 1 <<< 16 := hv.resolve_left nofun
    have hw : w.toNat < 1 <<< 16 := hw.resolve_left nofun
    exact toUInt16_inj hv hw (UInt16.toNat_inj.mp (eq_of_hex_eq h))
  | unsigned32 => exact UInt32.toNat_inj.mp (eq_of_hex_eq h)

/-- A number holds no comma and no parenthesis in any style. -/
theorem notMem_format {c : Char} (hc : c = ',' ∨ c = '(') : c ∉ (style.format w).toList := by
  cases style with
  | signed16 => exact (signed_toString _).notMem (by decide) hc
  | unsigned16 => exact notMem_hex hc
  | unsigned32 => exact notMem_hex hc

end NumberStyle

namespace Bank

variable {b : Bank} {i j : Nat} {s : String}

/-- A register is known by its name. -/
theorem eq_of_name?_eq (hi : b.name? i = some s) (hj : b.name? j = some s) : i = j := by
  have hnodup : b.names.Nodup := by cases b <;> decide +kernel
  have hlt : i < b.names.length := (List.getElem?_eq_some_iff.mp hi).1
  exact (List.getElem?_inj hlt hnodup).mp (hi.trans hj.symm)

/-- A register name holds no comma. -/
theorem notMem_of_name? (h : b.name? i = some s) : ',' ∉ s.toList := by
  have hnames : ∀ s ∈ b.names, ',' ∉ s.toList := by cases b <;> decide +kernel
  exact hnames s (List.mem_of_getElem? h)

end Bank

/-! ## Lists of texts -/

section

variable {α β : Type} {f g : α → Option β} {as : List α} {bs : List β}

/-- What is mapped without a failure is mapped element by element. -/
theorem forall₂_of_mapM (h : as.mapM f = some bs) : List.Forall₂ (fun a b => f a = some b) as bs := by
  induction as generalizing bs with
  | nil =>
    cases h
    exact .nil
  | cons a as ih =>
    rw [List.mapM_cons] at h
    obtain ⟨b, hb, h⟩ := Option.bind_eq_some_iff.mp h
    obtain ⟨bs', hbs, h⟩ := Option.bind_eq_some_iff.mp h
    cases h
    exact .cons hb (ih hbs)

/-- What is computed for a list is computed for one of its members. -/
theorem exists_of_mapM (h : as.mapM f = some bs) : ∀ b ∈ bs, ∃ a, f a = some b := by
  have hall := forall₂_of_mapM h
  clear h
  induction hall with
  | nil => exact nofun
  | cons hb _ ih => exact List.forall_mem_cons.mpr ⟨⟨_, hb⟩, ih⟩

/-- Two computations that give the same for a list give the same for each of its members. -/
theorem eq_of_mapM_eq (hf : as.mapM f = some bs) (hg : as.mapM g = some bs) :
    ∀ a ∈ as, ∃ b, f a = some b ∧ g a = some b := by
  have hboth := And.intro (forall₂_of_mapM hf) (forall₂_of_mapM hg)
  clear hf hg
  obtain ⟨hf, hall⟩ := hboth
  induction hf with
  | nil => exact nofun
  | cons hb _ ih =>
    obtain ⟨hb', hall⟩ := List.forall₂_cons.mp hall
    exact List.forall_mem_cons.mpr ⟨⟨_, hb, hb'⟩, ih hall⟩

end

/-! ## Mnemonics and operands -/

namespace Mnemonic

/-- The operands that have a text of their own, in order; a base stands in the text of an offset. -/
def shown (m : Mnemonic) : List (Operand × NumberStyle) :=
  m.encoding.operands.filter fun (op, _) => op ≠ .base

/-- Whether the text of an operand holds the base as well. -/
def holdsBase (m : Mnemonic) (op : Operand) : Bool := op = .offset && (m.isLoad || m.isStore)

/-- An operand that the base takes the place of has no bank of its own. -/
theorem operandBank?_of_holdsBase {m : Mnemonic} {op : Operand} (h : m.holdsBase op = true) :
    m.operandBank? op = none := by
  have hall : ∀ m ∈ all, ∀ op ∈ Operand.all, m.holdsBase op = true → m.operandBank? op = none := by
    decide +kernel
  exact hall m m.mem_all op op.mem_all h

/-- The instructions that break off what is running; the rest of their bits is free. -/
def IsTrap (m : Mnemonic) : Prop := m = .breakpoint ∨ m = .syscall

instance (m : Mnemonic) : Decidable m.IsTrap := inferInstanceAs (Decidable (_ ∨ _))

/-- A mnemonic is a word of its own that leaves room in its column, and it is not that of the
instruction that does nothing. -/
theorem name_plain (m : Mnemonic) :
    ' ' ∉ m.name.toList ∧ m.name.toList.length < 8 ∧ m.name ≠ "nop" := by
  have hall : ∀ m ∈ all, ' ' ∉ m.name.toList ∧ m.name.toList.length < 8 ∧ m.name ≠ "nop" := by
    decide +kernel
  exact hall m m.mem_all

/-- A mnemonic is known by its name. -/
theorem eq_of_name_eq {m m' : Mnemonic} (h : m.name = m'.name) : m = m' := by
  have hnodup : (all.map name).Nodup := by decide +kernel
  exact List.inj_on_of_nodup_map hnodup m.mem_all m'.mem_all h

/-- A number that is not shown in full has no more than the bits that are shown. -/
theorem fields_of_shown {m : Mnemonic} {op : Operand} {style : NumberStyle}
    (h : (op, style) ∈ m.shown) (hbank : m.operandBank? op = none) :
    style = .unsigned32 ∨
      ∀ c ∈ m.encoding.pattern.components, c.content = .operand op → c.len ≤ 16 := by
  have hall : ∀ m ∈ all, ∀ p ∈ m.shown, m.operandBank? p.1 = none → p.2 = .unsigned32 ∨
      ∀ c ∈ m.encoding.pattern.components, c.content = .operand p.1 → c.len ≤ 16 := by
    decide +kernel
  exact hall m m.mem_all (op, style) h hbank

/-- The index of a jump leaves room for the segment and for the two bits that are always zero. -/
theorem len_jumpIndex (m : Mnemonic) :
    ∀ c ∈ m.encoding.pattern.components, c.content = .operand .jumpIndex → c.len ≤ 26 := by
  have hall : ∀ m ∈ all, ∀ c ∈ m.encoding.pattern.components,
      c.content = .operand .jumpIndex → c.len ≤ 26 := by
    decide +kernel
  exact hall m m.mem_all

/-- But for the free bits of a trap, all operands of an instruction are in its text. -/
theorem shows_operand {m : Mnemonic} (htrap : ¬m.IsTrap) {op : Operand}
    (h : m.encoding.pattern.has op = true) :
    ∃ p ∈ m.shown, p.1 = op ∨ op = .base ∧ m.holdsBase p.1 = true := by
  have hall : ∀ m ∈ all, ¬m.IsTrap → ∀ op ∈ Operand.all, m.encoding.pattern.has op = true →
      ∃ p ∈ m.shown, p.1 = op ∨ op = .base ∧ m.holdsBase p.1 = true := by
    decide +kernel
  exact hall m m.mem_all htrap op op.mem_all h

end Mnemonic

namespace Instruction

variable {i i' : Instruction} {delaySlot : Option Word} {op : Operand} {style : NumberStyle}
  {s : String} {w w' : Word}

/-- A jump is known by its target. -/
theorem eq_of_jumpTarget_eq {slot v w : Word} (hv : v.toNat < 1 <<< 26) (hw : w.toNat < 1 <<< 26)
    (h : jumpTarget slot v = jumpTarget slot w) : v = w := by
  refine Word.eq_of_bit fun k hk => ?_
  by_cases hlow : k < 26
  · -- The bit stands two places higher in the target, below those of the segment.
    have hsegment : (0xF0000000 : Word).bit (k + 2) = false := by
      have hall : ∀ k < 26, (0xF0000000 : Word).bit (k + 2) = false := by decide
      exact hall k hlow
    have hbit (u : Word) : (jumpTarget slot u).bit (k + 2) = u.bit k := by
      rw [jumpTarget, Word.bit_or, Word.bit_and, hsegment, Bool.and_false, Bool.false_or]
      exact (Word.bit_shiftLeft u (by decide) (by omega)).trans (by simp)
    rw [← hbit v, ← hbit w, h]
  · have habove {u : Word} (hu : u.toNat < 1 <<< 26) : u.bit k = false :=
      Word.bit_eq_false hu (Nat.not_lt.mp hlow)
    rw [habove hv, habove hw]

/-- A text with a comma in it is not that of an operand. -/
theorem notMem_of_operandText? (h : i.operandText? delaySlot op style = some s) :
    ',' ∉ s.toList := by
  unfold operandText? at h
  simp only at h
  split at h
  · exact Bank.notMem_of_name? h
  split at h
  · -- The operand is a number with its base in parentheses.
    obtain ⟨base, hbase, rfl⟩ := Option.map_eq_some_iff.mp h
    have hnumber := style.notMem_format (w := i.getD op) (.inl rfl)
    have hname := Bank.notMem_of_name? hbase
    simp only [String.toList_append, String.reduceToList, List.mem_append, List.mem_singleton,
      not_or]
    exact ⟨⟨⟨hnumber, by decide⟩, hname⟩, by decide⟩
  · split at h
    all_goals cases h
    · exact notMem_hexWord (.inl rfl)
    · exact style.notMem_format (.inl rfl)

/-- The offset of a load or store has the base behind it in brackets. -/
theorem operandText?_of_holdsBase (h : i.mnemonic.holdsBase op = true) :
    i.operandText? delaySlot op style =
      (Bank.name? .general (i.getD .base).toNat).map fun base =>
        style.format (i.getD op) ++ "(" ++ base ++ ")" := by
  unfold operandText?
  simp only [Mnemonic.operandBank?_of_holdsBase h]
  exact if_pos h

/-- A number that an instruction shows is known by its text. -/
theorem getD_eq_of_format_eq (hm : i.mnemonic = i'.mnemonic) (hop : (op, style) ∈ i.mnemonic.shown)
    (hbank : i.mnemonic.operandBank? op = none)
    (h : style.format (i.getD op) = style.format (i'.getD op)) : i.getD op = i'.getD op := by
  have hcovers (j : Instruction) (hj : j.mnemonic = i.mnemonic) : style.Covers (j.getD op) :=
    (Mnemonic.fields_of_shown hop hbank).imp_right fun hlen => j.getD_lt_of_len (hj ▸ hlen)
  exact NumberStyle.eq_of_format_eq (hcovers i rfl) (hcovers i' hm.symm) h

/-- The offset of a load or store is known by its text, and so is the base behind it. -/
theorem getD_eq_of_holdsBase (hm : i.mnemonic = i'.mnemonic) (hop : (op, style) ∈ i.mnemonic.shown)
    (hbase : i.mnemonic.holdsBase op = true) (h : i.operandText? delaySlot op style = some s)
    (h' : i'.operandText? delaySlot op style = some s) :
    i.getD op = i'.getD op ∧ i.getD .base = i'.getD .base := by
  rw [operandText?_of_holdsBase hbase] at h
  rw [operandText?_of_holdsBase (hm ▸ hbase)] at h'
  obtain ⟨base, hname, rfl⟩ := Option.map_eq_some_iff.mp h
  obtain ⟨base', hname', heq⟩ := Option.map_eq_some_iff.mp h'
  rw [String.append_left_inj, ← String.toList_inj] at heq
  simp only [String.toList_append, String.reduceToList, List.append_assoc, List.cons_append,
    List.nil_append] at heq
  -- No number has a bracket in it, so the first bracket is the one behind the offset.
  obtain ⟨hoffset, hrest⟩ :=
    eq_and_eq_of_append_cons (style.notMem_format (.inr rfl)) (style.notMem_format (.inr rfl)) heq
  obtain rfl := String.toList_inj.mp hrest
  have hformat : style.format (i.getD op) = style.format (i'.getD op) :=
    String.toList_inj.mp hoffset.symm
  constructor
  · exact getD_eq_of_format_eq hm hop (Mnemonic.operandBank?_of_holdsBase hbase) hformat
  · exact UInt32.toNat_inj.mp (Bank.eq_of_name?_eq hname hname')

/-- An operand without a base behind it is known by its text. -/
theorem getD_eq_of_not_holdsBase (hm : i.mnemonic = i'.mnemonic)
    (hop : (op, style) ∈ i.mnemonic.shown) (hbase : i.mnemonic.holdsBase op = false)
    (h : i.operandText? delaySlot op style = some s)
    (h' : i'.operandText? delaySlot op style = some s) : i.getD op = i'.getD op := by
  unfold operandText? at h h'
  rw [← hm] at h'
  simp only at h h'
  cases hbank : i.mnemonic.operandBank? op with
  | some bank =>
    rw [hbank] at h h'
    exact UInt32.toNat_inj.mp (Bank.eq_of_name?_eq h h')
  | none =>
    unfold Mnemonic.holdsBase at hbase
    simp only [hbank, hbase, Bool.false_eq_true, if_false] at h h'
    split at h
    · -- Where the delay slot is known, a jump is shown with its target.
      simp only [Option.some.injEq] at h h'
      exact eq_of_jumpTarget_eq (i.getD_lt_of_len i.mnemonic.len_jumpIndex)
        (i'.getD_lt_of_len i'.mnemonic.len_jumpIndex) (eq_of_hexWord_eq (h.trans h'.symm))
    · next hother =>
      split at h'
      · exact (hother _ rfl rfl).elim
      · exact getD_eq_of_format_eq hm hop hbank (Option.some.inj (h.trans h'.symm))

/-- An operand is known by its text, and so is the base that stands in it. -/
theorem getD_eq_of_operandText? (hm : i.mnemonic = i'.mnemonic) (hop : (op, style) ∈ i.mnemonic.shown)
    (h : i.operandText? delaySlot op style = some s)
    (h' : i'.operandText? delaySlot op style = some s) :
    i.getD op = i'.getD op ∧ (i.mnemonic.holdsBase op = true → i.getD .base = i'.getD .base) := by
  cases hbase : i.mnemonic.holdsBase op with
  | true =>
    obtain ⟨hoffset, hregister⟩ := getD_eq_of_holdsBase hm hop hbase h h'
    exact ⟨hoffset, fun _ => hregister⟩
  | false => exact ⟨getD_eq_of_not_holdsBase hm hop hbase h h', nofun⟩

/-! ## Texts -/

/-- The operands in a text are computed one by one, and stand behind the mnemonic. -/
theorem format?_cases (h : i.format? delaySlot = some s) (hraw : i.raw ≠ 0) :
    (i.mnemonic.shown = [] ∧ s = i.mnemonic.name) ∨
      ∃ texts, (i.mnemonic.shown.mapM fun p => i.operandText? delaySlot p.1 p.2) = some texts ∧
        s = column 8 i.mnemonic.name ++ ", ".intercalate texts := by
  unfold format? at h
  simp only [beq_iff_eq, if_neg hraw] at h
  split at h
  · next hempty =>
    rw [List.isEmpty_iff] at hempty
    refine .inl ⟨?_, (Option.some.inj h).symm⟩
    unfold Mnemonic.shown
    rw [hempty, List.filter_nil]
  · obtain ⟨texts, htexts, rfl⟩ := Option.map_eq_some_iff.mp h
    exact .inr ⟨texts, htexts, rfl⟩

/-- A text begins with the mnemonic, up to a blank if there is one. -/
theorem takeWhile_text (h : i.format? delaySlot = some s) (hraw : i.raw ≠ 0) :
    s.toList.takeWhile (· ≠ ' ') = i.mnemonic.name.toList := by
  obtain ⟨hblank, hroom, -⟩ := i.mnemonic.name_plain
  have hname : ∀ c ∈ i.mnemonic.name.toList, decide (c ≠ ' ') = true := fun c hc =>
    decide_eq_true fun heq => hblank (heq ▸ hc)
  rcases format?_cases h hraw with ⟨-, rfl⟩ | ⟨texts, -, rfl⟩
  · exact List.takeWhile_eq_self_iff.mpr hname
  · -- The name leaves room in its column, so a blank stands behind it.
    obtain ⟨k, hk⟩ := Nat.exists_eq_add_of_lt hroom
    have hpad : 8 - i.mnemonic.name.toList.length = k + 1 := by omega
    rw [String.toList_append, column, String.toList_ofList, List.rightpad, hpad,
      List.replicate_succ, List.append_assoc, List.takeWhile_append_of_pos hname]
    simp

/-- The word zero alone is shown as the instruction that does nothing. -/
theorem format?_eq_nop_iff : i.format? delaySlot = some "nop" ↔ i.raw = 0 := by
  constructor
  · intro h
    by_contra hraw
    have hname := takeWhile_text h hraw
    have hnop : "nop".toList.takeWhile (· ≠ ' ') = "nop".toList := by decide
    rw [hnop, String.toList_inj] at hname
    exact i.mnemonic.name_plain.2.2 hname.symm
  · intro hraw
    unfold format?
    simp only [hraw, beq_self_eq_true, if_true]

/-- Instructions of the same mnemonic and the same text show each operand by the same text. -/
theorem exists_operandText? (hm : i.mnemonic = i'.mnemonic) (h : i.format? delaySlot = some s)
    (h' : i'.format? delaySlot = some s) (hraw : i.raw ≠ 0) (hraw' : i'.raw ≠ 0) :
    ∀ p ∈ i.mnemonic.shown, ∃ text, i.operandText? delaySlot p.1 p.2 = some text ∧
      i'.operandText? delaySlot p.1 p.2 = some text := by
  rcases format?_cases h hraw with ⟨hnone, -⟩ | ⟨texts, htexts, rfl⟩
  · rw [hnone]
    exact nofun
  rcases format?_cases h' hraw' with ⟨hnone, -⟩ | ⟨texts', htexts', heq⟩
  · rw [hm, hnone]
    exact nofun
  -- The lists are of the same length, since they are lists of the same operands.
  have hlength : texts.length = texts'.length := by
    rw [← (forall₂_of_mapM htexts).length_eq, ← (forall₂_of_mapM htexts').length_eq, hm]
  rw [hm, String.append_right_inj] at heq
  obtain rfl : texts = texts' := by
    refine eq_of_intercalate_eq hlength (fun text htext => ?_) (fun text htext => ?_) heq
    · obtain ⟨p, hp⟩ := exists_of_mapM htexts text htext
      exact notMem_of_operandText? hp
    · obtain ⟨p, hp⟩ := exists_of_mapM htexts' text htext
      exact notMem_of_operandText? hp
  rw [← hm] at htexts'
  exact eq_of_mapM_eq htexts htexts'

/-- Instructions of the same text have the same mnemonic, and the same operands but for the free
bits of a trap. -/
theorem getD_eq_of_format? (h : i.format? delaySlot = some s) (h' : i'.format? delaySlot = some s)
    (hraw : i.raw ≠ 0) (hraw' : i'.raw ≠ 0) (htrap : ¬i.mnemonic.IsTrap) :
    i.mnemonic = i'.mnemonic ∧
      ∀ op, i.mnemonic.encoding.pattern.has op = true → i.getD op = i'.getD op := by
  have hm : i.mnemonic = i'.mnemonic := Mnemonic.eq_of_name_eq <| String.toList_inj.mp <|
    (takeWhile_text h hraw).symm.trans (takeWhile_text h' hraw')
  refine ⟨hm, ?_⟩
  intro op hop
  obtain ⟨p, hp, hshows⟩ := Mnemonic.shows_operand htrap hop
  obtain ⟨text, htext, htext'⟩ := exists_operandText? hm h h' hraw hraw' p hp
  obtain ⟨hoperand, hbase⟩ := getD_eq_of_operandText? hm hp htext htext'
  rcases hshows with rfl | ⟨rfl, hholds⟩
  · exact hoperand
  · exact hbase hholds

/-- A word is known by its mnemonic and its operands. -/
theorem eq_of_getD_eq (h : decode? w = some i) (h' : decode? w' = some i')
    (hm : i.mnemonic = i'.mnemonic)
    (hop : ∀ op, i.mnemonic.encoding.pattern.has op = true → i.getD op = i'.getD op) : w = w' := by
  have hget (op : Operand) : i.getD op = i'.getD op := by
    cases hhas : i.mnemonic.encoding.pattern.has op with
    | true => exact hop op hhas
    | false =>
      -- What no field holds counts as zero in both.
      have hnone (j : Instruction) (hj : j.mnemonic = i.mnemonic) : j.getD op = 0 := by
        rw [getD, get?, Pattern.get?_eq_none (hj ▸ hhas)]
        rfl
      rw [hnone i rfl, hnone i' hm.symm]
  calc w = i.mnemonic.encoding.pattern.assemble i.getD := (assemble_getD h).symm
    _ = i'.mnemonic.encoding.pattern.assemble i'.getD := by rw [hm, funext hget]
    _ = w' := assemble_getD h'

/-- Words of instructions that are no traps are equal if they are printed alike. -/
theorem eq_of_format?_eq (h : decode? w = some i) (h' : decode? w' = some i')
    (htrap : ¬i.mnemonic.IsTrap) (hs : i.format? delaySlot = some s)
    (hs' : i'.format? delaySlot = some s) : w = w' := by
  obtain ⟨rfl, -⟩ := decode?_eq_some_iff.mp h
  obtain ⟨rfl, -⟩ := decode?_eq_some_iff.mp h'
  -- The word zero is shown as `nop` and not by its mnemonic, so it is told apart first.
  by_cases hraw : i.raw = 0
  · have hnop : i'.format? delaySlot = some "nop" := by
      rw [hs', ← hs]
      exact format?_eq_nop_iff.mpr hraw
    rw [hraw, format?_eq_nop_iff.mp hnop]
  · have hraw' : i'.raw ≠ 0 := fun hzero => by
      have hnop : i.format? delaySlot = some "nop" := by
        rw [hs, ← hs']
        exact format?_eq_nop_iff.mpr hzero
      exact hraw (format?_eq_nop_iff.mp hnop)
    obtain ⟨hm, hop⟩ := getD_eq_of_format? hs hs' hraw hraw' htrap
    exact eq_of_getD_eq h h' hm hop

/-- Texts tell words apart. A word that encodes an instruction, but for traps, whose free bits are
not shown, shares its text at no address with another word, nor its text wherever it stands. Of all
words, traps included, the word zero alone is shown as `nop`, and it is shown so at every address. -/
theorem text_tells_word {w w' : Word} {i i' : Instruction} (h : decode? w = some i)
    (h' : decode? w' = some i') :
    (¬i.mnemonic.IsTrap →
      (∀ pc s, i.disassemble? pc = some s → i'.disassemble? pc = some s → w = w') ∧
      ∀ s, i.text? = some s → i'.text? = some s → w = w') ∧
    (∀ pc, i.disassemble? pc = some "nop" ↔ w = 0) ∧ (i.text? = some "nop" ↔ w = 0) := by
  refine ⟨fun htrap => ⟨fun pc s => eq_of_format?_eq h h' htrap,
    fun s => eq_of_format?_eq h h' htrap⟩, ?_⟩
  obtain ⟨rfl, -⟩ := decode?_eq_some_iff.mp h
  exact ⟨fun pc => format?_eq_nop_iff, format?_eq_nop_iff⟩

/-- Two loads that differ in the base alone have different texts, and neither is shown as `nop`. -/
theorem text_tells_base :
    decode? 0x8C820004 = some ⟨.lw, 0x8C820004⟩ ∧ decode? 0x8CA20004 = some ⟨.lw, 0x8CA20004⟩ ∧
    text? ⟨.lw, 0x8C820004⟩ = some "lw      v0, 4(a0)" ∧
    text? ⟨.lw, 0x8CA20004⟩ ≠ some "lw      v0, 4(a0)" ∧
    ∀ pc, disassemble? ⟨.lw, 0x8C820004⟩ pc ≠ some "nop" := by
  have h : decode? 0x8C820004 = some ⟨.lw, 0x8C820004⟩ := by decide +kernel
  have h' : decode? 0x8CA20004 = some ⟨.lw, 0x8CA20004⟩ := by decide +kernel
  have hs : text? ⟨.lw, 0x8C820004⟩ = some "lw      v0, 4(a0)" := by decide +kernel
  obtain ⟨htells, hnop, -⟩ := text_tells_word h h'
  refine ⟨h, h', hs, fun hs' => ?_, fun pc hpc => ?_⟩
  · exact absurd ((htells (by decide)).2 _ hs hs') (by decide)
  · exact absurd ((hnop pc).mp hpc) (by decide)

/-- The free bits of a trap are not in its text. -/
example : text? ⟨.breakpoint, 0x0000000D⟩ = text? ⟨.breakpoint, 0x0000004D⟩ := by decide +kernel

end Instruction

end MipsMonitor
