import MipsMonitor.Proofs.Debug.Refusals
import MipsMonitor.Proofs.Guarded.Disassembling
import MipsMonitor.Proofs.Instruction.Assembling
import MipsMonitor.Proofs.Memory.Bytes
import MipsMonitor.Proofs.Memory.Windows
import MipsMonitor.Remote.Monitor

/-!
# Listings of instructions

A listing goes on word by word until as many instructions are shown as were asked for, or one cannot
be read. Looking at an instruction changes nothing that a later look depends on
(`Monitor.listing_congr`), so every line shows what the debugger finds at its address as it stands
(`Monitor.listing_shows`).

The address of a line is computed from its number, by a product of words that must not overflow, and
the numbers come from whoever asks (`Guarded.listing`). What bounds the product is the memory map: a
line is only reached if all words before it were read, and no stretch of words is longer than
`Address.longestStretch` (`Address.exists_unmapped`). So the loop ends with an error long before its
product leaves the word (`Monitor.listing_bounded`).
-/

namespace MipsMonitor

open Debug Debugger Text Address

namespace Ram

variable {r : Ram} {a : Word}

/-- An aligned word is read where some window has its address. -/
theorem exists_readWord_iff (ha : a.toNat % 4 = 0) :
    (∃ w, ByteMemory.readWord r a = .ok w) ↔ ∃ w, In a w := by
  constructor
  · rintro ⟨w, hw⟩
    obtain ⟨c, hc⟩ := exists_cell?_of_readWord hw
    exact ⟨c.window, in_window hc⟩
  · rintro ⟨w, hw⟩
    obtain ⟨c, hc, -⟩ := exists_cell? hw
    refine ByteMemory.exists_readWord fun j hj => ?_
    have hwritable := isWritable_cell?_add ha hj
    rw [hc, Option.map_some] at hwritable
    obtain ⟨c', hc', -⟩ := Option.map_eq_some_iff.mp hwritable
    exact ⟨r.get c', by rw [readByte_eq, hc']⟩

end Ram

namespace Debug.Debugger

variable {d d' : Debugger} {a : Word}

namespace Unchanged

/-- A debugger that is unchanged has the same view. -/
theorem view? (h : d.Unchanged d') : d'.core.view? = d.core.view? := by
  obtain ⟨log, hcore⟩ := h.core
  rw [hcore]

/-- A debugger that is unchanged stands at the same place. -/
theorem pc (h : d.Unchanged d') : Debugger.pc d' = Debugger.pc d := congrArg Session.pc h.session

end Unchanged

/-- Disassembling an instruction changes nothing. -/
theorem Inspects.disassemble (a : Word) : Inspects (disassemble a) :=
  .bind (.readInstruction a) fun w => by
    cases Instruction.decode? w <;> exact .pure _

/-- What is found at an address depends on memory alone. -/
theorem reply_disassemble_congr (h : d.core.view? = d'.core.view?) (a : Word) :
    reply (disassemble a d) = reply (disassemble a d') := by
  have hread : reply (Machine.readInstruction a d) = reply (Machine.readInstruction a d') := by
    rw [reply_readInstruction, reply_readInstruction, Core.reply_peekBacking,
      Core.reply_peekBacking, h]
  rw [reply_disassemble, reply_disassemble, hread]

/-- The word of an aligned address is what is read behind the cache, once memory is attached. -/
theorem reply_readInstruction_eq_ok_iff {w : Word} :
    reply (Machine.readInstruction a d) = .ok w ↔
      a.toNat % 4 = 0 ∧ ∃ v, d.core.view? = some v ∧ ByteMemory.readWord v.backing a = .ok w := by
  have haligned : Word.isAligned a Instruction.size = true ↔ a.toNat % 4 = 0 := Word.isAligned_iff
  rw [reply_readInstruction, Core.reply_peekBacking]
  by_cases ha : a.toNat % 4 = 0
  · rw [if_pos (haligned.mpr ha)]
    cases d.core.view? with
    | none => simp only [reduceCtorEq, false_and, exists_false, and_false]
    | some v => cases hw : ByteMemory.readWord v.backing a <;> simp [Except.mapError, hw, ha]
  · rw [if_neg (mt haligned.mp ha)]
    simp only [reduceCtorEq, ha, false_and]

/-- Something is shown at an aligned address that a window has, once memory is attached. -/
theorem exists_disassemble_iff : (∃ text?, reply (disassemble a d) = .ok text?) ↔
    d.core.view?.isSome = true ∧ a.toNat % 4 = 0 ∧ ∃ w, In a w := by
  -- A word that is read is shown, if need be as a number.
  have hread : (∃ text?, reply (disassemble a d) = .ok text?) ↔
      ∃ w, reply (Machine.readInstruction a d) = .ok w := by
    rw [reply_disassemble]
    cases reply (Machine.readInstruction a d) with
    | error e => simp only [reduceCtorEq, exists_false]
    | ok w => cases hi : Instruction.decode? w <;> simp [hi]
  rw [hread, Option.isSome_iff_exists]
  constructor
  · rintro ⟨w, hw⟩
    obtain ⟨ha, v, hv, hword⟩ := reply_readInstruction_eq_ok_iff.mp hw
    exact ⟨⟨v, hv⟩, ha, (Ram.exists_readWord_iff ha).mp ⟨w, hword⟩⟩
  · rintro ⟨⟨v, hv⟩, ha, hin⟩
    obtain ⟨w, hword⟩ := (Ram.exists_readWord_iff (r := v.backing) ha).mpr hin
    exact ⟨w, reply_readInstruction_eq_ok_iff.mpr ⟨ha, v, hv, hword⟩⟩

/-- Words that can all be shown one behind the other are no more than those of a stretch. -/
theorem le_longestStretch {start : Word} {n : Nat}
    (h : ∀ k < n, ∃ text?, reply (disassemble (nthWord start k) d) = .ok text?) :
    n ≤ longestStretch := by
  obtain ⟨k, hk, hunmapped⟩ := exists_unmapped start
  by_contra hlong
  have hshown := h k (Nat.lt_of_le_of_lt hk (Nat.not_le.mp hlong))
  exact hunmapped (exists_disassemble_iff.mp hshown).2.2

end Debug.Debugger

namespace Remote.Monitor

variable {d d' : Debugger}

/-- A line of a listing. The one at the program counter is marked. -/
def line (d : Debugger) (address : Word) (shown : String) : String :=
  (if address = Debugger.pc d then ">" else " ") ++ " " ++ hexWord address ++ ": " ++ shown

/-- The lines of a listing: a text for each word from an address on, and why the next one cannot be
shown, if it cannot. -/
def printed (d : Debugger) (start : Word) (texts : List String) (failure? : Option RequestError) :
    List String :=
  texts.mapIdx (fun k text => line d (nthWord start k) text) ++
    (failure?.map RequestError.message).toList

/-- From an address on, the debugger finds these texts one behind the other. Either they are as many
as were asked for, or the next word is the first one that cannot be shown. -/
structure Shows (d : Debugger) (start : Word) (count : Nat) (texts : List String)
    (failure? : Option RequestError) : Prop where
  /-- Every text is what is found at its address. -/
  found : ∀ k (hk : k < texts.length),
    reply (disassemble (nthWord start k) d) = .ok (some texts[k])
  /-- All are found that were asked for. -/
  complete : failure? = none → texts.length = count
  /-- There is a reason for a listing that ends early. -/
  ends : ∀ e, failure? = some e →
    texts.length < count ∧ reply (disassemble (nthWord start texts.length) d) = .error e

/-- A listing depends on memory and the program counter alone. -/
theorem listing_congr (hview : d.core.view? = d'.core.view?)
    (hpc : Debugger.pc d = Debugger.pc d') (count : Nat) (address : Word) :
    (listing count address d).1 = (listing count address d').1 := by
  induction count generalizing address d d' with
  | zero => rfl
  | succ count ih =>
    have hreply := reply_disassemble_congr hview address
    have hleft := Inspects.disassemble address d
    have hright := Inspects.disassemble address d'
    unfold listing
    -- Both looks give the same answer, so both listings go on or both end here.
    cases hd : disassemble address d <;> cases hd' : disassemble address d' <;>
      rw [hd, hd'] at hreply <;> cases hreply
    · next text? e e' =>
      rw [hd] at hleft
      rw [hd'] at hright
      cases text? with
      | none => rfl
      | some shown =>
        have hview' : e.core.view? = e'.core.view? := by rw [hleft.view?, hright.view?, hview]
        have hpc' : Debugger.pc e = Debugger.pc e' := by rw [hleft.pc, hright.pc, hpc]
        simp only [ih hview' hpc', hpc']
    · rfl

/-- One line of a listing, as the debugger finds it before the listing. -/
theorem listing_succ (d : Debugger) (count : Nat) (address : Word) :
    (listing (count + 1) address d).1 =
      match reply (disassemble address d) with
      | .error e => [e.message]
      | .ok none => []
      | .ok (some shown) =>
        line d address shown :: (listing count (address + Instruction.size) d).1 := by
  have hlooked := Inspects.disassemble address d
  rw [listing]
  cases hd : disassemble address d with
  | error e d' => rfl
  | ok text? d' =>
    rw [hd] at hlooked
    -- The line before leaves the debugger as it was, but for what it reported.
    have hunchanged : d.Unchanged d' := hlooked
    cases text? with
    | none => rfl
    | some shown =>
      have hrest := listing_congr hunchanged.view? hunchanged.pc count (address + Instruction.size)
      simp only [reply, line, hrest, hunchanged.pc]

/-- A listing shows what the debugger finds, word by word, up to the first failure. -/
theorem listing_shows (hnamed : ∀ a, ∀ i ∈ d.found? a, ¬i.Nameless) (count : Nat) (start : Word) :
    ∃ texts failure?, Shows d start count texts failure? ∧
      (listing count start d).1 = printed d start texts failure? := by
  -- Along the lines: the listing goes on from the next word until it has its lines or an address
  -- fails.
  induction count generalizing start with
  | zero =>
    refine ⟨[], none, ⟨fun k hk => absurd hk (Nat.not_lt_zero k), fun _ => rfl, nofun⟩, rfl⟩
  | succ count ih =>
    obtain ⟨answer, -, hanswer⟩ := (Guarded.disassemble_iff d start).mpr (hnamed start)
    rw [listing_succ, hanswer]
    cases answer with
    | error e =>
      refine ⟨[], some e, ⟨fun k hk => absurd hk (Nat.not_lt_zero k), nofun, ?_⟩, rfl⟩
      rintro e' ⟨⟩
      exact ⟨Nat.succ_pos count, by rw [List.length_nil, nthWord_zero, hanswer]; rfl⟩
    | ok shown =>
      obtain ⟨texts, failure?, hshows, hlines⟩ := ih (start + Instruction.size)
      have hnext (k : Nat) : nthWord start (k + 1) = nthWord (start + Instruction.size) k :=
        nthWord_succ_left start k
      refine ⟨shown :: texts, failure?, ⟨fun k hk => ?_, fun h => ?_, fun e h => ?_⟩, ?_⟩
      · cases k with
        | zero => rw [nthWord_zero, hanswer]; rfl
        | succ k => rw [hnext]; exact hshows.found k (Nat.lt_of_succ_lt_succ hk)
      · exact congrArg (· + 1) (hshows.complete h)
      · obtain ⟨hlt, hfails⟩ := hshows.ends e h
        exact ⟨Nat.succ_lt_succ hlt, by rw [List.length_cons, hnext]; exact hfails⟩
      · simp only [Except.map, hlines, printed, List.mapIdx_cons, List.cons_append, nthWord_zero,
          hnext]

end Remote.Monitor

/-! ## The product -/

namespace Guarded

open Remote.Monitor

/-- Up to `left` lines of a listing from the line of a number on. The address of each is computed from
its number. -/
def listing (d : Debugger) (start : Word) : (left : Nat) → (i : Word) → Guarded (List String)
  | 0, _ => pure []
  | left + 1, i => do
    let distance ← mul i 4
    let address := start + distance
    match ← disassemble d address with
    | .error e => pure [e.message]
    | .ok shown => do
      let rest ← listing d start left (i + 1)
      pure (line d address shown :: rest)

/-- A listing is computed from the line of a number on if all words before that line are shown, for
then there are too few of them to make the product overflow. -/
theorem listing_eq {d : Debugger} (hnamed : ∀ a, ∀ i ∈ d.found? a, ¬i.Nameless) (start : Word)
    (left i : Nat)
    (hbefore : ∀ k < i, ∃ text?, reply (Debugger.disassemble (nthWord start k) d) = .ok text?) :
    listing d start left (UInt32.ofNat i) =
      .ok (Remote.Monitor.listing left (nthWord start i) d).1 := by
  induction left generalizing i with
  | zero => rfl
  | succ left ih =>
    -- All words before this line were shown, and there are not enough words for an overflow.
    have hproduct : mul (UInt32.ofNat i) 4 = .ok (4 * UInt32.ofNat i) := by
      have hi : i ≤ 2097408 := le_longestStretch hbefore
      have hsmall : (UInt32.ofNat i).toNat = i :=
        UInt32.toNat_ofNat_of_lt' (Nat.lt_of_le_of_lt hi (by decide))
      have hfits : (UInt32.ofNat i).toNat * (4 : Word).toNat < 4294967296 := by
        rw [hsmall]
        simp only [UInt32.reduceToNat]
        omega
      rw [mul_of_lt hfits, UInt32.mul_comm]
    obtain ⟨answer, hguarded, hanswer⟩ :=
      (disassemble_iff d (nthWord start i)).mpr (hnamed (nthWord start i))
    have haddress : start + 4 * UInt32.ofNat i = nthWord start i := rfl
    rw [listing, hproduct, ok_bind]
    simp only [haddress, hguarded, ok_bind]
    rw [listing_succ, hanswer]
    cases answer with
    | error e => rfl
    | ok shown =>
      -- The next line is reached, so this word is shown as well.
      have hnext : nthWord start (i + 1) = nthWord start i + Instruction.size :=
        nthWord_succ start i
      have hbefore' : ∀ k < i + 1, ∃ text?,
          reply (Debugger.disassemble (nthWord start k) d) = .ok text? := by
        intro k hk
        rcases Nat.lt_succ_iff_lt_or_eq.mp hk with hk | rfl
        · exact hbefore k hk
        · exact ⟨some shown, hanswer⟩
      have hrest := ih (i + 1) hbefore'
      rw [UInt32.ofNat_add, hnext] at hrest
      simp only [Except.map]
      exact congrArg (· >>= fun rest => pure (line d (nthWord start i) shown :: rest)) hrest

end Guarded

namespace Remote.Monitor

/-- A listing of instructions is bounded by the memory map. Where no instruction has a register
without a name, every listing from any address on, however many instructions are asked for, is
computed without an overflow; its lines show what the debugger finds, word by word, as many as were
asked for or up to the first word that cannot be shown, whose failure is the last line. They are at
most 2097408, and as many are shown from the start of the expansion port if memory is attached. -/
theorem listing_bounded (d : Debugger) (hnamed : ∀ a, ∀ i ∈ d.found? a, ¬i.Nameless)
    (start count : Word) :
    ∃ texts failure?, Shows d start count.toNat texts failure? ∧
      Guarded.listing d start count.toNat 0 = .ok (printed d start texts failure?) ∧
      (∀ args rest rest', takeValue (Debugger.pc d) args = (.ok start, rest) →
        takeValue 8 rest = (.ok count, rest') →
        (perform .disasm args d).1 = ⟨printed d start texts failure?, rest'⟩) ∧
      texts.length ≤ longestStretch ∧ longestStretch = 2097408 ∧
      (d.core.view?.isSome = true → start = 0x1F000000 → longestStretch ≤ count.toNat →
        texts.length = longestStretch) := by
  obtain ⟨texts, failure?, hshows, hlines⟩ := listing_shows hnamed count.toNat start
  have hfound : ∀ k < texts.length, ∃ text?, reply (disassemble (nthWord start k) d) = .ok text? :=
    fun k hk => ⟨_, hshows.found k hk⟩
  have hlength := le_longestStretch hfound
  refine ⟨texts, failure?, hshows, ?_, ?_, hlength, rfl, ?_⟩
  · have hguarded := Guarded.listing_eq hnamed start count.toNat 0 fun k hk =>
      absurd hk (Nat.not_lt_zero k)
    rw [nthWord_zero, hlines] at hguarded
    exact hguarded
  · intro args rest rest' hstart hcount
    simp only [perform, disassembly, hstart, hcount, hlines]
  · rintro hview rfl hcount
    refine Nat.le_antisymm hlength (Nat.not_lt.mp fun hshort => ?_)
    -- Were the listing shorter, it would end at a word of the stretch.
    cases failure? with
    | none =>
      have hcomplete := hshows.complete rfl
      omega
    | some e =>
      have hfails := (hshows.ends e rfl).2
      have haligned : (nthWord 0x1F000000 texts.length).toNat % 4 = 0 := by
        rw [toNat_nthWord]
        simp only [UInt32.reduceToNat]
        omega
      obtain ⟨text?, htext⟩ := exists_disassemble_iff.mpr ⟨hview, haligned, in_stretch hshort⟩
      cases htext.symm.trans hfails

end Remote.Monitor

namespace Blank

open Remote.Monitor

/-- A debugger with nothing in memory. -/
def debugger : Debugger := Debugger.reset 0 (.direct .blank) (.detached .standard)

/-- The memory of the debugger. -/
def memory : Ram := { Ram.blank with sink? := some .standard }

/-- The view of this debugger is that of its memory. -/
theorem view?_debugger : debugger.core.view? = some (.direct memory) := rfl

/-- Blank memory holds zeros, and ones where nothing is plugged in. -/
theorem readByte_memory {a : Word} {b : UInt8} (h : ByteMemory.readByte memory a = .ok b) :
    b = 0 ∨ b = 0xFF := by
  rw [Ram.readByte_eq] at h
  cases hc : cell? a with
  | none =>
    rw [hc] at h
    cases h
  | some c =>
    rw [hc] at h
    obtain rfl := Except.ok.inj h
    cases c with
    | expansion => exact .inr rfl
    | main i | scratchpad i | port i | rom i | cacheControl i => exact .inl (Cells.get_zero i)

/-- The word of a move to or from system control has 64 for its highest byte. -/
theorem byte_of_nameless {w : Word} {i : Instruction} (h : Instruction.decode? w = some i)
    (hnameless : i.Nameless) : Word.byte w 3 = 0x40 := by
  obtain ⟨-, haccepts⟩ := Instruction.decode?_eq_some_iff.mp h
  -- The eleven fixed bits hold the highest byte, which is the same for both instructions.
  have hbyte (opcode : Word) (hopcode : opcode.toNat / 8 = 64)
      (hbits : Word.bits w 21 11 = opcode) : Word.byte w 3 = 0x40 := by
    have hvalue := congrArg UInt32.toNat hbits
    rw [Word.toNat_bits w (by decide) (by decide)] at hvalue
    apply UInt8.toNat_inj.mp
    rw [Word.byte, UInt32.toNat_toUInt8, UInt32.toNat_shiftRight]
    simp only [Nat.shiftRight_eq_div_pow, Nat.one_shiftLeft, UInt32.reduceMul, UInt32.reduceToNat,
      UInt32.reduceOfNat, UInt8.reduceToNat, Nat.reduceMod, Nat.reducePow] at hvalue ⊢
    omega
  rcases hnameless.1 with hm | hm <;> rw [hm] at haccepts
  · exact hbyte 0x200 (by decide)
      (Pattern.accepts_iff.mp haccepts ⟨21, 11, .fixed 0x200⟩ (by decide) 0x200 rfl)
  · exact hbyte 0x204 (by decide)
      (Pattern.accepts_iff.mp haccepts ⟨21, 11, .fixed 0x204⟩ (by decide) 0x204 rfl)

/-- Every instruction that is found in this memory has a name. -/
theorem named (a : Word) : ∀ i ∈ debugger.found? a, ¬i.Nameless := by
  intro i hi hnameless
  unfold found? at hi
  split at hi
  · next w hw =>
    obtain ⟨-, v, hv, hword⟩ := reply_readInstruction_eq_ok_iff.mp hw
    obtain rfl : View.direct memory = v := Option.some.inj (view?_debugger.symm.trans hv)
    have hbyte := readByte_memory (ByteMemory.readWord_eq_ok_iff.mp hword 3 (by decide))
    rw [byte_of_nameless hi hnameless] at hbyte
    exact absurd hbyte (by decide)
  · cases hi

/-- All of the longest stretch is shown, however many instructions are asked for. -/
theorem listing_blank :
    (∀ a, ∀ i ∈ debugger.found? a, ¬i.Nameless) ∧
    ∃ texts e, texts.length = 2097408 ∧
      Guarded.listing debugger 0x1F000000 4294967295 0 =
        .ok (printed debugger 0x1F000000 texts (some e)) ∧
      reply (disassemble 0x1F800400 debugger) = .error e := by
  obtain ⟨texts, failure?, hshows, hguarded, -, -, hbound, htight⟩ :=
    listing_bounded debugger named 0x1F000000 0xFFFFFFFF
  have hlength : texts.length = 2097408 :=
    (htight (by rw [view?_debugger]; rfl) rfl (by decide)).trans hbound
  cases failure? with
  | none => exact absurd (hlength.symm.trans (hshows.complete rfl)) (by decide)
  | some e =>
    have hfails := (hshows.ends e rfl).2
    rw [hlength] at hfails
    exact ⟨named, texts, e, hlength, hguarded, hfails⟩

end Blank

end MipsMonitor
