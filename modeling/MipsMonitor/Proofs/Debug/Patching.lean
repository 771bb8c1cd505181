import MipsMonitor.Proofs.Debug.Refusals
import MipsMonitor.Proofs.Machine.Invalidation

/-!
# Patched code

Writing to memory drops translations word by word: each byte lies in one of the words whose
translations are dropped (`Debugger.alignDown_mem_wordsOf`), wherever the bytes begin and also where
the addresses wrap around, and a translation that covers a byte covers the word that the byte lies in
(`Block.covers_alignDown`), through every segment (`Address.alignDown_mem_aliases`). So behind a write
that is served no translation covers a byte that was written (`Debugger.forgets_of_writeMemory`).

The translations are dropped behind the last byte. A write that is refused at a later byte leaves the
bytes before it in memory, and keeps the translations of what stood there (`Patching.kept_partway`).
-/

namespace MipsMonitor

namespace Address

/-- What aliases a byte lies in the word that aliases the word of the byte. -/
theorem alignDown_mem_aliases {a c : Word} (h : c ∈ aliases a) :
    Word.alignDown c ∈ aliases (Word.alignDown a) := by
  have ha := Word.toNat_alignDown a
  have hc := Word.toNat_alignDown c
  rw [mem_aliases_iff, ← UInt32.toNat_inj] at *
  omega

end Address

namespace Block

/-- A translation covers whole words. -/
theorem covers_alignDown {r : Ram} {choose : Word → Option Instruction → List Action} {extent : Extent}
    {start : Word} {b : Block} (h : translate r choose extent start = .ok b) (a : Word) :
    b.covers (Word.alignDown a) = b.covers a := by
  obtain ⟨is, -, hb, hlaid, haligned, -⟩ := laid_of_translate h
  have hstart : b.start = start := congrArg Block.start hb
  have hlength : b.length = is.length := (congrArg Block.length hb).trans (List.length_map _)
  have hend := (hlaid.bounds (fun _ _ => Ram.toNat_lt_of_fetched) haligned).1
  rw [← hstart] at haligned
  rw [← hstart, ← hlength] at hend
  have hdown := Word.toNat_alignDown a
  rw [Bool.eq_iff_iff, covers_iff hend, covers_iff hend]
  omega

end Block

namespace Debug

open Machine

namespace Debugger

variable {d d' : Debugger} {address : Word} {bytes : List UInt8}

/-- Each byte lies in one of the words. -/
theorem alignDown_mem_wordsOf (address : Word) {count i : Nat} (hi : i < count) :
    Word.alignDown (address + UInt32.ofNat i) ∈ wordsOf address count := by
  have hoffset : (address &&& (3 : Word)).toNat = address.toNat % 4 := by
    rw [UInt32.toNat_and]
    exact Nat.and_two_pow_sub_one_eq_mod address.toNat 2
  refine List.mem_map.mpr ⟨(address.toNat % 4 + i) / 4, ?_, ?_⟩
  · rw [List.mem_range, hoffset]
    omega
  · -- The addresses may wrap around, which keeps them in step with the words.
    apply UInt32.toNat_inj.mp
    have hfirst := Word.toNat_alignDown address
    have hword := Word.toNat_alignDown (address + UInt32.ofNat i)
    have hlt := address.toNat_lt
    rw [UInt32.toNat_add, UInt32.toNat_ofNat'] at hword
    rw [UInt32.toNat_add, UInt32.toNat_mul, UInt32.toNat_ofNat', hword, hfirst]
    simp only [UInt32.reduceToNat]
    omega

/-- The blocks that a debugger keeps are translations, whatever commands are given to it. -/
theorem invariant_translated : Invariant Machine.Translated Machine.Translated where
  run h := h
  beside h hbeside := h.congr hbeside.blocks
  besideRunning h hbeside := h.congr hbeside.blocks
  reset _ _ _ := translated_of_empty _ _
  moveTo _ h := h.congr fun _ _ hb => hb
  stayAt _ h _ := h.congr fun _ _ hb => hb
  place _ h := h.congr fun _ _ hb => (kept_of_changeBreakpoints hb).1
  setEnabled _ _ h := h.congr fun _ _ hb => (kept_of_changeBreakpoints hb).1
  drop {d} address h := by
    obtain ⟨-, heq⟩ | ⟨_, heq, -⟩ := dropBreakpoint_eq address d
    · rw [heq]
      exact h
    · rw [heq]
      exact h.congr fun _ _ hb => (kept_of_changeBreakpoints hb).1
  pass pc h := h.pass pc
  executeOne pc h := h.executeOne pc

/-- The byte at an address, as loads see it, if there is one. -/
def byte? (d : Debugger) (address : Word) : Option UInt8 :=
  d.core.view?.bind fun v => (ByteMemory.readByte v address).toOption

/-- No translation that is kept covers the byte at an address through any segment, and none has an
instruction in the word that the byte lies in. -/
def Forgets (d : Debugger) (address : Word) : Prop :=
  ∀ c ∈ Address.aliases address, ∀ (start : Word) (b : Block), d.blocks[start]? = some b →
    b.covers c = false ∧ ∀ s ∈ b.steps, s.address ≠ Word.alignDown c

/-- What is left of translations when those of the word of a byte were dropped. -/
theorem forgets_of_invalidate (h : d.Translated) {words : List Word} {a : Word}
    (ha : Word.alignDown a ∈ words) : Forgets (words.foldl (fun d a => d.invalidate a) d) a := by
  intro c hc start b hb
  rw [Machine.foldl_invalidate] at hb
  obtain ⟨hbefore, hclear⟩ := Translations.getElem?_foldl_invalidate.mp hb
  obtain ⟨r, choose, htranslate⟩ := h start b hbefore
  have hword : b.covers (Word.alignDown c) = false :=
    (Translations.finds_eq_covers htranslate _).symm.trans
      (hclear _ ha _ (Address.alignDown_mem_aliases hc))
  refine ⟨(Block.covers_alignDown htranslate c).symm.trans hword, fun s hs => ?_⟩
  exact Block.address_ne_of_covers htranslate hs hword

/-- Behind a write that is served no translation covers what was written. -/
theorem Forgets.of_served (h : d.Translated) (hserved : writeMemory address bytes d = .ok () d')
    {i : Nat} (hi : i < bytes.length) : Forgets d' (address + UInt32.ofNat i) := by
  obtain ⟨_, d₁, haccess, hdrop⟩ := bind_eq_ok.mp hserved
  cases hdrop
  have hbeside : Leads (Beside d) (access (atCore (Core.poke address bytes)) d) := by
    have hcore := Beside.atCore (Core.poke address bytes) d
    unfold access
    cases hpoke : atCore (Core.poke address bytes) d <;> rw [hpoke] at hcore <;> exact hcore
  have hwritten : d₁.Translated := h.congr (hbeside.of_ok haccess).blocks
  exact forgets_of_invalidate hwritten (alignDown_mem_wordsOf address hi)

/-- Patched code is never run stale. Whatever commands were given to a debugger, behind a write to
memory that is served no translation covers any byte that was written, through any segment; and
behind one that is refused at its first byte none covers a byte that has changed, as none has. -/
theorem forgets_of_writeMemory (h : Reachable (fun d => d.blocks = ∅) d)
    (hwhole : ∀ e d', writeMemory address bytes d = .error e d' →
      (Call.writeMemory address bytes).Clean d)
    {i : Nat} (hi : i < bytes.length)
    (hwritten : (answer? (writeMemory address bytes d)).isSome = true ∨
      byte? (endState (writeMemory address bytes d)) (address + UInt32.ofNat i) ≠
        byte? d (address + UInt32.ofNat i)) :
    Forgets (endState (writeMemory address bytes d)) (address + UInt32.ofNat i) := by
  have htranslated : d.Translated := invariant_translated.reachable (fun d hd start b hb => by
    rw [hd, Std.ExtTreeMap.getElem?_empty] at hb
    cases hb) h
  cases hwrite : writeMemory address bytes d with
  | ok _ d' => exact Forgets.of_served htranslated hwrite hi
  | error e d' =>
    -- Nothing has changed, so there is no byte to be patched.
    rw [hwrite] at hwritten
    obtain ⟨log, hcore⟩ := ((Refuses.writeMemory (hwhole e d' hwrite)).of_error hwrite).core
    refine absurd ?_ (hwritten.resolve_left Bool.false_ne_true)
    change d'.core.view?.bind _ = d.core.view?.bind _
    rw [hcore]

end Debugger

namespace Patching

open Debugger

/-- Behind a run that ends at the `syscall`, its translation is kept, until a `break` is written in its
place. -/
theorem forgets_patched : ∃ d, (Command.run 8).perform (atReset Edge.image) = some d ∧
    d.blocks.contains 0 = true ∧ Forgets (endState (writeMemory 0 [0x0D] d)) 0 := by
  have hrun : ((Command.run 8).perform (atReset Edge.image)).map (fun d =>
      (d.blocks.contains 0, (answer? (writeMemory 0 [0x0D] d)).isSome)) = some (true, true) := by
    rw [atReset_eq]
    decide +kernel
  obtain ⟨d, hperform, hd⟩ := Option.map_eq_some_iff.mp hrun
  obtain ⟨hkept, hserved⟩ := Prod.mk.inj hd
  have hd : Reachable (fun d => d.blocks = ∅) d := .perform (.start rfl) (.run 8) hperform
  refine ⟨d, hperform, hkept, ?_⟩
  refine forgets_of_writeMemory (i := 0) hd (fun e d' he => ?_) Nat.zero_lt_one (.inl hserved)
  rw [he] at hserved
  cases hserved

/-- A `syscall` is put into the last word of the scratchpad, and executed. -/
def commands : List Command := [.writeMemory 0x1F8003FC [0x0C, 0, 0, 0], .moveTo 0x1F8003FC, .run 8]

/-- A write that reaches beyond the scratchpad puts a `break` in place of the `syscall` before it is
refused, but the translation of the `syscall` is kept. -/
theorem kept_partway :
    ¬∀ d, Reachable (fun d => d.blocks = ∅) d → ∀ (address : Word) (bytes : List UInt8),
      ∀ i < bytes.length, byte? (endState (writeMemory address bytes d)) (address + UInt32.ofNat i) ≠
          byte? d (address + UInt32.ofNat i) →
        Forgets (endState (writeMemory address bytes d)) (address + UInt32.ofNat i) := by
  intro hforgets
  have hrun : (performAll commands (atReset Edge.image)).map (fun d =>
      let d' := endState (writeMemory 0x1F8003FC [0x0D, 0, 0, 0, 0] d)
      (byte? d 0x1F8003FC, byte? d' 0x1F8003FC,
        d'.blocks[(0x1F8003FC : Word)]?.map (·.covers 0x1F8003FC))) =
        some (some 0x0C, some 0x0D, some true) := by
    rw [atReset_eq]
    decide +kernel
  obtain ⟨d, hperform, hd⟩ := Option.map_eq_some_iff.mp hrun
  simp only [Prod.mk.injEq] at hd
  obtain ⟨hbefore, hbehind, hkept⟩ := hd
  have hd : Reachable (fun d => d.blocks = ∅) d := Reachable.performAll (.start rfl) hperform
  -- The byte was changed, and the translation that is kept covers it.
  obtain ⟨b, hb, hcovers⟩ := Option.map_eq_some_iff.mp hkept
  have hchanged : byte? (endState (writeMemory 0x1F8003FC [0x0D, 0, 0, 0, 0] d)) 0x1F8003FC ≠
      byte? d 0x1F8003FC := by
    rw [hbefore, hbehind]
    decide
  have hclear := hforgets d hd 0x1F8003FC [0x0D, 0, 0, 0, 0] 0 (by decide) hchanged 0x1F8003FC
    (Address.mem_aliases rfl) _ b hb
  exact Bool.false_ne_true (hclear.1.symm.trans hcovers)

end Patching

end Debug

end MipsMonitor
