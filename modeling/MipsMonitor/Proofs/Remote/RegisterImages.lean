import MipsMonitor.Proofs.Debug.Depth
import MipsMonitor.Proofs.Debug.Recording
import MipsMonitor.Proofs.Guarded.Registers
import MipsMonitor.Remote.RegisterImage

/-!
# Register images there and back

An image names every watched register once, and three registers of system control
(`RegisterImage.map_fst_tracked`). So what it holds for a register is what the file holds behind the
writes, but for the register that is always zero (`RegisterFile.tracked_writeTracked`), and writes of
what a file holds already leave it as it is (`RegisterFile.writeTracked_of_holds`). The status
register carries the memory view with it, which follows the edges of one of its bits: where the same
status is written again there is no edge (`Core.writeSystem_get`). The program counter moves only to
where it is not yet, and only a move disarms a breakpoint. Hence `RegisterImage.write_roundtrips`.
-/

namespace MipsMonitor

open Text

/-! ## Writes to a file -/

namespace RegisterFile

variable {f : RegisterFile} {writes : List (Tracked × Word)} {t : Tracked} {w : Word}

/-- A slot that is given what it holds leaves the file as it is. -/
theorem write_read (f : RegisterFile) (s : Fin slotCount) : f.write s (f.read s) = f := by
  obtain ⟨slots⟩ := f
  exact congrArg mk (Vector.set_getElem_self s.isLt)

/-- What a watched register holds after it is given a word: the first one always drops it. -/
def settled (t : Tracked) (w : Word) : Word := if t = .zero then 0 else w

/-- The file after writes to watched registers, one behind the other. -/
def writeTracked (f : RegisterFile) (writes : List (Tracked × Word)) : RegisterFile :=
  writes.foldl (fun f (t, w) => f.setTracked t (settled t w)) f

/-- A register that is not among the writings stays. -/
theorem tracked_writeTracked_of_notMem (h : t ∉ writes.map (·.1)) :
    (f.writeTracked writes).tracked t = f.tracked t := by
  induction writes generalizing f with
  | nil => rfl
  | cons first writes ih =>
    obtain ⟨hne, hnotMem⟩ := not_or.mp (mt List.mem_cons.mpr h)
    calc (f.writeTracked (first :: writes)).tracked t
        = (f.setTracked first.1 (settled first.1 first.2)).tracked t := ih hnotMem
      _ = f.tracked t := by rw [tracked_setTracked, if_neg (Ne.symm hne)]

/-- Where no register is written twice, each holds what it was given. -/
theorem tracked_writeTracked (hnodup : (writes.map (·.1)).Nodup) (h : (t, w) ∈ writes) :
    (f.writeTracked writes).tracked t = settled t w := by
  induction writes generalizing f with
  | nil => cases h
  | cons first writes ih =>
    obtain ⟨hfresh, hnodup⟩ := List.nodup_cons.mp hnodup
    rcases List.mem_cons.mp h with rfl | h
    · -- No later write is to this register.
      calc (f.writeTracked ((t, w) :: writes)).tracked t
          = (f.setTracked t (settled t w)).tracked t := tracked_writeTracked_of_notMem hfresh
        _ = settled t w := by rw [tracked_setTracked, if_pos rfl]
    · exact ih hnodup h

/-- Registers that are given what they hold leave the file as it is. -/
theorem writeTracked_of_holds (h : ∀ p ∈ writes, settled p.1 p.2 = f.tracked p.1) :
    f.writeTracked writes = f := by
  induction writes with
  | nil => rfl
  | cons first writes ih =>
    obtain ⟨hfirst, hrest⟩ := List.forall_mem_cons.mp h
    have hsame : f.setTracked first.1 (settled first.1 first.2) = f := by
      rw [hfirst]
      exact f.write_read first.1.slot
    calc f.writeTracked (first :: writes)
        = (f.setTracked first.1 (settled first.1 first.2)).writeTracked writes := rfl
      _ = f := by rw [hsame, ih hrest]

end RegisterFile

namespace Core

variable (c : Core) {r : Register}

/-- A register of system control holds what it is given, whatever else follows from that. -/
theorem registers_writeSystem (hbank : r.bank = .cop0) (w : Word) :
    (c.writeSystem r.index w).registers = c.registers.set r w := by
  obtain ⟨bank, i⟩ := r
  subst hbank
  unfold writeSystem
  rw [dif_pos i.isLt]
  exact registers_note _ _

/-- A register of system control that is given what it holds leaves all but the log as it is. -/
theorem writeSystem_get (hbank : r.bank = .cop0) :
    ∃ entry, c.writeSystem r.index (c.registers.get r) = c.note [entry] := by
  obtain ⟨bank, i⟩ := r
  subst hbank
  have hsame : c.registers.set ⟨.cop0, i⟩ (c.registers.get ⟨.cop0, i⟩) = c.registers :=
    c.registers.write_read (Register.slot ⟨.cop0, i⟩)
  let text := "writing " ++ hex (c.registers.get ⟨.cop0, i⟩).toNat ++ " to " ++
    Register.name ⟨.cop0, i⟩
  refine ⟨⟨c.sink, .debug, text⟩, ?_⟩
  unfold writeSystem
  rw [dif_pos i.isLt]
  -- Both values of the status register are the same, so there is no edge.
  simp only [hsame, report, registers_note, Guarded.map_viewFor_self]
  rfl

/-- Registers of system control that are given what they hold leave all but the log as it is. -/
theorem foldl_writeSystem_of_holds {writes : List (Nat × Word)}
    (h : ∀ p ∈ writes, ∃ r : Register, r.bank = .cop0 ∧ p = (r.index.val, c.registers.get r)) :
    ∃ entries, writes.foldl (fun c (index, w) => c.writeSystem index w) c = c.note entries := by
  induction writes generalizing c with
  | nil => exact ⟨[], rfl⟩
  | cons first writes ih =>
    obtain ⟨⟨r, hbank, rfl⟩, hrest⟩ := List.forall_mem_cons.mp h
    obtain ⟨entry, hfirst⟩ := c.writeSystem_get hbank
    have hregisters : (c.note [entry]).registers = c.registers := registers_note _ _
    obtain ⟨entries, hentries⟩ := ih (c.note [entry]) (by rwa [hregisters])
    refine ⟨[entry] ++ entries, ?_⟩
    simp only [List.foldl_cons, hfirst]
    rw [hentries, note_note]

end Core

/-! ## Writes of a debugger -/

namespace Debug.Debugger

variable {writes : List (Tracked × Word)}

/-- Who wrote the registers last, after writes on behalf of one instruction. -/
def traceOf (pc : Word) (writes : List (Tracked × Word)) (trace : WriteTrace) : WriteTrace :=
  writes.foldl (fun trace write => trace.set write.1.val pc write.1.isLt) trace

/-- Writes on behalf of one instruction change watched registers and the trace. -/
theorem foldl_recordAt (pc : Word) (writes : List (Tracked × Word)) (d : Debugger) :
    writes.foldl (fun d (t, w) => recordAt pc t w d) d =
      ⟨⟨{ d.core with registers := d.core.registers.writeTracked writes },
        { d.session with trace := traceOf pc writes d.session.trace }⟩, d.blocks, d.injector?⟩ := by
  induction writes generalizing d with
  | nil => rfl
  | cons first writes ih => exact ih (recordAt pc first.1 first.2 d)

/-- The instruction is the last writer of what it writes, and of what it was the last writer of. -/
theorem get_traceOf {pc : Word} {trace : WriteTrace} {t : Tracked}
    (h : trace.get t = pc ∨ t ∈ writes.map (·.1)) : (traceOf pc writes trace).get t = pc := by
  induction writes generalizing trace with
  | nil => exact h.resolve_right List.not_mem_nil
  | cons first writes ih =>
    refine ih ?_
    rw [Recorded.get_trace_set]
    rcases h with htrace | hmem
    · exact .inl (by rw [htrace, ite_self])
    rcases List.mem_cons.mp hmem with hfirst | hlater
    · exact .inl (if_pos hfirst.symm)
    · exact .inr hlater

/-- Writes to all watched registers leave nothing of the trace. -/
theorem traceOf_all (pc : Word) (h : ∀ t, t ∈ writes.map (·.1)) (trace : WriteTrace) :
    traceOf pc writes trace = Vector.replicate 34 pc := by
  refine Vector.ext fun k hk => ?_
  have hget : (traceOf pc writes trace).get ⟨k, hk⟩ = pc := get_traceOf (.inr (h ⟨k, hk⟩))
  exact hget.trans (Vector.getElem_replicate hk).symm

end Debug.Debugger

/-! ## Images -/

namespace Remote.RegisterImage

open Debug

variable (image : RegisterImage) (d : Debugger)

/-- An image has every watched register once. -/
theorem map_fst_tracked : image.tracked.map (·.1) = Tracked.all := by
  have hfst : image.tracked.map (·.1) = (List.finRange 32).map Tracked.ofGpr ++ [.hi, .lo] := by
    unfold tracked
    rw [List.map_append, List.map_map]
    rfl
  rw [hfst]
  decide

/-- The core behind the writes of an image. -/
def settle (c : Core) : Core :=
  image.system.foldl (fun c (index, w) => c.writeSystem index w)
    { c with registers := c.registers.writeTracked image.tracked }

/-- An image is written to the core, and the trace names the program counter throughout. Where the
program counter is already it is not moved to. -/
theorem write_eq :
    image.write d =
      let d' : Debugger := ⟨⟨image.settle d.core,
        { d.session with trace := Vector.replicate 34 d.pc }⟩, d.blocks, d.injector?⟩
      if image.pc = d.pc then d' else Debugger.moveTo image.pc d' := by
  have hall (t : Tracked) : t ∈ image.tracked.map (·.1) := by
    rw [map_fst_tracked]
    exact List.mem_finRange t
  unfold write
  simp only [Debugger.foldl_recordAt, Debugger.traceOf_all _ hall]
  rfl

/-- Writing an image changes the core as the image says. -/
theorem core_write : (image.write d).core = image.settle d.core := by
  rw [write_eq]
  generalize image.settle d.core = c
  simp only
  split <;> rfl

/-- Behind the writing of an image execution stands where the image says. -/
theorem pc_write : (image.write d).pc = image.pc := by
  rw [write_eq]
  generalize image.settle d.core = c
  simp only
  split
  · next h => exact h.symm
  · exact Debugger.pc_moveTo _ _

/-- The registers behind the writing of an image. -/
theorem registers_settle (c : Core) :
    (image.settle c).registers =
      (((c.registers.writeTracked image.tracked).set .status image.status).set .cause image.cause).set
        .badAddress image.badAddress := by
  unfold settle system
  simp only [List.foldl_cons, List.foldl_nil]
  rw [Core.registers_writeSystem _ rfl, Core.registers_writeSystem _ rfl,
    Core.registers_writeSystem _ rfl]

/-- An image is read back as it was written, but for the register that is always zero. -/
theorem ofDebugger_write :
    ofDebugger (image.write d) = { image with general := image.general.set 0 0 } := by
  have hnodup : (image.tracked.map (·.1)).Nodup := by
    rw [map_fst_tracked]
    exact List.nodup_finRange 34
  have htracked {t : Tracked} {w : Word} (h : (t, w) ∈ image.tracked) :
      (image.settle d.core).registers.tracked t = RegisterFile.settled t w := by
    -- Writes to system control touch no watched register.
    rw [registers_settle, RegisterFile.tracked_set _ _ Bank.ofCoprocessor_cop0,
      RegisterFile.tracked_set _ _ Bank.ofCoprocessor_cop0,
      RegisterFile.tracked_set _ _ Bank.ofCoprocessor_cop0]
    exact RegisterFile.tracked_writeTracked hnodup h
  have hgeneral (r : Gpr) : (Tracked.ofGpr r, image.general.get r) ∈ image.tracked :=
    List.mem_append_left _ (List.mem_map.mpr ⟨r, List.mem_finRange r, rfl⟩)
  have hresult : (Tracked.hi, image.hi) ∈ image.tracked ∧ (Tracked.lo, image.lo) ∈ image.tracked :=
    ⟨List.mem_append_right _ (.head _), List.mem_append_right _ (.tail _ (.head _))⟩
  unfold ofDebugger
  simp only [core_write, pc_write, htracked hresult.1, htracked hresult.2,
    htracked (hgeneral _)]
  have hne : Register.badAddress ≠ .status ∧ Register.cause ≠ .status ∧
      Register.badAddress ≠ .cause := by decide
  simp only [registers_settle, RegisterFile.get_set, hne, if_true, if_false]
  have hset : (Vector.ofFn fun r : Gpr =>
      RegisterFile.settled (.ofGpr r) (image.general.get r)) = image.general.set 0 0 := by
    refine Vector.ext fun k hk => ?_
    rw [Vector.getElem_ofFn, Vector.getElem_set]
    simp only [RegisterFile.settled, Tracked.ofGpr, Tracked.zero, Fin.ext_iff]
    exact if_congr eq_comm rfl rfl
  rw [hset]
  rfl

/-- What a core holds and is given again adds nothing but reports to it. -/
theorem settle_ofDebugger (hzero : d.core.registers.tracked .zero = 0) :
    ∃ entries, (ofDebugger d).settle d.core = d.core.note entries := by
  have hholds : ∀ p ∈ (ofDebugger d).tracked, p.2 = d.core.registers.tracked p.1 := by
    refine List.forall_mem_append.mpr ⟨List.forall_mem_map.mpr fun r _ => ?_, ?_⟩
    · exact Vector.getElem_ofFn r.isLt
    · exact List.forall_mem_cons.mpr ⟨rfl, List.forall_mem_singleton.mpr rfl⟩
  -- The first register drops what it is given, which is why it has to hold zero beforehand.
  have hsettled : ∀ p ∈ (ofDebugger d).tracked,
      RegisterFile.settled p.1 p.2 = d.core.registers.tracked p.1 := by
    intro p hp
    rw [hholds p hp]
    unfold RegisterFile.settled
    split
    · next ht => rw [ht, hzero]
    · rfl
  unfold settle
  rw [RegisterFile.writeTracked_of_holds hsettled]
  refine d.core.foldl_writeSystem_of_holds ?_
  simp only [system, List.forall_mem_cons, List.not_mem_nil, false_implies, implies_true, and_true]
  exact ⟨⟨.status, rfl, rfl⟩, ⟨.cause, rfl, rfl⟩, ⟨.badAddress, rfl, rfl⟩⟩

/-- Register images are lossless in both directions. Whatever a debugger is doing, an image that is
written to it is read back as it was, all registers and the program counter, if it has zero for the
register that is always zero. And while that register holds zero, the image of a debugger that is
written back to it changes nothing but the trace, which names the program counter as the last writer
of all registers, and the log: registers, memory and its view, the program counter, the call stack,
the breakpoints with what is known of each, and where execution stopped last are as before. -/
theorem write_roundtrips (d : Debugger) :
    (∀ image : RegisterImage, image.general.get 0 = 0 → ofDebugger (image.write d) = image) ∧
    (d.core.registers.tracked .zero = 0 →
      ∃ entries, (ofDebugger d).write d =
        (d.onCore (Core.note · entries)).onContext
          fun s => { s with trace := Vector.replicate 34 s.pc }) := by
  constructor
  · intro image hzero
    -- The image has zero in the slot that is set to zero.
    have hgeneral : image.general.set 0 0 = image.general := by
      have hget : image.general[0] = 0 := hzero
      rw [← hget]
      exact Vector.set_getElem_self _
    rw [ofDebugger_write, hgeneral]
  · intro hzero
    obtain ⟨entries, hcore⟩ := settle_ofDebugger d hzero
    -- The debugger stands where the image says already.
    refine ⟨entries, ?_⟩
    rw [write_eq, hcore]
    exact if_pos rfl

/-- An image that isolates the cache and has the program counter elsewhere. -/
def isolating : RegisterImage where
  general := Vector.ofFn fun r => UInt32.ofNat (0x1000 * r.val)
  hi := 0xDEADBEEF
  lo := 7
  status := 0x00010000
  cause := 0
  badAddress := 0x80000003
  pc := 0x80001000

/-- An image with another word in the register that is always zero is written but for that word, and
reading back and writing again changes nothing but the record. -/
theorem write_roundtrips_nesting :
    isolating.general.get 0 = 0 ∧ ofDebugger (isolating.write Nesting.start) = isolating ∧
    Nesting.start.core.registers.tracked .zero = 0 ∧
    ∃ entries, (ofDebugger Nesting.start).write Nesting.start =
      (Nesting.start.onCore (Core.note · entries)).onContext
        fun s => { s with trace := Vector.replicate 34 s.pc } := by
  have hgeneral : isolating.general.get 0 = 0 := by decide
  have hzero : Nesting.start.core.registers.tracked .zero = 0 := by
    rw [Nesting.start, Debugger.atReset_eq]
    decide +kernel
  obtain ⟨hthere, hback⟩ := write_roundtrips Nesting.start
  exact ⟨hgeneral, hthere isolating hgeneral, hzero, hback hzero⟩

end Remote.RegisterImage

end MipsMonitor
