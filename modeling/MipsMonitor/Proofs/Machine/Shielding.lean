import MipsMonitor.Proofs.Machine.Courses
import MipsMonitor.Proofs.Machine.PowerOn
import MipsMonitor.Proofs.Machine.Precision

/-!
# Isolation shields memory

While the status register isolates the cache, memory stays as it was when the isolation began, loads
see the bytes stored since then and zeros elsewhere, and no access to memory is refused. What the
cache holds is told by the bytes stored since the isolation began, in order
(`Stored.last?`): of two addresses that are congruent modulo the size of the cache the one stored to
last counts.

One occurrence keeps the cache in step with that list or ends the isolation
(`Core.Caches.takes`), another one begins it (`Core.caches_of_rise`); what follows for a stretch
between the two edges of the bit is an induction over the course (`Machine.Course.isolation_shields`).
-/

namespace MipsMonitor

open ByteMemory

/-! ## What the cache holds -/

/-- The same memory, except for where it reports. -/
def Ram.SameContents (r r' : Ram) : Prop := ∃ sink?, r' = { r with sink? := sink? }

namespace Ram.SameContents

variable {r r' r'' : Ram}

/-- Memories with the same contents are read alike, byte by byte. -/
theorem readByte_eq (h : r.SameContents r') (a : Word) : readByte r' a = readByte r a := by
  obtain ⟨sink?, rfl⟩ := h
  rw [readByte_eq, readByte_eq]
  cases Address.cell? a with
  | none => rfl
  | some c => cases c <;> rfl

/-- Memories with the same contents are read alike, word by word. -/
theorem readWord_eq (h : r.SameContents r') (a : Word) : readWord r' a = readWord r a := by
  unfold readWord readNumber readBytes
  rw [funext h.readByte_eq]

end Ram.SameContents

/-- A byte that is stored, with its address. -/
abbrev Stored := Word × UInt8

/-- The byte stored last, of those stored to addresses that share a place in the cache with a given
one. -/
def Stored.last? (a : Word) (log : List Stored) : Option UInt8 :=
  ((log.filter fun s => s.1.toNat % 4096 = a.toNat % 4096).getLast?).map (·.2)

/-- The last store to a line is in the later part of the log, if there is one. -/
theorem Stored.last?_append (a : Word) (log log' : List Stored) :
    last? a (log ++ log') = (last? a log').or (last? a log) := by
  unfold last?
  rw [List.filter_append, List.getLast?_append, Option.map_or]

namespace Cached

variable {c : Cached Ram}

/-- Addresses share a line if they agree modulo the size of the cache. -/
theorem line_eq_iff {a b : Word} : line a = line b ↔ a.toNat % 4096 = b.toNat % 4096 := by
  simp only [line, Fin.ofNat, Fin.ext_iff]

/-- A place of the cache holds the byte stored there last. -/
theorem get_put (a b : Word) (x : UInt8) :
    (put c a x).lines.get (line b) = (Stored.last? b [(a, x)]).getD (c.lines.get (line b)) := by
  change (c.lines.set (line a) x).get (line b) = _
  rw [Cells.get_set]
  by_cases h : line a = line b
  · simp [Stored.last?, h, line_eq_iff.mp h]
  · simp [Stored.last?, h, mt line_eq_iff.mpr h]

end Cached

/-- A store to the isolated cache is never refused. It leaves memory alone, and the places that it
reaches hold its bytes. -/
theorem View.writeBytes_cached (a : Word) (bs : List UInt8) (c : Cached Ram) :
    ∃ c', writeBytes a bs (isolated c) = .ok () (isolated c') ∧ c'.hidden = c.hidden ∧
      ∀ b, c'.lines.get (Cached.line b) =
        (Stored.last? b ((Address.run a bs.length).zip bs)).getD (c.lines.get (Cached.line b)) := by
  induction bs generalizing a c with
  | nil => exact ⟨c, rfl, rfl, fun _ => rfl⟩
  | cons x bs ih =>
    obtain ⟨c', hok, hhidden, hlines⟩ := ih (a + 1) (put c a x)
    refine ⟨c', hok, hhidden, fun b => ?_⟩
    have happend : (Address.run a (x :: bs).length).zip (x :: bs) =
        [(a, x)] ++ (Address.run (a + 1) bs.length).zip bs := by
      rw [List.length_cons, Address.run_succ]
      rfl
    rw [hlines, Cached.get_put, happend, Stored.last?_append]
    cases Stored.last? b ((Address.run (a + 1) bs.length).zip bs) <;> rfl

/-! ## Occurrences -/

/-- The bytes that a change stores, with their addresses. -/
def Stored.ofChange? : Option Change → List Stored
  | some (.store a bs) => (Address.run a bs.length).zip bs
  | _ => []

/-- The bytes that an occurrence stores. -/
def Occurrence.stored (o : Occurrence) : List Stored := Stored.ofChange? o.change?

namespace Core

/-- Whether the status register isolates the cache. -/
def isolatesCache (c : Core) : Bool := c.registers.status.isolateCache

/-- What keeps a core keeps whether its cache is isolated. -/
theorem Kept.isolatesCache {c c' : Core} (h : c.Kept c') : c'.isolatesCache = c.isolatesCache :=
  congrArg Status.isolateCache h.status

/-- Memory is hidden, and holds what a given memory does. The cache holds the bytes of a list, and zeros
elsewhere. -/
def Caches (r : Ram) (log : List Stored) (c : Core) : Prop :=
  ∃ k : Cached Ram, c.view? = some (.isolated k) ∧ r.SameContents k.hidden ∧
    ∀ a, k.lines.get (Cached.line a) = (Stored.last? a log).getD 0

/-- Memory is in sight, and holds what a given memory does. -/
def Exposes (r : Ram) (c : Core) : Prop :=
  ∃ r', c.view? = some (.direct r') ∧ r.SameContents r'

/-- Memory holds what a given memory does; while it is hidden, the cache holds the bytes of a list. -/
def Shields (r : Ram) (log : List Stored) (c : Core) : Prop :=
  if c.isolatesCache = true then c.Caches r log else c.Exposes r

variable {r : Ram} {log : List Stored} {c c' : Core}

/-- What keeps a core keeps what its cache holds. -/
theorem Caches.kept (h : c.Caches r log) (hkept : c.Kept c') : c'.Caches r log := by
  obtain ⟨k, hv, hrest⟩ := h
  exact ⟨k, hkept.view?.trans hv, hrest⟩

/-- What keeps a core keeps memory shielded. -/
theorem Shields.kept (h : c.Shields r log) (hkept : c.Kept c') : c'.Shields r log := by
  unfold Shields at h ⊢
  rw [hkept.isolatesCache]
  split
  · next hbit =>
    rw [if_pos hbit] at h
    exact h.kept hkept
  · next hbit =>
    rw [if_neg hbit] at h
    obtain ⟨r', hv, hr⟩ := h
    exact ⟨r', hkept.view?.trans hv, hr⟩

/-- A store leaves the status register as it is. -/
theorem isolatesCache_poke (c : Core) (a : Word) (bs : List UInt8) :
    (endState (c.poke a bs)).isolatesCache = c.isolatesCache := by
  obtain ⟨registers, view?, stopped, ticks, sink, written, log⟩ := c
  cases view? with
  | none => rfl
  | some v =>
    simp only [poke]
    cases writeBytes a bs v <;> simp only [endState, isolatesCache, registers_note]

/-- A write to the status register that keeps the cache isolated leaves memory hidden, and one that
does not gives memory back. -/
theorem Caches.writeSystem (hbit : c.isolatesCache = true) (h : c.Caches r log) (index : Nat)
    (w : Word) : (c.writeSystem index w).Shields r log := by
  obtain ⟨k, hv, hhidden, hlines⟩ := h
  unfold Shields isolatesCache Core.writeSystem
  unfold isolatesCache at hbit
  by_cases hindex : index < Bank.size .cop0
  · simp only [dif_pos hindex, report, registers_note, view?_note, sink_note, hv, Option.map_some,
      viewFor, hbit]
    generalize (c.registers.set ⟨.cop0, ⟨index, hindex⟩⟩ w).status = new
    cases hnew : new.isolateCache with
    | true => exact ⟨k, rfl, hhidden, hlines⟩
    | false => exact ⟨k.hidden, rfl, hhidden⟩
  · simp only [dif_neg hindex, report, registers_note, hbit, if_true]
    exact ⟨k, (view?_note _ _).trans hv, hhidden, hlines⟩

/-- A store to the isolated cache goes to its list. -/
theorem Caches.poke (h : c.Caches r log) (a : Word) (bs : List UInt8) :
    (endState (c.poke a bs)).Caches r (log ++ (Address.run a bs.length).zip bs) := by
  obtain ⟨registers, view?, stopped, ticks, sink, written, entries⟩ := c
  obtain ⟨k, rfl, hhidden, hlines⟩ := h
  obtain ⟨k', hok, hhidden', hlines'⟩ := View.writeBytes_cached a bs k
  simp only [Core.poke, hok]
  refine ⟨k', view?_note _ _, hhidden' ▸ hhidden, fun b => ?_⟩
  rw [hlines', hlines, Stored.last?_append]
  cases Stored.last? b ((Address.run a bs.length).zip bs) <;> rfl

/-- A change leaves the cache with the bytes stored since the isolation began, or ends the isolation
and gives memory back as it was. -/
theorem Caches.takes (hbit : c.isolatesCache = true) (h : c.Caches r log) (change? : Option Change) :
    (c.takes change?).Shields r (log ++ Stored.ofChange? change?) := by
  have hsame : c.Shields r (log ++ []) := by
    rw [List.append_nil, Shields, if_pos hbit]
    exact h
  cases change? with
  | none => exact hsame
  | some what =>
    -- Nothing but a store reaches the cache, and no store reaches what it hides.
    cases what with
    | system index w =>
      have hwritten := h.writeSystem hbit index w
      rwa [← List.append_nil log] at hwritten
    | geometry dest w => exact hsame
    | store a bs =>
      have hpoked := h.poke a bs
      rw [Shields, Core.takes, isolatesCache_poke, if_pos hbit]
      exact hpoked

/-- The change that begins an isolation hides memory as it was behind an empty cache. -/
theorem caches_of_rise (hview : c.view? = some (.direct r)) (hbit : c.isolatesCache = false)
    {change? : Option Change} (hrise : (c.takes change?).isolatesCache = true) :
    (c.takes change?).Caches r [] := by
  have hsame (h : c.isolatesCache = true) : c.Caches r [] :=
    absurd (hbit.symm.trans h) Bool.false_ne_true
  -- Only a write to the status register raises the bit.
  cases change? with
  | none => exact hsame hrise
  | some what =>
    cases what with
    | geometry dest w => exact hsame hrise
    | store a bs =>
      rw [Core.takes, isolatesCache_poke] at hrise
      cases hbit.symm.trans hrise
    | system index w =>
      unfold Core.takes isolatesCache Core.writeSystem at hrise
      unfold Core.takes Caches Core.writeSystem
      unfold isolatesCache at hbit
      by_cases hindex : index < Bank.size .cop0
      · simp only [dif_pos hindex, report, registers_note, view?_note, sink_note, hview,
          Option.map_some, viewFor, hbit] at hrise ⊢
        rw [hrise]
        exact ⟨_, rfl, ⟨some c.sink, rfl⟩, fun a => Cells.get_zero _⟩
      · simp only [dif_neg hindex, report, registers_note, hbit] at hrise
        cases hrise

/-- The core that comes next: that which the first occurrence finds, or that at the end. -/
def next (c : Core) : List Occurrence → Core
  | [] => c
  | o :: _ => o.core

namespace Linked

variable {os os' : List Occurrence} {o : Occurrence}

/-- What comes next is what is at hand. -/
theorem kept_next (h : c.Linked os c') : c.Kept (c'.next os) := by
  cases os with
  | nil => exact h
  | cons o os => exact h.1

/-- What comes behind an occurrence is linked to what the occurrence leaves. -/
theorem behind (h : c.Linked (os ++ o :: os') c') : (o.core.takes o.change?).Linked os' c' := by
  induction os generalizing c with
  | nil => exact h.2
  | cons o' os ih => exact ih h.2

/-- Each occurrence finds memory hidden exactly while the status register isolates the cache. -/
theorem isolates (h : c.Linked os c') (hc : c.Isolates) : ∀ o ∈ os, o.core.Isolates := by
  induction os generalizing c with
  | nil => exact fun _ h => absurd h List.not_mem_nil
  | cons o os ih =>
    have ho := h.1.isolates hc
    have htakes : (o.core.takes o.change?).Isolates := by
      cases o.change? with
      | none => exact ho
      | some what =>
        cases what with
        | system index w => exact ho.writeSystem index w
        | geometry dest w => exact ho
        | store a bs => exact (ho.poke a bs).endState
    exact List.forall_mem_cons.mpr ⟨ho, ih h.2 htakes⟩

end Linked

/-- While the cache is isolated, each occurrence finds memory as it was, and in the cache the bytes of
the occurrences before it; and so does what comes next, or it finds memory given back. -/
theorem Linked.shields {during after : List Occurrence} (h : c.Linked (during ++ after) c')
    (hc : c.Shields r log) (hbits : ∀ o ∈ during, o.core.isolatesCache = true) :
    (∀ earlier o later, during = earlier ++ o :: later →
        o.core.Caches r (log ++ earlier.flatMap Occurrence.stored)) ∧
      (c'.next after).Shields r (log ++ during.flatMap Occurrence.stored) := by
  -- Along the occurrences during the isolation: what the cache holds back is the log of what they
  -- stored so far.
  induction during generalizing c log with
  | nil =>
    refine ⟨fun earlier o later h => absurd h.symm (List.append_ne_nil_of_right_ne_nil _ nofun), ?_⟩
    rw [List.flatMap_nil, List.append_nil]
    cases after with
    | nil => exact hc.kept h
    | cons o after => exact hc.kept h.1
  | cons o during ih =>
    have hbit := hbits o List.mem_cons_self
    have ho : o.core.Caches r log := by
      have hkept := hc.kept h.1
      rwa [Shields, if_pos hbit] at hkept
    obtain ⟨hrest, hnext⟩ := ih h.2 (ho.takes hbit o.change?) fun o' h' =>
      hbits o' (List.mem_cons_of_mem o h')
    refine ⟨fun earlier o' later hsplit => ?_, ?_⟩
    · cases earlier with
      | nil =>
        obtain ⟨rfl, -⟩ := List.cons.inj hsplit
        rwa [List.flatMap_nil, List.append_nil]
      | cons o'' earlier =>
        obtain ⟨rfl, hsplit'⟩ := List.cons.inj hsplit
        rw [List.flatMap_cons, ← List.append_assoc]
        exact hrest earlier o' later hsplit'
    · rw [List.flatMap_cons, ← List.append_assoc]
      exact hnext

end Core

/-! ## What executes behind the cache -/

/-- Reads of the isolated cache are never refused. -/
theorem View.readBytes_isolated (k : Cached Ram) (as : List Word) :
    readBytes (isolated k) as = .ok (as.map fun a => k.lines.get (Cached.line a)) :=
  List.mapM_pure

/-- Behind the isolated cache, an operation that has no effect raises an exception that is no error on
the bus, or the one that it asks for. -/
theorem Operation.architectural_of_effect {op : Operation} {pc : Word} {f : RegisterFile}
    {k : Cached Ram} {t : Trap} (h : op.effect pc f (some (.isolated k)) = .error t) :
    ∃ e, t = .architectural e pc ∧ (e ≠ .dataBusError ∨ op = .raise e) := by
  -- An isolated cache answers every read, so a load can only be misaligned.
  have hfetch (span : List Word) : ∃ w, fetch (some (.isolated k)) pc span = .ok w := by
    simp only [fetch, readNumber, View.readBytes_isolated, Except.map]
    exact ⟨_, rfl⟩
  cases op <;> simp only [effect] at h
  case trapping g dest lhs rhs =>
    split at h
    · cases h
    · cases h
      exact ⟨.overflow, rfl, .inl (by decide)⟩
  case raise e =>
    cases h
    exact ⟨e, rfl, .inr rfl⟩
  case storeGeometry source l =>
    split at h
    · cases h
    · cases h
      exact ⟨.addressStoreError, rfl, .inl (by decide)⟩
  case load what dest l =>
    obtain ⟨w, hw⟩ := hfetch (what.span (address f l))
    rw [hw] at h
    split at h
    · cases h
    · cases h
      exact ⟨.addressLoadError, rfl, .inl (by decide)⟩
  case store what dest l =>
    obtain ⟨w, hw⟩ := hfetch (what.span (address f l))
    rw [hw] at h
    split at h
    · cases h
    · cases h
      exact ⟨.addressStoreError, rfl, .inl (by decide)⟩
  case loadGeometry dest l =>
    obtain ⟨w, hw⟩ := hfetch (Address.run (address f l) 4)
    rw [hw] at h
    split at h
    · cases h
    · cases h
      exact ⟨.addressLoadError, rfl, .inl (by decide)⟩
  all_goals cases h

/-- No instruction asks for an error on the bus. -/
theorem Operation.ne_raise_dataBusError (i? : Option Instruction) (pc : Word) :
    ofInstruction? i? pc ≠ .raise .dataBusError := by
  cases i? with
  | none => exact nofun
  | some i =>
    obtain ⟨m, raw⟩ := i
    cases m <;> exact nofun

/-- Behind the isolated cache no instruction raises an error on the bus. -/
theorem Guest.noBusError_of_isolated {σ : Type} {observer : Observer σ} {g g' : Guest σ}
    {k : Cached Ram} (hview : g.core.view? = some (.isolated k)) {i? : Option Instruction} {pc : Word}
    {t : Trap} (h : g.perform observer pc (.ofInstruction? i? pc) = .error (.trap t) g') {f : Fault}
    (hcause : t.cause? = some f) : f.exception ≠ .dataBusError := by
  obtain ⟨entries, hnotes⟩ := noteReads_eq (.ofInstruction? i? pc) g
  simp only [perform, hnotes, Core.registers_note, Core.view?_note, hview] at h
  cases he : (Operation.ofInstruction? i? pc).effect pc g.core.registers (some (.isolated k)) with
  | error t' =>
    obtain ⟨e, rfl, hne⟩ := Operation.architectural_of_effect he
    rw [he] at h
    cases h
    cases hcause
    obtain hne | hraise := hne
    · exact hne
    · rintro rfl
      exact Operation.ne_raise_dataBusError i? pc hraise
  | ok e =>
    simp only [he] at h
    cases hc : e.change? with
    | none =>
      rw [hc] at h
      cases h
    | some what =>
      cases what with
      | system index w =>
        rw [hc] at h
        cases h
      | geometry dest w =>
        rw [hc] at h
        cases h
      -- The effect was found, so all that is left to fail is the write, and an isolated cache takes
      -- every write.
      | store a bs =>
        obtain ⟨k', hok, -⟩ := View.writeBytes_cached a bs k
        simp only [hc, Operation.writes_of_store he hc, List.foldl_nil, change] at h
        generalize hcore : g.core.note entries = core at h
        have hview' : core.view? = some (.isolated k) :=
          hcore ▸ (g.core.view?_note entries).trans hview
        obtain ⟨registers, view?, stopped, ticks, sink, written, log⟩ := core
        simp only at hview'
        subst hview'
        simp only [Core.store, Core.poke, hok] at h
        cases h

/-- Of instructions one behind the other each is that of the word at its address. -/
theorem Block.Laid.word {fetch : Word → Option Word} {start : Word}
    {is : List (Word × Option Instruction)} (h : Laid fetch start is) :
    ∀ p ∈ is, ∃ w, fetch p.1 = some w ∧ p.2 = Instruction.decode? w := by
  induction is generalizing start with
  | nil => exact fun _ h => absurd h List.not_mem_nil
  | cons p rest ih =>
    obtain ⟨rfl, hword, hrest⟩ := h
    exact List.forall_mem_cons.mpr ⟨hword, ih hrest⟩

/-- Each step of a translation is that of the word at its address. -/
theorem Block.word_of_translate {r : Ram} {choose : Word → Option Instruction → List Action}
    {extent : Extent} {start : Word} {b : Block} (h : translate r choose extent start = .ok b)
    {s : Step} (hs : s ∈ b.steps) :
    ∃ w, readWord r s.address = .ok w ∧
      s.operation = .ofInstruction? (Instruction.decode? w) s.address := by
  obtain ⟨is, -, rfl, hlaid, -⟩ := laid_of_translate h
  obtain ⟨p, hp, rfl⟩ := List.mem_map.mp hs
  obtain ⟨w, hw, hi⟩ := hlaid.word p hp
  refine ⟨w, ?_, congrArg (Operation.ofInstruction? · p.1) hi⟩
  unfold Ram.fetched at hw
  cases hread : readWord r p.1 with
  | error e =>
    rw [hread] at hw
    cases hw
  | ok w' =>
    rw [hread] at hw
    cases hw
    exact hread

/-- An occurrence behind the isolated cache, with memory as it was when the isolation began, and with
the bytes that have been stored since then. -/
structure Occurrence.Shielded (r : Ram) (log : List Stored) (o : Occurrence) : Prop where
  /-- Memory is hidden, and it is as it was. -/
  memory : ∃ k, o.core.view? = some (.isolated k) ∧ r.SameContents k.hidden
  /-- A load reads the bytes stored last, and zeros where none were stored. -/
  loads : ∀ v, o.core.view? = some v → ∀ as,
    readBytes v as = .ok (as.map fun a => (Stored.last? a log).getD 0)
  /-- Whatever is executed raises no error on the bus. -/
  noBusError : ∀ {σ : Type} (observer : Observer σ) (context : σ) (i? : Option Instruction) (pc : Word)
    (t : Trap) (f : Fault) (g : Guest σ),
    Guest.perform observer pc (.ofInstruction? i? pc) ⟨o.core, context⟩ = .error (.trap t) g →
      t.cause? = some f → f.exception ≠ .dataBusError
  /-- What is translated are the words of memory as it was. -/
  words : ∀ b, o.deed = .fetch b → ∀ s ∈ b.steps, ∃ w, readWord r s.address = .ok w ∧
    s.operation = .ofInstruction? (Instruction.decode? w) s.address

/-- What is proper behind the cache is shielded. -/
theorem Core.Caches.shielded {r : Ram} {log : List Stored} {o : Occurrence}
    (h : o.core.Caches r log) (hproper : o.Proper) : o.Shielded r log := by
  obtain ⟨k, hview, hhidden, hlines⟩ := h
  refine ⟨⟨k, hview, hhidden⟩, fun v hv as => ?_, ?_, fun b hdeed s hs => ?_⟩
  · rw [Option.some.inj (hv.symm.trans hview), View.readBytes_isolated, funext hlines]
  · exact fun observer context i? pc t f g h hcause => Guest.noBusError_of_isolated hview h hcause
  · unfold Occurrence.Proper at hproper
    rw [hdeed] at hproper
    obtain ⟨v, choose, extent, start, hv, htranslate⟩ := hproper
    obtain ⟨w, hw, hop⟩ := Block.word_of_translate htranslate hs
    rw [Option.some.inj (hv.symm.trans hview)] at hw
    exact ⟨w, (hhidden.readWord_eq s.address).symm.trans hw, hop⟩

namespace Machine

variable {σ : Type} {observer : Observer σ} {m n : Machine σ}

/-- Isolation shields memory. From the occurrence that begins an isolation on, for as long as the
isolation lasts, memory stays as that occurrence found it: what is translated comes from there, while
loads read what has been stored since then. What comes behind the isolation finds memory as it was. -/
theorem Course.isolation_shields {before during after : List Occurrence} {rise : Occurrence}
    (h : Course observer m (before ++ rise :: (during ++ after)) n) (ho : observer.SparesSystem)
    (hm : m.Isolating) (hrise : rise.core.isolatesCache = false)
    (hset : (n.core.next (during ++ after)).isolatesCache = true)
    (hduring : ∀ o ∈ during, o.core.isolatesCache = true) :
    ∃ r, rise.core.view? = some (.direct r) ∧
      (∀ earlier o later, during = earlier ++ o :: later →
        o.Shielded r (earlier.flatMap Occurrence.stored)) ∧
      ∃ v, (n.core.next after).view? = some v ∧ r.SameContents v.backing ∧
        ((n.core.next after).isolatesCache = false → ∀ as, readBytes v as = readBytes r as) := by
  obtain ⟨-, hlinked, hproper⟩ := h.linked ho hm
  obtain ⟨v, hv, hisolated⟩ :=
    hlinked.isolates hm.core rise (List.mem_append_right _ List.mem_cons_self)
  have hbehind := hlinked.behind
  have hbit := hbehind.kept_next.isolatesCache.symm.trans hset
  obtain ⟨r, rfl⟩ : ∃ r, v = .direct r := by
    cases v with
    | direct r => exact ⟨r, rfl⟩
    | isolated k => cases hisolated.trans hrise
  -- When the bit rises, the cache begins with what memory holds and nothing stored.
  have hshields : (rise.core.takes rise.change?).Shields r [] := by
    rw [Core.Shields, if_pos hbit]
    exact Core.caches_of_rise hv hrise hbit
  obtain ⟨hall, hnext⟩ := hbehind.shields hshields hduring
  refine ⟨r, hv, fun earlier o later hsplit => ?_, ?_⟩
  · refine (hall earlier o later hsplit).shielded (hproper o ?_)
    subst hsplit
    simp
  -- Behind the isolation the cache is still there or gone again; memory is unchanged in both cases.
  · unfold Core.Shields at hnext
    split at hnext
    · next hstill =>
      obtain ⟨k, hk, hhidden, -⟩ := hnext
      exact ⟨_, hk, hhidden, fun hclear => by cases hclear.symm.trans hstill⟩
    · obtain ⟨r', hr', hsame⟩ := hnext
      refine ⟨_, hr', hsame, fun _ as => ?_⟩
      exact congrArg (as.mapM ·) (funext hsame.readByte_eq)

end Machine

namespace Isolated

open Machine

/-- A program that stores to the isolated cache and loads from it: `lui $t0, 1`, `mtc0 $t0, sr`,
`sw $t0, 0x1004($zero)`, `lb $t1, 6($zero)`, `mtc0 $zero, sr`, `syscall`. -/
def image : Image :=
  ⟨0, ⟨#[0x01, 0, 0x08, 0x3C, 0, 0x60, 0x88, 0x40, 0x04, 0x10, 0x08, 0xAC, 0x06, 0, 0x09, 0x80,
    0, 0x60, 0x80, 0x40, 0x0C, 0, 0, 0]⟩, by decide⟩

/-- What happens as the program is run. -/
def occurrences : List Occurrence := (powerOn image ()).resumed.runOccurrences (.silent Unit) 1 0 0

/-- The machine behind the run. -/
def machine : Machine Unit := endState (execute (.silent Unit) 1 0 (powerOn image ()))

/-- The stores and loads of the example are a course. -/
theorem course_isolated : Course (.silent Unit) (powerOn image ()) occurrences machine := by
  unfold occurrences machine
  rw [← List.nil_append (runOccurrences ..)]
  exact .execute .start 1 0

/-- The course of the example begins with an isolating machine. -/
theorem isolating_isolated : (powerOn image ()).Isolating := by
  unfold powerOn
  exact isolating_reset _ _

/-- Between two writes to the status register the program stores a word and loads a byte of it. -/
theorem occurrences_eq : occurrences.map (fun o => (o.core.isolatesCache, o.stored)) =
    [(false, []), (false, []), (false, []),
      (true, [(0x1004, 0), (0x1005, 0), (0x1006, 1), (0x1007, 0)]), (true, []), (true, []),
      (false, [])] := by
  unfold occurrences
  rw [powerOn_eq]
  decide +kernel

/-- The byte is loaded at an address that shares a place in the cache with that of the word, and the
program ends with memory as it was. -/
theorem shields_isolated :
    ∃ before rise during after, occurrences = before ++ rise :: (during ++ after) ∧
      during.flatMap Occurrence.stored =
        [(0x1004, 0), (0x1005, 0), (0x1006, 1), (0x1007, 0)] ∧
      ∃ r, rise.core.view? = some (.direct r) ∧
        (∀ earlier o later, during = earlier ++ o :: later →
          o.Shielded r (earlier.flatMap Occurrence.stored)) ∧
        ∃ v, (machine.core.next after).view? = some v ∧ r.SameContents v.backing ∧
          ((machine.core.next after).isolatesCache = false → ∀ as, readBytes v as = readBytes r as) := by
  -- The occurrences are known one by one: two before the bit rises, three loads and stores under
  -- it, and one behind.
  have heq := occurrences_eq
  simp only [List.map_eq_cons_iff, List.map_eq_nil_iff, Prod.mk.injEq] at heq
  obtain ⟨o₁, _, ho, -, o₂, _, rfl, -, rise, _, rfl, ⟨hrise, -⟩, o₃, _, rfl, ⟨h₃, hs₃⟩, o₄, _, rfl,
    ⟨h₄, hs₄⟩, o₅, _, rfl, ⟨h₅, hs₅⟩, o₆, _, rfl, -, rfl⟩ := heq
  have hcourse : Course (.silent Unit) (powerOn image ())
      ([o₁, o₂] ++ rise :: ([o₃, o₄, o₅] ++ [o₆])) machine := by
    have h := course_isolated
    rwa [ho] at h
  refine ⟨[o₁, o₂], rise, [o₃, o₄, o₅], [o₆], ho, ?_, ?_⟩
  · simp only [List.flatMap_cons, List.flatMap_nil, hs₃, hs₄, hs₅]
    rfl
  · refine hcourse.isolation_shields Observer.sparesSystem_silent isolating_isolated hrise h₃ ?_
    simp only [List.forall_mem_cons]
    exact ⟨h₃, h₄, h₅, fun _ h => absurd h List.not_mem_nil⟩

end Isolated

end MipsMonitor
