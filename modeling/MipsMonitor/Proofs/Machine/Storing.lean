import MipsMonitor.Proofs.Machine.Likeness
import MipsMonitor.Proofs.Memory.Fetching

/-!
# What instructions store

Every store that is not refused leaves its address behind, for translations to be checked against.
`Core.Stores` says of two states of the core that the addresses left behind between them account
for every change of what can be fetched. Nothing that an instruction does, and no observer, gets
around this: `Step.stores_run` says so for a step and `Block.stores_run` for a whole block, however
they end.
-/

namespace MipsMonitor

open Address ByteMemory

namespace Word

/-- A word is aligned as a remainder says. -/
theorem isAligned_iff {a n : Word} : isAligned a n = true ↔ a.toNat % n.toNat = 0 := by
  rw [isAligned, beq_iff_eq, ← UInt32.toNat_inj, UInt32.toNat_mod]
  rfl

/-- The word that contains an address starts at a multiple of four. -/
theorem toNat_alignDown (a : Word) : (alignDown a).toNat = a.toNat / 4 * 4 := by
  have hmask : 0xFFFFFFFC = (2 ^ 30 - 1) <<< 2 := rfl
  have hlt := a.toNat_lt
  have hhigh : a.toNat >>> 2 &&& (2 ^ 30 - 1) = a.toNat >>> 2 := by
    rw [Nat.and_two_pow_sub_one_eq_mod, Nat.shiftRight_eq_div_pow]
    omega
  rw [alignDown, UInt32.toNat_and]
  change a.toNat &&& 0xFFFFFFFC = a.toNat / 2 ^ 2 * 2 ^ 2
  rw [← Nat.shiftRight_eq_div_pow, ← Nat.shiftLeft_eq, hmask]
  conv_rhs => rw [← hhigh, Nat.shiftLeft_and_distrib]
  apply Nat.eq_of_testBit_eq
  intro i
  simp only [Nat.testBit_and, Nat.testBit_shiftLeft, Nat.testBit_shiftRight]
  by_cases hi : 2 ≤ i
  · simp [hi]
  · simp [hi]

/-- The bytes of an aligned word lie in that word. -/
theorem alignDown_add {x : Word} (hx : x.toNat % 4 = 0) {k : Nat} (hk : k < 4) :
    alignDown (x + UInt32.ofNat k) = x := by
  apply UInt32.toNat_inj.mp
  rw [toNat_alignDown, Address.toNat_add_ofNat hx hk]
  omega

end Word

namespace Operation

/-- The store of an operation stays within one word. -/
theorem withinWord_of_effect {op : Operation} {pc : Word} {f : RegisterFile}
    {view? : Option (View Ram)} {e : Effect} {a : Word} {bs : List UInt8}
    (h : op.effect pc f view? = .ok e) (hstore : e.change? = some (.store a bs)) :
    WithinWord a bs.length := by
  have hdown (b : Word) (w : Word) : WithinWord (Word.alignDown b) (Word.toBytes w).length := by
    have := Word.toNat_alignDown b
    simp only [WithinWord, Word.toBytes, List.length_cons, List.length_nil]
    omega
  cases op <;> simp only [effect] at h
  case store what source l =>
    split at h
    · next haligned =>
      split at h
      · cases h
        rw [Word.isAligned_iff] at haligned
        -- Parts of a word are merged into the word that contains the address; the other stores are
        -- aligned to their width.
        cases what <;> simp only [Store.result, Option.some.injEq, Change.store.injEq] at hstore <;>
          obtain ⟨rfl, rfl⟩ := hstore
        case left => exact hdown _ _
        case right => exact hdown _ _
        all_goals
          simp only [WithinWord, Word.toBytes, Word.halfToBytes, List.length_cons, List.length_nil,
            Store.alignment, UInt32.reduceToNat] at haligned ⊢
          omega
      · cases h
    · cases h
  case storeGeometry source l =>
    split at h
    · next haligned =>
      cases h
      rw [Word.isAligned_iff] at haligned
      simp only [Option.some.injEq, Change.store.injEq] at hstore
      obtain ⟨rfl, rfl⟩ := hstore
      simp only [WithinWord, Word.toBytes, List.length_cons, List.length_nil,
        UInt32.reduceToNat] at haligned ⊢
      omega
    · cases h
  all_goals
    repeat' split at h
    all_goals
      cases h
      try cases hstore

end Operation

namespace Core

/-- What is fetched from an address; nothing without memory. -/
def word? (c : Core) (x : Word) : Option (Except MemoryError Word) :=
  c.view?.map fun v => readWord v.backing x

/-- From one state to the other, memory stayed attached if it was, and the addresses left behind
account for every change of what is fetched from an aligned address. -/
def Stores (c c' : Core) : Prop :=
  c'.view?.isSome = c.view?.isSome ∧
    ∃ added, c'.written = added ++ c.written ∧
      ∀ x : Word, x.toNat % 4 = 0 → c'.word? x ≠ c.word? x → ∃ a ∈ added, Overwrites a x

/-- From one state to the other nothing was stored and memory was neither hidden nor given back. -/
structure Untouched (c c' : Core) : Prop where
  /-- The view is the same. -/
  view? : c'.view? = c.view?
  /-- No store left its address. -/
  written : c'.written = c.written

namespace Untouched

/-- A core is untouched where nothing happens. -/
theorem refl (c : Core) : c.Untouched c := ⟨rfl, rfl⟩

/-- What is untouched twice is untouched. -/
theorem trans {c c' c'' : Core} (h : c.Untouched c') (h' : c'.Untouched c'') : c.Untouched c'' :=
  ⟨h'.view?.trans h.view?, h'.written.trans h.written⟩

/-- A note leaves the core untouched. -/
theorem note (c : Core) (entries : List Entry) : c.Untouched (c.note entries) :=
  ⟨c.view?_note entries, c.written_note entries⟩

/-- What is asked of a core leaves it untouched. -/
theorem heed (c : Core) (notices : List Notice) : c.Untouched (notices.foldl Core.heed c) := by
  induction notices generalizing c with
  | nil => exact .refl c
  | cons n notices ih =>
    refine trans ?_ (ih (c.heed n))
    cases n with
    | stop => exact ⟨rfl, rfl⟩
    | report entry => exact .note c [entry]

end Untouched

namespace Stores

variable {c c' c'' : Core}

/-- Nothing is stored where what is fetched stays the same. -/
theorem of_word?_eq (hview : c'.view?.isSome = c.view?.isSome) (hwritten : c'.written = c.written)
    (h : ∀ x, c'.word? x = c.word? x) : c.Stores c' :=
  ⟨hview, [], hwritten, fun x _ hne => absurd (h x) hne⟩

/-- What is untouched has stored nothing. -/
theorem of_untouched (h : c.Untouched c') : c.Stores c' := by
  refine of_word?_eq (by rw [h.view?]) h.written fun x => ?_
  rw [word?, word?, h.view?]

/-- A core has stored nothing where nothing happens. -/
theorem refl (c : Core) : c.Stores c := of_untouched (.refl c)

/-- What was stored in two stretches was stored in both together. -/
theorem trans (h : c.Stores c') (h' : c'.Stores c'') : c.Stores c'' := by
  obtain ⟨hview, added, hwritten, hword⟩ := h
  obtain ⟨hview', added', hwritten', hword'⟩ := h'
  refine ⟨hview'.trans hview, added' ++ added, ?_, fun x hx hne => ?_⟩
  · rw [hwritten', hwritten, List.append_assoc]
  · by_cases hsame : c'.word? x = c.word? x
    · obtain ⟨a, ha, hover⟩ := hword' x hx (hsame ▸ hne)
      exact ⟨a, List.mem_append_left _ ha, hover⟩
    · obtain ⟨a, ha, hover⟩ := hword x hx hsame
      exact ⟨a, List.mem_append_right _ ha, hover⟩

end Stores

/-- The sink does not show in a word that is read. -/
theorem readWord_withSink (r : Ram) (sink : Sink) (x : Word) :
    readWord (ByteMemory.withSink r sink) x = readWord r x :=
  Ram.readWord_congr fun _ _ d _ => by cases d <;> rfl

/-- Hiding memory and giving it back leaves what is fetched alone. -/
theorem readWord_viewFor (sink : Sink) (old new : Status) (v : View Ram) (x : Word) :
    readWord (viewFor sink old new v).backing x = readWord v.backing x := by
  unfold viewFor
  split
  · rfl
  · split
    · cases v <;> exact readWord_withSink _ sink x
    · cases v <;> rfl

/-- A write to system control stores nothing. -/
theorem stores_writeSystem (c : Core) (index : Nat) (w : Word) :
    c.Stores (c.writeSystem index w) := by
  unfold writeSystem
  split
  · refine .of_word?_eq ?_ ?_ fun x => ?_
    · simp only [report, view?_note, Option.isSome_map]
    · simp only [report, written_note]
    · simp only [word?, report, view?_note, Option.map_map]
      congr 1
      funext v
      exact readWord_viewFor _ _ _ v x
  · exact .of_untouched (.note c _)

/-- A store within one word accounts for what it changes. -/
theorem stores_store {a : Word} {bs : List UInt8} (ha : WithinWord a bs.length) (c : Core) :
    Leads c.Stores (c.store a bs) := by
  obtain ⟨registers, view?, stopped, ticks, sink, written, log⟩ := c
  cases view? with
  | none => exact .refl _
  | some v =>
    -- A word that reads differently is overlapped by what is stored.
    have hword (x : Word) (hx : x.toNat % 4 = 0) :=
      View.overwrites_of_readWord_ne bs v ha hx
    simp only [store, poke]
    cases hw : writeBytes a bs v with
    | ok u v' =>
      simp only [hw] at hword
      refine ⟨?_, [a], ?_, fun x hx hne => ⟨a, List.mem_singleton_self a, hword x hx fun h => ?_⟩⟩
      · simp only [view?_note, Option.isSome_some]
      · simp only [written_note, List.singleton_append]
      · simp only [word?, view?_note, Option.map_some, h, ne_eq, not_true_eq_false] at hne
    | error e v' =>
      -- A store within one word is refused at its first byte, so no word has changed.
      simp only [hw] at hword
      refine ⟨?_, [], ?_, fun x hx hne => ?_⟩
      · simp only [view?_note, Option.isSome_some]
      · simp only [written_note, List.nil_append]
      · simp only [word?, view?_note, Option.map_some, hword x hx, ne_eq, not_true_eq_false] at hne

end Core

namespace Guest

variable {σ : Type}

/-- Actions leave memory alone. -/
theorem untouched_actAll (observer : Observer σ) (address : Word) (actions : List Action)
    (g : Guest σ) :
    Leads (fun g' => g.core.Untouched g'.core) (g.actAll observer address actions) :=
  leads_actAll (.refl g.core) fun action _ g' h =>
    leads_act (fun notices => h.trans (.heed g'.core notices)) address action

/-- A write to a watched register leaves the core untouched. -/
theorem untouched_write (observer : Observer σ) (t : Tracked) (w : Word) (g : Guest σ) :
    g.core.Untouched (g.write observer t w).core :=
  holds_write (.refl g.core) (fun _ => ⟨rfl, rfl⟩) fun c notices h => h.trans (.heed c notices)

/-- Writes to watched registers leave the core untouched. -/
theorem untouched_writes (observer : Observer σ) (writes : List (Tracked × Word)) (g : Guest σ) :
    g.core.Untouched (writes.foldl (fun g (t, w) => g.write observer t w) g).core :=
  writes_induction (P := fun g' => g.core.Untouched g'.core) (.refl g.core) writes fun t w g' h =>
    h.trans (untouched_write observer t w g')

/-- What an operation reads leaves the core untouched. -/
theorem untouched_noteReads (op : Operation) (g : Guest σ) :
    g.core.Untouched (g.noteReads op).core := by
  obtain ⟨entries, h⟩ := noteReads_eq op g
  rw [h]
  exact .note g.core entries

/-- A trap leaves the core untouched. -/
theorem untouched_trap (t : Trap) (g : Guest σ) :
    Leads (fun g' => g.core.Untouched g'.core) (g.trap t) := by
  simp only [trap, Leads]
  split
  · exact ⟨rfl, rfl⟩
  · exact .refl g.core

/-- A change stores what it leaves addresses of. -/
theorem stores_change {pc : Word} {what : Change} {flow : Flow}
    (hwithin : ∀ a bs, what = .store a bs → WithinWord a bs.length) (g : Guest σ) :
    Leads (fun g' => g.core.Stores g'.core) (g.change pc what flow) := by
  cases what with
  | system index w => exact g.core.stores_writeSystem index w
  | geometry dest w => exact .of_untouched ⟨rfl, rfl⟩
  | store a bs =>
    exact leads_store (Core.stores_store (hwithin a bs rfl) g.core) fun t g' h =>
      (untouched_trap t g').mono fun _ h' => h.trans (.of_untouched h')

/-- An operation stores what it leaves addresses of. -/
theorem stores_perform (observer : Observer σ) (pc : Word) (op : Operation) (g : Guest σ) :
    Leads (fun g' => g.core.Stores g'.core) (g.perform observer pc op) := by
  refine leads_perform (Q := fun g' => g.core.Untouched g'.core) (untouched_noteReads op g)
    (fun t w g' h => h.trans (untouched_write observer t w g'))
    (fun t g' h => (untouched_trap t g').mono fun _ h' => .of_untouched (h.trans h'))
    (fun _ _ _ _ h => .of_untouched h) fun e what g' heffect hchange h => ?_
  refine (stores_change (fun a bs ha => ?_) g').mono fun _ h' =>
    (Core.Stores.of_untouched h).trans h'
  exact Operation.withinWord_of_effect heffect (hchange.trans (congrArg some ha))

end Guest

variable {σ : Type}

/-- What a step stores accounts for what it changes. -/
theorem Step.stores_run (observer : Observer σ) (s : Step) (g : Guest σ) :
    Leads (fun g' => g.core.Stores g'.core) (s.run observer g) := by
  unfold Step.run
  exact Leads.bind (Guest.untouched_actAll observer s.address s.actions g)
    (fun _ h => .of_untouched h) fun _ g' h =>
      (Guest.stores_perform observer s.address s.operation g').mono fun _ h' =>
        (Core.Stores.of_untouched h).trans h'

namespace Block

/-- Steps store what they leave addresses of. -/
theorem stores_runSteps (observer : Observer σ) (exit : Exit) (steps : List Step) (g : Guest σ) :
    Leads (fun g' => g.core.Stores g'.core) (runSteps observer exit steps g) :=
  leads_runSteps (.refl g.core) (fun s _ g' h => (s.stores_run observer g').mono fun _ h' => h.trans h')
    exit

/-- What a block stores accounts for what it changes. -/
theorem stores_run (observer : Observer σ) (b : Block) (g : Guest σ) :
    Leads (fun g' => g.core.Stores g'.core) (b.run observer g) :=
  stores_runSteps observer _ b.steps g

end Block

end MipsMonitor
