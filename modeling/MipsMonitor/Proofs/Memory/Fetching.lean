import MipsMonitor.Proofs.Memory.Segments
import MipsMonitor.Proofs.Outcome
import Mathlib.Tactic.ByContra

/-!
# Fetched words and stores

Instructions are fetched a word at a time, and stores replace bytes of memory or of the cache that
hides it. A fetched word depends on the cells behind its four bytes (`Ram.readWord_congr`), and an
address that cannot be fetched from stays so (`Ram.readWord_error`). A store within one word is
refused as a whole or not at all, and it changes no cell that it does not reach.

The main statement is `View.overwrites_of_readWord_ne`: where a store changes what is fetched from
an address, it was not refused, and its first address overwrites that address in the sense of
`Address.Overwrites`, which is what translations are checked against, or it goes through another
mirror.
-/

namespace MipsMonitor

namespace Address

/-- A store whose first byte goes to `a` touches the word at `x`, as far as the two can be told from
their addresses. -/
def Overwrites (a x : Word) : Prop :=
  ∃ k < 4, x + UInt32.ofNat k ∈ aliases a ∨ Mirrors (x + UInt32.ofNat k) a

/-- A store of bytes from `a` on stays within one word. -/
def WithinWord (a : Word) (count : Nat) : Prop := a.toNat % 4 + count ≤ 4

/-- One address after the next is one after the first. -/
theorem add_ofNat_succ (a : Word) (i : Nat) :
    a + UInt32.ofNat (i + 1) = a + 1 + UInt32.ofNat i := by
  rw [UInt32.ofNat_add, UInt32.add_comm (UInt32.ofNat i), ← UInt32.add_assoc]
  rfl

/-- A run of addresses is the first one and the run from the next one on. -/
theorem run_succ (a : Word) (n : Nat) : run a (n + 1) = a :: run (a + 1) n := by
  unfold run
  rw [List.range_succ_eq_map, List.map_cons, List.map_map]
  refine congrArg₂ _ (UInt32.add_zero a) (List.map_congr_left fun i _ => ?_)
  exact add_ofNat_succ a i

/-- Every address is a byte of an aligned word. -/
theorem exists_aligned (a : Word) :
    ∃ w : Word, w.toNat % 4 = 0 ∧ a = w + UInt32.ofNat (a.toNat % 4) := by
  have hlt := a.toNat_lt
  have hw : (UInt32.ofNat (a.toNat - a.toNat % 4)).toNat = a.toNat - a.toNat % 4 := by
    rw [UInt32.toNat_ofNat']
    exact Nat.mod_eq_of_lt (by omega)
  refine ⟨UInt32.ofNat (a.toNat - a.toNat % 4), by omega, UInt32.toNat_inj.mp ?_⟩
  rw [toNat_add_ofNat (by omega) (Nat.mod_lt _ (by decide)), hw]
  omega

/-- Every window begins and ends with a word, and is writable as a whole. -/
theorem isWritable_physicalCell?_add {p j : Nat} (hp : p % 4 = 0) (hj : j < 4) :
    (physicalCell? (p + j)).map Cell.isWritable = (physicalCell? p).map Cell.isWritable := by
  unfold physicalCell?
  repeat' split
  all_goals first | (exfalso; omega) | simp only [Option.map_some, Option.map_none, Cell.isWritable]

/-- The bytes of an aligned word are writable together. -/
theorem isWritable_cell?_add {w : Word} (hw : w.toNat % 4 = 0) {j : Nat} (hj : j < 4) :
    (cell? (w + UInt32.ofNat j)).map Cell.isWritable = (cell? w).map Cell.isWritable := by
  rw [cell?, cell?, toNat_physical_add hw hj]
  exact isWritable_physicalCell?_add (toNat_physical_mod hw) hj

/-- A write is accepted where there is a writable cell. -/
theorem refusal?_eq_none {a : Word} :
    refusal? a = none ↔ (cell? a).map Cell.isWritable = some true := by
  unfold refusal?
  cases cell? a with
  | none => simp
  | some c => cases h : c.isWritable <;> simp [h]

/-- The bytes of a word are all refused or all accepted. -/
theorem refusal?_eq_none_iff {w : Word} (hw : w.toNat % 4 = 0) {j k : Nat} (hj : j < 4)
    (hk : k < 4) : refusal? (w + UInt32.ofNat j) = none ↔ refusal? (w + UInt32.ofNat k) = none := by
  rw [refusal?_eq_none, refusal?_eq_none, isWritable_cell?_add hw hj, isWritable_cell?_add hw hk]

end Address

namespace Ram

open ByteMemory

/-- A byte is read from the cell of its address, if there is one. -/
theorem readByte_eq (r : Ram) (a : Word) :
    readByte r a = match Address.cell? a with
      | some c => .ok (r.get c)
      | none => .error (.unmapped a) := rfl

/-- Bytes depend on their cells alone. -/
theorem readBytes_congr {r r' : Ram} {as : List Word}
    (h : ∀ a ∈ as, ∀ c, Address.cell? a = some c → r'.get c = r.get c) :
    readBytes r' as = readBytes r as := by
  have hbyte : ∀ a ∈ as, readByte r' a = readByte r a := by
    intro a ha
    rw [readByte_eq, readByte_eq]
    cases hc : Address.cell? a with
    | none => rfl
    | some c => simp only [h a ha c hc]
  clear h
  unfold readBytes
  induction as with
  | nil => rfl
  | cons a as ih =>
    rw [List.mapM_cons, List.mapM_cons, hbyte a List.mem_cons_self,
      ih fun b hb => hbyte b (List.mem_cons_of_mem a hb)]

/-- Why bytes cannot be read depends on their addresses alone. -/
theorem readBytes_error {r r' : Ram} {as : List Word} {e : MemoryError}
    (h : readBytes r as = .error e) : readBytes r' as = .error e := by
  induction as with
  | nil => cases h
  | cons a as ih =>
    unfold readBytes at h ih ⊢
    rw [List.mapM_cons, readByte_eq] at h ⊢
    -- Whether a byte can be read depends on its address alone.
    cases hc : Address.cell? a with
    | none =>
      rw [hc] at h
      exact h
    | some c =>
      rw [hc] at h
      cases hrest : as.mapM (readByte r) with
      | error e' =>
        simp only [hrest, bind, Except.bind] at h
        simp only [ih (hrest.trans h), bind, Except.bind]
      | ok bs => simp only [hrest, bind, Except.bind, pure, Except.pure, reduceCtorEq] at h

/-- A word depends on the cells behind its bytes alone. -/
theorem readWord_congr {r r' : Ram} {x : Word}
    (h : ∀ j < 4, ∀ c, Address.cell? (x + UInt32.ofNat j) = some c → r'.get c = r.get c) :
    readWord r' x = readWord r x := by
  unfold readWord readNumber
  rw [readBytes_congr]
  intro a ha c hc
  obtain ⟨j, hj, rfl⟩ := List.mem_map.mp ha
  exact h j (List.mem_range.mp hj) c hc

/-- Why a word cannot be fetched depends on its address alone. -/
theorem readWord_error {r r' : Ram} {x : Word} {e : MemoryError} (h : readWord r x = .error e) :
    readWord r' x = .error e := by
  unfold readWord readNumber at h ⊢
  cases hb : readBytes r (Address.run x 4) with
  | ok bs =>
    rw [hb] at h
    cases h
  | error e' =>
    rw [hb] at h
    cases h
    rw [readBytes_error hb]
    rfl

/-- What was fetched from one memory has an address where every memory has a cell. -/
theorem exists_cell?_of_readWord {r : Ram} {x w : Word} (h : readWord r x = .ok w) :
    ∃ c, Address.cell? x = some c := by
  cases hc : Address.cell? x with
  | some c => exact ⟨c, rfl⟩
  | none =>
    have hx : x + UInt32.ofNat 0 = x := UInt32.add_zero x
    simp only [readWord, readNumber, readBytes, Address.run, List.range_succ_eq_map, List.map_cons,
      List.mapM_cons, hx, readByte_eq, hc, bind, Except.bind, Except.map, reduceCtorEq] at h

/-- What a store leaves in memory, refused or not: a changed cell was reached by one of its bytes
and takes new values. -/
theorem get_writeBytes (a : Word) (bs : List UInt8) (r : Ram) :
    Leads (fun r' => ∀ c, r'.get c ≠ r.get c →
      ∃ i < bs.length, Address.cell? (a + UInt32.ofNat i) = some c ∧ c.isWritable = true)
      (writeBytes a bs r) := by
  induction bs generalizing a r with
  | nil => exact fun c h => absurd rfl h
  | cons b bs ih =>
    unfold writeBytes
    cases hr : refusal? r a with
    | some e => exact fun c h => absurd rfl h
    | none =>
      refine Leads.mono (ih _ _) fun r' h c hc => ?_
      -- A cell that changed was changed by the first byte or by one of the rest.
      by_cases hput : (put r a b).get c = r.get c
      · obtain ⟨i, hi, hcell, hw⟩ := h c (hput ▸ hc)
        exact ⟨i + 1, Nat.succ_lt_succ hi, Address.add_ofNat_succ a i ▸ hcell, hw⟩
      · refine ⟨0, Nat.succ_pos _, ?_⟩
        rw [show a + UInt32.ofNat 0 = a from UInt32.add_zero a]
        change (match Address.cell? a with | some d => r.set d b | none => r).get c ≠ _ at hput
        cases hcell : Address.cell? a with
        | none =>
          rw [hcell] at hput
          exact absurd rfl hput
        | some d =>
          rw [hcell] at hput
          simp only [get_set] at hput
          split at hput
          · next hd => exact ⟨congrArg some hd.1, hd.1 ▸ hd.2⟩
          · exact absurd rfl hput

/-- A store whose bytes are all accepted is not refused. -/
theorem writeBytes_accepted (a : Word) (bs : List UInt8) (r : Ram)
    (h : ∀ i < bs.length, Address.refusal? (a + UInt32.ofNat i) = none) :
    ∃ r', writeBytes a bs r = .ok () r' := by
  induction bs generalizing a r with
  | nil => exact ⟨r, rfl⟩
  | cons b bs ih =>
    have h0 : refusal? r a = none := by
      have := h 0 (Nat.succ_pos _)
      rwa [show a + UInt32.ofNat 0 = a from UInt32.add_zero a] at this
    unfold writeBytes
    rw [h0]
    exact ih _ _ fun i hi => Address.add_ofNat_succ a i ▸ h (i + 1) (Nat.succ_lt_succ hi)

/-- A refused store within one word leaves memory as it was. -/
theorem eq_of_writeBytes_error {a : Word} {bs : List UInt8} {r r' : Ram} {e : MemoryError}
    (ha : Address.WithinWord a bs.length) (h : writeBytes a bs r = .error e r') : r' = r := by
  obtain ⟨w, hw, haw⟩ := Address.exists_aligned a
  generalize hk : a.toNat % 4 = k at haw
  unfold Address.WithinWord at ha
  cases bs with
  | nil => cases h
  | cons b bs =>
    rw [List.length_cons] at ha
    cases hr : Address.refusal? a with
    | some e' =>
      unfold writeBytes at h
      rw [show refusal? r a = some e' from hr] at h
      cases h
      rfl
    | none =>
      -- If the first byte is accepted, so are the others.
      obtain ⟨r'', hok⟩ := writeBytes_accepted a (b :: bs) r fun i hi => by
        rw [List.length_cons] at hi
        rw [haw] at hr ⊢
        rw [UInt32.add_assoc, ← UInt32.ofNat_add]
        exact (Address.refusal?_eq_none_iff hw (by omega) (by omega)).mp hr
      rw [hok] at h
      cases h

/-- A store within one word that changes what is fetched from an aligned address was not refused,
and overwrites that address. -/
theorem overwrites_of_readWord_ne {a x : Word} (bs : List UInt8) (r : Ram)
    (ha : Address.WithinWord a bs.length) (hx : x.toNat % 4 = 0) :
    match writeBytes a bs r with
    | .ok () r' => readWord r' x ≠ readWord r x → Address.Overwrites a x
    | .error _ r' => readWord r' x = readWord r x := by
  have hget := get_writeBytes a bs r
  cases h : writeBytes a bs r with
  | error e r' => rw [eq_of_writeBytes_error ha h]
  | ok u r' =>
    rw [h] at hget
    intro hne
    obtain ⟨w, hw, haw⟩ := Address.exists_aligned a
    generalize hk : a.toNat % 4 = k at haw
    -- A word that reads differently has a byte whose cell changed, and that cell was written.
    have hcell : ∃ j < 4, ∃ c, Address.cell? (x + UInt32.ofNat j) = some c ∧ r'.get c ≠ r.get c := by
      by_contra hnone
      exact hne (readWord_congr fun j hj c hc => by
        by_contra hchanged
        exact hnone ⟨j, hj, c, hc, hchanged⟩)
    obtain ⟨j, hj, c, hc, hchanged⟩ := hcell
    obtain ⟨i, hi, hc', hwritable⟩ := hget c hchanged
    unfold Address.WithinWord at ha
    rw [haw, UInt32.add_assoc, ← UInt32.ofNat_add] at hc'
    refine ⟨k, by omega, ?_⟩
    rw [haw]
    exact Address.mem_aliases_or_mirrors hx hw hj (by omega) hc hc' hwritable

end Ram

namespace View

open ByteMemory

/-- A store to a view that hides nothing is a store to memory. -/
theorem writeBytes_direct (a : Word) (bs : List UInt8) (r : Ram) :
    writeBytes a bs (direct r) = match writeBytes a bs r with
      | .ok () r' => .ok () (direct r')
      | .error e r' => .error e (direct r') := by
  induction bs generalizing a r with
  | nil => rfl
  | cons b bs ih =>
    have hrefusal : refusal? (direct r) a = refusal? r a := rfl
    unfold writeBytes
    rw [hrefusal]
    cases refusal? r a with
    | some e => rfl
    | none => exact ih (a + 1) (put r a b)

/-- A store to an isolated view is never refused, and leaves memory alone. -/
theorem writeBytes_isolated (a : Word) (bs : List UInt8) (c : Cached Ram) :
    ∃ c', writeBytes a bs (isolated c) = .ok () (isolated c') ∧ c'.hidden = c.hidden := by
  induction bs generalizing a c with
  | nil => exact ⟨c, rfl, rfl⟩
  | cons b bs ih =>
    obtain ⟨c', hok, hhidden⟩ := ih (a + 1) (put c a b)
    exact ⟨c', hok, hhidden⟩

/-- A store within one word that changes what is fetched from an aligned address was not refused,
and overwrites that address. -/
theorem overwrites_of_readWord_ne {a x : Word} (bs : List UInt8) (v : View Ram)
    (ha : Address.WithinWord a bs.length) (hx : x.toNat % 4 = 0) :
    match writeBytes a bs v with
    | .ok () v' => readWord v'.backing x ≠ readWord v.backing x → Address.Overwrites a x
    | .error _ v' => readWord v'.backing x = readWord v.backing x := by
  cases v with
  | direct r =>
    have hr := Ram.overwrites_of_readWord_ne bs r ha hx
    rw [writeBytes_direct]
    cases h : writeBytes a bs r <;> rw [h] at hr <;> exact hr
  | isolated c =>
    obtain ⟨c', hok, hhidden⟩ := writeBytes_isolated a bs c
    rw [hok]
    intro hne
    exact absurd (congrArg (readWord · x) hhidden) hne

end View

end MipsMonitor
