import MipsMonitor.Proofs.Memory.Accesses

/-!
# Images outlast a reset

What memory holds after a reset is decided by the images that were laid over it, and by the order in
which they were. A history is a list of calls (`Ram.Call`): images for the boot ROM, images for main
memory, writes of any width, and resets. `Ram.reset_perform` says what one call does to the memory
that a reset would leave: an accepted image changes it just as it changes the memory itself, and
everything else keeps it. Over a history this adds up to `Ram.reset_replays`: the reset at its end
leaves what the accepted images alone make of fresh memory.

A load is accepted if its address designates main memory and the image ends within the copy of main
memory that the address reaches (`Ram.load_isOk_iff`). The image then takes the cells of the
addresses that it was loaded to, through whatever segment and mirror (`Ram.readByte_load`).
-/

namespace MipsMonitor

open ByteMemory Address

namespace Ram

/-- What can be done to memory from outside. -/
inductive Call where
  /-- An image is laid over the boot ROM. -/
  | installRom (image : ByteArray)
  /-- An image is laid over main memory. -/
  | load (address : Word) (image : ByteArray)
  /-- Bytes are written from an address on: one, two or four of them, or as many as one likes. -/
  | write (address : Word) (bytes : List UInt8)
  /-- Memory is reset. -/
  | reset

/-- The memory after a call. There is none if an image is refused for the boot ROM, which takes the
memory with it; loads that are refused and writes that fail leave it behind. -/
def Call.perform (r : Ram) : Call → Option Ram
  | installRom image => (r.withRom image).toOption
  | load address image => some ((r.load address image).toOption.getD r)
  | write address bytes => some (endState (writeBytes address bytes r))
  | reset => some r.reset

/-- The call lays an image over memory and is not refused. -/
def Call.lasts (r : Ram) : Call → Bool
  | installRom image => (r.withRom image).isOk
  | load address image => (r.load address image).isOk
  | write _ _ | reset => false

/-- The memory after the calls of a history. -/
def performAll (r : Ram) (calls : List Call) : Option Ram := calls.foldlM Call.perform r

/-- The calls of a history that lay an image over memory, each judged when it comes to it. -/
def lasting : Ram → List Call → List Call
  | _, [] => []
  | r, call :: calls =>
    let later := match call.perform r with
      | some r' => lasting r' calls
      | none => []
    if call.lasts r then call :: later else later

/-- Memory as it comes, reporting to a sink or to nobody. -/
def fresh (sink? : Option Sink) : Ram := { blank with sink? }

variable {r r' : Ram} {a : Word} {image : ByteArray}

/-- Fresh memory is what a reset leaves of it. -/
theorem reset_fresh (sink? : Option Sink) : (fresh sink?).reset = fresh sink? := rfl

/-- A byte that is written does not outlast a reset. -/
theorem reset_put (r : Ram) (a : Word) (b : UInt8) : reset (put r a b) = r.reset := by
  have hset (c : Cell) : reset (r.set c b) = r.reset := by cases c <;> rfl
  cases hc : cell? a with
  | none => simp only [put, hc]
  | some c => simp only [put, hc, hset]

/-- Nor do more of them, whether or not the write fails on the way. -/
theorem reset_writeBytes (a : Word) (bs : List UInt8) (r : Ram) :
    reset (endState (writeBytes a bs r)) = r.reset := by
  induction bs generalizing a r with
  | nil => rfl
  | cons b bs ih =>
    unfold writeBytes
    split
    · rfl
    · rw [ih, reset_put]

/-- An image for the boot ROM is laid over the memory that a reset leaves as well. -/
theorem withRom_reset (h : r.withRom image = .ok r') : r.reset.withRom image = .ok r'.reset := by
  unfold withRom at h ⊢
  split at h
  · next hfits =>
    cases h
    rw [dif_pos hfits]
    rfl
  · cases h

/-- An image for main memory is laid over the memory that a reset leaves as well: as the last one,
it comes to lie on top of those that are put back. -/
theorem load_reset (h : r.load a image = .ok r') : r.reset.load a image = .ok r'.reset := by
  unfold load at h ⊢
  split at h
  · split at h
    · next hfits =>
      cases h
      simp only [dif_pos hfits, reset, replay, List.foldl_append, List.foldl_cons, List.foldl_nil]
    · cases h
  · cases h

/-- What a call does to the memory that a reset leaves: an image that is accepted does to it what it
does to memory, and everything else passes without a trace. -/
theorem reset_perform {call : Call} (h : call.perform r = some r') :
    (call.lasts r = true ∧ call.perform r.reset = some r'.reset) ∨
      (call.lasts r = false ∧ r'.reset = r.reset) := by
  cases call with
  | installRom image =>
    simp only [Call.perform, Call.lasts] at h ⊢
    cases hrom : r.withRom image with
    | error e => simp only [hrom, Except.toOption, reduceCtorEq] at h
    | ok installed =>
      simp only [hrom, Except.toOption, Option.some.injEq] at h
      subst h
      refine .inl ⟨rfl, ?_⟩
      rw [withRom_reset hrom]
      rfl
  -- A load that fails changes nothing, and then nothing of it lasts either.
  | load a image =>
    simp only [Call.perform, Call.lasts, Option.some.injEq] at h ⊢
    cases hload : r.load a image with
    | error e =>
      simp only [hload, Except.toOption, Option.getD_none] at h
      exact .inr ⟨rfl, congrArg Ram.reset h.symm⟩
    | ok loaded =>
      simp only [hload, Except.toOption, Option.getD_some] at h
      subst h
      refine .inl ⟨rfl, ?_⟩
      rw [load_reset hload]
      rfl
  | write a bs =>
    cases h
    exact .inr ⟨rfl, reset_writeBytes a bs r⟩
  | reset =>
    cases h
    exact .inr ⟨rfl, rfl⟩

/-- The lasting calls of a history do to the memory that a reset leaves what the history does to
memory, up to a reset. -/
theorem performAll_lasting {calls : List Call} (h : performAll r calls = some r') :
    performAll r.reset (lasting r calls) = some r'.reset := by
  induction calls generalizing r with
  | nil =>
    cases h
    rfl
  | cons call calls ih =>
    obtain ⟨next, hcall, hrest⟩ := Option.bind_eq_some_iff.mp h
    obtain ⟨hlasts, hreset⟩ | ⟨hpasses, hreset⟩ := reset_perform hcall
    · simp only [lasting, hcall, hlasts, if_true]
      rw [performAll, List.foldlM_cons, hreset]
      exact ih hrest
    · simp only [lasting, hcall, hpasses, Bool.false_eq_true, if_false]
      rw [← hreset]
      exact ih hrest

/-- Main memory is laid out along the addresses, within the copy that they reach. -/
theorem cell?_add {i : Fin 0x200000} (h : cell? a = some (.main i)) {k : Nat}
    (hk : i.val + k < 0x200000) : cell? (a + UInt32.ofNat k) = some (.main ⟨i.val + k, hk⟩) := by
  obtain ⟨hlow, hi⟩ := isAt_of_physicalCell? h
  have hp := toNat_physical a
  have hq := toNat_physical (a + UInt32.ofNat k)
  have hsum : (a + UInt32.ofNat k).toNat = (a.toNat + k) % 4294967296 := by
    rw [UInt32.toNat_add, UInt32.toNat_ofNat', Nat.add_mod_mod]
  have hlt := a.toNat_lt
  have hplace : (physical (a + UInt32.ofNat k)).toNat = (physical a).toNat + k := by
    rw [hsum] at hq
    omega
  have hmain : (physical (a + UInt32.ofNat k)).toNat < 0x800000 := by omega
  unfold cell? physicalCell?
  rw [if_pos hmain]
  congr 3
  omega

/-- A load is accepted if its address designates main memory and the image ends within the copy of
main memory that it reaches. -/
theorem load_isOk_iff : (∃ r', r.load a image = .ok r') ↔
    In a .main ∧ (physical a).toNat % 0x200000 + image.size ≤ 0x200000 := by
  constructor
  · rintro ⟨r', h⟩
    unfold load at h
    split at h
    · next i hc =>
      split at h
      · next hfits => exact ⟨in_window hc, (isAt_of_physicalCell? hc).2 ▸ hfits⟩
      · cases h
    · cases h
  · rintro ⟨hmain, hfits⟩
    obtain ⟨c, hc, hwindow⟩ := exists_cell? hmain
    cases c with
    -- Only main memory takes an image, and only one that fits.
    | main i =>
      rw [(isAt_of_physicalCell? hc).2] at hfits
      simp only [load, hc, dif_pos hfits, Except.ok.injEq, exists_eq']
    | expansion | scratchpad | port | rom | cacheControl => cases hwindow

/-- The bytes of an image that is accepted are read at the addresses that it was loaded to, and all
other cells keep theirs. -/
theorem readByte_load (h : r.load a image = .ok r') :
    (∀ i (hi : i < image.size), readByte r' (a + UInt32.ofNat i) = .ok image[i]) ∧
      ∀ b, (∀ i < image.size, ¬SameCell (a + UInt32.ofNat i) b) →
        readByte r' b = readByte r b := by
  unfold load at h
  split at h
  case h_2 => cases h
  case h_1 i hc =>
  split at h
  case isFalse => cases h
  case isTrue hfits =>
  cases h
  -- Byte by byte the image lies over the cells from `i` on.
  have hbyte (j : Fin 0x200000) := Cells.get_overlay r.main i image hfits j
  have hcell {k : Nat} (hk : k < image.size) := cell?_add hc (show i.val + k < 0x200000 by omega)
  refine ⟨fun k hk => ?_, fun b hb => ?_⟩
  · have hat := hbyte ⟨i.val + k, by omega⟩
    rw [if_pos ⟨Nat.le_add_right _ _, Nat.add_lt_add_left hk _⟩, Nat.add_sub_cancel_left,
      Array.getElem?_eq_getElem hk] at hat
    rw [readByte_eq, hcell hk]
    exact congrArg Except.ok (Option.some.inj hat)
  · rw [readByte_eq, readByte_eq]
    cases hother : cell? b with
    | none => rfl
    | some c =>
      cases c with
      | main j =>
        have hout : ¬(i.val ≤ j ∧ j < i.val + image.size) := fun ⟨hle, hlt⟩ => by
          have hk : j.val - i.val < image.size := by omega
          refine hb _ hk ((cell?_eq_some_iff (hcell hk) rfl).mp ?_)
          rw [hother]
          exact congrArg (fun i => some (Cell.main i)) (Fin.ext (Nat.add_sub_cancel' hle).symm)
        have hat := hbyte j
        rw [if_neg hout] at hat
        exact congrArg Except.ok (Option.some.inj hat)
      | expansion | scratchpad | port | rom | cacheControl => rfl

/-- A reset puts back what the images make of fresh memory, whatever has happened in between. After
any history the memory that a reset leaves is the one that the accepted images alone lead to, in
their order and without the loads that were refused, the writes and the earlier resets. A load that
is refused leaves nothing behind, now or after any further calls. One that is accepted puts every
byte of its image where it belongs and leaves every other cell alone. -/
theorem reset_replays (sink? : Option Sink) (calls : List Call) (r : Ram)
    (h : performAll (fresh sink?) calls = some r) :
    performAll (fresh sink?) (lasting (fresh sink?) calls) = some r.reset ∧
    ∀ a image,
      (∀ e, r.load a image = .error e → ∀ later,
        performAll r (.load a image :: later) = performAll r later) ∧
      ∀ r', r.load a image = .ok r' →
        (∀ i (hi : i < image.size), readByte r' (a + UInt32.ofNat i) = .ok image[i]) ∧
          ∀ b, (∀ i < image.size, ¬SameCell (a + UInt32.ofNat i) b) →
            readByte r' b = readByte r b := by
  have hreplay := performAll_lasting h
  rw [reset_fresh] at hreplay
  refine ⟨hreplay, fun a image => ⟨fun e he later => ?_, fun r' => readByte_load⟩⟩
  -- A load that fails leaves the memory, and so what comes later, as it was.
  have hsame : Call.perform r (.load a image) = some r := by
    simp only [Call.perform, he, Except.toOption, Option.getD_none]
  rw [performAll, List.foldlM_cons, hsame]
  rfl

/-- Two images that overlap, loaded through different segments, the second one through a mirror as
well; a boot ROM; two images that are refused, because one runs past the end of main memory and the
other starts outside of it; and writes and a reset in between. -/
def history : List Call :=
  [.load 0x80000000 ⟨#[1, 2, 3, 4]⟩, .write 0 [9, 9], .load 0xA01FFFFF ⟨#[5, 6]⟩, .reset,
    .load 0xA0200002 ⟨#[7, 8]⟩, .installRom ⟨#[0x3C]⟩, .load 0x1F800000 ⟨#[1]⟩,
    .write 0xBFC00000 [1]]

/-- The calls come to what a reset replays of the accepted images alone, and a load that is refused
changes nothing. -/
theorem history_replays : ∃ r, performAll (fresh none) history = some r ∧
    performAll (fresh none) [.load 0x80000000 ⟨#[1, 2, 3, 4]⟩, .load 0xA0200002 ⟨#[7, 8]⟩,
      .installRom ⟨#[0x3C]⟩] = some r.reset ∧
    performAll r [.load 0x1F800000 ⟨#[1]⟩] = some r ∧
    ∃ r', r.load 0xA0200002 ⟨#[7, 8]⟩ = .ok r' ∧
      readByte r' (0xA0200002 + UInt32.ofNat 1) = .ok 8 := by
  obtain ⟨r, h⟩ : ∃ r, performAll (fresh none) history = some r := ⟨_, rfl⟩
  obtain ⟨hreplay, hload⟩ := reset_replays none history r h
  obtain ⟨r', haccepted⟩ : ∃ r', r.load 0xA0200002 ⟨#[7, 8]⟩ = .ok r' :=
    load_isOk_iff.mpr ⟨by decide, by decide⟩
  exact ⟨r, h, hreplay, (hload _ _).1 _ rfl [], r', haccepted,
    ((hload _ _).2 r' haccepted).1 1 (by decide)⟩

end Ram

end MipsMonitor
