import MipsMonitor.Proofs.Instruction.Bits

/-!
# Runs of bits that fill a word

The components of a pattern lie side by side and fill the word from its highest bit to its lowest
one (`Component.Tiles`), so that every bit lies in one of them (`Component.Tiles.exists_has`). Values
are put into a word by laying each of them at the place of its component (`Component.lay`). If every
value fits, the bits of that word are the bits of the values (`Component.Tiles.bit_lay`), and taking
a component out of it gives back what was laid there (`Component.Tiles.extract_lay`).
-/

namespace MipsMonitor

namespace Component

/-- A bit lies in the run. -/
def Has (c : Component) (k : Nat) : Prop := c.shift ≤ k ∧ k < c.shift + c.len

/-- Runs lie side by side, from below bit `high` down to the lowest bit. -/
def Tiles : Nat → List Component → Prop
  | high, [] => high = 0
  | high, c :: cs => 0 < c.len ∧ c.shift + c.len = high ∧ Tiles c.shift cs

instance decidableTiles : (high : Nat) → (cs : List Component) → Decidable (Tiles high cs)
  | high, [] => inferInstanceAs (Decidable (high = 0))
  | high, c :: cs =>
    have := decidableTiles c.shift cs
    inferInstanceAs (Decidable (0 < c.len ∧ c.shift + c.len = high ∧ Tiles c.shift cs))

/-- The word that has a value at the place of each run. -/
def lay (value : Component → Word) (cs : List Component) : Word :=
  cs.foldr (fun c w => (value c <<< c.shift.toUInt32) ||| w) 0

variable {cs : List Component} {c c' : Component} {high k : Nat}

/-- Only what is laid at the runs counts. -/
theorem lay_congr {value value' : Component → Word} (h : ∀ c ∈ cs, value c = value' c) :
    lay value cs = lay value' cs := by
  induction cs with
  | nil => rfl
  | cons d cs ih =>
    have hrest : lay value cs = lay value' cs := ih fun c hc => h c (List.mem_cons_of_mem d hc)
    change ((value d <<< d.shift.toUInt32) ||| lay value cs) = _
    rw [h d List.mem_cons_self, hrest]
    rfl

/-- What is taken out of a word are the bits of the run. -/
theorem bit_extract (hlen : 0 < c.len) (hhigh : c.shift + c.len ≤ 32) (w : Word) (k : Nat) :
    (c.extract w).bit k = (decide (k < c.len) && w.bit (c.shift + k)) :=
  Word.bit_bits w (by omega) (by omega) k

namespace Tiles

/-- A run that is laid beside others is not empty, and ends below where they begin. -/
theorem bounds (h : Tiles high cs) (hc : c ∈ cs) : 0 < c.len ∧ c.shift + c.len ≤ high := by
  induction cs generalizing high with
  | nil => cases hc
  | cons d cs ih =>
    obtain ⟨hlen, hhigh, htail⟩ := h
    rcases List.mem_cons.mp hc with rfl | hc
    · exact ⟨hlen, Nat.le_of_eq hhigh⟩
    · have hbelow := ih htail hc
      exact ⟨hbelow.1, by omega⟩

/-- Every bit lies in a run. -/
theorem exists_has (h : Tiles high cs) (hk : k < high) : ∃ c ∈ cs, c.Has k := by
  induction cs generalizing high with
  | nil =>
    have hempty : high = 0 := h
    omega
  | cons d cs ih =>
    obtain ⟨hlen, hhigh, htail⟩ := h
    by_cases hd : d.shift ≤ k
    · exact ⟨d, List.mem_cons_self, hd, by omega⟩
    · obtain ⟨c, hc, hhas⟩ := ih htail (Nat.lt_of_not_le hd)
      exact ⟨c, List.mem_cons_of_mem d hc, hhas⟩

variable {value : Component → Word}

/-- Nothing is laid above the runs. -/
theorem bit_lay_above (h : Tiles high cs) (hhigh : high ≤ 32)
    (hfits : ∀ c ∈ cs, (value c).toNat < 1 <<< c.len) (hk : high ≤ k) :
    (lay value cs).bit k = false := by
  by_cases hword : k < 32
  · induction cs generalizing high with
    | nil => exact Word.bit_zero k
    | cons d cs ih =>
      obtain ⟨hlen, hd, htail⟩ := h
      -- What is laid fits in its component, which lies below.
      have hvalue : (value d).bit (k - d.shift) = false :=
        Word.bit_eq_false (hfits d List.mem_cons_self) (by omega)
      have hrest : (lay value cs).bit k = false :=
        ih htail (by omega) (fun c hc => hfits c (List.mem_cons_of_mem d hc)) (by omega)
      change ((value d <<< d.shift.toUInt32) ||| lay value cs).bit k = false
      rw [Word.bit_or, Word.bit_shiftLeft _ (by omega) hword, hvalue, hrest, Bool.and_false,
        Bool.or_false]
  · -- Past the end of a word there are no bits.
    have hlt : (lay value cs).toNat < 1 <<< 32 := UInt32.toNat_lt _
    exact Word.bit_eq_false hlt (Nat.le_of_not_lt hword)

/-- The bits of a run are those of the value that is laid there. -/
theorem bit_lay (h : Tiles high cs) (hhigh : high ≤ 32)
    (hfits : ∀ c ∈ cs, (value c).toNat < 1 <<< c.len) (hc : c ∈ cs) (hk : c.Has k) :
    (lay value cs).bit k = (value c).bit (k - c.shift) := by
  induction cs generalizing high with
  | nil => cases hc
  | cons d cs ih =>
    have htiles := h
    obtain ⟨hlen, hd, htail⟩ := h
    have hrest : ∀ c ∈ cs, (value c).toNat < 1 <<< c.len :=
      fun c hc => hfits c (List.mem_cons_of_mem d hc)
    have hbounds := htiles.bounds hc
    obtain ⟨hlow, hup⟩ := hk
    change ((value d <<< d.shift.toUInt32) ||| lay value cs).bit k = _
    rw [Word.bit_or, Word.bit_shiftLeft _ (by omega) (by omega)]
    rcases List.mem_cons.mp hc with rfl | hc
    · -- The runs that follow lie below this one.
      rw [htail.bit_lay_above (by omega) hrest hlow, decide_eq_true hlow, Bool.true_and,
        Bool.or_false]
    · have hbelow := htail.bounds hc
      rw [decide_eq_false (by omega), Bool.false_and, Bool.false_or]
      exact ih htail (by omega) hrest hc

/-- What was laid in a run is taken out of it. -/
theorem extract_lay (h : Tiles high cs) (hhigh : high ≤ 32)
    (hfits : ∀ c ∈ cs, (value c).toNat < 1 <<< c.len) (hc : c ∈ cs) :
    c.extract (lay value cs) = value c := by
  have hbounds := h.bounds hc
  refine Word.eq_of_bit fun k _ => ?_
  rw [bit_extract hbounds.1 (by omega)]
  by_cases hk : k < c.len
  · rw [decide_eq_true hk, Bool.true_and,
      h.bit_lay hhigh hfits hc ⟨Nat.le_add_right _ _, by omega⟩, Nat.add_sub_cancel_left]
  · rw [decide_eq_false hk, Bool.false_and,
      Word.bit_eq_false (hfits c hc) (Nat.le_of_not_lt hk)]

/-- Laying what is taken out of a word gives back the word. -/
theorem lay_extract (h : Tiles 32 cs) (w : Word) : lay (fun c => c.extract w) cs = w := by
  have hfits : ∀ c ∈ cs, (c.extract w).toNat < 1 <<< c.len := fun c hc =>
    have hbounds := h.bounds hc
    Word.toNat_bits_lt w (by omega) (by omega)
  refine Word.eq_of_bit fun k hk => ?_
  obtain ⟨c, hc, hhas⟩ := h.exists_has hk
  have hbounds := h.bounds hc
  obtain ⟨hlow, hup⟩ := hhas
  rw [h.bit_lay (Nat.le_refl 32) hfits hc ⟨hlow, hup⟩, bit_extract hbounds.1 hbounds.2,
    decide_eq_true (by omega), Bool.true_and, Nat.add_sub_cancel' hlow]

end Tiles

end Component

end MipsMonitor
