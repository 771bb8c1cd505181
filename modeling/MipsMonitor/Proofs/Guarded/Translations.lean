import MipsMonitor.Proofs.Guarded.Blocks
import MipsMonitor.Machine.Basic

/-!
# Guarded translations

Guarded blocks by the address where they are entered. To drop the ones that cover an address, those
are listed that are entered between the place where the search begins and the address, and whether
one of them covers it is asked of these alone. What is left are the translations that are left
otherwise (`Guarded.Translations.Implements.invalidate`).
-/

namespace MipsMonitor

namespace Guarded

variable {σ : Type}

/-- Translations by the address where they are entered. -/
abbrev Translations (σ : Type) := Std.ExtTreeMap Word (Block σ) compare

/-- The bytes of the longest block: 64 instructions and a delay slot. -/
def longest : Nat := 260

namespace Translations

/-- The translations that are entered at the addresses of a range. -/
def within (blocks : Translations σ) (first last : Nat) : Guarded (List (Word × Block σ)) := do
  range first last
  pure (blocks.toList.filter fun p => first ≤ p.1.toNat ∧ p.1.toNat ≤ last)

/-- Drops the translations that cover an address through its own segment. -/
def dropAt (blocks : Translations σ) (a : Word) : Guarded (Translations σ) := do
  let near ← blocks.within (a.toNat - longest) a.toNat
  let stale ← near.filterM fun p => p.2.covers a
  pure (stale.foldl (fun blocks p => blocks.erase p.1) blocks)

/-- Drops the translations that cover an address, through any segment. -/
def invalidate (blocks : Translations σ) (a : Word) : Guarded (Translations σ) :=
  (Address.aliases a).foldlM dropAt blocks

end Translations

/-! ## Translations are dropped as they are otherwise -/

namespace Translations

/-- Guarded translations are entered at the same addresses as other ones, and implement them. -/
def Implements (blocks : Translations σ) (blocks' : MipsMonitor.Translations) : Prop :=
  ∀ a, Option.Rel (fun (b : Block σ) (b' : MipsMonitor.Block) => b'.start = a ∧ b.Implements b')
    blocks[a]? blocks'[a]?

/-- Where nothing is translated, the translations do the same. -/
theorem implements_empty : Implements (∅ : Translations σ) ∅ := fun a => by
  rw [Std.ExtTreeMap.getElem?_empty, Std.ExtTreeMap.getElem?_empty]
  exact .none

/-- Behind the removal of translations the others are left. -/
theorem getElem?_foldl_erase (blocks : Translations σ) (stale : List (Word × Block σ)) (a : Word) :
    (stale.foldl (fun blocks p => blocks.erase p.1) blocks)[a]? =
      if a ∈ stale.map (·.1) then none else blocks[a]? := by
  induction stale generalizing blocks with
  | nil => rfl
  | cons p stale ih =>
    rw [List.foldl_cons, ih, Std.ExtTreeMap.getElem?_erase, List.map_cons]
    simp only [List.mem_cons, Std.LawfulEqCmp.compare_eq_iff_eq]
    by_cases hrest : a ∈ stale.map (·.1)
    · simp only [hrest, or_true, if_true]
    · by_cases hhead : p.1 = a
      · simp [hhead]
      · simp [hrest, hhead, Ne.symm hhead]

namespace Implements

variable {blocks : Translations σ} {blocks' : MipsMonitor.Translations}

/-- Translations that do the same stay so with one more. -/
theorem insert (h : blocks.Implements blocks') {b : Block σ} {b' : MipsMonitor.Block}
    (hb : b.Implements b') {start : Word} (hstart : b'.start = start) :
    Implements (blocks.insert start b) (blocks'.insert start b') := fun a => by
  rw [Std.ExtTreeMap.getElem?_insert, Std.ExtTreeMap.getElem?_insert]
  split
  · next heq => exact .some ⟨hstart.trans (Std.LawfulEqCmp.compare_eq_iff_eq.mp heq), hb⟩
  · exact h a

/-- A guarded translation implements the one at the same address. -/
theorem exists_of_mem (h : blocks.Implements blocks') {p : Word × Block σ}
    (hp : p ∈ blocks.toList) : ∃ b', blocks'[p.1]? = some b' ∧ p.2.Implements b' := by
  have hrel := h p.1
  rw [Std.ExtTreeMap.mem_toList_iff_getElem?_eq_some.mp hp] at hrel
  generalize blocks'[p.1]? = b'? at hrel
  cases hrel with
  | some hb => exact ⟨_, rfl, hb.2⟩

/-- The same translations are found. -/
theorem dropAt (h : blocks.Implements blocks') (a : Word) :
    ∃ blocks₁, blocks.dropAt a = .ok blocks₁ ∧ blocks₁.Implements (blocks'.dropAt a) := by
  -- The guarded search looks at starts that are near enough, and keeps those whose blocks cover the
  -- address.
  let near := blocks.toList.filter fun p => a.toNat - longest ≤ p.1.toNat ∧ p.1.toNat ≤ a.toNat
  have hnear : blocks.within (a.toNat - longest) a.toNat = .ok near := by
    unfold Translations.within
    rw [range_of_le (Nat.sub_le ..)]
    rfl
  let stale (p : Word × Block σ) := (blocks'[p.1]?).any fun b => b.covers a
  have hcovers : ∀ p ∈ near, p.2.covers a = .ok (stale p) := fun p hp => by
    obtain ⟨b', hb', hb⟩ := h.exists_of_mem (List.mem_of_mem_filter hp)
    rw [hb.covers]
    simp only [stale, hb', Option.any_some]
  refine ⟨(near.filter stale).foldl (fun blocks p => blocks.erase p.1) blocks, ?_, fun k => ?_⟩
  · unfold Translations.dropAt
    rw [hnear, ok_bind, filterM_ok hcovers]
    rfl
  · -- A start is dropped if it was found, and a block of the machine is found by the same test.
    rw [getElem?_foldl_erase, MipsMonitor.Translations.dropAt, Std.ExtTreeMap.getElem?_filter']
    have hrel := h k
    have hmem (b : Block σ) (hb : blocks[k]? = some b) : k ∈ (near.filter stale).map (·.1) ↔
        (a.toNat - longest ≤ k.toNat ∧ k.toNat ≤ a.toNat) ∧ stale (k, b) = true := by
      rw [← Std.ExtTreeMap.mem_toList_iff_getElem?_eq_some] at hb
      simp only [near, List.mem_map, List.mem_filter, decide_eq_true_eq]
      constructor
      · rintro ⟨⟨k, c⟩, ⟨⟨-, hrange⟩, hstale⟩, rfl⟩
        exact ⟨hrange, hstale⟩
      · rintro ⟨hrange, hstale⟩
        exact ⟨(k, b), ⟨⟨hb, hrange⟩, hstale⟩, rfl⟩
    -- Both keep a block at the same starts, so the cases go by whether there is one.
    simp only [stale] at hmem
    generalize blocks[k]? = b? at hrel hmem
    generalize blocks'[k]? = b'? at hrel hmem
    cases hrel with
    | none =>
      rw [ite_self]
      exact .none
    | @some b b' hb =>
      have hdropped : k ∈ (near.filter stale).map (·.1) ↔
          MipsMonitor.Translations.finds a k b' = true := by
        rw [hmem b rfl, Option.any_some, MipsMonitor.Translations.finds, Bool.and_eq_true,
          Bool.and_eq_true, decide_eq_true_iff, decide_eq_true_iff, UInt32.le_iff_toNat_le]
        rfl
      rw [Option.filter_some]
      cases hfinds : MipsMonitor.Translations.finds a k b' with
      | true =>
        rw [if_pos (hdropped.mpr hfinds)]
        exact .none
      | false =>
        rw [if_neg fun hstale => Bool.false_ne_true (hfinds.symm.trans (hdropped.mp hstale))]
        exact .some hb

/-- Dropping through one segment after the other drops what is covered through any of them. -/
theorem foldlM_dropAt (h : blocks.Implements blocks') (as : List Word) :
    ∃ blocks₁, as.foldlM Translations.dropAt blocks = .ok blocks₁ ∧
      blocks₁.Implements (as.foldl MipsMonitor.Translations.dropAt blocks') := by
  induction as generalizing blocks blocks' with
  | nil => exact ⟨blocks, rfl, h⟩
  | cons a as ih =>
    obtain ⟨blocks₁, hdrop, h₁⟩ := h.dropAt a
    obtain ⟨blocks₂, hrest, h₂⟩ := ih h₁
    refine ⟨blocks₂, ?_, h₂⟩
    rw [List.foldlM_cons, hdrop]
    exact hrest

/-- Translations are dropped as they are otherwise. -/
theorem invalidate (h : blocks.Implements blocks') (a : Word) :
    ∃ blocks₁, blocks.invalidate a = .ok blocks₁ ∧
      blocks₁.Implements (MipsMonitor.Translations.invalidate blocks' a) :=
  h.foldlM_dropAt (Address.aliases a)

/-- Invalidating the addresses of stores never breaks off. -/
theorem foldlM_invalidate (h : blocks.Implements blocks') (written : List Word) :
    ∃ blocks₁, written.foldlM Translations.invalidate blocks = .ok blocks₁ ∧
      blocks₁.Implements (written.foldl MipsMonitor.Translations.invalidate blocks') := by
  induction written generalizing blocks blocks' with
  | nil => exact ⟨blocks, rfl, h⟩
  | cons a written ih =>
    obtain ⟨blocks₁, hdrop, h₁⟩ := h.invalidate a
    obtain ⟨blocks₂, hrest, h₂⟩ := ih h₁
    refine ⟨blocks₂, ?_, h₂⟩
    rw [List.foldlM_cons, hdrop]
    exact hrest

end Implements

end Translations

end Guarded

end MipsMonitor
