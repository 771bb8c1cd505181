import MipsMonitor.Instruction.Basic
import MipsMonitor.Proofs.Instruction.Tiling

/-!
# Assembling and decoding

A word is assembled from a pattern by putting its fixed bits and the values of its operands in place
(`Pattern.assemble`). Where the components of a pattern fill the word and each operand has one of
them (`Pattern.WellFormed`), assembling and taking apart undo each other: what `Pattern.get?` takes
out of an assembled word are the values that it was assembled from (`Pattern.get?_assemble`), and a
word that matches is assembled again from what is taken out of it (`Pattern.assemble_get?`).

A well-formed pattern matches the words that agree with its constant wherever its mask has a one
(`Pattern.accepts_iff_mask`). Any two instructions disagree in a bit that both fix, so no word
matches both (`Mnemonic.eq_of_accepts`). The main statement is `Instruction.decode?_lossless`:
decoding does not depend on the order in which the instructions are tried, and it is undone by
assembling.
-/

namespace MipsMonitor

/-- Whether a run holds fixed bits. -/
def Content.isFixed : Content → Bool
  | fixed _ => true
  | operand _ => false

namespace Component

/-- What a run holds where the operands have values. -/
def value (values : Operand → Word) (c : Component) : Word :=
  match c.content with
  | .fixed w => w
  | .operand op => values op

/-- Ones for the bits of a run if they are fixed. -/
def fixedMask (c : Component) : Word :=
  match c.content with
  | .fixed _ => Word.lowMask c.len
  | .operand _ => 0

end Component

namespace Pattern

/-- The word that has the fixed bits of a pattern and the values of its operands. -/
def assemble (p : Pattern) (values : Operand → Word) : Word :=
  Component.lay (Component.value values) p.components

/-- The fixed bits of a pattern, with zeros for its operands. -/
def constant (p : Pattern) : Word := p.assemble fun _ => 0

/-- The word that has a one for every fixed bit of a pattern. -/
def mask (p : Pattern) : Word := Component.lay Component.fixedMask p.components

/-- Whether a pattern has an operand. -/
def has (p : Pattern) (op : Operand) : Bool := p.components.any (·.content == .operand op)

/-- The values of the operands fit in the bits that the pattern has for them. -/
def InRange (p : Pattern) (values : Operand → Word) : Prop :=
  ∀ c ∈ p.components, ∀ op, c.content = .operand op → (values op).toNat < 1 <<< c.len

/-- A pattern by which words can be put together and taken apart. -/
structure WellFormed (p : Pattern) : Prop where
  /-- The components fill the word. -/
  tiles : Component.Tiles 32 p.components
  /-- Fixed bits fit in their place. -/
  fits : ∀ c ∈ p.components, (c.value fun _ => 0).toNat < 1 <<< c.len
  /-- No operand has two components. -/
  once : ∀ c ∈ p.components, ∀ c' ∈ p.components, c.content = c'.content →
    c.content.isFixed = true ∨ c = c'

variable {p : Pattern} {c : Component} {values : Operand → Word} {op : Operand} {w : Word}

/-- A pattern has an operand if one of its components holds it. -/
theorem has_eq_true : p.has op = true ↔ ∃ c ∈ p.components, c.content = .operand op := by
  unfold has
  rw [List.any_eq_true]
  simp only [beq_iff_eq]

/-- An operand that a pattern does not have has no value. -/
theorem get?_eq_none (h : p.has op = false) (w : Word) : p.get? op w = none := by
  unfold get?
  rw [List.findSome?_eq_none_iff]
  intro c hc
  refine if_neg fun hcontent => Bool.false_ne_true (h.symm.trans ?_)
  exact has_eq_true.mpr ⟨c, hc, hcontent⟩

/-- A word matches if every component has its fixed bits. -/
theorem accepts_iff : p.accepts w = true ↔
    ∀ c ∈ p.components, ∀ v, c.content = .fixed v → c.extract w = v := by
  unfold accepts
  rw [List.all_eq_true]
  refine forall_congr' fun c => imp_congr_right fun _ => ?_
  unfold Component.accepts
  cases c.content with
  | fixed v => simp only [beq_iff_eq, Content.fixed.injEq, forall_eq']
  | operand op => simp only [reduceCtorEq, false_implies, implies_true]

namespace WellFormed

variable (hp : p.WellFormed)
include hp

/-- The value of an operand is what its component holds. -/
theorem get?_of_mem (hc : c ∈ p.components) (hcontent : c.content = .operand op) (w : Word) :
    p.get? op w = some (c.extract w) := by
  unfold get?
  cases hfind : p.components.findSome? _ with
  | none =>
    have hnone := List.findSome?_eq_none_iff.mp hfind c hc
    rw [if_pos hcontent] at hnone
    cases hnone
  | some v =>
    -- The first component with these letters is this one, as every operand stands once.
    obtain ⟨d, hd, hv⟩ := List.exists_of_findSome?_eq_some hfind
    split at hv
    · next hsame =>
      rcases hp.once c hc d hd (hcontent.trans hsame.symm) with hfixed | rfl
      · rw [hcontent] at hfixed
        cases hfixed
      · exact hv.symm
    · cases hv

/-- Values in range fit wherever they are laid. -/
theorem value_lt (h : p.InRange values) (hc : c ∈ p.components) :
    (c.value values).toNat < 1 <<< c.len := by
  have hfixed := hp.fits c hc
  have hoperand := h c hc
  unfold Component.value at hfixed ⊢
  cases hcontent : c.content with
  | fixed v => simpa only [hcontent] using hfixed
  | operand op => exact hoperand op hcontent

/-- What is taken out of an assembled word is what was laid there. -/
theorem extract_assemble (h : p.InRange values) (hc : c ∈ p.components) :
    c.extract (p.assemble values) = c.value values :=
  hp.tiles.extract_lay (Nat.le_refl 32) (fun _ => hp.value_lt h) hc

/-- An assembled word matches the pattern. -/
theorem accepts_assemble (h : p.InRange values) : p.accepts (p.assemble values) = true := by
  refine accepts_iff.mpr fun c hc v hcontent => ?_
  rw [hp.extract_assemble h hc, Component.value, hcontent]

/-- The operands of an assembled word have the values that it was assembled from. -/
theorem get?_assemble (h : p.InRange values) (op : Operand) :
    p.get? op (p.assemble values) = if p.has op then some (values op) else none := by
  cases hhas : p.has op with
  | false => exact get?_eq_none hhas _
  | true =>
    obtain ⟨c, hc, hcontent⟩ := has_eq_true.mp hhas
    rw [hp.get?_of_mem hc hcontent, hp.extract_assemble h hc, Component.value, hcontent]
    rfl

/-- A word that matches is assembled from what is taken out of it. -/
theorem assemble_get? (h : p.accepts w = true) : p.assemble (fun op => (p.get? op w).getD 0) = w := by
  have hvalue : ∀ c ∈ p.components, c.value (fun op => (p.get? op w).getD 0) = c.extract w := by
    intro c hc
    unfold Component.value
    cases hcontent : c.content with
    | fixed v => exact (accepts_iff.mp h c hc v hcontent).symm
    | operand op => simp only [hp.get?_of_mem hc hcontent, Option.getD_some]
  have hlay : p.assemble (fun op => (p.get? op w).getD 0) =
      Component.lay (fun c => c.extract w) p.components := Component.lay_congr hvalue
  rw [hlay, hp.tiles.lay_extract]

/-- Zeros fit in every field. -/
theorem inRange_zero : p.InRange fun _ => 0 := by
  intro c hc op hcontent
  have hfits := hp.fits c hc
  simpa only [Component.value, hcontent] using hfits

/-- A bit of the mask is set where the bit is fixed. -/
theorem bit_mask {k : Nat} (hc : c ∈ p.components) (hk : c.Has k) :
    p.mask.bit k = c.content.isFixed := by
  -- The mask of digits fits in its component, so that masks of others do not reach into it.
  have hfits : ∀ d ∈ p.components, d.fixedMask.toNat < 1 <<< d.len := by
    intro d hd
    have hbounds := hp.tiles.bounds hd
    have hpos : 0 < 1 <<< d.len := by
      rw [Nat.one_shiftLeft]
      exact Nat.two_pow_pos d.len
    unfold Component.fixedMask
    cases d.content with
    | fixed v =>
      simp only [Word.toNat_lowMask (Nat.le_trans (Nat.le_add_left ..) hbounds.2)]
      omega
    | operand op => exact hpos
  have hbounds := hp.tiles.bounds hc
  obtain ⟨hlow, hup⟩ := hk
  unfold mask
  rw [hp.tiles.bit_lay (Nat.le_refl 32) hfits hc ⟨hlow, hup⟩, Component.fixedMask]
  cases c.content with
  | fixed v =>
    simp only [Content.isFixed]
    rw [Word.bit_lowMask (by omega), decide_eq_true (by omega)]
  | operand op => exact Word.bit_zero _

/-- A word that matches has the bits of the constant where the mask has ones. -/
theorem bit_eq_of_accepts (h : p.accepts w = true) {k : Nat} (hk : k < 32)
    (hmask : p.mask.bit k = true) : w.bit k = p.constant.bit k := by
  obtain ⟨c, hc, hhas⟩ := hp.tiles.exists_has hk
  have hbounds := hp.tiles.bounds hc
  rw [hp.bit_mask hc hhas] at hmask
  cases hcontent : c.content with
  | operand op =>
    rw [hcontent] at hmask
    cases hmask
  | fixed v =>
    -- The word and the constant both have the bits of the component at its place.
    have hword := accepts_iff.mp h c hc v hcontent
    have hconstant := accepts_iff.mp (hp.accepts_assemble hp.inRange_zero) c hc v hcontent
    have hbit (u : Word) (hu : c.extract u = v) : u.bit k = v.bit (k - c.shift) := by
      obtain ⟨hlow, hup⟩ := hhas
      rw [← hu, Component.bit_extract hbounds.1 hbounds.2, decide_eq_true (by omega),
        Bool.true_and, Nat.add_sub_cancel' hlow]
    exact (hbit w hword).trans (hbit p.constant hconstant).symm

end WellFormed

/-- Two patterns that fix a bit differently match no word in common. -/
theorem conflict_eq_zero {q : Pattern} (hp : p.WellFormed) (hq : q.WellFormed)
    (h : p.accepts w = true) (h' : q.accepts w = true) :
    (p.constant ^^^ q.constant) &&& (p.mask &&& q.mask) = 0 := by
  refine Word.eq_of_bit fun k hk => ?_
  simp only [Word.bit_and, Word.bit_xor, Word.bit_zero]
  cases hmask : p.mask.bit k with
  | false => simp only [Bool.false_and, Bool.and_false]
  | true =>
    cases hmask' : q.mask.bit k with
    | false => simp only [Bool.and_false]
    | true =>
      -- Where both fix the bit, it is that of the word, so the constants agree.
      rw [← hp.bit_eq_of_accepts h hk hmask, ← hq.bit_eq_of_accepts h' hk hmask', Bool.xor_self]
      rfl

end Pattern

namespace Mnemonic

/-- The patterns of all instructions are well-formed. -/
theorem wellFormed (m : Mnemonic) : m.encoding.pattern.WellFormed := by
  have hall : ∀ m ∈ all, Component.Tiles 32 m.encoding.pattern.components ∧
      (∀ c ∈ m.encoding.pattern.components, (c.value fun _ => 0).toNat < 1 <<< c.len) ∧
      ∀ c ∈ m.encoding.pattern.components, ∀ c' ∈ m.encoding.pattern.components,
        c.content = c'.content → c.content.isFixed = true ∨ c = c' := by
    decide +kernel
  obtain ⟨htiles, hfits, honce⟩ := hall m m.mem_all
  exact ⟨htiles, hfits, honce⟩

/-- Different instructions differ in a bit that both fix. -/
theorem eq_of_conflict_eq_zero {m m' : Mnemonic}
    (h : (m.encoding.pattern.constant ^^^ m'.encoding.pattern.constant) &&&
      (m.encoding.pattern.mask &&& m'.encoding.pattern.mask) = 0) : m = m' := by
  have hall : ∀ m ∈ all, ∀ m' ∈ all,
      (m.encoding.pattern.constant ^^^ m'.encoding.pattern.constant) &&&
        (m.encoding.pattern.mask &&& m'.encoding.pattern.mask) = 0 → m = m' := by
    decide +kernel
  exact hall m m.mem_all m' m'.mem_all h

/-- No word matches two instructions. -/
theorem eq_of_accepts {m m' : Mnemonic} {w : Word} (h : m.encoding.pattern.accepts w = true)
    (h' : m'.encoding.pattern.accepts w = true) : m = m' :=
  eq_of_conflict_eq_zero (Pattern.conflict_eq_zero m.wellFormed m'.wellFormed h h')

/-- Of instructions tried in any order, the one that a word matches is found. -/
theorem find?_eq_some {table : List Mnemonic} {m : Mnemonic} (hm : m ∈ table) {w : Word}
    (h : m.encoding.pattern.accepts w = true) :
    (table.find? fun m => m.encoding.pattern.accepts w) = some m := by
  cases hfind : table.find? fun m => m.encoding.pattern.accepts w with
  | none => exact absurd h (List.find?_eq_none.mp hfind m hm)
  | some m' =>
    have haccepts : m'.encoding.pattern.accepts w = true := by
      simpa only using List.find?_some hfind
    exact congrArg some (eq_of_accepts haccepts h)

end Mnemonic

namespace Instruction

/-- A word decodes to the instruction that it matches. -/
theorem decode?_eq_some_iff {w : Word} {i : Instruction} :
    decode? w = some i ↔ i.raw = w ∧ i.mnemonic.encoding.pattern.accepts w = true := by
  unfold decode?
  constructor
  · intro h
    obtain ⟨m, hfind, rfl⟩ := Option.map_eq_some_iff.mp h
    have haccepts : m.encoding.pattern.accepts w = true := by
      simpa only using List.find?_some hfind
    exact ⟨rfl, haccepts⟩
  · rintro ⟨rfl, h⟩
    rw [Mnemonic.find?_eq_some i.mnemonic.mem_all h]
    rfl

/-- Decoding may try the instructions in any order. -/
theorem decode?_eq_of_table {table : List Mnemonic} (htable : ∀ m, m ∈ table) (w : Word) :
    (table.find? fun m => m.encoding.pattern.accepts w).map (⟨·, w⟩) = decode? w := by
  cases hdecode : decode? w with
  | some i =>
    obtain ⟨rfl, h⟩ := decode?_eq_some_iff.mp hdecode
    rw [Mnemonic.find?_eq_some (htable i.mnemonic) h]
    rfl
  | none =>
    rw [Option.map_eq_none_iff, List.find?_eq_none]
    intro m _ h
    have hsome : decode? w = some ⟨m, w⟩ := decode?_eq_some_iff.mpr ⟨rfl, h⟩
    cases hdecode.symm.trans hsome

/-- An instruction is assembled from its operands. -/
theorem assemble_getD {w : Word} {i : Instruction} (h : decode? w = some i) :
    i.mnemonic.encoding.pattern.assemble i.getD = w := by
  obtain ⟨rfl, haccepts⟩ := decode?_eq_some_iff.mp h
  exact i.mnemonic.wellFormed.assemble_get? haccepts

/-- Decoding is unambiguous and loses nothing. A word matches at most one instruction, so that the
instructions may be tried in any order. A word that decodes is assembled again from the operands of
the instruction, and no other word decodes to the same mnemonic with the same operands. Whatever
values in range a word is assembled from for an instruction, it decodes to that instruction with
those values. -/
theorem decode?_lossless :
    (∀ (w : Word) (m m' : Mnemonic), m.encoding.pattern.accepts w = true →
      m'.encoding.pattern.accepts w = true → m = m') ∧
    (∀ table : List Mnemonic, (∀ m, m ∈ table) → ∀ w,
      (table.find? fun m => m.encoding.pattern.accepts w).map (⟨·, w⟩) = decode? w) ∧
    (∀ w i, decode? w = some i → i.mnemonic.encoding.pattern.assemble i.getD = w) ∧
    (∀ w w' i i', decode? w = some i → decode? w' = some i' → i.mnemonic = i'.mnemonic →
      (∀ op, i.mnemonic.encoding.pattern.has op = true → i.get? op = i'.get? op) → w = w') ∧
    ∀ (m : Mnemonic) (values : Operand → Word), m.encoding.pattern.InRange values →
      ∃ i, decode? (m.encoding.pattern.assemble values) = some i ∧ i.mnemonic = m ∧
        ∀ op, i.get? op = if m.encoding.pattern.has op then some (values op) else none := by
  refine ⟨fun w m m' => Mnemonic.eq_of_accepts, fun table => decode?_eq_of_table,
    fun w i => assemble_getD, ?_, ?_⟩
  · intro w w' i i' h h' hmnemonic hoperands
    -- Operands that the pattern lacks are zero for both.
    have hget (op : Operand) : i.getD op = i'.getD op := by
      cases hhas : i.mnemonic.encoding.pattern.has op with
      | true => exact congrArg (Option.getD · 0) (hoperands op hhas)
      | false =>
        have hnone (j : Instruction) (hj : j.mnemonic = i.mnemonic) : j.get? op = none :=
          Pattern.get?_eq_none (hj ▸ hhas) j.raw
        rw [getD, getD, hnone i rfl, hnone i' hmnemonic.symm]
    calc w = i.mnemonic.encoding.pattern.assemble i.getD := (assemble_getD h).symm
      _ = i'.mnemonic.encoding.pattern.assemble i'.getD := by rw [hmnemonic, funext hget]
      _ = w' := assemble_getD h'
  · intro m values hrange
    refine ⟨⟨m, m.encoding.pattern.assemble values⟩, ?_, rfl, m.wellFormed.get?_assemble hrange⟩
    exact decode?_eq_some_iff.mpr ⟨rfl, m.wellFormed.accepts_assemble hrange⟩

end Instruction

end MipsMonitor
