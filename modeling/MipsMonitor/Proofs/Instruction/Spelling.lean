import MipsMonitor.Proofs.Instruction.Bits
import MipsMonitor.Proofs.Instruction.Runs

/-!
# What runs spell

A run is read by its first byte (`Pattern.content_cases`). Since it is uniform, that byte decides
what the others are (`Pattern.content_of_uniform`), and the bits of the number that a run of digits
spells are its digits (`Pattern.bit_binaryValue`).

Runs are read from the left. They are read if there are not too many of them and the first bytes of
all of them have a meaning, and what is read has one segment for each run
(`Pattern.segments_eq_ok_iff`, `Pattern.exists_segments_iff`). A run is read before it is counted,
so the first run too many is reported as such only if it can be read
(`Pattern.segments_eq_error_iff`).
-/

namespace MipsMonitor

namespace Operand

/-- The byte that stands for an operand in the text of a pattern. -/
def byte (op : Operand) : UInt8 := op.letter.toNat.toUInt8

/-- A byte is read as an operand if it is the letter of the operand. -/
theorem ofLetter?_eq_some_iff {b : UInt8} {op : Operand} :
    ofLetter? (Char.ofNat b.toNat) = some op ↔ b = op.byte := by
  constructor
  · intro h
    have hletter : op.letter = Char.ofNat b.toNat := by
      simpa only [beq_iff_eq] using List.find?_some h
    have hvalid : b.toNat.isValidChar := .inl (Nat.lt_trans b.toNat_lt (by decide))
    have hnat : op.letter.toNat = b.toNat := by
      rw [hletter, Char.ofNat, dif_pos hvalid]
      rfl
    rw [byte, hnat]
    exact (UInt8.ofNat_toNat).symm
  · rintro rfl
    have hletter : Char.ofNat op.byte.toNat = op.letter := by cases op <;> rfl
    rw [hletter, ofLetter?_letter]

/-- The letter of an operand is no binary digit. -/
theorem isBinary_byte (op : Operand) : Pattern.isBinary op.byte = false := by cases op <;> rfl

end Operand

namespace Pattern

/-- A byte has a meaning in a pattern: it is a binary digit or the letter of an operand. -/
def Stands (b : UInt8) : Prop := isBinary b = true ∨ ∃ op : Operand, b = op.byte

/-- The first byte of a run has a meaning. -/
def Readable (run : List UInt8) : Prop := ∀ b ∈ run.head?, Stands b

/-- A segment is what a run spells. -/
def Spells (run : List UInt8) (segment : Nat × Content) : Prop :=
  segment.1 = run.length ∧ content run = .ok segment.2

variable {run : List UInt8} {runs : List (List UInt8)} {c : Content}
  {segs : List (Nat × Content)}

/-! ## One run -/

/-- A run is read by its first byte. -/
theorem content_cases (b : UInt8) (rest : List UInt8) :
    (isBinary b = true ∧ content (b :: rest) = .ok (.fixed (binaryValue (b :: rest)))) ∨
      (∃ op : Operand, b = op.byte ∧ content (b :: rest) = .ok (.operand op)) ∨
      (¬Stands b ∧ content (b :: rest) = .error .invalidOperand) := by
  cases hdigit : isBinary b with
  | true => exact .inl ⟨rfl, by rw [content, if_pos hdigit]⟩
  | false =>
    have hno : ¬isBinary b = true := ne_true_of_eq_false hdigit
    cases hletter : Operand.ofLetter? (Char.ofNat b.toNat) with
    | some op =>
      have hb : b = op.byte := Operand.ofLetter?_eq_some_iff.mp hletter
      exact .inr (.inl ⟨op, hb, by rw [content, if_neg hno, hletter]⟩)
    | none =>
      refine .inr (.inr ⟨?_, by rw [content, if_neg hno, hletter]⟩)
      rintro (hyes | ⟨op, hb⟩)
      · exact hno hyes
      · cases hletter.symm.trans (Operand.ofLetter?_eq_some_iff.mpr hb)

/-- A run is readable if its first byte has a meaning. -/
theorem readable_cons {b : UInt8} {rest : List UInt8} : Readable (b :: rest) ↔ Stands b := by
  simp only [Readable, List.head?_cons, Option.mem_some_iff, forall_eq']

/-- A run that is not empty is read if its first byte has a meaning. -/
theorem content_of_readable (hrun : run ≠ []) (h : Readable run) : ∃ c, content run = .ok c := by
  obtain ⟨b, rest, rfl⟩ := List.exists_cons_of_ne_nil hrun
  rcases content_cases b rest with ⟨_, hc⟩ | ⟨op, _, hc⟩ | ⟨hstands, _⟩
  · exact ⟨_, hc⟩
  · exact ⟨_, hc⟩
  · exact absurd (readable_cons.mp h) hstands

/-- A run whose first byte has no meaning is refused. -/
theorem content_of_not_readable (hrun : run ≠ []) (h : ¬Readable run) :
    content run = .error .invalidOperand := by
  obtain ⟨b, rest, rfl⟩ := List.exists_cons_of_ne_nil hrun
  rcases content_cases b rest with ⟨hdigit, _⟩ | ⟨op, hb, _⟩ | ⟨_, hc⟩
  · exact absurd (readable_cons.mpr (.inl hdigit)) h
  · exact absurd (readable_cons.mpr (.inr ⟨op, hb⟩)) h
  · exact hc

/-- In a uniform run all bytes are what the run stands for. -/
theorem content_of_uniform (huniform : Uniform run) (h : content run = .ok c) :
    (c = .fixed (binaryValue run) ∧ ∀ b ∈ run, isBinary b = true) ∨
      ∃ op : Operand, c = .operand op ∧ ∀ b ∈ run, b = op.byte := by
  cases run with
  | nil => cases h
  | cons b rest =>
    -- The first byte decides what the run is, and all others are of its kind.
    have hsame := uniform_cons.mp huniform
    rcases content_cases b rest with ⟨hdigit, hc⟩ | ⟨op, hb, hc⟩ | ⟨_, hc⟩
    · refine .inl ⟨Except.ok.inj (h.symm.trans hc), List.forall_mem_cons.mpr ⟨hdigit, ?_⟩⟩
      intro b' hb'
      rcases sameRun_iff.mp (hsame b' hb') with ⟨_, hdigit'⟩ | rfl
      · exact hdigit'
      · exact hdigit
    · refine .inr ⟨op, Except.ok.inj (h.symm.trans hc), List.forall_mem_cons.mpr ⟨hb, ?_⟩⟩
      intro b' hb'
      rcases sameRun_iff.mp (hsame b' hb') with ⟨hdigit, _⟩ | heq
      · rw [hb, op.isBinary_byte] at hdigit
        cases hdigit
      · exact heq.symm.trans hb
    · cases h.symm.trans hc

/-- All bytes of a readable run have a meaning. -/
theorem readable_iff (hrun : run ≠ []) (huniform : Uniform run) :
    Readable run ↔ ∀ b ∈ run, Stands b := by
  constructor
  · intro h
    obtain ⟨c, hc⟩ := content_of_readable hrun h
    rcases content_of_uniform huniform hc with ⟨_, hdigits⟩ | ⟨op, _, hletters⟩
    · exact fun b hb => .inl (hdigits b hb)
    · exact fun b hb => .inr ⟨op, hletters b hb⟩
  · exact fun h b hb => h b (List.mem_of_mem_head? hb)

/-- The bits of a number are the digits that spell it, from the last one on. -/
theorem bit_binaryValue (run : List UInt8) {k : Nat} (hk : k < 32) :
    (binaryValue run).bit k = (run.reverse[k]? == some 0x31) := by
  induction run using List.reverseRecOn generalizing k with
  | nil => exact Word.bit_zero k
  | append_singleton run b ih =>
    have hsnoc : binaryValue (run ++ [b]) = binaryValue run * 2 + (if b == 0x31 then 1 else 0) :=
      List.foldl_append ..
    have hvalue : (binaryValue (run ++ [b])).toNat =
        ((binaryValue run).toNat * 2 + (if b == 0x31 then 1 else 0)) % 4294967296 := by
      rw [hsnoc, UInt32.toNat_add, UInt32.toNat_mul]
      split <;> simp only [UInt32.reduceToNat, Nat.reducePow, Nat.mod_add_mod]
    -- The last digit is the lowest bit, and the number before it is moved up to make room for it.
    rw [List.reverse_append, List.reverse_singleton, List.singleton_append, Word.bit, hvalue]
    cases k with
    | zero =>
      rw [List.getElem?_cons_zero, Nat.testBit_zero, Option.some_beq_some]
      cases hb : b == 0x31 with
      | true =>
        rw [if_pos rfl, decide_eq_true (by omega)]
      | false =>
        rw [if_neg Bool.false_ne_true, decide_eq_false (by omega)]
    | succ k =>
      have hdigit : (if b == 0x31 then 1 else 0) < 2 := by split <;> decide
      have hhalf : ((binaryValue run).toNat * 2 + (if b == 0x31 then 1 else 0)) % 4294967296 / 2 =
          (binaryValue run).toNat % 2 ^ 31 := by omega
      have hk31 : k < 31 := by omega
      rw [List.getElem?_cons_succ, ← ih (by omega), Nat.testBit_succ, hhalf,
        Nat.testBit_mod_two_pow, decide_eq_true hk31, Bool.true_and]
      rfl

/-! ## Run after run -/

variable {room : Nat} {rest : List (List UInt8)} {e : PatternError}

/-- Runs are refused for a first run that is not read. -/
theorem segments_cons_error (h : content run = .error e) :
    segments room (run :: rest) = .error e := by
  rw [segments, h]

/-- A run that is read, but for which there is no place, is one too many. -/
theorem segments_zero_cons (h : content run = .ok c) :
    segments 0 (run :: rest) = .error .tooManyComponents := by
  rw [segments, h]

/-- A run that is read takes a place, and the rest is read in what is left. -/
theorem segments_succ_cons (h : content run = .ok c) :
    segments (room + 1) (run :: rest) = (segments room rest).map ((run.length, c) :: ·) := by
  rw [segments, h]

/-- What runs are read as, if they are read. -/
theorem segments_eq_ok_iff :
    segments room runs = .ok segs ↔ runs.length ≤ room ∧ List.Forall₂ Spells runs segs := by
  -- Each run that is spelled takes one place, so the room shrinks along the runs.
  induction runs generalizing room segs with
  | nil =>
    rw [segments, List.forall₂_nil_left_iff]
    exact ⟨fun h => ⟨Nat.zero_le _, (Except.ok.inj h).symm⟩, fun h => congrArg _ h.2.symm⟩
  | cons run rest ih =>
    rw [List.forall₂_cons_left_iff]
    cases hc : content run with
    | error e =>
      rw [segments_cons_error hc]
      constructor
      · intro h
        cases h
      · rintro ⟨_, segment, segs, ⟨_, hsegment⟩, _⟩
        cases hc.symm.trans hsegment
    | ok c =>
      cases room with
      | zero =>
        rw [segments_zero_cons hc]
        constructor
        · intro h
          cases h
        · rintro ⟨hlen, _⟩
          cases hlen
      | succ room =>
        rw [segments_succ_cons hc]
        constructor
        · intro h
          cases hrest : segments room rest with
          | error e =>
            rw [hrest] at h
            cases h
          | ok segs' =>
            rw [hrest] at h
            obtain ⟨hlen, hspells⟩ := ih.mp hrest
            exact ⟨Nat.succ_le_succ hlen, (run.length, c), segs', ⟨rfl, hc⟩, hspells,
              (Except.ok.inj h).symm⟩
        · rintro ⟨hlen, ⟨len, c'⟩, segs', ⟨hfst, hsnd⟩, hspells, rfl⟩
          obtain rfl : len = run.length := hfst
          obtain rfl : c = c' := Except.ok.inj (hc.symm.trans hsnd)
          rw [ih.mpr ⟨Nat.le_of_succ_le_succ hlen, hspells⟩]
          rfl

/-- Why runs are not read. -/
theorem segments_eq_error_iff (hne : [] ∉ runs) :
    segments room runs = .error e ↔
      (e = .invalidOperand ∧ ∃ run ∈ runs.take (room + 1), ¬Readable run) ∨
        (e = .tooManyComponents ∧ room < runs.length ∧
          ∀ run ∈ runs.take (room + 1), Readable run) := by
  induction runs generalizing room with
  | nil =>
    simp only [segments, List.take_nil, List.not_mem_nil, List.length_nil, Nat.not_lt_zero,
      false_and, and_false, exists_false, or_false, reduceCtorEq]
  | cons run rest ih =>
    obtain ⟨hrun, hrest⟩ := not_or.mp (mt List.mem_cons.mpr hne)
    rw [List.take_succ_cons, List.exists_mem_cons_iff, List.forall_mem_cons]
    by_cases hread : Readable run
    · obtain ⟨c, hc⟩ := content_of_readable (Ne.symm hrun) hread
      cases room with
      | zero =>
        -- The run can be read, but it is one too many.
        rw [segments_zero_cons hc]
        simp only [List.take_zero, List.not_mem_nil, hread, not_true, false_and, exists_false,
          or_self, and_false, false_or, List.length_cons, Nat.zero_lt_succ, false_implies,
          implies_true, and_true, Except.error.injEq, eq_comm]
      | succ room =>
        have hmap : (segments room rest).map ((run.length, c) :: ·) = .error e ↔
            segments room rest = .error e := by
          cases segments room rest with
          | error e' => exact Iff.rfl
          | ok segs => simp only [Except.map, reduceCtorEq]
        rw [segments_succ_cons hc, hmap, ih hrest]
        simp only [hread, not_true, false_or, true_and, List.length_cons, Nat.succ_lt_succ_iff]
    · rw [segments_cons_error (content_of_not_readable (Ne.symm hrun) hread)]
      simp only [hread, not_false_iff, true_or, and_true, false_and, and_false, or_false,
        Except.error.injEq, eq_comm]

/-- When runs are read. -/
theorem exists_segments_iff (hne : [] ∉ runs) :
    (∃ segs, segments room runs = .ok segs) ↔
      runs.length ≤ room ∧ ∀ run ∈ runs, Readable run := by
  constructor
  · rintro ⟨segs, h⟩
    have hlen : runs.length ≤ room := (segments_eq_ok_iff.mp h).1
    refine ⟨hlen, fun run hrun => by_contra fun hread => ?_⟩
    -- A run that cannot be read is among the first ones, and would be an error.
    have htake : runs.take (room + 1) = runs := List.take_of_length_le (by omega)
    have herror : segments room runs = .error .invalidOperand :=
      (segments_eq_error_iff hne).mpr (.inl ⟨rfl, run, htake.symm ▸ hrun, hread⟩)
    cases h.symm.trans herror
  · rintro ⟨hlen, hread⟩
    cases h : segments room runs with
    | ok segs => exact ⟨segs, rfl⟩
    | error e =>
      rcases (segments_eq_error_iff hne).mp h with ⟨_, run, hrun, hno⟩ | ⟨_, hlong, _⟩
      · exact absurd (hread run (List.mem_of_mem_take hrun)) hno
      · omega

end Pattern

end MipsMonitor
