import MipsMonitor.Debug.Value
import MipsMonitor.Proofs.Text.Numerals
import MipsMonitor.Text.Hex

/-!
# Which values can be typed

A numeral is a signed decimal number, or digits behind the mark of their base. Once its blanks are
gone, a text is read as a value if and only if it is a numeral whose number fits in 32 bits, signed
or not, and every text that a word is printed as is read as that word (`parse_exact`).

A text that is no value is refused with an error that names its mistake (`parse_errors`). The reader
holds numbers of 64 bits, though, so a numeral beyond these is reported as no number instead of one
that does not fit (`parse_overlong`).
-/

namespace MipsMonitor.Debug.Value

open MipsMonitor.Text

/-! ## Numerals -/

/-- A text without blanks is a numeral for an integer. -/
inductive Numeral : List Char → Int → Prop
  | decimal {cs : List Char} {n : Int} (h : Signed 10 cs n) : Numeral cs n
  | binary {cs : List Char} {n : Nat} (h : Digits 2 cs n) : Numeral ('0' :: 'b' :: cs) n
  | hexadecimal {cs : List Char} {n : Nat} (h : Digits 16 cs n) : Numeral ('0' :: 'x' :: cs) n

/-- A text without blanks has a sign behind the mark of a base. -/
def SignBehindMark (cs : List Char) : Prop :=
  ∃ mark ∈ ['b', 'x'], ∃ sign ∈ ['+', '-'], ∃ rest, cs = '0' :: mark :: sign :: rest

variable {cs : List Char} {n : Int}

/-- The first two characters tell the base of a numeral. -/
theorem splitRadix_cases (cs : List Char) :
    (∃ ds, cs = '0' :: 'b' :: ds ∧ splitRadix cs = (2, ds)) ∨
      (∃ ds, cs = '0' :: 'x' :: ds ∧ splitRadix cs = (16, ds)) ∨
        (∀ mark ∈ ['b', 'x'], ∀ ds, cs ≠ '0' :: mark :: ds) ∧ splitRadix cs = (10, cs) := by
  unfold splitRadix
  split <;> simp_all

/-- No base is larger than sixteen. -/
theorem splitRadix_le : (splitRadix cs).1 ≤ 16 := by
  rcases splitRadix_cases cs with ⟨ds, -, h⟩ | ⟨ds, -, h⟩ | ⟨-, h⟩ <;> simp [h]

/-- A sign is plus or minus. -/
theorem startsWithSign_iff :
    startsWithSign cs = true ↔ ∃ sign ∈ ['+', '-'], ∃ rest, cs = sign :: rest := by
  unfold startsWithSign
  split <;> simp_all

/-- A sign behind a mark is what the reader looks for. -/
theorem signBehindMark_iff :
    SignBehindMark cs ↔ (splitRadix cs).1 ≠ 10 ∧ startsWithSign (splitRadix cs).2 = true := by
  rw [startsWithSign_iff, SignBehindMark]
  rcases splitRadix_cases cs with ⟨ds, rfl, h⟩ | ⟨ds, rfl, h⟩ | ⟨hmark, h⟩
  · simp [h]
  · simp [h]
  · simp only [h, ne_eq, not_true_eq_false, false_and, iff_false]
    rintro ⟨mark, hm, sign, -, rest, hcs⟩
    exact hmark mark hm _ hcs

/-- A run of digits starts with a digit, which is no sign. -/
theorem startsWithSign_of_digits {radix k : Nat} (hradix : radix ≤ 16) (h : Digits radix cs k) :
    ¬startsWithSign cs = true := by
  rw [startsWithSign_iff]
  rintro ⟨sign, hsign, rest, rfl⟩
  obtain ⟨d, hd⟩ := h.forall_mem sign List.mem_cons_self
  obtain ⟨-, hplus, hminus, -⟩ := hd.plain hradix
  simp_all

/-- Signed digits that do not start with a sign are digits. -/
theorem digits_of_signed {radix : Nat} (hsign : ¬startsWithSign cs = true) (h : Signed radix cs n) :
    ∃ k : Nat, n = k ∧ Digits radix cs k := by
  cases h with
  | plain h => exact ⟨_, rfl, h⟩
  | plus => exact absurd rfl hsign
  | minus => exact absurd rfl hsign

/-- The letter of a mark is no decimal digit. -/
theorem not_signed_marked {mark : Char} {ds : List Char} (hmark : mark ∈ ['b', 'x']) :
    ¬Signed 10 ('0' :: mark :: ds) n := by
  intro h
  obtain ⟨k, -, hdigits⟩ := digits_of_signed (by simp [startsWithSign]) h
  obtain ⟨d, hd⟩ := hdigits.forall_mem mark (.tail _ List.mem_cons_self)
  obtain ⟨-, -, -, hletter⟩ := hd.plain (by decide)
  simp_all

/-- The numerals are what is read as signed digits, when there is no sign behind a mark. -/
theorem numeral_iff :
    Numeral cs n ↔ ¬SignBehindMark cs ∧ Signed (splitRadix cs).1 (splitRadix cs).2 n := by
  rw [signBehindMark_iff]
  constructor
  · intro h
    cases h with
    | decimal h =>
      rcases splitRadix_cases cs with ⟨ds, rfl, -⟩ | ⟨ds, rfl, -⟩ | ⟨-, hsplit⟩
      · exact absurd h (not_signed_marked List.mem_cons_self)
      · exact absurd h (not_signed_marked (.tail _ List.mem_cons_self))
      · rw [hsplit]
        exact ⟨fun hsign => hsign.1 rfl, h⟩
    | binary h => exact ⟨fun hsign => startsWithSign_of_digits (by decide) h hsign.2, .plain h⟩
    | hexadecimal h => exact ⟨fun hsign => startsWithSign_of_digits (by decide) h hsign.2, .plain h⟩
  · rintro ⟨hsign, h⟩
    -- The radix is decided by the mark alone; behind a mark no sign may stand, without one the sign
    -- comes first.
    rcases splitRadix_cases cs with ⟨ds, rfl, hsplit⟩ | ⟨ds, rfl, hsplit⟩ | ⟨-, hsplit⟩
    · rw [hsplit] at hsign h
      obtain ⟨k, rfl, hdigits⟩ := digits_of_signed (fun hs => hsign ⟨by simp, hs⟩) h
      exact .binary hdigits
    · rw [hsplit] at hsign h
      obtain ⟨k, rfl, hdigits⟩ := digits_of_signed (fun hs => hsign ⟨by simp, hs⟩) h
      exact .hexadecimal hdigits
    · rw [hsplit] at h
      exact .decimal h

/-! ## What is read -/

/-- The range of 64-bit integers reaches to both sides of zero. -/
theorem straddles_signed64 : IntRange.signed64.Straddles := ⟨by decide, by decide⟩

/-- An integer fits in 64 bits. -/
def FitsLong (n : Int) : Prop := -9223372036854775808 ≤ n ∧ n ≤ 9223372036854775807

/-- An integer fits in 32 bits, with a sign or without. -/
def FitsWord (n : Int) : Prop := -2147483648 ≤ n ∧ n < 4294967296

/-- What reading a text comes to that is a numeral for an integer. -/
def settle (input : String) (n : Int) : Except ValueError Word :=
  match IntRange.signed64.settle n with
  | .error cause => .error (.invalid input cause)
  | .ok n => if range.contains n then .ok (UInt32.ofInt n) else .error (.outOfRange input)

variable {s : String} {v : Word}

/-- The range that is accepted is that of words, with a sign or without. -/
theorem range_contains_iff : range.contains n = true ↔ FitsWord n := by
  rw [IntRange.contains_iff, FitsWord]
  simp only [range]
  omega

/-- The range in which texts are read is that of 64 bits. -/
theorem signed64_contains_iff : IntRange.signed64.contains n = true ↔ FitsLong n :=
  IntRange.contains_iff

/-- A number that fits in a word is read as that word. -/
theorem settle_of_fitsWord (h : FitsWord n) : settle s n = .ok (UInt32.ofInt n) := by
  have hlong : FitsLong n := by
    obtain ⟨hlow, hhigh⟩ := h
    constructor <;> omega
  rw [settle, IntRange.settle_of_contains (signed64_contains_iff.mpr hlong)]
  exact if_pos (range_contains_iff.mpr h)

/-- A number that fits in 64 bits, but not in a word, is out of range. -/
theorem settle_of_fitsLong (hlong : FitsLong n) (h : ¬FitsWord n) :
    settle s n = .error (.outOfRange s) := by
  rw [settle, IntRange.settle_of_contains (signed64_contains_iff.mpr hlong)]
  exact if_neg (mt range_contains_iff.mp h)

/-- The side on which a number of more than 64 bits lies. -/
def side (n : Int) : NumeralError := if n < 0 then .tooSmall else .tooLarge

/-- A number that does not fit in 64 bits is reported as invalid. -/
theorem settle_of_not_fitsLong (h : ¬FitsLong n) : settle s n = .error (.invalid s (side n)) := by
  have hside : IntRange.signed64.settle n = .error (side n) := by
    have hlow : IntRange.signed64.low = -9223372036854775808 := rfl
    have hhigh : IntRange.signed64.high = 9223372036854775807 := rfl
    rw [FitsLong] at h
    by_cases hneg : n < 0
    · rw [side, if_pos hneg, IntRange.settle, if_pos (by omega)]
    · rw [side, if_neg hneg, IntRange.settle, if_neg (by omega), if_pos (by omega)]
  rw [settle, hside]

/-- A sign behind the mark of a base is refused as such. -/
theorem parse_of_signBehindMark (h : SignBehindMark (withoutBlanks s.toList)) :
    parse s = .error (.signAfterPrefix s) :=
  if_pos (signBehindMark_iff.mp h)

/-- Any other text is read in the base that its first characters tell. -/
theorem parse_of_not_signBehindMark (h : ¬SignBehindMark (withoutBlanks s.toList)) :
    parse s =
      match readInt (splitRadix (withoutBlanks s.toList)).1 .signed64
        (splitRadix (withoutBlanks s.toList)).2 with
      | .error cause => .error (.invalid s cause)
      | .ok n => if range.contains n then .ok (UInt32.ofInt n) else .error (.outOfRange s) :=
  if_neg (mt signBehindMark_iff.mpr h)

/-- A numeral is settled by its number. -/
theorem parse_of_numeral (h : Numeral (withoutBlanks s.toList) n) : parse s = settle s n := by
  obtain ⟨hsign, hsigned⟩ := numeral_iff.mp h
  rw [parse_of_not_signBehindMark hsign,
    readInt_of_signed splitRadix_le straddles_signed64 hsigned, settle]

/-- What is no numeral, and has no sign behind a mark, is no number. -/
theorem parse_of_no_numeral (hsign : ¬SignBehindMark (withoutBlanks s.toList))
    (h : ∀ n, ¬Numeral (withoutBlanks s.toList) n) :
    ∃ cause, parse s = .error (.invalid s cause) := by
  rw [parse_of_not_signBehindMark hsign]
  split
  · next cause _ => exact ⟨cause, rfl⟩
  · next n hread =>
    exact absurd (numeral_iff.mpr ⟨hsign, signed_of_readInt splitRadix_le straddles_signed64 hread⟩)
      (h n)

/-- A text has a sign behind a mark, is a numeral, or is neither, and is told so. -/
theorem parse_cases (s : String) :
    SignBehindMark (withoutBlanks s.toList) ∧ parse s = .error (.signAfterPrefix s) ∨
      (∃ n, Numeral (withoutBlanks s.toList) n ∧ parse s = settle s n) ∨
        (∀ n, ¬Numeral (withoutBlanks s.toList) n) ∧
          ∃ cause, parse s = .error (.invalid s cause) := by
  by_cases hsign : SignBehindMark (withoutBlanks s.toList)
  · exact .inl ⟨hsign, parse_of_signBehindMark hsign⟩
  by_cases hnumeral : ∃ n, Numeral (withoutBlanks s.toList) n
  · obtain ⟨n, hn⟩ := hnumeral
    exact .inr (.inl ⟨n, hn, parse_of_numeral hn⟩)
  · have hno := not_exists.mp hnumeral
    exact .inr (.inr ⟨hno, parse_of_no_numeral hsign hno⟩)

/-- The word of an integer is its remainder. -/
theorem ofInt_eq_iff : UInt32.ofInt n = v ↔ (v.toNat : Int) = n % 4294967296 := by
  rw [← UInt32.toNat_inj, UInt32.ofInt, UInt32.toNat_ofNat']
  simp only [Nat.reducePow, Int.reducePow]
  omega

/-- A number is read as a word exactly if it fits in one, as its remainder. -/
theorem settle_eq_ok_iff :
    settle s n = .ok v ↔ FitsWord n ∧ (v.toNat : Int) = n % 4294967296 := by
  rw [← ofInt_eq_iff]
  by_cases hword : FitsWord n
  · rw [settle_of_fitsWord hword, Except.ok.injEq, and_iff_right hword]
  · refine iff_of_false (fun h => ?_) (fun h => hword h.1)
    by_cases hlong : FitsLong n
    · rw [settle_of_fitsLong hlong hword] at h
      cases h
    · rw [settle_of_not_fitsLong hlong] at h
      cases h

/-- A number is out of range exactly if it fits in 64 bits but not in a word. -/
theorem settle_eq_outOfRange_iff :
    settle s n = .error (.outOfRange s) ↔ FitsLong n ∧ ¬FitsWord n := by
  by_cases hlong : FitsLong n
  · by_cases hword : FitsWord n
    · rw [settle_of_fitsWord hword]
      exact iff_of_false (fun h => by cases h) (fun h => h.2 hword)
    · exact iff_of_true (settle_of_fitsLong hlong hword) ⟨hlong, hword⟩
  · rw [settle_of_not_fitsLong hlong]
    exact iff_of_false (fun h => by cases h) (fun h => hlong h.1)

/-- A number is reported as invalid exactly if it does not fit in 64 bits. -/
theorem settle_eq_invalid_iff :
    (∃ cause, settle s n = .error (.invalid s cause)) ↔ ¬FitsLong n := by
  refine ⟨?_, fun hlong => ⟨_, settle_of_not_fitsLong hlong⟩⟩
  rintro ⟨cause, h⟩ hlong
  by_cases hword : FitsWord n
  · rw [settle_of_fitsWord hword] at h
    cases h
  · rw [settle_of_fitsLong hlong hword] at h
    cases h

/-- A numeral is refused for its size alone. -/
theorem settle_error {e : ValueError} (h : settle s n = .error e) :
    e = .outOfRange s ∨ ∃ cause, e = .invalid s cause := by
  by_cases hlong : FitsLong n
  · by_cases hword : FitsWord n
    · rw [settle_of_fitsWord hword] at h
      cases h
    · rw [settle_of_fitsLong hlong hword] at h
      exact .inl (Except.error.inj h).symm
  · rw [settle_of_not_fitsLong hlong] at h
    exact .inr ⟨_, (Except.error.inj h).symm⟩

/-! ## Printed words -/

/-- The texts that a word is printed as: in base sixteen, with eight digits or as many as it has, in
base two, and as a decimal number, with the highest bit for the sign or without. -/
def printed (w : Word) : List String :=
  [hexWord w, hex w.toNat, "0b" ++ String.ofList (Nat.toDigits 2 w.toNat), toString w.toNat,
    toString w.signed]

/-- A natural number in base ten is a numeral for itself. -/
theorem numeral_toString (k : Nat) : Numeral (toString k).toList k := by
  rw [Nat.toString_eq_ofList_toDigits, String.toList_ofList]
  exact .decimal (.plain (digits_toDigits (by decide) (by decide) k))

/-- An integer in base ten is a numeral for itself. -/
theorem numeral_toString_int (m : Int) : Numeral (toString m).toList m :=
  .decimal (signed_toString m)

/-- Digits in base two behind their mark are a numeral. -/
theorem numeral_binary {ds : List Char} {k : Nat} (h : Digits 2 ds k) :
    Numeral ("0b" ++ String.ofList ds).toList k := by
  have hds : (String.ofList ds).toList = ds := String.toList_ofList
  rw [String.toList_append, hds]
  exact .binary h

/-- Digits in base sixteen behind their mark are a numeral. -/
theorem numeral_hexadecimal {ds : List Char} {k : Nat} (h : Digits 16 ds k) :
    Numeral ("0x" ++ String.ofList ds).toList k := by
  have hds : (String.ofList ds).toList = ds := String.toList_ofList
  rw [String.toList_append, hds]
  exact .hexadecimal h

/-- What a word is printed as is a numeral, for a number that is read as the word. -/
theorem numeral_printed {text : String} (h : text ∈ printed v) :
    ∃ n, Numeral text.toList n ∧ FitsWord n ∧ UInt32.ofInt n = v := by
  have hlt := v.toNat_lt
  have hword : FitsWord v.toNat ∧ UInt32.ofInt v.toNat = v :=
    ⟨⟨by omega, by omega⟩, ofInt_eq_iff.mpr (by omega)⟩
  simp only [printed, List.mem_cons, List.not_mem_nil, or_false] at h
  -- Padded and plain hexadecimal, binary, and decimal without and with a sign.
  rcases h with rfl | rfl | rfl | rfl | rfl
  · have hdigits := (digits_toDigits (by decide) (Nat.le_refl 16) v.toNat).leftpad 8
    exact ⟨v.toNat, numeral_hexadecimal hdigits, hword⟩
  · have hdigits := digits_toDigits (by decide) (Nat.le_refl 16) v.toNat
    exact ⟨v.toNat, numeral_hexadecimal hdigits, hword⟩
  · have hdigits := digits_toDigits (Nat.lt_succ_self 1) (by decide) v.toNat
    exact ⟨v.toNat, numeral_binary hdigits, hword⟩
  · exact ⟨v.toNat, numeral_toString _, hword⟩
  · refine ⟨v.signed, numeral_toString_int _, ?_⟩
    rw [ofInt_eq_iff, FitsWord, Word.signed_eq]
    split_ifs <;> omega

/-- There are no blanks within a numeral. -/
theorem Numeral.forall_not_blank (h : Numeral cs n) : ∀ c ∈ cs, isBlank c = false := by
  have hmark : isBlank '0' = false ∧ isBlank 'b' = false ∧ isBlank 'x' = false := by decide
  cases h with
  | decimal h => exact h.forall_not_blank (by decide)
  | binary h =>
    refine List.forall_mem_cons.mpr ⟨hmark.1, List.forall_mem_cons.mpr ⟨hmark.2.1, ?_⟩⟩
    exact h.forall_not_blank (by decide)
  | hexadecimal h =>
    refine List.forall_mem_cons.mpr ⟨hmark.1, List.forall_mem_cons.mpr ⟨hmark.2.2, ?_⟩⟩
    exact h.forall_not_blank (by decide)

/-- A numeral has no blanks to leave out. -/
theorem withoutBlanks_of_numeral (h : Numeral cs n) : withoutBlanks cs = cs := by
  refine List.filter_eq_self.mpr fun c hc => ?_
  rw [h.forall_not_blank c hc]
  rfl

/-! ## Values and mistakes -/

/-- A text is read as a word exactly if it is a numeral for an integer that fits, blanks aside. -/
theorem parse_eq_ok_iff :
    parse s = .ok v ↔
      ∃ n, Numeral (withoutBlanks s.toList) n ∧ FitsWord n ∧ (v.toNat : Int) = n % 4294967296 := by
  constructor
  · intro h
    rcases parse_cases s with ⟨-, hsign⟩ | ⟨n, hn, hsettle⟩ | ⟨-, cause, hcause⟩
    · cases hsign.symm.trans h
    · exact ⟨n, hn, settle_eq_ok_iff.mp (hsettle.symm.trans h)⟩
    · cases hcause.symm.trans h
  · rintro ⟨n, hn, hfits⟩
    rw [parse_of_numeral hn]
    exact settle_eq_ok_iff.mpr hfits

/-- Reading undoes printing. -/
theorem parse_printed {text : String} (h : text ∈ printed v) : parse text = .ok v := by
  obtain ⟨n, hn, hfits, hv⟩ := numeral_printed h
  refine parse_eq_ok_iff.mpr ⟨n, ?_, hfits, ofInt_eq_iff.mp hv⟩
  rwa [withoutBlanks_of_numeral hn]

/-- A text is read as a word if and only if, its blanks left out, it is a numeral that fits in 32
bits, and the word is its number but for a multiple of `2^32`. So every text that a word is printed
as is read as the word. -/
theorem parse_exact :
    (∀ (s : String) (v : Word), parse s = .ok v ↔
      ∃ n, Numeral (withoutBlanks s.toList) n ∧ FitsWord n ∧ (v.toNat : Int) = n % 4294967296) ∧
    ∀ v : Word, ∀ text ∈ printed v, parse text = .ok v :=
  ⟨fun _ _ => parse_eq_ok_iff, fun _ _ => parse_printed⟩

example : parse " 0x dead BEEF " = .ok 0xDEADBEEF := by decide

/-- A text that is no value is told its mistake: a sign behind a mark, a number that does not fit in
32 bits, or that there is no number. Numbers of more than 64 bits count as none. -/
theorem parse_errors (s : String) :
    (∀ e, parse s = .error e →
      e = .signAfterPrefix s ∨ e = .outOfRange s ∨ ∃ cause, e = .invalid s cause) ∧
    (parse s = .error (.signAfterPrefix s) ↔ SignBehindMark (withoutBlanks s.toList)) ∧
    (parse s = .error (.outOfRange s) ↔
      ∃ n, Numeral (withoutBlanks s.toList) n ∧ FitsLong n ∧ ¬FitsWord n) ∧
    ((∃ cause, parse s = .error (.invalid s cause)) ↔
      ¬SignBehindMark (withoutBlanks s.toList) ∧
        ∀ n, Numeral (withoutBlanks s.toList) n → ¬FitsLong n) := by
  -- Every text falls in one of three cases: a sign behind the mark, a numeral, or neither.
  refine ⟨fun e he => ?_, ⟨fun h => ?_, parse_of_signBehindMark⟩, ⟨fun h => ?_, ?_⟩,
    ?_, ?_⟩
  · rcases parse_cases s with ⟨-, hsign⟩ | ⟨n, -, hsettle⟩ | ⟨-, cause, hcause⟩
    · exact .inl (Except.error.inj (he.symm.trans hsign))
    · exact .inr (settle_error (hsettle.symm.trans he))
    · exact .inr (.inr ⟨cause, Except.error.inj (he.symm.trans hcause)⟩)
  · rcases parse_cases s with ⟨hmark, -⟩ | ⟨n, -, hsettle⟩ | ⟨-, cause, hcause⟩
    · exact hmark
    · rcases settle_error (hsettle.symm.trans h) with he | ⟨cause, he⟩ <;> cases he
    · cases hcause.symm.trans h
  · rcases parse_cases s with ⟨-, hsign⟩ | ⟨n, hn, hsettle⟩ | ⟨-, cause, hcause⟩
    · cases hsign.symm.trans h
    · exact ⟨n, hn, settle_eq_outOfRange_iff.mp (hsettle.symm.trans h)⟩
    · cases hcause.symm.trans h
  · rintro ⟨n, hn, hfits⟩
    exact (parse_of_numeral hn).trans (settle_eq_outOfRange_iff.mpr hfits)
  · rintro ⟨cause, h⟩
    refine ⟨fun hsign => ?_, fun n hn => ?_⟩
    · cases (parse_of_signBehindMark hsign).symm.trans h
    · exact settle_eq_invalid_iff.mp ⟨cause, (parse_of_numeral hn).symm.trans h⟩
  · rintro ⟨hsign, hlong⟩
    rcases parse_cases s with ⟨hmark, -⟩ | ⟨n, hn, hsettle⟩ | ⟨-, hcause⟩
    · exact absurd hmark hsign
    · rw [hsettle]
      exact settle_eq_invalid_iff.mpr (hlong n hn)
    · exact hcause

/-- A number of 64 bits and more does not fit in 32 bits either, but is reported as no number. -/
theorem parse_overlong :
    Numeral (withoutBlanks "9223372036854775808".toList) 9223372036854775808 ∧
      ¬FitsWord 9223372036854775808 ∧
      parse "9223372036854775808" = .error (.invalid "9223372036854775808" .tooLarge) := by
  have hnumeral : Numeral (withoutBlanks "9223372036854775808".toList) 9223372036854775808 := by
    have h := numeral_toString 9223372036854775808
    rwa [← withoutBlanks_of_numeral h] at h
  have hword : ¬FitsWord 9223372036854775808 := fun h => absurd h.2 (by decide)
  have hlong : ¬FitsLong 9223372036854775808 := fun h => absurd h.2 (by decide)
  exact ⟨hnumeral, hword, (parse_of_numeral hnumeral).trans (settle_of_not_fitsLong hlong)⟩

end MipsMonitor.Debug.Value
