import Mathlib.Data.List.Induction
import MipsMonitor.Text.Blank
import MipsMonitor.Text.Numeral

/-!
# Numerals and what they denote

`Digits radix cs n` says that `cs` is a run of digits which spells `n`, and `Signed radix cs n` that
it is such a run behind an optional sign. Both are built from the left, one digit at the end at a
time, since that is how the reader goes: what it holds after a run is the value of the run.

The reader settles each value it reaches in the range it was given. While zero is in the range,
leaving it is final: one more digit takes a value further away from zero. So the reader of a whole
run settles the value of the run, however long the run is (`readInt_of_signed`), and it reads
nothing but runs (`signed_of_readInt`). On the other side, what a number is printed as is a run that
spells it (`digits_toDigits`).
-/

namespace MipsMonitor.Text

/-! ## Digits -/

/-- A character is the digit of a value in a base, in either case. -/
def IsDigit (radix : Nat) (c : Char) (d : Nat) : Prop :=
  d < radix ∧ (c = d.digitChar ∨ c = d.digitChar.toUpper)

/-- A run of one or more digits spells a number. -/
inductive Digits (radix : Nat) : List Char → Nat → Prop
  | one {c : Char} {d : Nat} (h : IsDigit radix c d) : Digits radix [c] d
  | more {cs : List Char} {n : Nat} {c : Char} {d : Nat} (hcs : Digits radix cs n)
      (h : IsDigit radix c d) : Digits radix (cs ++ [c]) (n * radix + d)

/-- A run of digits behind an optional sign spells an integer. -/
inductive Signed (radix : Nat) : List Char → Int → Prop
  | plain {cs : List Char} {n : Nat} (h : Digits radix cs n) : Signed radix cs n
  | plus {cs : List Char} {n : Nat} (h : Digits radix cs n) : Signed radix ('+' :: cs) n
  | minus {cs : List Char} {n : Nat} (h : Digits radix cs n) : Signed radix ('-' :: cs) (-n)

variable {radix : Nat} {cs ds : List Char} {c : Char} {d n : Nat}

/-- The digits up to fifteen, in both cases, are read as what they are. -/
theorem digit?_digitChar :
    ∀ d < 16, digit? 16 d.digitChar = some d ∧ digit? 16 d.digitChar.toUpper = some d := by
  decide

/-- A digit of a value is neither blank nor a sign, and none up to nine is a letter of a mark. -/
def Plain (c : Char) (d : Nat) : Prop :=
  isBlank c = false ∧ c ≠ '+' ∧ c ≠ '-' ∧ (d < 10 → c ≠ 'b' ∧ c ≠ 'x')

instance (c : Char) (d : Nat) : Decidable (Plain c d) := inferInstanceAs (Decidable (_ ∧ _))

/-- The sixteen digit characters are plain, in lower and in upper case. -/
theorem digitChar_plain : ∀ d < 16, Plain d.digitChar d ∧ Plain d.digitChar.toUpper d := by
  decide

/-- A character that is read as a digit is one of ASCII. -/
theorem toNat_lt_of_digit? (h : digit? 16 c = some d) : c.toNat < 128 := by
  have hle : ∀ {high : Char}, c ≤ high → c.toNat ≤ high.toNat := fun h => h
  simp only [digit?, Option.filter_eq_some_iff] at h
  obtain ⟨hvalue, -⟩ := h
  split at hvalue
  · next hrange => exact Nat.lt_of_le_of_lt (hle hrange.2) (by decide)
  split at hvalue
  · next hrange => exact Nat.lt_of_le_of_lt (hle hrange.2) (by decide)
  split at hvalue
  · next hrange => exact Nat.lt_of_le_of_lt (hle hrange.2) (by decide)
  · cases hvalue

/-- A character read as a value up to fifteen is the digit of that value. -/
theorem eq_digitChar_of_digit? (h : digit? 16 c = some d) :
    c = d.digitChar ∨ c = d.digitChar.toUpper := by
  have htable : ∀ n < 128, ∀ d ∈ digit? 16 (Char.ofNat n),
      Char.ofNat n = d.digitChar ∨ Char.ofNat n = d.digitChar.toUpper := by
    decide
  have hc := htable c.toNat (toNat_lt_of_digit? h) d
  rw [Char.ofNat_toNat] at hc
  exact hc h

/-- A digit of a base is a digit of base sixteen whose value lies below the base. -/
theorem digit?_eq_some_iff_lt (hradix : radix ≤ 16) :
    digit? radix c = some d ↔ digit? 16 c = some d ∧ d < radix := by
  simp only [digit?, Option.filter_eq_some_iff, decide_eq_true_eq, and_assoc]
  exact and_congr_right fun _ => ⟨fun hd => ⟨by omega, hd⟩, And.right⟩

/-- What is read as a digit is a digit of the radix. -/
theorem digit?_eq_some_iff (hradix : radix ≤ 16) : digit? radix c = some d ↔ IsDigit radix c d := by
  rw [digit?_eq_some_iff_lt hradix, IsDigit, and_comm]
  refine and_congr_right fun hd => ⟨eq_digitChar_of_digit?, ?_⟩
  rintro (rfl | rfl)
  · exact (digit?_digitChar d (by omega)).1
  · exact (digit?_digitChar d (by omega)).2

/-! ## The reader -/

namespace IntRange

/-- What reading an integer comes to: the integer, or the side on which it lies outside the
range. -/
def settle (range : IntRange) (n : Int) : Except NumeralError Int :=
  if n < range.low then .error .tooSmall else if range.high < n then .error .tooLarge else .ok n

/-- The range has zero, with numbers on both sides. -/
def Straddles (range : IntRange) : Prop := range.low < 0 ∧ 0 ≤ range.high

variable {range : IntRange} {m : Int}

/-- A range contains what lies between its bounds. -/
theorem contains_iff : range.contains m = true ↔ range.low ≤ m ∧ m ≤ range.high := by
  simp only [contains, Bool.and_eq_true, decide_eq_true_eq]

/-- A number in the range is taken as it is. -/
theorem settle_of_contains (h : range.contains m = true) : range.settle m = .ok m := by
  have hm := contains_iff.mp h
  rw [settle, if_neg (by omega), if_neg (by omega)]

/-- A number is taken if it is in the range, and then as it is. -/
theorem settle_eq_ok_iff {k : Int} :
    range.settle m = .ok k ↔ range.contains m = true ∧ m = k := by
  refine ⟨fun h => ?_, ?_⟩
  · unfold settle at h
    split_ifs at h with hlow hhigh
    exact ⟨contains_iff.mpr (by omega), Except.ok.inj h⟩
  · rintro ⟨hm, rfl⟩
    exact settle_of_contains hm

end IntRange

/-- The integer that a run of digits stands for behind a sign. -/
def signed (negative : Bool) (n : Nat) : Int := if negative then -n else n

variable {range : IntRange} {negative : Bool} {value : Int}

/-- Outside a range with zero in it there is no way back: what is further away from zero lies
outside on the same side. -/
theorem IntRange.settle_further (hzero : range.Straddles) {m : Nat} (h : n ≤ m) :
    (range.settle (signed negative n) >>= fun _ => range.settle (signed negative m)) =
      range.settle (signed negative m) := by
  obtain ⟨hlow, hhigh⟩ := hzero
  by_cases hn : range.contains (signed negative n) = true
  · rw [settle_of_contains hn]
    rfl
  · rw [contains_iff] at hn
    cases negative
    all_goals
      simp only [signed, if_true, if_false, Bool.false_eq_true, settle] at hn ⊢
    · rw [if_neg (by omega), if_pos (by omega), if_neg (by omega), if_pos (by omega)]
      rfl
    · rw [if_pos (by omega), if_pos (by omega)]
      rfl

/-- One digit more takes the value on and settles it. -/
theorem readDigits_cons_of_isDigit (hradix : radix ≤ 16) (h : IsDigit radix c d) :
    readDigits radix range negative (signed negative n) (c :: cs) =
      range.settle (signed negative (n * radix + d)) >>=
        fun next => readDigits radix range negative next cs := by
  -- One more digit moves the number away from zero, on the side of its sign.
  have hnext : (if negative then signed negative n * radix - d
      else signed negative n * radix + d) = signed negative (n * radix + d) := by
    cases negative
    · simp only [signed, Bool.false_eq_true, if_false]
      push_cast
      rfl
    · simp only [signed, if_true]
      push_cast
      rw [Int.neg_mul]
      omega
  rw [readDigits, (digit?_eq_some_iff hradix).mpr h]
  simp only [hnext, IntRange.settle]
  split_ifs <;> rfl

/-- The reader goes on behind a run from what it holds there. -/
theorem readDigits_append :
    readDigits radix range negative value (cs ++ ds) =
      readDigits radix range negative value cs >>=
        fun next => readDigits radix range negative next ds := by
  induction cs generalizing value with
  | nil => rfl
  | cons c cs ih =>
    rw [List.cons_append, readDigits, readDigits]
    cases digit? radix c with
    | none => rfl
    | some d =>
      dsimp only
      split_ifs
      · rfl
      · rfl
      · exact ih
      · rfl
      · rfl
      · exact ih

/-- The reader settles the value that a run ends with, once it has read all but the last digit. -/
theorem readDigits_last (hradix : radix ≤ 16) (h : IsDigit radix c d) :
    readDigits radix range negative (signed negative n) [c] =
      range.settle (signed negative (n * radix + d)) := by
  rw [readDigits_cons_of_isDigit hradix h]
  cases range.settle (signed negative (n * radix + d)) <;> rfl

/-- Zero is zero under either sign. -/
theorem signed_zero : signed negative 0 = 0 := by cases negative <;> rfl

/-- The reader settles the value of a run of digits. -/
theorem readDigits_of_digits (hradix : radix ≤ 16) (hzero : range.Straddles)
    (h : Digits radix cs n) :
    readDigits radix range negative 0 cs = range.settle (signed negative n) := by
  induction h with
  | one h =>
    rw [← signed_zero, readDigits_last hradix h, Nat.zero_mul, Nat.zero_add]
  | @more cs n c d hcs h ih =>
    have hle : n ≤ n * radix + d :=
      Nat.le_add_right_of_le (Nat.le_mul_of_pos_right n (Nat.zero_lt_of_lt h.1))
    rw [readDigits_append, ih, ← IntRange.settle_further hzero hle]
    cases hn : range.settle (signed negative n) with
    | error => rfl
    | ok value =>
      obtain ⟨-, rfl⟩ := IntRange.settle_eq_ok_iff.mp hn
      exact readDigits_last hradix h

/-- What the reader goes on with is a digit. -/
theorem isDigit_of_readDigits {before : Int} (hradix : radix ≤ 16)
    (h : readDigits radix range negative before (c :: cs) = .ok value) :
    ∃ d, IsDigit radix c d := by
  rw [readDigits] at h
  split at h
  · cases h
  · next d hd => exact ⟨d, (digit?_eq_some_iff hradix).mp hd⟩

/-- The reader reads nothing but runs of digits. -/
theorem digits_of_readDigits (hradix : radix ≤ 16) (hcs : cs ≠ [])
    (h : readDigits radix range negative 0 cs = .ok value) : ∃ n, Digits radix cs n := by
  induction cs using List.reverseRecOn generalizing value with
  | nil => exact absurd rfl hcs
  | append_singleton cs c ih =>
    rw [readDigits_append] at h
    cases hbefore : readDigits radix range negative 0 cs with
    | error => rw [hbefore] at h; cases h
    | ok before =>
      rw [hbefore] at h
      obtain ⟨d, hd⟩ := isDigit_of_readDigits hradix h
      by_cases hempty : cs = []
      · subst hempty
        exact ⟨d, .one hd⟩
      · obtain ⟨n, hn⟩ := ih hempty hbefore
        exact ⟨_, .more hn hd⟩

/-- A run of digits has at least one. -/
theorem Digits.ne_nil (h : Digits radix cs n) : cs ≠ [] := by
  cases h with
  | one => exact List.cons_ne_nil _ _
  | more => exact List.append_ne_nil_of_right_ne_nil _ (List.cons_ne_nil _ _)

/-- A run of digits consists of digits. -/
theorem Digits.forall_mem (h : Digits radix cs n) : ∀ c ∈ cs, ∃ d, IsDigit radix c d := by
  induction h with
  | one h => exact List.forall_mem_singleton.mpr ⟨_, h⟩
  | more _ h ih =>
    exact List.forall_mem_append.mpr ⟨ih, List.forall_mem_singleton.mpr ⟨_, h⟩⟩

/-- A digit is no blank and no sign, and a decimal one no letter of a mark. -/
theorem IsDigit.plain (hradix : radix ≤ 16) (h : IsDigit radix c d) :
    isBlank c = false ∧ c ≠ '+' ∧ c ≠ '-' ∧ (radix ≤ 10 → c ≠ 'b' ∧ c ≠ 'x') := by
  obtain ⟨hlt, hc⟩ := h
  have hplain : Plain c d := by
    obtain ⟨hlower, hupper⟩ := digitChar_plain d (by omega)
    rcases hc with rfl | rfl
    · exact hlower
    · exact hupper
  obtain ⟨hblank, hplus, hminus, hmark⟩ := hplain
  exact ⟨hblank, hplus, hminus, fun hten => hmark (by omega)⟩

/-- There are no blanks among digits. -/
theorem Digits.forall_not_blank (hradix : radix ≤ 16) (h : Digits radix cs n) :
    ∀ c ∈ cs, isBlank c = false := by
  intro c hc
  obtain ⟨d, hd⟩ := h.forall_mem c hc
  exact (hd.plain hradix).1

/-- There are no blanks among signed digits. -/
theorem Signed.forall_not_blank {m : Int} (hradix : radix ≤ 16) (h : Signed radix cs m) :
    ∀ c ∈ cs, isBlank c = false := by
  cases h with
  | plain h => exact h.forall_not_blank hradix
  | plus h => exact List.forall_mem_cons.mpr ⟨by decide, h.forall_not_blank hradix⟩
  | minus h => exact List.forall_mem_cons.mpr ⟨by decide, h.forall_not_blank hradix⟩

/-- An integer is read as the value it spells, settled in the range. -/
theorem readInt_of_signed {m : Int} (hradix : radix ≤ 16) (hzero : range.Straddles)
    (h : Signed radix cs m) : readInt radix range cs = range.settle m := by
  cases h with
  | plain h =>
    obtain ⟨c, rest, rfl⟩ := List.exists_cons_of_ne_nil h.ne_nil
    obtain ⟨d, hd⟩ := h.forall_mem c List.mem_cons_self
    obtain ⟨-, hplus, hminus, -⟩ := hd.plain hradix
    calc readInt radix range (c :: rest)
      _ = readDigits radix range false 0 (c :: rest) := by
        unfold readInt
        split <;> simp_all
      _ = _ := readDigits_of_digits hradix hzero h
  | plus h =>
    rw [readInt, readDigits_of_digits hradix hzero h]
    · rfl
    · exact fun heq => h.ne_nil heq
  | minus h =>
    rw [readInt, if_pos hzero.1, readDigits_of_digits hradix hzero h]
    · rfl
    · exact fun heq => h.ne_nil heq

/-- Nothing but a signed run of digits is read as an integer. -/
theorem signed_of_readInt {m : Int} (hradix : radix ≤ 16) (hzero : range.Straddles)
    (h : readInt radix range cs = .ok m) : Signed radix cs m := by
  -- Whatever is read is spelled as a number; which one it is follows by reading it again.
  have hsigned : ∃ m, Signed radix cs m := by
    unfold readInt at h
    split at h
    · cases h
    · cases h
    · cases h
    · next ds hds =>
      obtain ⟨n, hn⟩ := digits_of_readDigits hradix hds h
      exact ⟨_, .plus hn⟩
    · next ds hds =>
      rw [if_pos hzero.1] at h
      obtain ⟨n, hn⟩ := digits_of_readDigits hradix hds h
      exact ⟨_, .minus hn⟩
    · next hcs _ _ _ _ =>
      obtain ⟨n, hn⟩ := digits_of_readDigits hradix hcs h
      exact ⟨_, .plain hn⟩
  obtain ⟨k, hk⟩ := hsigned
  rw [readInt_of_signed hradix hzero hk] at h
  obtain ⟨-, rfl⟩ := IntRange.settle_eq_ok_iff.mp h
  exact hk

/-- A text spells one integer at most. -/
theorem Signed.unique {m k : Int} (hradix : radix ≤ 16) (hm : Signed radix cs m)
    (hk : Signed radix cs k) : m = k := by
  -- Both are what is read in a range that is wide enough for both.
  let wide : IntRange := ⟨-(m.natAbs + k.natAbs) - 1, m.natAbs + k.natAbs⟩
  have hwide : wide.Straddles := ⟨by simp only [wide]; omega, by simp only [wide]; omega⟩
  have hreads : wide.settle m = wide.settle k :=
    (readInt_of_signed hradix hwide hm).symm.trans (readInt_of_signed hradix hwide hk)
  have hm' : wide.contains m = true :=
    IntRange.contains_iff.mpr ⟨by simp only [wide]; omega, by simp only [wide]; omega⟩
  rw [IntRange.settle_of_contains hm'] at hreads
  exact (IntRange.settle_eq_ok_iff.mp hreads.symm).2.symm

/-- A run of digits spells one number. -/
theorem Digits.unique {m : Nat} (hradix : radix ≤ 16) (hn : Digits radix cs n)
    (hm : Digits radix cs m) : n = m :=
  Int.ofNat_inj.mp (Signed.unique hradix (.plain hn) (.plain hm))

/-! ## What numbers are printed as -/

/-- A number is printed as a run of digits that spells it. -/
theorem digits_toDigits (hpos : 1 < radix) (hradix : radix ≤ 16) (n : Nat) :
    Digits radix (Nat.toDigits radix n) n := by
  induction n using Nat.strongRecOn with
  | ind n ih =>
    by_cases hn : n < radix
    · rw [Nat.toDigits_of_lt_base hn]
      exact .one ⟨hn, .inl rfl⟩
    · have hlast : IsDigit radix (n % radix).digitChar (n % radix) :=
        ⟨Nat.mod_lt n (by omega), .inl rfl⟩
      have hmore := Digits.more (ih (n / radix) (Nat.div_lt_self (by omega) hpos)) hlast
      rw [Nat.toDigits_of_base_le hpos (by omega)]
      rwa [Nat.mul_comm, Nat.div_add_mod] at hmore

/-- An integer is printed in base ten as a signed run that spells it. -/
theorem signed_toString (m : Int) : Signed 10 (toString m).toList m := by
  have hdigits (k : Nat) : Digits 10 k.repr.toList k := by
    rw [Nat.toList_repr]
    exact digits_toDigits (by decide) (by decide) k
  rw [Int.toString_eq_repr, Int.repr_eq_if]
  split_ifs with hm
  · have hsigned := Signed.plain (hdigits m.toNat)
    rwa [Int.toNat_of_nonneg hm] at hsigned
  · have hneg : -((-m).toNat : Int) = m := by omega
    have hsigned := Signed.minus (hdigits (-m).toNat)
    rw [hneg] at hsigned
    rwa [String.toList_append]

/-- A zero in front of a run leaves what it spells. -/
theorem Digits.zero_cons (h : Digits radix cs n) : Digits radix ('0' :: cs) n := by
  induction h with
  | @one c d hd =>
    have hzero : IsDigit radix '0' 0 := ⟨Nat.zero_lt_of_lt hd.1, .inl rfl⟩
    have hmore := Digits.more (.one hzero) hd
    rwa [Nat.zero_mul, Nat.zero_add] at hmore
  | more _ hd ih => exact .more ih hd

/-- A run that is filled with zeros to a width spells the same number. -/
theorem Digits.leftpad (h : Digits radix cs n) (width : Nat) :
    Digits radix (cs.leftpad width '0') n := by
  unfold List.leftpad
  induction width - cs.length with
  | zero => exact h
  | succ k ih => exact ih.zero_cons

end MipsMonitor.Text
