import MipsMonitor.Proofs.Instruction.Spelling
import MipsMonitor.Proofs.Instruction.Tiling

/-!
# Which texts are patterns, and what they mean

A text is a pattern if the bytes that count are 32, if each of them is a binary digit or the letter
of an operand, and if they fall into at most twelve runs. `Pattern.parse_language` says this, says
which error any other text gets, and says what a pattern means in terms of its text alone
(`Pattern.Means`): the components are the runs, a word matches if it has the digits of the text at
their places, and an operand has the bits of the first run of its letter.

Each statement about a pattern is an induction over the runs and the segments that they spell
(`Pattern.Spells`), with the bytes of the first run split off from the text. The components below
that run are again those of a shorter text, laid from where the first run ends.
-/

namespace MipsMonitor

/-- No two errors are worded alike. -/
theorem PatternError.message_injective : Function.Injective PatternError.message := by
  intro e e' h
  revert h
  cases e <;> cases e' <;> decide +kernel

namespace Pattern

/-- What a pattern means whose text has these bytes, in these runs. -/
structure Means (bytes : List UInt8) (runs : List (List UInt8)) (p : Pattern) : Prop where
  /-- The components lie side by side from the highest bit of a word down to the lowest. -/
  tiles : Component.Tiles 32 p.components
  /-- There is one component for each run, as long as the run. -/
  lens : p.components.map (·.len) = runs.map List.length
  /-- A word matches if each digit is the bit at its place. -/
  accepts_iff : ∀ w, p.accepts w = true ↔
    ∀ k b, bytes[k]? = some b → isBinary b = true → w.bit (31 - k) = (b == 0x31)
  /-- An operand has no value if its letter does not occur. -/
  get?_eq_none_iff : ∀ op w, p.get? op w = none ↔ op.byte ∉ bytes
  /-- The value of an operand is that of the bits at the first run of its letter. -/
  get?_first : ∀ op w before run after, runs = before ++ run :: after → op.byte ∈ run →
    op.byte ∉ before.flatten → ∃ v, p.get? op w = some v ∧
      v.toNat = (w.toNat >>> (32 - (before.flatten.length + run.length))) % (1 <<< run.length)

variable {run : List UInt8} {runs rest : List (List UInt8)} {c : Content}
  {segs : List (Nat × Content)} {w : Word} {op : Operand} {high : Nat} {e : PatternError}

/-! ## The pattern that is read -/

/-- Runs are laid side by side. -/
theorem tiles_place (h : List.Forall₂ Spells runs segs) (hne : [] ∉ runs)
    (hhigh : runs.flatten.length = high) : Component.Tiles high (place high segs) := by
  induction h generalizing high with
  | nil => exact hhigh.symm
  | @cons run segment rest segs hspells _ ih =>
    obtain ⟨hrun, hrest⟩ := not_or.mp (mt List.mem_cons.mpr hne)
    obtain ⟨len, c⟩ := segment
    obtain rfl : len = run.length := hspells.1
    rw [List.flatten_cons, List.length_append] at hhigh
    have hplace : high - run.length + run.length = high := by omega
    have hrest' : rest.flatten.length = high - run.length := by omega
    exact ⟨List.length_pos_iff.mpr (Ne.symm hrun), hplace, ih hrest hrest'⟩

/-- The components are as long as the runs that they spell. -/
theorem lens_place (h : List.Forall₂ Spells runs segs) (high : Nat) :
    (place high segs).map (·.len) = runs.map List.length := by
  induction h generalizing high with
  | nil => rfl
  | cons hspells _ ih => exact congrArg₂ List.cons hspells.1 (ih _)

/-- A word has the digits of a run if they are the bits at its place. -/
theorem accepts_component {low : Nat} (hrun : run ≠ []) (huniform : Uniform run)
    (hc : content run = .ok c) (hlow : low + run.length ≤ 32) :
    (Component.mk low run.length c).accepts w = true ↔
      ∀ k b, run[k]? = some b → isBinary b = true →
        w.bit (low + run.length - 1 - k) = (b == 0x31) := by
  have hlen : 0 < run.length := List.length_pos_iff.mpr hrun
  have hextract (k : Nat) := Component.bit_extract (c := ⟨low, run.length, c⟩) hlen hlow w k
  rcases content_of_uniform huniform hc with ⟨rfl, hdigits⟩ | ⟨op, rfl, hletters⟩
  · -- The digits count from the left, and the bits of the number that they spell from the right.
    have hequal : (Component.mk low run.length (.fixed (binaryValue run))).accepts w = true ↔
        Component.extract ⟨low, run.length, .fixed (binaryValue run)⟩ w = binaryValue run :=
      beq_iff_eq
    rw [hequal]
    constructor
    · intro h k b hb _
      have hk : k < run.length := (List.getElem?_eq_some_iff.mp hb).1
      have hk' : run.length - 1 - k < run.length := by omega
      have hbit := hextract (run.length - 1 - k)
      rw [h, bit_binaryValue run (by omega), decide_eq_true hk', Bool.true_and,
        List.getElem?_reverse (by omega), Nat.sub_sub_self (by omega), hb] at hbit
      rw [show low + run.length - 1 - k = low + (run.length - 1 - k) by omega]
      exact hbit.symm
    · intro h
      refine Word.eq_of_bit fun j hj => ?_
      rw [hextract, bit_binaryValue run hj]
      by_cases hjlen : j < run.length
      · have hk : run.length - 1 - j < run.length := by omega
        have hb := List.getElem?_eq_getElem hk
        have hbit := h _ _ hb (hdigits _ (List.getElem_mem hk))
        rw [show low + run.length - 1 - (run.length - 1 - j) = low + j by omega] at hbit
        rw [decide_eq_true hjlen, Bool.true_and, List.getElem?_reverse hjlen, hb, hbit]
        rfl
      · rw [decide_eq_false hjlen, Bool.false_and,
          List.getElem?_eq_none (by rw [List.length_reverse]; omega)]
        rfl
  · -- A run of letters holds no digits, and every word matches it.
    refine iff_of_true rfl fun k b hb hdigit => ?_
    rw [hletters b (List.mem_of_getElem? hb), op.isBinary_byte] at hdigit
    cases hdigit

/-- A word has all digits of a text if they are the bits at their places. -/
theorem accepts_place (h : List.Forall₂ Spells runs segs)
    (hruns : ∀ run ∈ runs, run ≠ [] ∧ Uniform run) (hhigh : runs.flatten.length = high)
    (hword : high ≤ 32) :
    (Pattern.mk (place high segs)).accepts w = true ↔
      ∀ k b, runs.flatten[k]? = some b → isBinary b = true →
        w.bit (high - 1 - k) = (b == 0x31) := by
  induction h generalizing high with
  | nil =>
    refine iff_of_true rfl fun k b hb => ?_
    cases hb
  | @cons run segment rest segs hspells _ ih =>
    obtain ⟨len, c⟩ := segment
    obtain ⟨hlen, hc⟩ := hspells
    obtain rfl : len = run.length := hlen
    obtain ⟨hrun, hrest⟩ := List.forall_mem_cons.mp hruns
    rw [List.flatten_cons, List.length_append] at hhigh
    have hlow : high - run.length = rest.flatten.length := by omega
    have hsplit : (Pattern.mk (place high ((run.length, c) :: segs))).accepts w = true ↔
        (Component.mk (high - run.length) run.length c).accepts w = true ∧
          (Pattern.mk (place (high - run.length) segs)).accepts w = true := Bool.and_eq_true_iff
    rw [hsplit, ih hrest hlow.symm (by omega),
      accepts_component hrun.1 hrun.2 hc (by omega), List.flatten_cons]
    -- A byte is one of the first run, or one of the rest, which begins where the run ends.
    constructor
    · rintro ⟨hfirst, hothers⟩ k b hb hdigit
      rw [List.getElem?_append] at hb
      split at hb
      · have hbit := hfirst k b hb hdigit
        rwa [show high - run.length + run.length - 1 - k = high - 1 - k by omega] at hbit
      · have hbit := hothers (k - run.length) b hb hdigit
        rwa [show high - run.length - 1 - (k - run.length) = high - 1 - k by omega] at hbit
    · intro hall
      refine ⟨fun k b hb hdigit => ?_, fun k b hb hdigit => ?_⟩
      · have hk : k < run.length := (List.getElem?_eq_some_iff.mp hb).1
        have hbit := hall k b (by rwa [List.getElem?_append_left hk]) hdigit
        rwa [show high - run.length + run.length - 1 - k = high - 1 - k by omega]
      · have hbit := hall (run.length + k) b
          (by rwa [List.getElem?_append_right (Nat.le_add_right _ _), Nat.add_sub_cancel_left])
          hdigit
        rwa [show high - run.length - 1 - k = high - 1 - (run.length + k) by omega]

/-- A run belongs to the operand whose letter it has. -/
theorem content_eq_operand_iff (hrun : run ≠ []) (huniform : Uniform run)
    (hc : content run = .ok c) : c = .operand op ↔ op.byte ∈ run := by
  rcases content_of_uniform huniform hc with ⟨rfl, hdigits⟩ | ⟨op', rfl, hletters⟩
  · refine iff_of_false nofun fun hop => ?_
    cases op.isBinary_byte.symm.trans (hdigits _ hop)
  · constructor
    · intro h
      obtain rfl : op' = op := Content.operand.inj h
      obtain ⟨b, rest, rfl⟩ := List.exists_cons_of_ne_nil hrun
      rw [← hletters b List.mem_cons_self]
      exact List.mem_cons_self
    · intro hop
      have hletter := Operand.ofLetter?_eq_some_iff.mpr (hletters _ hop)
      rw [Operand.ofLetter?_eq_some_iff.mpr rfl] at hletter
      rw [Option.some.inj hletter]

/-- The value of an operand is that of the first component if it holds the operand. -/
theorem get?_cons (component : Component) (components : List Component) :
    (Pattern.mk (component :: components)).get? op w =
      if component.content = .operand op then some (component.extract w)
      else (Pattern.mk components).get? op w := by
  unfold get?
  rw [List.findSome?_cons]
  split
  · next v hv =>
    split at hv
    · rw [if_pos ‹_›, hv]
    · cases hv
  · next hv =>
    split at hv
    · cases hv
    · rw [if_neg ‹_›]

/-- An operand whose letter does not occur has no value. -/
theorem get?_place_eq_none (h : List.Forall₂ Spells runs segs)
    (hruns : ∀ run ∈ runs, run ≠ [] ∧ Uniform run) (hop : op.byte ∉ runs.flatten) :
    (Pattern.mk (place high segs)).get? op w = none := by
  induction h generalizing high with
  | nil => rfl
  | @cons run segment rest segs hspells _ ih =>
    obtain ⟨hrun, hrest⟩ := List.forall_mem_cons.mp hruns
    rw [List.flatten_cons, List.mem_append, not_or] at hop
    have hother := mt (content_eq_operand_iff hrun.1 hrun.2 hspells.2).mp hop.1
    exact (get?_cons _ _).trans ((if_neg hother).trans (ih hrest hop.2))

/-- An operand has the bits of the first run of its letter. -/
theorem get?_place_first {before after : List (List UInt8)}
    (h : List.Forall₂ Spells (before ++ run :: after) segs)
    (hruns : ∀ run' ∈ before ++ run :: after, run' ≠ [] ∧ Uniform run') (hop : op.byte ∈ run)
    (hbefore : op.byte ∉ before.flatten) :
    (Pattern.mk (place high segs)).get? op w =
      some (Word.bits w (high - (before.flatten.length + run.length)) run.length) := by
  -- Along the runs before the one that is meant: none of them has the operand, so the lookup goes
  -- past them.
  induction before generalizing high segs with
  | nil =>
    obtain ⟨⟨len, c⟩, segs, ⟨hlen, hc⟩, _, rfl⟩ := List.forall₂_cons_left_iff.mp h
    obtain rfl : len = run.length := hlen
    obtain ⟨hrun, _⟩ := List.forall_mem_cons.mp hruns
    have hown := (content_eq_operand_iff hrun.1 hrun.2 hc).mpr hop
    rw [List.flatten_nil, List.length_nil, Nat.zero_add]
    exact (get?_cons _ _).trans (if_pos hown)
  | cons first before ih =>
    obtain ⟨⟨len, c⟩, segs, ⟨hlen, hc⟩, hspells, rfl⟩ := List.forall₂_cons_left_iff.mp h
    obtain rfl : len = first.length := hlen
    obtain ⟨hfirst, hrest⟩ := List.forall_mem_cons.mp hruns
    rw [List.flatten_cons, List.mem_append, not_or] at hbefore
    have hother := mt (content_eq_operand_iff hfirst.1 hfirst.2 hc).mp hbefore.1
    have hvalue : (Pattern.mk (place (high - first.length) segs)).get? op w = _ :=
      ih hspells hrest hbefore.2
    rw [Nat.sub_sub, ← Nat.add_assoc] at hvalue
    rw [List.flatten_cons, List.length_append]
    exact (get?_cons _ _).trans ((if_neg hother).trans hvalue)

/-- A letter that occurs has a first run. -/
theorem exists_first {b : UInt8} (h : b ∈ runs.flatten) :
    ∃ before run after, runs = before ++ run :: after ∧ b ∈ run ∧ b ∉ before.flatten := by
  induction runs with
  | nil => cases h
  | cons run rest ih =>
    by_cases hb : b ∈ run
    · exact ⟨[], run, rest, rfl, hb, List.not_mem_nil⟩
    · rw [List.flatten_cons, List.mem_append] at h
      obtain ⟨before, run', after, rfl, hrun', hbefore⟩ := ih (h.resolve_left hb)
      refine ⟨run :: before, run', after, rfl, hrun', ?_⟩
      rw [List.flatten_cons, List.mem_append, not_or]
      exact ⟨hb, hbefore⟩

/-- What is read from a text means what the text says. -/
theorem means_of_spells {bytes : List UInt8} (hruns : Runs bytes runs) (hlength : bytes.length = 32)
    (h : List.Forall₂ Spells runs segs) : Means bytes runs (ofSegments segs) := by
  obtain ⟨rfl, hne, huniform, _⟩ := hruns
  have hall : ∀ run ∈ runs, run ≠ [] ∧ Uniform run :=
    fun run hrun => ⟨fun heq => hne (heq ▸ hrun), huniform run hrun⟩
  refine ⟨tiles_place h hne hlength, lens_place h 32,
    fun w => accepts_place h hall hlength (Nat.le_refl 32), fun op w => ?_, ?_⟩
  · refine ⟨fun hnone hop => ?_, get?_place_eq_none h hall⟩
    obtain ⟨before, run, after, rfl, hrun, hbefore⟩ := exists_first hop
    cases hnone.symm.trans (get?_place_first h hall hrun hbefore)
  · -- The runs up to the first one of the letter fit in the text, so the shift is one of a word.
    rintro op w before run after rfl hrun hbefore
    refine ⟨_, get?_place_first h hall hrun hbefore, ?_⟩
    have hpos : 0 < run.length := List.length_pos_of_mem hrun
    rw [List.flatten_append, List.flatten_cons, List.length_append, List.length_append] at hlength
    exact Word.toNat_bits w (by omega) (by omega)

/-! ## Reading a text -/

variable {text : String}

/-- A text of 32 bytes is read run by run. -/
theorem parse_of_length (h : (significant text).length = 32) :
    parse text = (segments 12 ((significant text).splitBy sameRun)).map ofSegments := by
  unfold parse
  rw [if_neg (by omega), if_neg (by omega)]
  rfl

/-- A text of 32 bytes is a pattern if its runs are read. -/
theorem parse_eq_ok_iff {p : Pattern} (h : (significant text).length = 32) :
    parse text = .ok p ↔
      ∃ segs, segments 12 ((significant text).splitBy sameRun) = .ok segs ∧ ofSegments segs = p := by
  rw [parse_of_length h]
  cases segments 12 ((significant text).splitBy sameRun) with
  | error e => simp only [Except.map, reduceCtorEq, false_and, exists_false]
  | ok segs => simp only [Except.map, Except.ok.injEq, exists_eq_left']

/-- A text of 32 bytes is refused for what is wrong with its runs. -/
theorem parse_eq_error_iff (h : (significant text).length = 32) :
    parse text = .error e ↔ segments 12 ((significant text).splitBy sameRun) = .error e := by
  rw [parse_of_length h]
  cases segments 12 ((significant text).splitBy sameRun) with
  | error e' => simp only [Except.map, Except.error.injEq]
  | ok segs => simp only [Except.map, reduceCtorEq]

/-- A text is a pattern if all its bytes have a meaning and fall into few runs. -/
theorem exists_parse_iff (h : (significant text).length = 32)
    {runs : List (List UInt8)} (hruns : Runs (significant text) runs) :
    (∃ p, parse text = .ok p) ↔ (∀ b ∈ significant text, Stands b) ∧ runs.length ≤ 12 := by
  have hall : (∀ b ∈ significant text, Stands b) ↔ ∀ run ∈ runs, Readable run := by
    rw [← hruns.flatten, List.forall_mem_flatten]
    refine forall₂_congr fun run hrun => (readable_iff ?_ (hruns.uniform run hrun)).symm
    exact fun heq => hruns.nil_notMem (heq ▸ hrun)
  rw [hall, and_comm, ← exists_segments_iff hruns.nil_notMem, ← runs_iff.mp hruns]
  simp only [parse_eq_ok_iff h]
  exact ⟨fun ⟨_, segs, hsegs, _⟩ => ⟨segs, hsegs⟩, fun ⟨segs, hsegs⟩ => ⟨_, segs, hsegs, rfl⟩⟩

/-- Reading a text breaks off with a message. -/
def BreaksOff (text message : String) : Prop := ∃ e, parse text = .error e ∧ e.message = message

/-- An error is told by its message. -/
theorem breaksOff_message : BreaksOff text e.message ↔ parse text = .error e :=
  ⟨fun ⟨_, hparse, hmessage⟩ => PatternError.message_injective hmessage ▸ hparse,
    fun hparse => ⟨e, hparse, rfl⟩⟩

/-- A text is a pattern if 32 of its bytes count, all of them have a meaning, and they fall into at
most twelve runs. Otherwise reading it breaks off: with a wrong number of bytes, whatever they are; if
there are 32, in one of the first thirteen runs, whose first byte has no meaning, or else at the
thirteenth, for which a pattern has no place. The pattern means what the text says. -/
theorem parse_language (text : String) :
    ∃ runs, Runs (significant text) runs ∧
      (∀ runs', Runs (significant text) runs' → runs' = runs) ∧
      ((∃ p, parse text = .ok p) ↔ (significant text).length = 32 ∧
        (∀ b ∈ significant text, Stands b) ∧ runs.length ≤ 12) ∧
      (BreaksOff text "pattern is longer than 32 bits" ↔ 32 < (significant text).length) ∧
      (BreaksOff text "pattern is shorter than 32 bits" ↔ (significant text).length < 32) ∧
      (BreaksOff text "invalid operand" ↔ (significant text).length = 32 ∧
        ∃ run ∈ runs.take 13, ¬Readable run) ∧
      (BreaksOff text "index out of bounds: the len is 12 but the index is 12" ↔
        (significant text).length = 32 ∧ 12 < runs.length ∧ ∀ run ∈ runs.take 13, Readable run) ∧
      ∀ p, parse text = .ok p → Means (significant text) runs p := by
  have hruns : Runs (significant text) ((significant text).splitBy sameRun) := runs_iff.mpr rfl
  refine ⟨_, hruns, fun runs' h => (runs_iff.mp h).symm, ?_⟩
  have hplaces : PatternError.tooManyComponents.message =
      "index out of bounds: the len is 12 but the index is 12" := by decide +kernel
  rw [← hplaces]
  change _ ∧ (BreaksOff text PatternError.tooLong.message ↔ _) ∧
    (BreaksOff text PatternError.tooShort.message ↔ _) ∧
    (BreaksOff text PatternError.invalidOperand.message ↔ _) ∧ _
  -- The texts of the errors differ, so that each of them tells its error.
  simp only [breaksOff_message]
  -- The number of bytes is looked at before any run is.
  rcases Nat.lt_trichotomy (significant text).length 32 with hshort | hlength | hlong
  · have hparse : parse text = .error .tooShort := by
      unfold parse
      rw [if_neg (by omega), if_pos hshort]
    simp only [hparse, hshort, Nat.ne_of_lt hshort, Nat.lt_asymm hshort, Except.error.injEq,
      reduceCtorEq, false_and, exists_false, false_implies, implies_true, and_self]
  · -- With 32 bytes the runs decide, one after the other.
    have herror (e : PatternError) := (parse_eq_error_iff hlength).trans
      (segments_eq_error_iff (e := e) hruns.nil_notMem)
    rw [exists_parse_iff hlength hruns]
    simp only [herror, hlength, Nat.lt_irrefl, reduceCtorEq, true_and, false_and, or_false,
      false_or, true_and]
    intro p hp
    obtain ⟨segs, hsegs, rfl⟩ := (parse_eq_ok_iff hlength).mp hp
    exact means_of_spells hruns hlength (segments_eq_ok_iff.mp hsegs).2
  · have hparse : parse text = .error .tooLong := if_pos hlong
    simp only [hparse, hlong, Nat.ne_of_gt hlong, Nat.lt_asymm hlong, Except.error.injEq,
      reduceCtorEq, false_and, exists_false, false_implies, implies_true, and_self]

/-- A text of 32 runs, all of which can be read. -/
def alternating : String := "0s0s0s0s0s0s0s0s0s0s0s0s0s0s0s0s"

/-- The thirteenth of too many runs is not reported as such. -/
theorem alternating_breaksOff :
    ∃ runs, Runs (significant alternating) runs ∧ (significant alternating).length = 32 ∧
      12 < runs.length ∧ (∀ run ∈ runs.take 13, Readable run) ∧
      BreaksOff alternating "index out of bounds: the len is 12 but the index is 12" ∧
      ¬BreaksOff alternating "too many components" := by
  have hparse : parse alternating = .error .tooManyComponents := by decide +kernel
  have hlength : (significant alternating).length = 32 := by decide +kernel
  have hruns := runs_iff.mpr (rfl : (significant alternating).splitBy sameRun = _)
  obtain ⟨h, -⟩ | ⟨-, hmany, hread⟩ :=
    (segments_eq_error_iff hruns.nil_notMem).mp ((parse_eq_error_iff hlength).mp hparse)
  · cases h
  · refine ⟨_, hruns, hlength, hmany, hread, ⟨_, hparse, by decide +kernel⟩, ?_⟩
    rintro ⟨e, he, hmessage⟩
    obtain rfl : PatternError.tooManyComponents = e := Except.error.inj (hparse.symm.trans he)
    revert hmessage
    decide +kernel

end Pattern

end MipsMonitor
