import Mathlib.Data.List.SplitBy
import MipsMonitor.Instruction.Pattern

/-!
# The runs of a pattern's text

The bytes of a pattern's text fall into runs: bytes that are all binary digits, or that are all the
same (`Pattern.Uniform`). A division of the text into runs is determined by the text if no run can
be joined to the one behind it (`Pattern.Runs`), and it is what splitting wherever two neighbours
do not belong to the same run gives (`Pattern.runs_iff`).

Belonging to the same run is an equivalence of bytes, so a run is known by its first byte
(`Pattern.uniform_cons`).
-/

namespace MipsMonitor

namespace Pattern

/-- The bytes are all binary digits, or are all the same. -/
def Uniform (run : List UInt8) : Prop :=
  (∀ b ∈ run, isBinary b = true) ∨ ∃ letter, ∀ b ∈ run, b = letter

/-- Bytes fall into runs that are as long as they can be. -/
structure Runs (bytes : List UInt8) (runs : List (List UInt8)) : Prop where
  /-- The runs make up the bytes. -/
  flatten : runs.flatten = bytes
  /-- No run is empty. -/
  nil_notMem : [] ∉ runs
  /-- Every run is uniform. -/
  uniform : ∀ run ∈ runs, Uniform run
  /-- No run can be joined to the next one. -/
  maximal : runs.IsChain fun run next => ¬Uniform (run ++ next)

variable {a b c : UInt8} {run next : List UInt8}

/-- Neighbours are in one run if both are binary digits or if they are equal. -/
theorem sameRun_iff : sameRun a b = true ↔ (isBinary a = true ∧ isBinary b = true) ∨ a = b := by
  simp only [sameRun, Bool.or_eq_true, Bool.and_eq_true, beq_iff_eq]

/-- Being in one run is symmetric. -/
theorem sameRun_symm (h : sameRun a b = true) : sameRun b a = true := by
  rcases sameRun_iff.mp h with ⟨ha, hb⟩ | rfl
  · exact sameRun_iff.mpr (.inl ⟨hb, ha⟩)
  · exact h

/-- Being in one run is transitive. -/
theorem sameRun_trans (h : sameRun a b = true) (h' : sameRun b c = true) : sameRun a c = true := by
  rcases sameRun_iff.mp h with ⟨ha, hb⟩ | rfl
  · rcases sameRun_iff.mp h' with ⟨_, hc⟩ | rfl
    · exact sameRun_iff.mpr (.inl ⟨ha, hc⟩)
    · exact h
  · exact h'

/-- A run is uniform if its bytes belong with the first one. -/
theorem uniform_cons : Uniform (a :: run) ↔ ∀ b ∈ run, sameRun a b = true := by
  -- Digits are of one kind with one another, and letters with themselves.
  constructor
  · rintro (hdigits | ⟨letter, hsame⟩) b hb
    · exact sameRun_iff.mpr
        (.inl ⟨hdigits a List.mem_cons_self, hdigits b (List.mem_cons_of_mem a hb)⟩)
    · exact sameRun_iff.mpr (.inr ((hsame a List.mem_cons_self).trans
        (hsame b (List.mem_cons_of_mem a hb)).symm))
  · intro h
    by_cases ha : isBinary a = true
    · refine .inl (List.forall_mem_cons.mpr ⟨ha, fun b hb => ?_⟩)
      rcases sameRun_iff.mp (h b hb) with ⟨_, hdigit⟩ | rfl
      · exact hdigit
      · exact ha
    · refine .inr ⟨a, List.forall_mem_cons.mpr ⟨rfl, fun b hb => ?_⟩⟩
      rcases sameRun_iff.mp (h b hb) with ⟨hdigit, _⟩ | rfl
      · exact absurd hdigit ha
      · rfl

/-- Neighbours belong together just if all bytes do. -/
theorem isChain_sameRun_iff (hrun : run ≠ []) :
    run.IsChain (fun a b => sameRun a b = true) ↔ Uniform run := by
  obtain ⟨a, rest, rfl⟩ := List.exists_cons_of_ne_nil hrun
  rw [uniform_cons]
  have htrans : IsTrans UInt8 fun a b => sameRun a b = true := ⟨fun _ _ _ => sameRun_trans⟩
  rw [List.isChain_iff_pairwise, List.pairwise_cons]
  refine ⟨And.left, fun h => ⟨h, List.pairwise_of_forall_mem_list fun b hb c hc => ?_⟩⟩
  exact sameRun_trans (sameRun_symm (h b hb)) (h c hc)

/-- Two runs can be joined just if they belong together where they meet. -/
theorem uniform_append_iff (hrun : run ≠ []) (hnext : next ≠ []) (h : Uniform run)
    (h' : Uniform next) :
    Uniform (run ++ next) ↔ sameRun (run.getLast hrun) (next.head hnext) = true := by
  obtain ⟨a, rest, rfl⟩ := List.exists_cons_of_ne_nil hrun
  obtain ⟨b, rest', rfl⟩ := List.exists_cons_of_ne_nil hnext
  -- The last byte of a run is of the kind of its first one, so kinds may be compared across the
  -- seam.
  have hlast : sameRun a ((a :: rest).getLast hrun) = true := by
    rcases List.mem_cons.mp (List.getLast_mem hrun) with heq | hmem
    · rw [heq]
      exact sameRun_iff.mpr (.inr rfl)
    · exact uniform_cons.mp h _ hmem
  rw [List.cons_append, uniform_cons, List.head_cons]
  constructor
  · intro hall
    have hmeet : sameRun a b = true := hall b (List.mem_append_right rest List.mem_cons_self)
    exact sameRun_trans (sameRun_symm hlast) hmeet
  · intro hmeet c hc
    have hfirst : sameRun a b = true := sameRun_trans hlast hmeet
    rcases List.mem_append.mp hc with hc | hc
    · exact uniform_cons.mp h c hc
    · rcases List.mem_cons.mp hc with rfl | hc
      · exact hfirst
      · exact sameRun_trans hfirst (uniform_cons.mp h' c hc)

/-- Bytes fall into runs in one way: a run ends where neighbours do not belong together. -/
theorem runs_iff {bytes : List UInt8} {runs : List (List UInt8)} :
    Runs bytes runs ↔ bytes.splitBy sameRun = runs := by
  have hmeet (hne : [] ∉ runs) (huniform : ∀ run ∈ runs, Uniform run) :
      (runs.IsChain fun run next => ¬Uniform (run ++ next)) ↔
        runs.IsChain fun run next =>
          ∃ hrun hnext, sameRun (run.getLast hrun) (next.head hnext) = false := by
    refine List.IsChain.iff_of_mem_imp fun run next hrun hnext => ?_
    have hrunne : run ≠ [] := fun h => hne (h ▸ hrun)
    have hnextne : next ≠ [] := fun h => hne (h ▸ hnext)
    rw [uniform_append_iff hrunne hnextne (huniform run hrun) (huniform next hnext),
      Bool.not_eq_true]
    exact ⟨fun h => ⟨hrunne, hnextne, h⟩, fun ⟨_, _, h⟩ => h⟩
  rw [List.splitBy_eq_iff]
  constructor
  · rintro ⟨rfl, hne, huniform, hmaximal⟩
    refine ⟨rfl, hne, fun run hrun => ?_, (hmeet hne huniform).mp hmaximal⟩
    exact (isChain_sameRun_iff fun h => hne (h ▸ hrun)).mpr (huniform run hrun)
  · rintro ⟨rfl, hne, hchain, hsplit⟩
    have huniform : ∀ run ∈ runs, Uniform run := fun run hrun =>
      (isChain_sameRun_iff fun h => hne (h ▸ hrun)).mp (hchain run hrun)
    exact ⟨rfl, hne, huniform, (hmeet hne huniform).mpr hsplit⟩

end Pattern

end MipsMonitor
