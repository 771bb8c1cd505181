import MipsMonitor.Proofs.Debug.Rounds
import MipsMonitor.Proofs.Machine.PowerOn
import MipsMonitor.Proofs.Machine.ZeroRegister

/-!
# Debuggers between requests

Between two requests a debugger is sound (`Debugger.Sound`): its translations are good, at most the
breakpoint where it stands is armed, and memory is attached. A reset makes it sound
(`Debugger.sound_reset`), and placing, switching and removing breakpoints keeps it so, since the
translations that cover the address of a breakpoint are dropped with every change to it.
-/

namespace MipsMonitor

/-- Where a program comes to a stand. -/
def Signal.pc : Signal → Word
  | breakpoint address => address
  | trap t => t.pc
  | stopped pc => pc

namespace Debug

open Machine

namespace Breakpoints

variable (bs : Breakpoints) (a x : Word)

/-- Placing a breakpoint changes what is at its address alone. -/
theorem getElem?_place : (bs.place a)[x]? =
    if a = x then some ((bs[x]?.map fun b => { b with enabled := true }).getD .fresh) else bs[x]? := by
  unfold place
  by_cases hcontains : bs.contains a = true
  · -- A breakpoint that is there is only switched on.
    rw [if_pos hcontains, setEnabled, getElem?_update]
    split
    · next hx =>
      subst hx
      rw [Std.ExtTreeMap.contains_eq_isSome_getElem?] at hcontains
      obtain ⟨b, hb⟩ := Option.isSome_iff_exists.mp hcontains
      rw [hb]
      rfl
    · rfl
  · -- Where there is none a fresh one is inserted.
    have hnone : bs[a]? = none := by
      rw [Std.ExtTreeMap.contains_eq_isSome_getElem?] at hcontains
      exact Option.not_isSome_iff_eq_none.mp hcontains
    rw [if_neg hcontains, getElem?_insert]
    split
    · next hx =>
      rw [← hx, hnone]
      rfl
    · rfl

/-- A new breakpoint is not armed, and one that is there is not armed or disarmed. -/
theorem any_skipOnce_place : (bs.place a)[x]?.any (·.skipOnce) = bs[x]?.any (·.skipOnce) := by
  rw [getElem?_place]
  split
  · cases bs[x]? <;> rfl
  · rfl

/-- Breakpoints are switched on or off without being armed or disarmed. -/
theorem any_skipOnce_setEnabled (on : Bool) :
    (bs.setEnabled a on)[x]?.any (·.skipOnce) = bs[x]?.any (·.skipOnce) := by
  rw [setEnabled, getElem?_update]
  split
  · cases bs[x]? <;> rfl
  · rfl

/-- Forgetting the hits arms and disarms nothing. -/
theorem any_skipOnce_resetHits : bs.resetHits[x]?.any (·.skipOnce) = bs[x]?.any (·.skipOnce) := by
  rw [resetHits, Std.ExtTreeMap.getElem?_map, Option.any_map]

end Breakpoints

namespace Session

variable {s : Session} {g : Guest Session} {address : Word}

/-- A session leaves the register that is always zero alone. -/
theorem sparesZero : observer.SparesZero := fun s f t w ht => by
  simp only [observer, recordAt, if_neg ht]
  rw [← RegisterFile.tracked_zero, RegisterFile.tracked_setTracked, if_neg ht]
  rfl

/-- A session that moves on did not stop at a breakpoint last. -/
theorem lastHit?_moveTo (s : Session) (pc : Word) : (s.moveTo pc).lastHit? = none := by
  unfold moveTo
  split
  · rfl
  · next hnone => exact hnone

/-- Moving on leaves the switches of all breakpoints alone. -/
theorem enabled_moveTo (s : Session) (pc a : Word) :
    (s.moveTo pc).breakpoints[a]?.map Breakpoint.enabled =
      s.breakpoints[a]?.map Breakpoint.enabled := by
  unfold moveTo
  split
  · exact s.breakpoints.enabled_setSkipOnce _ a false
  · rfl

/-- Moving on removes no breakpoint. -/
theorem isSome_moveTo (s : Session) (pc a : Word) :
    (s.moveTo pc).breakpoints[a]?.isSome = s.breakpoints[a]?.isSome := by
  have hsame := congrArg Option.isSome (s.enabled_moveTo pc a)
  rwa [Option.isSome_map, Option.isSome_map] at hsame

/-- Execution stands where it stays. -/
theorem pc_stayAt (s : Session) (address : Word) : (s.stayAt address).pc = address := by
  unfold Session.stayAt Session.moveTo
  split <;> rfl

/-- Moving on does not switch breakpoints on or off. -/
theorem hasEnabled_moveTo (s : Session) (pc a : Word) :
    (s.moveTo pc).breakpoints.hasEnabled a = s.breakpoints.hasEnabled a :=
  Breakpoints.hasEnabled_congr (s.enabled_moveTo pc a)

/-- Staying at a breakpoint leaves the switches of all breakpoints alone. -/
theorem enabled_stayAt (s : Session) (address a : Word) :
    (s.stayAt address).breakpoints[a]?.map Breakpoint.enabled =
      s.breakpoints[a]?.map Breakpoint.enabled :=
  (Breakpoints.enabled_setSkipOnce _ address a true).trans (s.enabled_moveTo address a)

/-- Staying at a breakpoint arms no other one. -/
theorem Held.stayAt (h : s.Held) (address : Word) : (s.stayAt address).Held := fun x hx => by
  have hskips := skips_setSkipOnce (s.moveTo address) address x true
  rw [h.skips_moveTo address x] at hskips
  have hx : (if address = x then true && ((s.moveTo address).breakpoints[x]?).isSome else false) =
      true := hskips.symm.trans hx
  split at hx
  · next he => exact congrArg some he
  · cases hx

/-! ## Stops -/

/-- A program that comes to an address is stopped. -/
def Guards (address : Word) (s : Session) : Prop :=
  s.breakpoints.hasEnabled address = true ∧ s.armed address = false

/-- While the program runs a guarded address stays guarded. -/
theorem keeps_guards (address : Word) : observer.Keeps (Guards address) where
  sync s a h := h
  check s a h := ⟨(s.breakpoints.hasEnabled_hit a address).trans h.1, by
    rw [armed_check, h.2, Bool.and_false]⟩
  enter s a h := h
  leave s h := h
  write s f t w h := h

/-- A breakpoint that is switched on and not armed stops a program. -/
theorem Guards.stops (h : s.Guards address) : s.breakpoints[address]?.any Breakpoint.stops = true := by
  obtain ⟨henabled, harmed⟩ := h
  rw [Breakpoints.hasEnabled_eq] at henabled
  unfold armed at harmed
  cases hb : s.breakpoints[address]? with
  | none =>
    rw [hb] at henabled
    cases henabled
  | some b =>
    rw [hb] at henabled harmed
    obtain ⟨enabled, hits, skipOnce⟩ := b
    cases enabled with
    | false => cases henabled
    | true =>
      cases skipOnce with
      | false => rfl
      | true => cases harmed

/-- A program that comes to a guarded address is stopped before the instruction there. -/
theorem Guards.cycle (hs : s.breakpoints.hasEnabled address = true) (h : g.context.Guards address)
    {v : View Ram} (hv : g.core.view? = some v) {i? : Option Instruction}
    (hi : Block.instructionAt v.backing address = .ok i?) :
    g.cycle observer (injector s) (.entry address) = .error (.breakpoint address)
      ⟨g.core, (observer.check (observer.sync g.context address).1 address).1⟩ := by
  have hacts := actAll_stop hs h.stops i?
  simp only [Guest.cycle, hv, Place.entry, hi]
  unfold Step.run
  rw [bind_apply, hacts]

/-- A cycle at a guarded address does not complete. -/
theorem Guards.cycle_ne_ok (hs : s.breakpoints.hasEnabled address = true)
    (h : g.context.Guards address) {q q' : Place} (hq : q.pc = address) {g' : Guest Session} :
    g.cycle observer (injector s) q ≠ .ok q' g' := by
  intro hok
  subst hq
  refine Guest.leads_cycle (P := fun _ => False)
    ⟨fun _ _ h => h, fun _ _ h => h, fun _ _ h => h, fun _ h => h, fun _ _ _ _ h => h⟩
    (fun i? g₁ hacts => ?_) hok
  cases (actAll_stop hs h.stops i?).symm.trans hacts

end Session

namespace Debugger

variable {d d' : Debugger}

/-- Readiness depends on the memory, the translations and the breakpoints. -/
theorem Ready.congr (hd : Ready d) (hinjector : d'.injector? = d.injector?)
    (hblocks : d'.blocks = d.blocks) (hview : d'.core.view? = d.core.view?)
    (henabled : ∀ a, (session d').breakpoints.hasEnabled a = (session d).breakpoints.hasEnabled a)
    (hheld : (session d').Held) : Ready d' where
  injector? := hinjector.trans hd.injector?
  coherent := by
    refine hd.coherent.congr hview ?_ fun start b hb => hblocks ▸ hb
    unfold choose
    rw [hinjector, hd.injector?]
    exact Session.injector_congr henabled
  held := hheld

/-- An event shows to listeners only. -/
theorem emit_eq (event : Event) (d : Debugger) :
    ∃ (notices : List Notice) (listeners : Listeners) (events : Array StepInfo), emit event d =
      ⟨⟨notices.foldl Core.heed d.core, { session d with listeners, events }⟩, d.blocks,
        d.injector?⟩ := ⟨_, _, _, rfl⟩

/-- An event moves nothing. -/
theorem pc_emit (event : Event) (d : Debugger) : Debugger.pc (emit event d) = Debugger.pc d := by
  obtain ⟨notices, listeners, events, heq⟩ := emit_eq event d
  rw [heq]
  rfl

/-- A debugger is ready behind an event. -/
theorem Ready.emit (hd : Ready d) (event : Event) : Ready (emit event d) := by
  obtain ⟨notices, listeners, events, heq⟩ := emit_eq event d
  rw [heq]
  exact hd.congr rfl rfl (Core.view?_heed _ _) (fun _ => rfl) hd.held

/-- A debugger is ready once requests to stop are forgotten. -/
theorem Ready.resumed (hd : Ready d) : Ready (resumed d) :=
  hd.congr rfl rfl rfl (fun _ => rfl) hd.held

/-- Coming to a stand shows in the breakpoints, to listeners and in the log only. -/
theorem like_halt (s : Signal) (d : Debugger) :
    (halt s d).2.guest.Like (Session.Agree fun _ => False) d.guest := by
  have hself := Core.Agree.refl d.core
  -- What a stand reports shows in the log alone.
  have hreport (level : Level) (text : String) :
      (d.core.report level text).Agree (fun _ _ => True) d.core := hself.note _ []
  have hmove (s : Session) (pc : Word) :
      (s.moveTo pc).frames = s.frames ∧ (s.moveTo pc).trace = s.trace := by
    unfold Session.moveTo
    split <;> exact ⟨rfl, rfl⟩
  have hcontext (pc : Word) : ((session d).moveTo pc).Agree (fun _ => False) (session d) :=
    ⟨(hmove (session d) pc).1, (hmove (session d) pc).2, fun _ h => h.elim⟩
  cases s with
  | breakpoint address =>
    exact ⟨(hreport .info _).heed_heed _ [], (hcontext address).frames, (hcontext address).trace,
      fun _ h => h.elim⟩
  | trap t =>
    exact ⟨(hreport .error _).heed_heed _ [], (hcontext t.pc).frames, (hcontext t.pc).trace,
      fun _ h => h.elim⟩
  | stopped pc => exact ⟨hreport .warn _, hcontext pc⟩

/-- Coming to a stand leaves the switches of all breakpoints alone. -/
theorem enabled_halt (s : Signal) (d : Debugger) (a : Word) :
    (session (halt s d).2).breakpoints[a]?.map Breakpoint.enabled =
      (session d).breakpoints[a]?.map Breakpoint.enabled := by
  cases s with
  | breakpoint address => exact (session d).enabled_stayAt address a
  | trap t => exact (session d).enabled_moveTo t.pc a
  | stopped pc => exact (session d).enabled_moveTo pc a

/-- Coming to a stand does not switch breakpoints on or off. -/
theorem hasEnabled_halt (s : Signal) (d : Debugger) (a : Word) :
    (session (halt s d).2).breakpoints.hasEnabled a = (session d).breakpoints.hasEnabled a :=
  Breakpoints.hasEnabled_congr (enabled_halt s d a)

/-- Coming to a stand leaves a debugger ready. -/
theorem Ready.halt (hd : Ready d) (s : Signal) : Ready (halt s d).2 := by
  refine hd.congr ?_ ?_ (like_halt s d).core.view? (hasEnabled_halt s d) ?_
  · cases s <;> rfl
  · cases s <;> rfl
  · cases s with
    | breakpoint address => exact hd.held.stayAt address
    | trap t => exact hd.held.moveTo t.pc
    | stopped pc => exact hd.held.moveTo pc

/-- A debugger stands where the signal says. -/
theorem pc_halt (s : Signal) (d : Debugger) : Debugger.pc (halt s d).2 = s.pc := by
  cases s with
  | breakpoint address => exact (pc_emit _ _).trans (pc_moveTo address d)
  | trap t => exact (pc_emit _ _).trans (pc_moveTo t.pc _)
  | stopped pc => exact pc_moveTo pc _

/-- Two debuggers show the same program, whatever their breakpoints and listeners. -/
structure Shows (d d' : Debugger) : Prop where
  /-- They stand at the same address. -/
  pc : Debugger.pc d = Debugger.pc d'
  /-- The registers hold the same. -/
  registers : d.core.registers = d'.core.registers
  /-- The memories and caches hold the same. -/
  view? : d.core.view? = d'.core.view?
  /-- The same returns are expected. -/
  callStack : Debugger.callStack d = Debugger.callStack d'
  /-- Registers were last written by the same instructions. -/
  trace : (session d).trace = (session d').trace

/-- Debuggers with like guests show the same where they stand at the same address. -/
theorem shows_of_like {P : Word → Prop} (h : d.guest.Like (Session.Agree P) d'.guest)
    (hpc : Debugger.pc d = Debugger.pc d') : d.Shows d' :=
  ⟨hpc, h.core.registers, h.core.view?, congrArg List.reverse h.context.frames, h.context.trace⟩

/-! ## Breakpoints -/

/-- The translations that are kept when a breakpoint is changed are not found at its address. -/
theorem kept_of_changeBreakpoints {address : Word} {f : Breakpoints → Breakpoints} {start : Word}
    {b : Block} (hb : (changeBreakpoints address f d).blocks[start]? = some b) :
    d.blocks[start]? = some b ∧ Translations.finds address start b = false := by
  have hkept : ([address].foldl Translations.invalidate d.blocks)[start]? = some b := hb
  obtain ⟨hbefore, hclear⟩ := Translations.getElem?_foldl_invalidate.mp hkept
  exact ⟨hbefore, hclear address (List.mem_singleton_self _) address (Address.mem_aliases rfl)⟩

/-- A change to the breakpoint at an address leaves translations that are as good as new, since
those that cover the address are dropped. -/
theorem coherent_changeBreakpoints (hinjector : d.injector? = some Session.injector)
    (hd : d.Coherent) {address : Word} {f : Breakpoints → Breakpoints}
    (hother : ∀ a, a ≠ address →
      (f d.breakpoints).hasEnabled a = (d.breakpoints : Breakpoints).hasEnabled a) :
    (changeBreakpoints address f d).Coherent := by
  intro start b hb
  obtain ⟨hbefore, hclear⟩ := kept_of_changeBreakpoints hb
  obtain ⟨v, hv, htranslate⟩ := hd start b hbefore
  refine ⟨v, hv, Block.translate_congr htranslate (fun _ _ => rfl) fun s hs i? => ?_⟩
  -- The instructions of what is kept are elsewhere, where the injector asks for what it did.
  have hne : s.address ≠ address := Block.address_ne_of_covers htranslate hs
    ((Translations.finds_eq_covers htranslate address).symm.trans hclear)
  have hinjector' : (changeBreakpoints address f d).injector? = some Session.injector := hinjector
  unfold choose
  rw [hinjector', hinjector]
  simp only [Session.injector_eq]
  rw [show (changeBreakpoints address f d).context.breakpoints = f d.breakpoints from rfl, hother _ hne]
  rfl

/-- What holds of a debugger between two requests. -/
structure Sound (d : Debugger) : Prop extends Ready d where
  /-- There is memory. -/
  view : d.core.view?.isSome = true
  /-- Execution stopped last where the debugger stands. -/
  stand : ∀ a, (session d).lastHit? = some a → Debugger.pc d = a
  /-- The register that is always zero holds zero. -/
  zero : d.core.zero = 0

/-- A debugger is sound behind an event. -/
theorem Sound.emit (h : Sound d) (event : Event) : Sound (emit event d) := by
  have hready := h.toReady.emit event
  obtain ⟨notices, listeners, events, heq⟩ := emit_eq event d
  rw [heq] at hready ⊢
  exact ⟨hready, (congrArg Option.isSome (Core.view?_heed d.core notices)).trans h.view, h.stand,
    (Core.zero_heed _ _).trans h.zero⟩

/-- A debugger that was reset is sound. -/
theorem sound_reset (h : (session d).Held) (pc : Word) (v : View Ram) : Sound (reset pc v d) := by
  have hzero : RegisterFile.atReset.get .zero = 0 := by decide
  have heq : reset pc v d = emit .steppedInto (emit .stepped ⟨⟨d.core.reset v,
      { (session d).moveTo pc with
        frames := [pc]
        breakpoints := ((session d).moveTo pc).breakpoints.resetHits
        trace := Session.untraced }⟩, ∅, some Session.injector⟩) := rfl
  rw [heq]
  refine Sound.emit (Sound.emit ⟨⟨?_, fun start b hb => ?_, fun a ha => ?_⟩, ?_, fun a ha => ?_, ?_⟩
    _) _
  · rfl
  · cases Std.ExtTreeMap.getElem?_empty.symm.trans hb
  · -- Hits are forgotten, and that is all that happens to breakpoints behind a move.
    have hskips : (((session d).moveTo pc).breakpoints.resetHits)[a]?.any (·.skipOnce) = true := ha
    rw [Breakpoints.any_skipOnce_resetHits] at hskips
    have hnone : (((session d).moveTo pc).breakpoints[a]?).any (·.skipOnce) = false :=
      h.skips_moveTo pc a
    exact absurd (hnone.symm.trans hskips) Bool.false_ne_true
  · rfl
  · have hnone : ((session d).moveTo pc).lastHit? = none := (session d).lastHit?_moveTo pc
    cases hnone.symm.trans ha
  · exact hzero

/-- Placing a breakpoint keeps a debugger sound. -/
theorem Sound.placeBreakpoint (h : Sound d) (address : Word) :
    Sound (changeBreakpoints address (·.place address) d) where
  injector? := h.injector?
  coherent := coherent_changeBreakpoints h.injector? h.coherent fun a ha => by
    rw [Breakpoints.hasEnabled_eq, Breakpoints.hasEnabled_eq, Breakpoints.getElem?_place,
      if_neg (Ne.symm ha)]
  held a ha := by
    refine h.held a ?_
    have hskips : (d.breakpoints.place address)[a]?.any (·.skipOnce) = true := ha
    rw [Breakpoints.any_skipOnce_place] at hskips
    exact hskips
  view := h.view
  stand := h.stand
  zero := h.zero

/-- Where there is a breakpoint, removing it drops the translations that cover its address, and
execution did not stop last there. -/
theorem dropBreakpoint_eq (address : Word) (d : Debugger) :
    (d.breakpoints[address]? = none ∧ dropBreakpoint address d = d) ∨
      ∃ lastHit?, dropBreakpoint address d =
          changeBreakpoints address (·.erase address) (d.onContext ({ · with lastHit? })) ∧
        ∀ a, lastHit? = some a ↔ (session d).lastHit? = some a ∧ a ≠ address := by
  obtain ⟨⟨core, s⟩, blocks, injector?⟩ := d
  unfold Debugger.dropBreakpoint
  split
  · -- Where execution stopped there last, this is forgotten with the breakpoint.
    by_cases hlast : s.lastHit? = some address
    · refine .inr ⟨none, by simp only [onContext, if_pos hlast], fun a => ?_⟩
      refine iff_of_false (Option.some_ne_none a).symm fun h => h.2 ?_
      exact Option.some.inj (h.1.symm.trans hlast)
    · refine .inr ⟨s.lastHit?, by simp only [onContext, if_neg hlast], fun a => ?_⟩
      exact ⟨fun ha => ⟨ha, fun he => hlast (he ▸ ha)⟩, And.left⟩
  · next hcontains =>
    refine .inl ⟨?_, rfl⟩
    rw [Std.ExtTreeMap.contains_eq_isSome_getElem?] at hcontains
    exact Option.not_isSome_iff_eq_none.mp hcontains

/-- Removing a breakpoint does not show but in the breakpoints. -/
theorem like_dropBreakpoint (address : Word) (d : Debugger) :
    (dropBreakpoint address d).guest.Like (Session.Agree fun _ => False) d.guest ∧
      Debugger.pc (dropBreakpoint address d) = Debugger.pc d := by
  have hself := Core.Agree.refl d.core
  obtain ⟨-, heq⟩ | ⟨lastHit?, heq, -⟩ := dropBreakpoint_eq address d
  · rw [heq]
    exact ⟨⟨hself, .refl _⟩, rfl⟩
  · rw [heq]
    exact ⟨⟨hself, rfl, rfl, fun _ h => h.elim⟩, rfl⟩

/-- Removing a breakpoint leaves the others as they are. -/
theorem getElem?_dropBreakpoint (address : Word) (d : Debugger) (a : Word) :
    (session (dropBreakpoint address d)).breakpoints[a]? =
      if address = a then none else (session d).breakpoints[a]? := by
  obtain ⟨hnone, heq⟩ | ⟨lastHit?, heq, -⟩ := dropBreakpoint_eq address d
  · rw [heq]
    split
    · next ha => exact ha ▸ hnone
    · rfl
  · rw [heq]
    exact Breakpoints.getElem?_erase _ _ _

/-- Removing a breakpoint does not show elsewhere. -/
theorem agree_dropBreakpoint (address : Word) (d : Debugger) :
    d.guest.Like (Session.Agree (· ≠ address)) (dropBreakpoint address d).guest := by
  obtain ⟨hlike, -⟩ := like_dropBreakpoint address d
  refine ⟨(hlike.symm fun _ _ h => h.symm).core, hlike.context.frames.symm,
    hlike.context.trace.symm, fun a ha => ?_⟩
  have hget := getElem?_dropBreakpoint address d a
  rw [if_neg (Ne.symm ha)] at hget
  exact congrArg (Option.map Breakpoint.force) hget.symm

/-- There is no breakpoint where one was removed. -/
theorem hasEnabled_dropBreakpoint (address : Word) (d : Debugger) :
    (session (dropBreakpoint address d)).breakpoints.hasEnabled address = false := by
  rw [Breakpoints.hasEnabled_eq, getElem?_dropBreakpoint, if_pos rfl]
  rfl

/-- Removing a breakpoint keeps a debugger sound. -/
theorem Sound.dropBreakpoint (h : Sound d) (address : Word) : Sound (dropBreakpoint address d) := by
  obtain ⟨-, heq⟩ | ⟨lastHit?, heq, hlast⟩ := dropBreakpoint_eq address d
  · rw [heq]
    exact h
  · have hinjector : (d.onContext ({ · with lastHit? })).injector? = some Session.injector :=
      h.injector?
    have hcoherent : (d.onContext ({ · with lastHit? })).Coherent := by
      refine h.coherent.congr rfl ?_ fun _ _ hb => hb
      unfold choose
      rw [hinjector, h.injector?]
      exact Session.injector_congr fun _ => rfl
    rw [heq]
    exact {
      injector? := h.injector?
      coherent := by
        refine coherent_changeBreakpoints hinjector hcoherent fun a ha => ?_
        rw [Breakpoints.hasEnabled_eq, Breakpoints.hasEnabled_eq, Breakpoints.getElem?_erase,
          if_neg (Ne.symm ha)]
      -- Of the breakpoints that are left, those that skip once did so before.
      held := fun a ha => by
        have hskips : (d.breakpoints.erase address)[a]?.any (·.skipOnce) = true := ha
        rw [Breakpoints.getElem?_erase] at hskips
        split at hskips
        · cases hskips
        · next hne => exact (hlast a).mpr ⟨h.held a hskips, Ne.symm hne⟩
      view := h.view
      stand := fun a ha => h.stand a ((hlast a).mp ha).1
      zero := h.zero }

/-- Only the breakpoint where a sound debugger stands may be armed. -/
theorem Sound.armed (hd : Sound d) {a : Word} (ha : (session d).armed a = true) :
    a = Debugger.pc d := (hd.stand a (hd.held.lastHit? ha)).symm

/-! ## Runs -/

/-- Coming to a stand makes a debugger sound. -/
theorem Ready.sound_halt (hd : Ready d) (hview : d.core.view?.isSome = true)
    (hzero : d.core.zero = 0) (s : Signal) : Sound (Debugger.halt s d).2 := by
  have hlike := like_halt s d
  have hregisters : (Debugger.halt s d).2.core.registers = d.core.registers := hlike.core.registers
  have hview' : (Debugger.halt s d).2.core.view? = d.core.view? := hlike.core.view?
  refine ⟨hd.halt s, hview' ▸ hview, fun a ha => ?_,
    (congrArg (·.get .zero) hregisters).trans hzero⟩
  cases s with
  | breakpoint address =>
    rw [pc_halt]
    exact Option.some.inj ha
  | trap t => cases ((session d).lastHit?_moveTo t.pc).symm.trans ha
  | stopped pc => cases ((session d).lastHit?_moveTo pc).symm.trans ha

/-- A faithful run leaves a sound debugger behind. -/
theorem Sound.run {fuel : Nat} {r : StopReason} (hd : Sound d) (hruns : RunsFaithfully d)
    (hrun : run fuel d = .ok (some r) d') : Sound d' := by
  have hself : (resumed d).guest.Like (Session.Agree everywhere) (resumed d).guest := .refl (.refl _)
  obtain ⟨k, s, d₁, hrounds, hhalt⟩ := rounds_of_run hd.view hrun
  obtain ⟨n, g, hcycles, hlike, hready, -⟩ := cycles_of_rounds (x := (Debugger.pc d, 0))
    hd.toReady.resumed (fun _ => hd.armed) hruns hself hrounds
  -- No instruction detaches the memory or writes to the register that is always zero.
  have hkept : Leads (fun g => g.core.view?.isSome = true ∧ g.core.zero = 0)
      ((resumed d).guest.cycles Session.observer (resumed d).choose n (.entry (Debugger.pc d))) := by
    refine Guest.leads_cycles (fun _ h => h) (fun a i? g hg => ?_) ⟨hd.view, hd.zero⟩ n _
    have hstores := (Step.stores_run Session.observer
      ⟨a, (resumed d).choose a i?, .ofInstruction? i? a⟩ g).mono fun _ h => h.1.trans hg.1
    exact hstores.and ((Step.zero_run Session.sparesZero
      (Operation.sparesZero_ofInstruction? i? a) g).mono fun _ h => h.trans hg.2)
  rw [hcycles] at hkept
  obtain ⟨hview, hzero⟩ := hkept
  obtain rfl : (Debugger.halt s d₁).2 = d' := congrArg Prod.snd hhalt
  have hview₁ : g.core.view? = d₁.core.view? := hlike.core.view?
  have hregisters : g.core.registers = d₁.core.registers := hlike.core.registers
  exact hready.sound_halt (hview₁ ▸ hview) ((congrArg (·.get .zero) hregisters).symm.trans hzero) s

/-! ## Power-on -/

/-- A debugger that was reset to address zero, with an image in main memory. -/
def atReset (image : Image) : Debugger :=
  reset 0 (.direct { Ram.blank with images := [image] }) (detached .standard)

/-- What the reset leaves, spelled out. -/
theorem atReset_eq (image : Image) : atReset image = Debugger.emit .steppedInto (Debugger.emit .stepped
    ⟨⟨{ Core.detached .standard with
        registers := .atReset
        view? := some (.direct { Ram.withImage image with sink? := some .standard }) },
      { Session.fresh.moveTo 0 with
        frames := [0]
        breakpoints := (Session.fresh.moveTo 0).breakpoints.resetHits }⟩,
      ∅, some Session.injector⟩) := by
  have hcore : (Core.detached .standard).reset (.direct { Ram.blank with images := [image] }) =
      { Core.detached .standard with
        registers := .atReset
        view? := some (.direct { Ram.withImage image with sink? := some .standard }) } :=
    congrArg (fun m => m.guest.core) (Machine.powerOn_eq image Session.fresh)
  rw [← hcore]
  rfl

/-- A debugger that was reset onto memory is sound. -/
theorem sound_atReset (image : Image) : Sound (atReset image) := by
  refine sound_reset (fun a ha => ?_) 0 _
  have hnone : (session (detached .standard)).breakpoints[a]? = none :=
    Std.ExtTreeMap.getElem?_empty
  rw [Session.skips, hnone] at ha
  cases ha

end Debugger

end Debug

end MipsMonitor
