import MipsMonitor.Debug.Session
import MipsMonitor.Proofs.Machine.Passes

/-!
# Sessions that act alike

Two sessions act alike at an address if their breakpoints there do the same to a program that comes
to it (`Breakpoint.force`). The actions before an instruction are then carried out alike
(`Session.alike_actAll`), and they bring both sessions to the same address. Where no breakpoint is
looked at, the sessions need not act alike (`Session.alike_actAll_unchecked`), and where a breakpoint
lets the program pass, looking at it does not show (`Session.alike_actAll_pass`).

A breakpoint that is armed lets the program pass once. At most the one where execution stopped last
is armed (`Session.Held`), and behind its instruction none is that is switched on
(`Session.Disarmed`).
-/

namespace MipsMonitor.Debug

/-- Every address. -/
abbrev everywhere : Word → Prop := fun _ => True

namespace Breakpoint

/-- What matters of a breakpoint to a program that comes to it: whether it is switched on, its hits,
and whether it lets the program pass. -/
def force (b : Breakpoint) : Bool × Nat × Bool := (b.enabled, b.hits, b.enabled && b.skipOnce)

/-- The breakpoint after the program came to it. -/
def met (b : Breakpoint) : Breakpoint :=
  if !b.enabled then b
  else if b.skipOnce then { b with skipOnce := false }
  else { b with hits := b.hits + 1 }

/-- Whether it stops a program that comes to it. -/
def stops (b : Breakpoint) : Bool := b.enabled && !b.skipOnce

/-- Whether breakpoints stop a program depends on what matters of them. -/
theorem any_stops_congr {b? b?' : Option Breakpoint} (h : b?.map force = b?'.map force) :
    b?.any stops = b?'.any stops := by
  have hstops : stops = (fun f : Bool × Nat × Bool => f.1 && !f.2.2) ∘ force := by
    funext ⟨enabled, hits, skipOnce⟩
    cases enabled <;> rfl
  rw [hstops]
  have hany (b? : Option Breakpoint) :
      b?.any ((fun f : Bool × Nat × Bool => f.1 && !f.2.2) ∘ force) =
        (b?.map force).any fun f => f.1 && !f.2.2 := by cases b? <;> rfl
  rw [hany, hany, h]

/-- What matters of breakpoints afterwards depends on what matters of them before. -/
theorem map_met_congr {b? b?' : Option Breakpoint} (h : b?.map force = b?'.map force) :
    (b?.map met).map force = (b?'.map met).map force := by
  have hmet : force ∘ met = (fun f : Bool × Nat × Bool =>
      if !f.1 then f else if f.2.2 then (f.1, f.2.1, false) else (f.1, f.2.1 + 1, f.2.2)) ∘ force := by
    funext ⟨enabled, hits, skipOnce⟩
    cases enabled <;> cases skipOnce <;> rfl
  rw [Option.map_map, Option.map_map, hmet, ← Option.map_map, ← Option.map_map, h]

end Breakpoint

namespace Breakpoints

variable (bs : Breakpoints) (a x : Word)

/-- Inserting a breakpoint changes what is at its address alone. -/
theorem getElem?_insert (b : Breakpoint) :
    (bs.insert a b)[x]? = if a = x then some b else bs[x]? := by
  rw [Std.ExtTreeMap.getElem?_insert]
  simp only [Std.LawfulEqCmp.compare_eq_iff_eq]

/-- Removing a breakpoint changes what is at its address alone. -/
theorem getElem?_erase : (bs.erase a)[x]? = if a = x then none else bs[x]? := by
  rw [Std.ExtTreeMap.getElem?_erase]
  simp only [Std.LawfulEqCmp.compare_eq_iff_eq]

/-- Changing a breakpoint changes what is at its address alone. -/
theorem getElem?_update (f : Breakpoint → Breakpoint) :
    (bs.update a f)[x]? = if a = x then bs[x]?.map f else bs[x]? := by
  unfold update
  cases hb : bs[a]? with
  | none =>
    simp only
    split
    · next hx =>
      rw [← hx, hb]
      rfl
    · rfl
  | some b =>
    simp only [getElem?_insert]
    split
    · next hx =>
      rw [← hx, hb]
      rfl
    · rfl

/-- A look at a breakpoint changes what is at its address alone. -/
theorem getElem?_hit : (bs.hit a).1[x]? = if a = x then bs[x]?.map Breakpoint.met else bs[x]? := by
  unfold hit
  cases hb : bs[a]? with
  | none =>
    simp only
    split
    · next hx =>
      subst hx
      rw [hb]
      rfl
    · rfl
  | some b =>
    -- A breakpoint that is off, that stops, or that lets the program pass once.
    obtain ⟨enabled, hits, skipOnce⟩ := b
    by_cases hx : a = x
    · subst hx
      rw [if_pos rfl, hb]
      cases enabled
      · exact hb
      · cases skipOnce <;> exact (bs.getElem?_insert a a _).trans (if_pos rfl)
    · rw [if_neg hx]
      cases enabled
      · rfl
      · cases skipOnce <;> exact (bs.getElem?_insert a x _).trans (if_neg hx)

/-- Whether a program that comes to an address is stopped. -/
theorem hit_snd : (bs.hit a).2 = bs[a]?.any Breakpoint.stops := by
  unfold hit
  cases bs[a]? with
  | none => rfl
  | some b =>
    obtain ⟨enabled, hits, skipOnce⟩ := b
    cases enabled <;> cases skipOnce <;> rfl

/-- A breakpoint is switched on if it is there and enabled. -/
theorem hasEnabled_eq : bs.hasEnabled a = bs[a]?.any (·.enabled) := by
  unfold hasEnabled
  cases bs[a]? <;> rfl

/-- Whether a breakpoint is switched on depends on it alone. -/
theorem hasEnabled_congr {bs bs' : Breakpoints} {x : Word}
    (h : bs[x]?.map Breakpoint.enabled = bs'[x]?.map Breakpoint.enabled) :
    bs.hasEnabled x = bs'.hasEnabled x := by
  have hany := congrArg (Option.any id) h
  rw [Option.any_map, Option.any_map] at hany
  rw [hasEnabled_eq, hasEnabled_eq]
  exact hany

/-- Coming to a breakpoint removes none, and leaves the switches of all alone. -/
theorem enabled_hit :
    (bs.hit a).1[x]?.map Breakpoint.enabled = bs[x]?.map Breakpoint.enabled := by
  rw [getElem?_hit]
  split
  · cases bs[x]? with
    | none => rfl
    | some b =>
      obtain ⟨enabled, hits, skipOnce⟩ := b
      cases enabled <;> cases skipOnce <;> rfl
  · rfl

/-- Arming a breakpoint removes none, and leaves the switches of all alone. -/
theorem enabled_setSkipOnce (skip : Bool) :
    (bs.setSkipOnce a skip)[x]?.map Breakpoint.enabled = bs[x]?.map Breakpoint.enabled := by
  rw [setSkipOnce, getElem?_update]
  split
  · rw [Option.map_map]
    rfl
  · rfl

/-- Coming to a breakpoint does not switch it on or off. -/
theorem hasEnabled_hit : (bs.hit a).1.hasEnabled x = bs.hasEnabled x :=
  hasEnabled_congr (bs.enabled_hit a x)

end Breakpoints

namespace Session

/-- Whether the breakpoint at an address is switched on and lets the program pass. -/
def armed (s : Session) (a : Word) : Bool := s.breakpoints[a]?.any fun b => b.enabled && b.skipOnce

/-- No breakpoint that is switched on lets the program pass. -/
def Disarmed (s : Session) : Prop := ∀ a, s.armed a = false

/-- Whether the breakpoint at an address would let the program pass if it were switched on. -/
def skips (s : Session) (a : Word) : Bool := s.breakpoints[a]?.any (·.skipOnce)

/-- At most the breakpoint where execution stopped last lets the program pass. -/
def Held (s : Session) : Prop := ∀ a, s.skips a = true → s.lastHit? = some a

/-- Two sessions expect the same returns and know the same writers, and their breakpoints act alike
at some addresses. -/
structure Agree (P : Word → Prop) (s s' : Session) : Prop where
  /-- The same returns are expected. -/
  frames : s.frames = s'.frames
  /-- Registers were last written by the same instructions. -/
  trace : s.trace = s'.trace
  /-- The breakpoints act alike. -/
  force : ∀ a, P a → s.breakpoints[a]?.map Breakpoint.force = s'.breakpoints[a]?.map Breakpoint.force

/-- The same where the program has come to the same address. -/
structure AgreeHere (P : Word → Prop) (s s' : Session) : Prop extends Agree P s s' where
  /-- The program counters are the same. -/
  pc : s.pc = s'.pc

namespace Agree

variable {P : Word → Prop} {s s' : Session}

/-- A session agrees with itself. -/
theorem refl (s : Session) : s.Agree P s := ⟨rfl, rfl, fun _ _ => rfl⟩

/-- Agreement is symmetric. -/
theorem symm (h : s.Agree P s') : s'.Agree P s :=
  ⟨h.frames.symm, h.trace.symm, fun a ha => (h.force a ha).symm⟩

/-- Agreement is transitive. -/
theorem trans {s'' : Session} (h : s.Agree P s') (h' : s'.Agree P s'') : s.Agree P s'' :=
  ⟨h.frames.trans h'.frames, h.trace.trans h'.trace, fun a ha => (h.force a ha).trans (h'.force a ha)⟩

/-- Sessions that agree at some addresses agree at fewer. -/
theorem mono {Q : Word → Prop} (h : s.Agree P s') (hPQ : ∀ a, Q a → P a) : s.Agree Q s' :=
  ⟨h.frames, h.trace, fun a ha => h.force a (hPQ a ha)⟩

/-- The same breakpoints are switched on. -/
theorem hasEnabled (h : s.Agree P s') {a : Word} (ha : P a) :
    s.breakpoints.hasEnabled a = s'.breakpoints.hasEnabled a := by
  have hforce := congrArg (Option.any (·.1)) (h.force a ha)
  rw [Option.any_map, Option.any_map] at hforce
  rw [Breakpoints.hasEnabled_eq, Breakpoints.hasEnabled_eq]
  exact hforce

end Agree

/-- The actions behind a look at a breakpoint: calls and returns are followed. -/
def follow (a : Word) : Option Instruction → List Action
  | some i => if i.isCall then [.enter a] else if i.isReturn then [.leave] else []
  | none => []

/-- What the debugger injects: every instruction tells where it is, those with a breakpoint look at
it, and calls and returns are followed. -/
theorem injector_eq (s : Session) (a : Word) (i? : Option Instruction) :
    injector s a i? =
      .sync :: ((if s.breakpoints.hasEnabled a then [.check] else []) ++ follow a i?) := by
  cases i? <;> rfl

/-- Calls and returns are followed without a look at breakpoints. -/
theorem check_notMem_follow (a : Word) (i? : Option Instruction) : Action.check ∉ follow a i? := by
  unfold follow
  split
  · split
    · simp only [List.mem_singleton, reduceCtorEq, not_false_eq_true]
    · split <;> simp only [List.mem_singleton, List.not_mem_nil, reduceCtorEq, not_false_eq_true]
  · exact List.not_mem_nil

/-- Sessions in which the same breakpoints are switched on ask for the same actions. -/
theorem injector_congr {s s' : Session}
    (h : ∀ a, s.breakpoints.hasEnabled a = s'.breakpoints.hasEnabled a) : injector s = injector s' := by
  funext a i?
  rw [injector_eq, injector_eq, h]

/-- What is asked for tells which breakpoints are switched on. -/
theorem hasEnabled_of_injector {s s' : Session} (h : injector s = injector s') (a : Word) :
    s.breakpoints.hasEnabled a = s'.breakpoints.hasEnabled a := by
  have hactions := congrFun (congrFun h a) none
  rw [injector_eq, injector_eq] at hactions
  cases hs : s.breakpoints.hasEnabled a <;> cases hs' : s'.breakpoints.hasEnabled a <;>
    rw [hs, hs'] at hactions <;> first
      | rfl
      | cases hactions

/-- A single step asks for the actions that do not depend on breakpoints. -/
theorem filter_injector (s : Session) (a : Word) (i? : Option Instruction) :
    (injector s a i?).filter (Extent.admits .single) = .sync :: follow a i? := by
  have hfollow : (follow a i?).filter (Extent.admits .single) = follow a i? := by
    refine List.filter_eq_self.mpr fun action haction => ?_
    have hne : action ≠ .check := fun h => check_notMem_follow a i? (h ▸ haction)
    simpa [Extent.admits] using hne
  rw [injector_eq, List.filter_cons_of_pos rfl, List.filter_append, hfollow]
  split <;> rfl

/-- Where no breakpoint is switched on, an injector asks for the same. -/
theorem injector_unchecked {s : Session} {a : Word} (h : s.breakpoints.hasEnabled a = false)
    (i? : Option Instruction) : injector s a i? = .sync :: follow a i? := by
  rw [injector_eq, h]
  rfl

/-- Sessions that agree are watched alike, and agree still. -/
theorem respects_agreeHere (P : Word → Prop) : observer.Respects (AgreeHere P) where
  sync s s' a h := ⟨⟨h.frames, h.trace, h.force⟩, rfl⟩
  enter s s' a h := ⟨⟨congrArg (_ :: ·) h.frames, h.trace, h.force⟩, h.pc⟩
  leave s s' h := ⟨⟨congrArg List.tail h.frames, h.trace, h.force⟩, h.pc⟩
  write s s' f t w h := by
    refine ⟨⟨⟨h.frames, ?_, h.force⟩, h.pc⟩, rfl⟩
    simp only [observer, recordAt, h.trace, h.pc]

/-- An observer of sessions leaves alone what the injector looks at. -/
theorem steady : observer.Steady (some injector) := by
  intro choose
  have hkeep (s s' : Session)
      (h : ∀ a, s'.breakpoints.hasEnabled a = s.breakpoints.hasEnabled a) :
      injector s = choose → injector s' = choose := by
    rintro rfl
    exact injector_congr h
  exact {
    sync := fun s a => hkeep s _ fun _ => rfl
    check := fun s a => hkeep s _ fun x => s.breakpoints.hasEnabled_hit a x
    enter := fun s a => hkeep s _ fun _ => rfl
    leave := fun s => hkeep s _ fun _ => rfl
    write := fun s f t w => hkeep s _ fun _ => rfl }

/-! ## Breakpoints that let the program pass -/

variable {s : Session} {a : Word}

/-- Only the breakpoint where execution stopped last may be armed. -/
theorem Held.lastHit? (h : s.Held) (ha : s.armed a = true) : s.lastHit? = some a := by
  obtain ⟨b, hb, harmed⟩ := (Option.any_eq_true _ _).mp ha
  exact h a ((Option.any_eq_true _ _).mpr ⟨b, hb, (Bool.and_eq_true_iff.mp harmed).2⟩)

/-- A breakpoint that lets the program pass once is switched on. -/
theorem hasEnabled_of_armed (h : s.armed a = true) : s.breakpoints.hasEnabled a = true := by
  obtain ⟨b, hb, harmed⟩ := (Option.any_eq_true _ _).mp h
  rw [Breakpoints.hasEnabled_eq]
  exact (Option.any_eq_true _ _).mpr ⟨b, hb, (Bool.and_eq_true_iff.mp harmed).1⟩

/-- Behind a look at a breakpoint, that breakpoint is not armed, and no other one is armed anew. -/
theorem armed_check (s : Session) (a x : Word) :
    (observer.check s a).1.armed x = (!(a == x) && s.armed x) := by
  simp only [observer, armed, Breakpoints.getElem?_hit]
  by_cases hx : a = x
  · subst hx
    rw [if_pos rfl, beq_self_eq_true]
    cases s.breakpoints[a]? with
    | none => rfl
    | some b =>
      obtain ⟨enabled, hits, skipOnce⟩ := b
      cases enabled <;> cases skipOnce <;> rfl
  · rw [if_neg hx, beq_false_of_ne hx]
    rfl

/-- While the program runs no breakpoint is armed again. -/
theorem keeps_disarmed : observer.Keeps Disarmed where
  sync s a h := h
  check s a h x := by rw [armed_check, h x, Bool.and_false]
  enter s a h := h
  leave s h := h
  write s f t w h := h

/-- While the program runs no breakpoint but that of the last stop comes to be passed. -/
theorem keeps_held : observer.Keeps Held where
  sync s a h := h
  check s a h x hx := by
    refine h x ?_
    simp only [observer, skips, Breakpoints.getElem?_hit] at hx ⊢
    split at hx
    · cases hb : s.breakpoints[x]? with
      | none =>
        rw [hb] at hx
        cases hx
      | some b =>
        rw [hb] at hx
        -- A look never sets a breakpoint to be passed.
        obtain ⟨enabled, hits, skipOnce⟩ := b
        cases enabled <;> cases skipOnce <;> first
          | rfl
          | cases hx
    · exact hx
  enter s a h := h
  leave s h := h
  write s f t w h := h

/-- Setting a breakpoint to be passed changes what is passed at its address alone. -/
theorem skips_setSkipOnce (s : Session) (a x : Word) (skip : Bool) :
    skips { s with breakpoints := s.breakpoints.setSkipOnce a skip } x =
      if a = x then skip && s.breakpoints[x]?.isSome else s.skips x := by
  simp only [skips, Breakpoints.setSkipOnce, Breakpoints.getElem?_update]
  split
  · cases s.breakpoints[x]? with
    | none => exact (Bool.and_false skip).symm
    | some b => exact (Bool.and_true skip).symm
  · rfl

/-- Behind a move, no breakpoint lets the program pass. -/
theorem Held.skips_moveTo (h : s.Held) (pc x : Word) : (s.moveTo pc).skips x = false := by
  unfold Session.moveTo
  cases hlast : s.lastHit? with
  | none =>
    rw [← Bool.not_eq_true]
    intro hx
    cases hlast.symm.trans (h x hx)
  -- The breakpoint of the last stop is the only one that could be passed, and it is reset.
  | some address =>
    have hskips := skips_setSkipOnce s address x false
    simp only [Bool.false_and] at hskips
    refine hskips.trans ?_
    split
    · rfl
    · next hne =>
      rw [← Bool.not_eq_true]
      intro hx
      exact hne (Option.some.inj (hlast.symm.trans (h x hx)))

/-- A session that moves on lets no breakpoint but that of the last stop be passed. -/
theorem Held.moveTo (h : s.Held) (pc : Word) : (s.moveTo pc).Held := fun x hx => by
  rw [h.skips_moveTo pc x] at hx
  cases hx

/-- Moving on does not show where no breakpoint is armed. -/
theorem Disarmed.agree_moveTo (h : s.Disarmed) (P : Word → Prop) (pc : Word) :
    (s.moveTo pc).Agree P s := by
  unfold Session.moveTo
  cases s.lastHit? with
  | none => exact ⟨rfl, rfl, fun _ _ => rfl⟩
  | some address =>
    refine ⟨rfl, rfl, fun x _ => ?_⟩
    have hx := h x
    -- Only an armed breakpoint is changed by the move, and there is none.
    simp only [armed] at hx
    simp only [Breakpoints.setSkipOnce, Breakpoints.getElem?_update]
    split
    · cases hb : s.breakpoints[x]? with
      | none => rfl
      | some b =>
        rw [hb] at hx
        simp only [Option.any_some] at hx
        simp only [Option.map_some, Breakpoint.force, hx, Bool.and_false]
    · rfl

/-- Sessions whose breakpoints act alike are disarmed together. -/
theorem Agree.disarmed {s' : Session} (h : s.Agree everywhere s') (hs' : s'.Disarmed) : s.Disarmed := by
  intro x
  have hforce := congrArg (Option.any (·.2.2)) (h.force x trivial)
  rw [Option.any_map, Option.any_map] at hforce
  exact hforce.trans (hs' x)

/-- To move on arms no breakpoint. -/
theorem Disarmed.moveTo (h : s.Disarmed) (pc : Word) : (s.moveTo pc).Disarmed :=
  (h.agree_moveTo everywhere pc).disarmed h

end Session

namespace Session

variable {P : Word → Prop} {g g' : Guest Session} {a : Word}

open Guest

/-- The first of the actions tells the session where execution is. -/
theorem actAll_sync (g : Guest Session) (a : Word) (as : List Action) :
    g.actAll observer a (.sync :: as) =
      Guest.actAll observer a as ⟨g.core, (observer.sync g.context a).1⟩ := by
  change (act observer a .sync >>= fun _ => Guest.actAll observer a as) g = _
  rw [bind_apply]
  rfl

/-- A look at a breakpoint halts the program if the breakpoint stops. -/
theorem act_check (g : Guest Session) (a : Word) :
    g.act observer a .check =
      if g.context.breakpoints[a]?.any Breakpoint.stops then
        .error (.breakpoint a) ⟨g.core, (observer.check g.context a).1⟩
      else .ok () ⟨g.core, (observer.check g.context a).1⟩ := by
  rw [← Breakpoints.hit_snd]
  simp only [act, observer]
  cases (g.context.breakpoints.hit a).2 <;> rfl

/-- A look at a breakpoint, and the actions behind it. -/
theorem actAll_check (g : Guest Session) (a : Word) (as : List Action) :
    g.actAll observer a (.check :: as) =
      if g.context.breakpoints[a]?.any Breakpoint.stops then
        .error (.breakpoint a) ⟨g.core, (observer.check g.context a).1⟩
      else Guest.actAll observer a as ⟨g.core, (observer.check g.context a).1⟩ := by
  change (act observer a .check >>= fun _ => Guest.actAll observer a as) g = _
  rw [bind_apply, act_check]
  cases g.context.breakpoints[a]?.any Breakpoint.stops <;> rfl

/-- Sessions act alike when the program has come to an address. -/
theorem Agree.sync {s s' : Session} (h : s.Agree P s') (a : Word) :
    AgreeHere P (observer.sync s a).1 (observer.sync s' a).1 :=
  ⟨⟨h.frames, h.trace, h.force⟩, rfl⟩

/-- Sessions still act alike when a look was taken at breakpoints that act alike. -/
theorem AgreeHere.check {s s' : Session} (h : s.AgreeHere P s') (a : Word) :
    AgreeHere P (observer.check s a).1 (observer.check s' a).1 := by
  refine ⟨⟨h.frames, h.trace, fun x hx => ?_⟩, h.pc⟩
  simp only [observer, Breakpoints.getElem?_hit]
  split
  · exact Breakpoint.map_met_congr (h.force x hx)
  · exact h.force x hx

/-- Sessions still act alike elsewhere when a look was taken at one breakpoint. -/
theorem AgreeHere.check_left {s s' : Session} (h : s.AgreeHere P s') (ha : ¬ P a) :
    AgreeHere P (observer.check s a).1 s' := by
  refine ⟨⟨h.frames, h.trace, fun x hx => ?_⟩, h.pc⟩
  have hne : ¬ a = x := fun he => ha (he ▸ hx)
  simp only [observer, Breakpoints.getElem?_hit, if_neg hne]
  exact h.force x hx

/-- A look at breakpoints that act alike. -/
theorem alike_check (h : g.Like (AgreeHere P) g') (ha : P a) :
    Alike (Like (AgreeHere P)) (g.act observer a .check) (g'.act observer a .check) := by
  have hstops := Breakpoint.any_stops_congr (h.context.force a ha)
  rw [act_check, act_check, ← hstops]
  split
  · exact .error _ ⟨h.core, h.context.check a⟩
  · exact .ok () ⟨h.core, h.context.check a⟩

/-- Sessions that agree follow calls and returns alike. -/
theorem alike_follow (h : g.Like (AgreeHere P) g') (a : Word) (i? : Option Instruction) :
    Alike (Like (AgreeHere P)) (g.actAll observer a (follow a i?))
      (g'.actAll observer a (follow a i?)) := by
  refine Guest.alike_actAll h fun action haction g g' h => ?_
  have hne : action ≠ .check := fun he => check_notMem_follow a i? (he ▸ haction)
  exact Guest.alike_act (respects_agreeHere P) h a hne

/-- The actions at an address where breakpoints act alike. -/
theorem alike_actAll {s s' : Session}
    (hs : s.breakpoints.hasEnabled a = s'.breakpoints.hasEnabled a) (h : g.Like (Agree P) g') (ha : P a)
    (i? : Option Instruction) :
    Alike (Like (AgreeHere P)) (g.actAll observer a (injector s a i?))
      (g'.actAll observer a (injector s' a i?)) := by
  rw [injector_eq, injector_eq, ← hs, actAll_sync, actAll_sync]
  have hsync : Like (AgreeHere P) ⟨g.core, (observer.sync g.context a).1⟩
      ⟨g'.core, (observer.sync g'.context a).1⟩ := ⟨h.core, h.context.sync a⟩
  split
  · rw [List.singleton_append]
    unfold Guest.actAll
    exact Alike.bind (alike_check hsync ha) (fun _ _ h => h) fun _ _ _ h => alike_follow h a i?
  · exact alike_follow hsync a i?

/-- The actions where no breakpoint is looked at. -/
theorem alike_actAll_unchecked (h : g.Like (Agree P) g') (a : Word) (i? : Option Instruction) :
    Alike (Like (AgreeHere P)) (g.actAll observer a (.sync :: follow a i?))
      (g'.actAll observer a (.sync :: follow a i?)) := by
  have hsync : Like (AgreeHere P) ⟨g.core, (observer.sync g.context a).1⟩
      ⟨g'.core, (observer.sync g'.context a).1⟩ := ⟨h.core, h.context.sync a⟩
  rw [actAll_sync, actAll_sync]
  exact alike_follow hsync a i?

/-- The actions where a breakpoint is looked at on one side, and lets the program pass. -/
theorem alike_actAll_pass {s : Session} (h : g.Like (Agree P) g') (ha : ¬ P a)
    (hpass : g.context.breakpoints[a]?.any Breakpoint.stops = false) (i? : Option Instruction) :
    Alike (Like (AgreeHere P)) (g.actAll observer a (injector s a i?))
      (g'.actAll observer a (.sync :: follow a i?)) := by
  rw [injector_eq]
  split
  · have hcheck : Like (AgreeHere P)
        ⟨g.core, (observer.check (observer.sync g.context a).1 a).1⟩
        ⟨g'.core, (observer.sync g'.context a).1⟩ := ⟨h.core, (h.context.sync a).check_left ha⟩
    rw [List.singleton_append, actAll_sync, actAll_sync, actAll_check, if_neg]
    · exact alike_follow hcheck a i?
    · exact fun hstop => Bool.false_ne_true (hpass.symm.trans hstop)
  · exact alike_actAll_unchecked h a i?

/-- A breakpoint that stops the program does so before anything but the program counter and its
hits has changed. -/
theorem actAll_stop {s : Session} (hs : s.breakpoints.hasEnabled a = true)
    (hstop : g.context.breakpoints[a]?.any Breakpoint.stops = true) (i? : Option Instruction) :
    g.actAll observer a (injector s a i?) =
      .error (.breakpoint a) ⟨g.core, (observer.check (observer.sync g.context a).1 a).1⟩ := by
  rw [injector_eq, if_pos hs, List.singleton_append, actAll_sync, actAll_check, if_pos]
  exact hstop

/-- Behind the actions at the address of the one breakpoint that may be armed, none is. -/
theorem disarmed_of_actAll {s : Session}
    (hs : s.breakpoints.hasEnabled a = g.context.breakpoints.hasEnabled a)
    (h : ∀ x, g.context.armed x = true → x = a) {i? : Option Instruction}
    (hok : g.actAll observer a (injector s a i?) = .ok () g') : g'.context.Disarmed := by
  rw [injector_eq, actAll_sync] at hok
  split at hok
  · rw [List.singleton_append, actAll_check] at hok
    split at hok
    · cases hok
    · refine Leads.of_ok (Guest.keeps_actAll keeps_disarmed (fun x => ?_) a _) hok
      rw [armed_check]
      by_cases hx : a = x
      · rw [beq_iff_eq.mpr hx]
        rfl
      · rw [← Bool.not_eq_true, Bool.and_eq_true]
        exact fun ⟨_, harmed⟩ => hx (h x harmed).symm
  · next hunchecked =>
    -- A breakpoint that is armed is switched on, so there is none at the address.
    refine Leads.of_ok (Guest.keeps_actAll keeps_disarmed (fun x => ?_) a _) hok
    rw [← Bool.not_eq_true]
    intro harmed
    obtain rfl := h x harmed
    rw [hs] at hunchecked
    exact hunchecked (hasEnabled_of_armed harmed)

end Session

end MipsMonitor.Debug
