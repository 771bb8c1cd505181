import MipsMonitor.Proofs.Machine.Courses
import MipsMonitor.Proofs.Machine.PowerOn

/-!
# Sinks

Where a machine reports is written down in up to three places: in the core, in the memory behind the
view, and in the cache while that hides memory. They agree from the first reset on (`Core.Tells`). A
reset and the installation of a sink go through all of them, a cache is told when it is put in front of
memory, and memory still knows when the cache is dropped again. Nothing else touches a sink
(`Machine.Dealing.tells`).

So whoever reports, reports to the sink that is installed in the core. What accesses to the ports and
resets of the cache are reported as is spelled out for a given sink, without a look at what memory and
cache hold (`View.readMessages`, `View.writeMessages`, `View.resetMessages`), and whatever is done, its
messages are in the log with their sink in place (`Core.Reports`). For what executes this goes
instruction by instruction (`Block.recounts_reports`). The main statement is
`Machine.reports_to_installed`.
-/

namespace MipsMonitor

open ByteMemory Text

/-! ## Views -/

namespace Address

/-- The message of an access to a byte, which only has one if the byte is one of the hardware ports. -/
def message? (sink : Sink) (access : String) (a : Word) : Option Entry :=
  match cell? a with
  | some (.port _) => some ⟨sink, .trace, access ++ " at " ++ hexWord a⟩
  | _ => none

/-- The messages of reading bytes of memory, up to the first one that no window has. -/
def readMessages (sink : Sink) (addresses : List Word) : List Entry :=
  (addresses.takeWhile fun a => (cell? a).isSome).filterMap (message? sink "I/O read")

/-- The messages of writing bytes of memory from an address on, up to the first one that is refused. -/
def writeMessages (sink : Sink) (address : Word) (bytes : List UInt8) : List Entry :=
  (((run address bytes.length).zip bytes).takeWhile fun (a, _) => (refusal? a).isNone).filterMap
    fun (a, b) => message? sink ("I/O write " ++ hexByte b) a

/-- A message goes to the sink it was made for. -/
theorem sink_of_message? {sink : Sink} {access : String} {a : Word} {e : Entry}
    (h : message? sink access a = some e) : e.sink = sink := by
  unfold message? at h
  split at h
  · cases h
    rfl
  · cases h

/-- Messages of reads go to their sink. -/
theorem sink_of_mem_readMessages {sink : Sink} {addresses : List Word} {e : Entry}
    (h : e ∈ readMessages sink addresses) : e.sink = sink := by
  obtain ⟨a, -, ha⟩ := List.mem_filterMap.mp h
  exact sink_of_message? ha

/-- Messages of writes go to their sink. -/
theorem sink_of_mem_writeMessages {sink : Sink} {address : Word} {bytes : List UInt8} {e : Entry}
    (h : e ∈ writeMessages sink address bytes) : e.sink = sink := by
  obtain ⟨ab, -, hab⟩ := List.mem_filterMap.mp h
  exact sink_of_message? hab

end Address

namespace Ram

variable {r : Ram} {sink : Sink} (h : r.sink? = some sink)

include h

/-- Memory notes an access to a port as a message to its sink. -/
theorem note?_eq (a : Word) (access : String) : r.note? a access = Address.message? sink access a := by
  unfold note? Address.message?
  rw [h]
  cases Address.cell? a with
  | none => rfl
  | some c => cases c <;> rfl

/-- Memory that reports to a sink reports reads there. -/
theorem readNotes_eq (addresses : List Word) :
    readNotes r addresses = Address.readMessages sink addresses := by
  have hok : (fun a => (readByte r a).isOk) = fun a => (Address.cell? a).isSome := funext fun a => by
    rw [readByte_eq]
    cases Address.cell? a <;> rfl
  have hnote : readNote? r = Address.message? sink "I/O read" := funext fun a => note?_eq h a _
  unfold readNotes Address.readMessages
  rw [hok, hnote]

/-- Memory that reports to a sink reports writes there. -/
theorem writeNotes_eq (address : Word) (bytes : List UInt8) :
    writeNotes r address bytes = Address.writeMessages sink address bytes := by
  have hnote : (fun (ab : Word × UInt8) => writeNote? r ab.1 ab.2) =
      fun (ab : Word × UInt8) => Address.message? sink ("I/O write " ++ hexByte ab.2) ab.1 :=
    funext fun ab => note?_eq h ab.1 _
  unfold writeNotes Address.writeMessages
  rw [hnote]
  rfl

end Ram

namespace View

/-- A view reports to a sink: memory does, and so does the cache if there is one. -/
def ReportsTo (sink : Sink) : View Ram → Prop
  | direct r => r.sink? = some sink
  | isolated c => c.sink? = some sink ∧ c.hidden.sink? = some sink

/-- The messages of reading bytes. While the cache hides memory there are none. -/
def readMessages (sink : Sink) (addresses : List Word) : View Ram → List Entry
  | direct _ => Address.readMessages sink addresses
  | isolated _ => []

/-- The messages of writing bytes. While the cache hides memory there are none. -/
def writeMessages (sink : Sink) (address : Word) (bytes : List UInt8) : View Ram → List Entry
  | direct _ => Address.writeMessages sink address bytes
  | isolated _ => []

/-- The messages of a reset, which are that of the cache if there is one. -/
def resetMessages (sink : Sink) : View Ram → List Entry
  | direct _ => []
  | isolated _ => [⟨sink, .debug, "resetting isolated cache"⟩]

/-- A view that was given a sink reports to it. -/
theorem reportsTo_withSink (v : View Ram) (sink : Sink) : (withSink v sink).ReportsTo sink := by
  cases v with
  | direct r => rfl
  | isolated c => exact ⟨rfl, rfl⟩

namespace ReportsTo

variable {v : View Ram} {sink : Sink}

/-- The memory behind a view reports to the same sink. -/
theorem backing (h : v.ReportsTo sink) : v.backing.sink? = some sink := by
  cases v with
  | direct r => exact h
  | isolated c => exact h.2

/-- Ending an isolation leaves the sink as it is. -/
theorem unisolate (h : v.ReportsTo sink) : v.unisolate.ReportsTo sink := by
  cases v with
  | direct r => exact h
  | isolated c => exact h.2

/-- A reset leaves the sink as it is. -/
theorem reset (h : v.ReportsTo sink) : (ByteMemory.reset v).ReportsTo sink := by
  cases v <;> exact h

/-- A write leaves the sink as it is. -/
theorem put (h : v.ReportsTo sink) (a : Word) (b : UInt8) : (ByteMemory.put v a b).ReportsTo sink := by
  cases v with
  | isolated c => exact h
  | direct r =>
    simp only [ReportsTo, ByteMemory.put]
    cases Address.cell? a with
    | none => exact h
    | some c => cases c <;> exact h

/-- A write goes to no sink. -/
theorem writeBytes (h : v.ReportsTo sink) (a : Word) (bs : List UInt8) :
    Leads (ReportsTo sink) (ByteMemory.writeBytes a bs v) := by
  induction bs generalizing a v with
  | nil => exact h
  | cons b bs ih =>
    unfold ByteMemory.writeBytes
    cases refusal? v a with
    | some e => exact h
    | none => exact ih (h.put a b) (a + 1)

/-- A cache that is put in front of memory is told the sink, and memory keeps it behind a cache that is
dropped. -/
theorem viewFor (h : v.ReportsTo sink) (old new : Status) :
    (Core.viewFor sink old new v).ReportsTo sink := by
  unfold Core.viewFor
  split
  · exact h
  · split
    · exact v.isolate.reportsTo_withSink sink
    · exact h.unisolate

/-- What a view notes of reads are their messages. -/
theorem readNotes_eq (h : v.ReportsTo sink) (addresses : List Word) :
    readNotes v addresses = v.readMessages sink addresses := by
  cases v with
  | direct r => exact Ram.readNotes_eq h addresses
  | isolated c => exact List.filterMap_eq_nil_iff.mpr fun _ _ => rfl

/-- What a view notes of a write are its messages. -/
theorem writeNotes_eq (h : v.ReportsTo sink) (a : Word) (bs : List UInt8) :
    writeNotes v a bs = v.writeMessages sink a bs := by
  cases v with
  | direct r => exact Ram.writeNotes_eq h a bs
  | isolated c => exact List.filterMap_eq_nil_iff.mpr fun _ _ => rfl

/-- What a view notes of a reset are its messages. -/
theorem resetNotes_eq (h : v.ReportsTo sink) : resetNotes v = v.resetMessages sink := by
  cases v with
  | direct r => rfl
  | isolated c =>
    obtain ⟨hcache, -⟩ := h
    change (c.sink?.map _).toList ++ [] = _
    rw [hcache]
    rfl

end ReportsTo

variable {v : View Ram} {sink : Sink} {e : Entry}

/-- The messages of reads through a view go to its sink. -/
theorem sink_of_mem_readMessages {addresses : List Word} (h : e ∈ v.readMessages sink addresses) :
    e.sink = sink := by
  cases v with
  | direct r => exact Address.sink_of_mem_readMessages h
  | isolated c => cases h

/-- The messages of a write through a view go to its sink. -/
theorem sink_of_mem_writeMessages {a : Word} {bs : List UInt8} (h : e ∈ v.writeMessages sink a bs) :
    e.sink = sink := by
  cases v with
  | direct r => exact Address.sink_of_mem_writeMessages h
  | isolated c => cases h

/-- The messages of a reset of a view go to its sink. -/
theorem sink_of_mem_resetMessages (h : e ∈ v.resetMessages sink) : e.sink = sink := by
  cases v with
  | direct r => cases h
  | isolated c => rw [List.mem_singleton.mp h]

end View

/-! ## Cores -/

/-- Nobody says an entry. -/
def Entry.Unsaid (_ : Entry) : Prop := False

namespace Core

/-- Memory is attached, and it reports to the sink that is installed in the core. -/
def Tells (c : Core) : Prop := ∃ v, c.view? = some v ∧ v.ReportsTo c.sink

/-- What the log of a core has got behind something that was done: the messages that had to be there
are among it in their order, and all of it goes to the sink of the core, but for what was said by
somebody else. The sink is still the same then, and memory reports to it. -/
structure Reports (said : Entry → Prop) (c : Core) (messages : List Entry) (c' : Core) : Prop where
  /-- The sink is the same. -/
  sink : c'.sink = c.sink
  /-- Memory reports to it. -/
  tells : c'.Tells
  /-- What was added to the log. -/
  log : ∃ added, c'.log.toList = c.log.toList ++ added ∧ messages.Sublist added ∧
    ∀ e ∈ added, e.sink = c.sink ∨ said e

/-- What is noted is added at the end of the log. -/
theorem log_note (c : Core) (entries : List Entry) :
    (c.note entries).log.toList = c.log.toList ++ entries := by
  unfold note
  split
  · next h => rw [List.isEmpty_iff.mp h, List.append_nil]
  · simp

variable {said : Entry → Prop} {c c' c'' : Core} {messages messages' : List Entry}

/-- Whether a core tells depends on its sink and its memory. -/
theorem Tells.congr (h : c.Tells) (hsink : c'.sink = c.sink) (hview : c'.view? = c.view?) :
    c'.Tells := by
  obtain ⟨v, hv, hreports⟩ := h
  exact ⟨v, hview.trans hv, hsink.symm ▸ hreports⟩

/-- Another sink is told to memory as well. -/
theorem Tells.withSink (h : c.Tells) (sink : Sink) : (c.withSink sink).Tells := by
  obtain ⟨v, hv, -⟩ := h
  exact ⟨ByteMemory.withSink v sink, congrArg (Option.map _) hv, v.reportsTo_withSink sink⟩

/-- A reset tells the view the sink that the core has. -/
theorem tells_reset (c : Core) (v : View Ram) : (c.reset v).Tells := by
  have hview := (v.reportsTo_withSink c.sink).reset
  refine ⟨_, rfl, ?_⟩
  simpa only [Core.reset, sink_note] using hview

namespace Reports

/-- Nothing that is reported. -/
theorem of_eq (h : c.Tells) (hsink : c'.sink = c.sink) (hview : c'.view? = c.view?)
    (hlog : c'.log = c.log) : c.Reports said [] c' :=
  ⟨hsink, h.congr hsink hview, [], by rw [hlog, List.append_nil], .slnil, by simp⟩

/-- Where nothing happens, nothing is reported. -/
theorem refl (h : c.Tells) : c.Reports said [] c := of_eq h rfl rfl rfl

/-- What two stretches report is reported in their order. -/
theorem trans (h : c.Reports said messages c') (h' : c'.Reports said messages' c'') :
    c.Reports said (messages ++ messages') c'' := by
  obtain ⟨hsink, -, added, hlog, hmessages, hall⟩ := h
  obtain ⟨hsink', htells', added', hlog', hmessages', hall'⟩ := h'
  refine ⟨hsink'.trans hsink, htells', added ++ added', ?_, hmessages.append hmessages', fun e he => ?_⟩
  · rw [hlog', hlog, List.append_assoc]
  · exact (List.mem_append.mp he).elim (hall e) fun he => hsink ▸ hall' e he

/-- Behind the messages comes what has none. -/
theorem trans_silent (h : c.Reports said messages c') (h' : c'.Reports said [] c'') :
    c.Reports said messages c'' := by
  rw [← List.append_nil messages]
  exact h.trans h'

/-- What is added to the log goes to the sink of the core. -/
theorem note (h : c.Tells) (hmessages : ∀ e ∈ messages, e.sink = c.sink ∨ said e) :
    c.Reports said messages (c.note messages) :=
  ⟨c.sink_note _, h.congr (c.sink_note _) (c.view?_note _), messages, c.log_note _, .refl _, hmessages⟩

/-- Messages do not have to be there. -/
theorem forget (h : c.Reports said messages c') : c.Reports said [] c' := by
  obtain ⟨hsink, htells, added, hlog, -, hall⟩ := h
  exact ⟨hsink, htells, added, hlog, List.nil_sublist added, hall⟩

/-- What the core itself reports is no message of memory. -/
theorem report (h : c.Tells) (level : Level) (text : String) :
    c.Reports said [] (c.report level text) :=
  (note h fun e he => .inl (by rw [List.mem_singleton.mp he])).forget

/-- The clock reports to the sink of the core. -/
theorem clock (h : c.Tells) (ticks : Nat) : c.Reports said [] (c.clock ticks) := by
  unfold Core.clock
  split
  · have hreport (text : String) : c.Reports said [] (c.report .info text) := report h .info text
    exact (hreport _).trans (of_eq (hreport _).tells rfl rfl rfl)
  · exact of_eq h rfl rfl rfl

/-- New registers are not reported. -/
theorem withRegisters (h : c.Tells) (f : RegisterFile) : c.Reports said [] { c with registers := f } :=
  of_eq h rfl rfl rfl

/-- Another view is attached that reports where the core does. -/
theorem attach {v : View Ram} (h : v.ReportsTo c.sink) : c.Reports said [] { c with view? := some v } :=
  ⟨rfl, ⟨v, rfl, h⟩, [], (List.append_nil _).symm, .slnil, fun e he => by cases he⟩

/-- The view may be exchanged for another one that reports to the same sink. -/
theorem withView (h : c.Reports said messages c') {f : View Ram → View Ram}
    (hf : ∀ v, v.ReportsTo c'.sink → (f v).ReportsTo c'.sink) :
    c.Reports said messages { c' with view? := c'.view?.map f } := by
  obtain ⟨v, hv, hreports⟩ := h.tells
  exact ⟨h.sink, ⟨f v, congrArg (Option.map f) hv, hf v hreports⟩, h.log⟩

/-- A write to a register for system control is reported, and the view that goes with it reports on. -/
theorem writeSystem (h : c.Tells) (index : Nat) (w : Word) :
    c.Reports said [] (c.writeSystem index w) := by
  unfold Core.writeSystem
  split
  · have hset (f : RegisterFile) : c.Reports said [] { c with registers := f } := withRegisters h f
    exact ((hset _).trans (report (hset _).tells .debug _)).withView fun v hv => hv.viewFor _ _
  · exact report h .warn _

/-- What the host reads is reported. -/
theorem readFrom {μ α : Type} [ByteMemory μ] (h : c.Tells) {choose : View Ram → μ}
    {addresses : List Word} {spell : List UInt8 → α}
    (hmessages : ∀ v, c.view? = some v → v.ReportsTo c.sink →
      readNotes (choose v) addresses = messages ∧ ∀ e ∈ messages, e.sink = c.sink) :
    Leads (c.Reports said messages) (c.readFrom choose addresses spell) := by
  obtain ⟨v, hv, hreports⟩ := id h
  obtain ⟨hnotes, hsink⟩ := hmessages v hv hreports
  have hnote : c.Reports said messages (c.note messages) := note h fun e he => .inl (hsink e he)
  unfold Core.readFrom
  simp only [hv, hnotes]
  cases readBytes (choose v) addresses <;> exact hnote

/-- A write is reported. -/
theorem poke (h : c.Tells) (a : Word) (bs : List UInt8) :
    Leads (c.Reports said (c.view?.elim [] (View.writeMessages c.sink a bs))) (c.poke a bs) := by
  obtain ⟨registers, view?, stopped, ticks, sink, written, log⟩ := c
  -- The core reports to the sink of its view, so the notes of the bytes are its own.
  obtain ⟨v, rfl, hview⟩ := h
  have hbytes := hview.writeBytes a bs
  have hwritten {v' : View Ram} (hv' : v'.ReportsTo sink) :
      Core.Reports said ⟨registers, some v, stopped, ticks, sink, written, log⟩
        (v.writeMessages sink a bs)
        (Core.note ⟨registers, some v', stopped, ticks, sink, written, log⟩
          (v.writeMessages sink a bs)) := by
    have hview' : Core.Reports said ⟨registers, some v, stopped, ticks, sink, written, log⟩ []
        ⟨registers, some v', stopped, ticks, sink, written, log⟩ := attach hv'
    exact hview'.trans (note hview'.tells fun e he => .inl (View.sink_of_mem_writeMessages he))
  simp only [Core.poke, hview.writeNotes_eq, Option.elim_some]
  cases hw : ByteMemory.writeBytes a bs v with
  | ok u v' =>
    rw [hw] at hbytes
    exact hwritten hbytes
  | error e v' =>
    rw [hw] at hbytes
    exact hwritten hbytes

/-- A reset of the view is reported. -/
theorem resetView (h : c.Tells) :
    Leads (c.Reports said (c.view?.elim [] (View.resetMessages c.sink))) c.resetView := by
  obtain ⟨registers, view?, stopped, ticks, sink, written, log⟩ := c
  obtain ⟨v, rfl, hview⟩ := h
  have hreset : Core.Reports said ⟨registers, some v, stopped, ticks, sink, written, log⟩ []
      ⟨registers, some (ByteMemory.reset v), stopped, ticks, sink, written, log⟩ := attach hview.reset
  simp only [Core.resetView, hview.resetNotes_eq, Option.elim_some]
  exact hreset.trans (note hreset.tells fun e he => .inl (View.sink_of_mem_resetMessages he))

/-- The reset of a cache that comes with the new view is reported to the sink that the core has. -/
theorem reset (c : Core) (v : View Ram) :
    c.Reports said (v.resetMessages c.sink) (c.reset v) := by
  have hnotes : resetNotes (ByteMemory.withSink v c.sink) = v.resetMessages c.sink := by
    cases v <;> rfl
  refine ⟨c.sink_note _, c.tells_reset v, v.resetMessages c.sink, ?_, .refl _, fun e he =>
    .inl (View.sink_of_mem_resetMessages he)⟩
  simp only [Core.reset, hnotes, log_note]

/-- What is asked of the core is said by who asks. -/
theorem heed (h : c.Tells) {notices : List Notice} (hsaid : ∀ e, .report e ∈ notices → said e) :
    c.Reports said [] (notices.foldl Core.heed c) := by
  induction notices generalizing c with
  | nil => exact refl h
  | cons n notices ih =>
    have hfirst : c.Reports said [] (c.heed n) := by
      cases n with
      | stop => exact of_eq h rfl rfl rfl
      | report e =>
        exact (note h fun e' he' =>
          .inr (List.mem_singleton.mp he' ▸ hsaid e List.mem_cons_self)).forget
    exact hfirst.trans (ih hfirst.tells fun e he => hsaid e (List.mem_cons_of_mem n he))

end Reports

end Core

/-! ## What executes -/

/-- The messages of something that happens: those of the words of a translation, which are read behind
the cache, and those of the bytes that an operation or the host reads and writes. -/
def Occurrence.messages (sink : Sink) (o : Occurrence) : List Entry :=
  match o.deed with
  | .fetch b => b.steps.flatMap fun s => Address.readMessages sink (Address.run s.address 4)
  | .perform _ op =>
    o.core.view?.elim [] (View.readMessages sink (op.span o.core.registers)) ++
      match o.change? with
      | some (.store a bs) => o.core.view?.elim [] (View.writeMessages sink a bs)
      | _ => []
  | .system _ _ => []
  | .poke a bs => o.core.view?.elim [] (View.writeMessages sink a bs)

variable {σ : Type}

/-- An observer says an entry on some occasion. -/
def Observer.Says (observer : Observer σ) (e : Entry) : Prop :=
  ∃ s, (∃ a, .report e ∈ (observer.sync s a).2) ∨ (∃ a, .report e ∈ (observer.check s a).2.1) ∨
    (∃ a, .report e ∈ (observer.enter s a).2) ∨ .report e ∈ (observer.leave s).2 ∨
      ∃ f t w, .report e ∈ (observer.write s f t w).2.1

namespace Guest

variable {observer : Observer σ} {g : Guest σ}

/-- What an action adds to the log is what the observer says when it is told. -/
theorem reports_act (h : g.core.Tells) (address : Word) (action : Action) :
    Leads (fun g' => g.core.Reports observer.Says [] g'.core) (g.act observer address action) := by
  obtain ⟨core, context⟩ := g
  cases action with
  | sync => exact .heed h fun e he => ⟨context, .inl ⟨address, he⟩⟩
  | check =>
    have hheed : core.Reports observer.Says []
        ((observer.check context address).2.1.foldl Core.heed core) :=
      .heed h fun e he => ⟨context, .inr (.inl ⟨address, he⟩)⟩
    simp only [act]
    split <;> exact hheed
  | enter callSite => exact .heed h fun e he => ⟨context, .inr (.inr (.inl ⟨callSite, he⟩))⟩
  | leave => exact .heed h fun e he => ⟨context, .inr (.inr (.inr (.inl he)))⟩

/-- What actions add to the log is what the observer says when it is told. -/
theorem reports_actAll (h : g.core.Tells) (address : Word) (actions : List Action) :
    Leads (fun g' => g.core.Reports observer.Says [] g'.core) (g.actAll observer address actions) :=
  leads_actAll (.refl h) fun action _ _ h =>
    (reports_act h.tells address action).mono fun _ h' => h.trans h'

/-- Traps are not reported. -/
theorem reports_trap {said : Entry → Prop} (h : g.core.Tells) (t : Trap) :
    Leads (fun g' => g.core.Reports said [] g'.core) (g.trap t) := by
  simp only [trap, Leads]
  split <;> exact .of_eq h rfl rfl rfl

/-- What an operation reads is reported. -/
theorem reports_noteReads {said : Entry → Prop} (h : g.core.Tells) (op : Operation) :
    g.core.Reports said
      (g.core.view?.elim [] (View.readMessages g.core.sink (op.span g.core.registers)))
      (g.noteReads op).core := by
  obtain ⟨v, hv, hreports⟩ := id h
  simp only [noteReads, hv, hreports.readNotes_eq, Option.elim_some]
  split
  · next hnone =>
    rw [List.isEmpty_iff.mp hnone]
    exact .refl h
  · exact .note h fun e he => .inl (View.sink_of_mem_readMessages he)

/-- What a write to a watched register adds to the log is what the observer says to it, and the
view stays as it is. -/
theorem reports_write (h : g.core.Tells) (t : Tracked) (w : Word) :
    g.core.Reports observer.Says [] (g.write observer t w).core ∧
      (g.write observer t w).core.view? = g.core.view? := by
  unfold write
  split
  · exact ⟨.refl h, rfl⟩
  · have hset : g.core.Reports observer.Says []
        { g.core with registers := (observer.write g.context g.core.registers t w).2.2 } :=
      .withRegisters h _
    exact ⟨hset.trans (.heed hset.tells fun e he =>
      ⟨g.context, .inr (.inr (.inr (.inr ⟨g.core.registers, t, w, he⟩)))⟩), Core.view?_heed _ _⟩

/-- Of writes to the watched registers only what the observer says is reported, and they leave the
view alone. -/
theorem reports_writes (h : g.core.Tells) (writes : List (Tracked × Word)) :
    g.core.Reports observer.Says []
        (writes.foldl (fun g (t, w) => g.write observer t w) g).core ∧
      (writes.foldl (fun g (t, w) => g.write observer t w) g).core.view? = g.core.view? := by
  refine writes_induction
    (P := fun g' => g.core.Reports observer.Says [] g'.core ∧ g'.core.view? = g.core.view?)
    ⟨.refl h, rfl⟩ writes fun t w g' ⟨hreports, hview⟩ => ?_
  have hwrite : g'.core.Reports observer.Says [] (g'.write observer t w).core ∧ _ :=
    reports_write hreports.tells t w
  exact ⟨hreports.trans hwrite.1, hwrite.2.trans hview⟩

/-- A change outside of the watched registers is reported if it is a store. -/
theorem reports_change (said : Entry → Prop) (h : g.core.Tells) (pc : Word) (what : Change)
    (flow : Flow) :
    Leads (fun g' => g.core.Reports said
        (match what with
          | .store a bs => g.core.view?.elim [] (View.writeMessages g.core.sink a bs)
          | _ => []) g'.core)
      (g.change pc what flow) := by
  obtain ⟨core, context⟩ := g
  cases what with
  | system index w => exact .writeSystem h index w
  | geometry dest w => exact .withRegisters h _
  | store a bs =>
    have hpoke : Leads (core.Reports said _) (core.poke a bs) := Core.Reports.poke h a bs
    simp only [change, Core.store]
    cases hp : core.poke a bs with
    | ok u c =>
      -- What is behind the poke is silent: the address is marked as written, or the store traps.
      rw [hp] at hpoke
      exact hpoke.trans_silent (.of_eq hpoke.tells rfl rfl rfl)
    | error e c =>
      rw [hp] at hpoke
      exact (reports_trap (g := ⟨c, context⟩) hpoke.tells _).mono fun _ h' => hpoke.trans_silent h'

/-- What an operation reads and stores is reported. -/
theorem reports_perform (h : g.core.Tells) (pc : Word) (op : Operation) :
    Leads (fun g' => g.core.Reports observer.Says
        ((Instant.occurrence ⟨g, pc, op⟩).messages g.core.sink) g'.core)
      (g.perform observer pc op) := by
  have hnoted : g.core.Reports observer.Says _ (g.noteReads op).core := reports_noteReads h op
  obtain ⟨entries, hnotes⟩ := noteReads_eq op g
  rw [hnotes] at hnoted
  simp only [perform, hnotes, Core.registers_note, Core.view?_note, Occurrence.messages,
    Instant.occurrence, Occurrence.change?]
  cases he : op.effect pc g.core.registers g.core.view? with
  | error t =>
    simp only [List.append_nil]
    exact (reports_trap hnoted.tells t).mono fun _ h' => hnoted.trans_silent h'
  | ok e =>
    have hnotedTells : Core.Tells (⟨g.core.note entries, g.context⟩ : Guest σ).core := hnoted.tells
    obtain ⟨hwrites, hview⟩ := reports_writes hnotedTells e.writes
    have hwritten := hnoted.trans_silent hwrites
    simp only
    generalize List.foldl _ _ e.writes = g₁ at hwrites hwritten hview ⊢
    cases hchange : e.change? with
    | none =>
      simp only [List.append_nil]
      exact hwritten
    | some what =>
      -- The registers were written first, but that is nothing that a store depends on.
      have hbehind := reports_change observer.Says hwritten.tells pc what e.flow
      rw [hview, hwritten.sink, Core.view?_note] at hbehind
      cases what <;> exact hbehind.mono fun _ h' => hwritten.trans h'

end Guest

namespace Block

variable {observer : Observer σ}

/-- What a step does is reported, in the order in which it happens. -/
theorem reports_step {g : Guest σ} (h : g.core.Tells) (s : Step) :
    Leads (fun g' => g.core.Reports observer.Says
        (((instants observer [s] g).map Instant.occurrence).flatMap
          (Occurrence.messages g.core.sink)) g'.core)
      (s.run observer g) := by
  have hacts : Leads (fun g' => g.core.Reports observer.Says [] g'.core)
      (g.actAll observer s.address s.actions) := Guest.reports_actAll h s.address s.actions
  unfold Step.run
  rw [bind_apply]
  cases hrun : g.actAll observer s.address s.actions with
  | error e g₁ =>
    rw [hrun] at hacts
    rw [instants_stopped hrun]
    exact hacts
  -- Where the actions let the program go on, the step reports what its operation does.
  | ok u g₁ =>
    rw [hrun] at hacts
    have hperform : Leads (fun g' => g₁.core.Reports observer.Says _ g'.core)
        (g₁.perform observer s.address s.operation) :=
      Guest.reports_perform hacts.tells s.address s.operation
    rw [hacts.sink] at hperform
    rw [instants_singleton hrun, List.map_singleton, List.flatMap_singleton]
    exact hperform.mono fun _ h' => hacts.trans h'

/-- The messages of the instants of steps are reported. -/
theorem recounts_reports (observer : Observer σ) :
    Recounts observer (fun _ => True) fun instants g g' => g.core.Tells →
      g.core.Reports observer.Says
        ((instants.map Instant.occurrence).flatMap (Occurrence.messages g.core.sink)) g'.core where
  refl g h := .refl h
  trans := by
    -- The sink that reports go to is that of the beginning.
    intro xs ys g g' g'' h h' htells
    have hfirst := h htells
    have hrest := h' hfirst.tells
    rw [hfirst.sink] at hrest
    rw [List.map_append, List.flatMap_append]
    exact hfirst.trans hrest
  step := by
    intro s _ g
    cases hrun : s.run observer g with
    | ok flow g' => exact fun h => (reports_step h s).of_ok hrun
    | error e g' =>
      intro h
      have hstep : Leads (fun g' => g.core.Reports observer.Says _ g'.core) (s.run observer g) :=
        reports_step h s
      rw [hrun] at hstep
      exact hstep

end Block

namespace Machine

variable {observer : Observer σ} {m n : Machine σ}

/-- A block reports what its instructions access. -/
theorem reports_runBlock (h : m.core.Tells) (b : Block) :
    Leads (fun n => m.core.Reports observer.Says
        (((Block.instants observer b.steps m.guest).map Instant.occurrence).flatMap
          (Occurrence.messages m.core.sink)) n.core)
      (runBlock observer b m) := by
  have hrun := (Block.recounts_reports observer).runSteps (fun s (_ : s ∈ b.steps) => trivial)
    ⟨b.stop, .plain⟩ m.guest
  have hsettle {g : Guest σ} (hg : g.core.Tells) : g.core.Reports observer.Says []
      (settle b.length ⟨g, m.blocks, m.injector?⟩).core := by
    have hforgotten : g.core.Reports observer.Says [] { g.core with written := [] } :=
      .of_eq hg rfl rfl rfl
    exact hforgotten.trans (.clock hforgotten.tells b.length)
  exact leads_runBlock hrun fun g hsteps => (hsteps h).trans_silent (hsettle (hsteps h).tells)

/-- Translating reports what it fetches. -/
theorem reports_fetch (h : m.core.Tells) {v : View Ram} (hv : m.core.view? = some v) (b : Block) :
    m.core.Reports observer.Says (Occurrence.messages m.core.sink ⟨m.core, .fetch b⟩)
      (m.onCore (Core.note · (b.fetchNotes v.backing))).core := by
  obtain ⟨v', hv', hreports⟩ := id h
  obtain rfl := Option.some.inj (hv.symm.trans hv')
  have hnotes : b.fetchNotes v.backing = Occurrence.messages m.core.sink ⟨m.core, .fetch b⟩ := by
    simp only [Block.fetchNotes, Ram.readNotes_eq hreports.backing, Occurrence.messages]
  rw [hnotes]
  refine .note h fun e he => .inl ?_
  obtain ⟨s, -, hs⟩ := List.mem_flatMap.mp he
  exact Address.sink_of_mem_readMessages hs

/-- A block that was just translated reports what was fetched, and what its instructions access. -/
theorem reports_translated (h : m.core.Tells) {v : View Ram} (hv : m.core.view? = some v) (b : Block)
    (hn : n.guest = (m.onCore (Core.note · (b.fetchNotes v.backing))).guest) :
    Leads (fun n' => m.core.Reports observer.Says
        ((⟨m.core, .fetch b⟩ :: (Block.instants observer b.steps n.guest).map Instant.occurrence).flatMap
          (Occurrence.messages m.core.sink)) n'.core)
      (runBlock observer b n) := by
  have hfetch : m.core.Reports observer.Says _ _ := reports_fetch h hv b
  have hcore : n.core = (m.onCore (Core.note · (b.fetchNotes v.backing))).core :=
    congrArg Guest.core hn
  rw [← hcore] at hfetch
  rw [List.flatMap_cons]
  refine (reports_runBlock hfetch.tells b).mono fun _ hrun => ?_
  rw [hfetch.sink] at hrun
  exact hfetch.trans hrun

/-- A pass reports what happens in it. -/
theorem reports_pass (h : m.core.Tells) (pc : Word) :
    Leads (fun n => m.core.Reports observer.Says
        ((m.passOccurrences observer pc).flatMap (Occurrence.messages m.core.sink)) n.core)
      (pass observer pc m) := by
  obtain ⟨v, hv, -⟩ := id h
  unfold passOccurrences pass
  split
  · exact .refl h
  rw [bind_apply]
  unfold blockAt
  cases hb : m.blocks[pc]? with
  | some b => exact reports_runBlock h b
  | none =>
    -- A new translation is noted before it is run.
    simp only [translate_noting, hv]
    cases htranslate : Block.translate v.backing m.choose .block pc with
    | error t => exact .refl h
    | ok b => exact reports_translated h hv b rfl

/-- A run from an address on reports what happens in it, pass by pass. -/
theorem reports_invoke (h : m.core.Tells) (fuel : Nat) (pc : Word) (depth : Nat) :
    Leads (fun n => m.core.Reports observer.Says
        ((m.runOccurrences observer fuel pc depth).flatMap (Occurrence.messages m.core.sink)) n.core)
      (invoke observer fuel pc depth m) := by
  refine recounts_invoke (I := fun m => m.core.Tells)
    (R := fun os m n => m.core.Reports observer.Says
      (os.flatMap (Occurrence.messages m.core.sink)) n.core) (fun _ h => .refl h)
    (fun hfirst hrest => ?_)
    (fun pc h => (reports_pass h pc).mono fun _ hpass => ⟨hpass.tells, hpass⟩) h fuel pc depth
  rw [hfirst.sink] at hrest
  rw [List.flatMap_append]
  exact hfirst.trans hrest

/-- What a run does is reported, in the order in which it happens. -/
theorem reports_execute (h : m.core.Tells) (fuel : Nat) (pc : Word) :
    Leads (fun n => m.core.Reports observer.Says
        ((m.resumed.runOccurrences observer fuel pc 0).flatMap (Occurrence.messages m.core.sink)) n.core)
      (execute observer fuel pc m) := by
  have hresumed : m.core.Reports observer.Says [] m.resumed.core := .of_eq h rfl rfl rfl
  rw [execute_eq]
  exact (reports_invoke hresumed.tells fuel pc 0).mono fun _ hrun => hresumed.trans hrun

/-- What a single step does is reported, in the order in which it happens. -/
theorem reports_executeOne (h : m.core.Tells) (pc : Word) :
    Leads (fun n => m.core.Reports observer.Says
        ((m.singleOccurrences observer pc).flatMap (Occurrence.messages m.core.sink)) n.core)
      (executeOne observer pc m) := by
  obtain ⟨v, hv, -⟩ := id h
  unfold singleOccurrences executeOne
  rw [bind_apply, translate_noting]
  simp only [hv]
  cases htranslate : Block.translate v.backing m.choose .single pc with
  | error t => exact .refl h
  | ok b => exact (reports_translated h hv b rfl).bind (fun _ h' => h') fun _ _ h' => h'

/-! ## What the host does -/

/-- One thing that is done with a machine. It is reset onto any view, executes under any observer, and
its registers are written in any way; and the host does what it may always do, which is to install
sinks, to write registers for system control, to read, write and reset memory, and what concerns none
of these. -/
inductive Dealing : Machine σ → Machine σ → Prop where
  /-- The machine is reset. -/
  | reset (v : View Ram) (m : Machine σ) : Dealing m (m.reset v)
  /-- The machine runs until a routine returns, as far as it is let to. -/
  | execute (observer : Observer σ) (fuel : Nat) (pc : Word) (m : Machine σ) :
      Dealing m (endState (execute observer fuel pc m))
  /-- The machine makes a single step. -/
  | executeOne (observer : Observer σ) (pc : Word) (m : Machine σ) :
      Dealing m (endState (executeOne observer pc m))
  /-- Registers are written. -/
  | registers (f : RegisterFile) (m : Machine σ) :
      Dealing m (m.onCore fun core => { core with registers := f })
  /-- The host does something. -/
  | host {m n : Machine σ} (h : Host m n) : Dealing m n

/-- What an action leads to on the core it leads to on the machine. -/
theorem leads_atCore {ε α : Type} {P : Core → Prop} {action : EStateM ε Core α}
    (h : Leads P (action m.core)) : Leads (fun n => P n.core) (atCore action m) := by
  obtain ⟨⟨core, context⟩, blocks, injector?⟩ := m
  change Leads P (action core) at h
  simp only [atCore]
  cases hr : action core <;> rw [hr] at h <;> exact h

/-- Whatever a machine is asked to do, its messages are reported to the sink that is installed. -/
structure ReportsDuly (m : Machine σ) : Prop where
  /-- A run reports the words that are fetched, and what the instructions read and store. -/
  execute : ∀ (observer : Observer σ) (fuel : Nat) (pc : Word),
    Leads (fun n => m.core.Reports observer.Says
      ((m.resumed.runOccurrences observer fuel pc 0).flatMap (Occurrence.messages m.core.sink)) n.core)
      (Machine.execute observer fuel pc m)
  /-- So does a single step. -/
  executeOne : ∀ (observer : Observer σ) (pc : Word),
    Leads (fun n => m.core.Reports observer.Says
      ((m.singleOccurrences observer pc).flatMap (Occurrence.messages m.core.sink)) n.core)
      (Machine.executeOne observer pc m)
  /-- Writing a register for system control takes no messages, on the edges of the isolation either. -/
  system : ∀ index w, m.core.Reports Entry.Unsaid [] (m.core.writeSystem index w)
  /-- The host reads bytes. -/
  peek : ∀ addresses, Leads (m.core.Reports Entry.Unsaid
    (m.core.view?.elim [] (View.readMessages m.core.sink addresses))) (m.core.peek addresses)
  /-- The host reads a word behind the cache. -/
  peekBacking : ∀ a, Leads (m.core.Reports Entry.Unsaid
    (Address.readMessages m.core.sink (Address.run a 4))) (m.core.peekBacking a)
  /-- The host writes bytes. -/
  poke : ∀ a bs, Leads (m.core.Reports Entry.Unsaid
    (m.core.view?.elim [] (View.writeMessages m.core.sink a bs))) (m.core.poke a bs)
  /-- The host resets what loads and stores reach. -/
  resetView : Leads (m.core.Reports Entry.Unsaid
    (m.core.view?.elim [] (View.resetMessages m.core.sink))) m.core.resetView
  /-- The machine is reset. -/
  reset : ∀ v, m.core.Reports Entry.Unsaid (v.resetMessages m.core.sink) (m.reset v).core

/-- A machine whose memory reports to its sink reports duly whatever it does. -/
theorem reportsDuly_of_tells (h : m.core.Tells) : m.ReportsDuly where
  execute _ fuel pc := reports_execute h fuel pc
  executeOne _ pc := reports_executeOne h pc
  system index w := .writeSystem h index w
  peek addresses := Core.Reports.readFrom h fun v hv hreports => by
    rw [hv]
    exact ⟨hreports.readNotes_eq addresses, fun e he => View.sink_of_mem_readMessages he⟩
  peekBacking a := Core.Reports.readFrom h fun v _ hreports =>
    ⟨Ram.readNotes_eq hreports.backing _, fun e he => Address.sink_of_mem_readMessages he⟩
  poke a bs := Core.Reports.poke h a bs
  resetView := Core.Reports.resetView h
  reset v := .reset m.core v

/-- Whatever the host does, memory reports where the core does. -/
theorem Host.tells (h : Host m n) (hm : m.core.Tells) : n.core.Tells := by
  have hduly := reportsDuly_of_tells hm
  -- Each of these keeps telling because it reports duly; the rest changes nothing that is told.
  cases h with
  | reset memory => exact (hduly.reset _).tells
  | system index w => exact (hduly.system index w).tells
  | peek addresses => exact (leads_atCore (hduly.peek addresses)).endState.tells
  | poke address bytes => exact (leads_atCore (hduly.poke address bytes)).endState.tells
  | resetView => exact (leads_atCore hduly.resetView).endState.tells
  | readInstruction address =>
    unfold Machine.readInstruction
    split
    · exact (leads_atCore (hduly.peekBacking address)).endState.tells
    · exact hm
  | execute observer _ fuel pc => exact (hduly.execute observer fuel pc).endState.tells
  | executeOne observer _ pc => exact (hduly.executeOne observer pc).endState.tells
  | requestStop => exact hm.congr rfl rfl
  | clock ticks => exact hm.congr (Core.sink_clock _ _) (Core.view?_clock _ _)
  | withSink sink => exact hm.withSink sink
  | clearLog => exact hm.congr rfl rfl
  | context f => exact hm
  | withInjector injector? => exact hm
  | invalidate address => exact hm
  | invalidateAll => exact hm

/-- Whatever is done with a machine, memory reports where the core does. -/
theorem Dealing.tells (h : Dealing m n) (hm : m.core.Tells) : n.core.Tells := by
  have hduly := reportsDuly_of_tells hm
  cases h with
  | reset v => exact (hduly.reset v).tells
  | execute observer fuel pc => exact (hduly.execute observer fuel pc).endState.tells
  | executeOne observer pc => exact (hduly.executeOne observer pc).endState.tells
  | registers f => exact hm.congr rfl rfl
  | host h => exact h.tells hm

/-- From the first reset on a machine reports to the sink that is installed in its core. Whatever has
been done with it, the view that is attached, the cache if it hides memory, and memory itself have that
sink; and whatever is done next, the messages of accesses to ports and of resets of the cache are all
added to the log, with that sink. -/
theorem reports_to_installed {m₀ m : Machine σ} {v₀ : View Ram}
    (h : Relation.ReflTransGen Dealing (m₀.reset v₀) m) : m.core.Tells ∧ m.ReportsDuly := by
  have htells : m.core.Tells := by
    induction h with
    | refl => exact Core.tells_reset m₀.core v₀
    | tail _ hstep ih => exact hstep.tells ih
  exact ⟨htells, reportsDuly_of_tells htells⟩

end Machine

namespace Relayed

/-- Three instructions: `lui $t0, 0x1F80`, `lb $t1, 0x1000($t0)`, `syscall`. The second one reads the
first byte of the hardware ports. -/
def image : Image := ⟨0, ⟨#[0x80, 0x1F, 0x08, 0x3C, 0, 0x10, 0x09, 0x81, 0x0C, 0, 0, 0]⟩, by decide⟩

/-- A machine at power-on that isolates its cache, is given a recorder to report to, and ends the
isolation. -/
def machine : Machine Unit :=
  (((Machine.powerOn image ()).onCore (Core.writeSystem · 12 0x10000)).onCore
    (Core.withSink · .recorder)).onCore (Core.writeSystem · 12 0)

/-- The machine comes about by dealings from a reset on. -/
theorem dealt_machine : Relation.ReflTransGen Machine.Dealing
    ((Machine.detached .standard ()).reset (.direct { Ram.blank with images := [image] })) machine :=
  .tail (.tail (.single (.host (.system 12 0x10000 _))) (.host (.withSink .recorder _)))
    (.host (.system 12 0 _))

/-- The read of the port is reported to the recorder, of which memory was told while it was hidden. -/
theorem records_read : machine.core.Tells ∧ machine.core.sink = .recorder ∧
    ⟨.recorder, .trace, "I/O read at 0x1f801000"⟩ ∈
      (endState (machine.execute (.silent Unit) 1 0)).core.log.toList := by
  obtain ⟨htells, hduly⟩ := Machine.reports_to_installed dealt_machine
  have hsink : machine.core.sink = .recorder := by
    unfold machine
    rw [Machine.powerOn_eq]
    rfl
  have hmessages : (machine.resumed.runOccurrences (.silent Unit) 1 0 0).flatMap
      (Occurrence.messages .recorder) = [⟨.recorder, .trace, "I/O read at 0x1f801000"⟩] := by
    unfold machine
    rw [Machine.powerOn_eq]
    decide +kernel
  obtain ⟨-, -, added, hlog, hadded, -⟩ := (hduly.execute (.silent Unit) 1 0).endState
  rw [hsink, hmessages] at hadded
  refine ⟨htells, hsink, ?_⟩
  rw [hlog]
  exact List.mem_append_right _ (hadded.subset (List.mem_singleton_self _))

end Relayed

end MipsMonitor
