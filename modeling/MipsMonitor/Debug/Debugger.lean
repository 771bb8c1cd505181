import MipsMonitor.Debug.Session
import MipsMonitor.Debug.Value
import MipsMonitor.Instruction.Text
import MipsMonitor.Machine.Basic

/-!
# The debugger

A machine watched by a session: it goes one instruction, one routine or one breakpoint at a time,
and its registers, memory and breakpoints can be read and changed while it stands still.

A request that cannot be served is refused with a `RequestError`. Requests that let the program run
take the greatest number of blocks to run, as a routine may never return; their answer is `none` if
that does not suffice.
-/

namespace MipsMonitor.Debug

open Text

/-- Why a request is refused. -/
inductive RequestError where
  /-- There is no register of that number. -/
  | invalidRegister (index : Nat)
  /-- A text is not a value. -/
  | value (error : ValueError)
  /-- An instruction cannot be read, or there is no memory. -/
  | access (error : AccessError)
deriving DecidableEq, Repr

/-- The wording of an error. -/
def RequestError.message : RequestError → String
  | invalidRegister index => "register index " ++ toString index ++ " is out of range"
  | value e => e.message
  | access e => e.message

/-- Why a program that ran stands still. -/
inductive StopReason where
  /-- It came to a breakpoint, which now has that many hits. -/
  | breakpoint (address : Word) (hits : Nat)
  /-- The instruction at `pc` could not be executed. -/
  | exception (pc : Word)
  /-- A stop was requested; the instruction at `pc` is the next one. -/
  | halted (pc : Word)
deriving DecidableEq, Repr

/-- A machine and the session that watches it. -/
abbrev Debugger := Machine Session

/-- A request to a debugger. -/
abbrev Request := EStateM RequestError Debugger

namespace Debugger

/-- A debugger of a machine without memory. -/
def detached (sink : Sink) : Debugger := Machine.detached sink .fresh

/-- The session. -/
def session (d : Debugger) : Session := d.context

/-- The program counter. -/
def pc (d : Debugger) : Word := d.session.pc

/-- The return addresses that are expected, outermost first. -/
def callStack (d : Debugger) : List Word := d.session.frames.reverse

/-- Moves the program counter. -/
def moveTo (pc : Word) (d : Debugger) : Debugger := d.onContext (Session.moveTo · pc)

/-- Lets an event occur, and lets the core heed what the listeners answer. -/
def emit (event : Event) : Debugger → Debugger
  | ⟨⟨core, session⟩, blocks, injector?⟩ =>
    let (session, notices) := session.emit event
    ⟨⟨notices.foldl Core.heed core, session⟩, blocks, injector?⟩

/-- Attaches memory and starts afresh at `pc`. Breakpoints stay, but their hits are forgotten. -/
def reset (pc : Word) (v : View Ram) (d : Debugger) : Debugger :=
  let d := d.onContext fun s =>
    let s := s.moveTo pc
    { s with
      frames := [pc]
      breakpoints := s.breakpoints.resetHits
      trace := Session.untraced }
  let d := (Machine.reset v d).withInjector (some Session.injector)
  emit .steppedInto (emit .stepped d)

/-- Runs an action of the core that may fail to access memory. -/
def access {α : Type} (action : EStateM AccessError Debugger α) : Request α := fun d =>
  match action d with
  | .ok a d => .ok a d
  | .error e d => .error (.access e) d

/-- Refuses to go on without memory. -/
def requireMemory : Request Unit := do
  if (← get).core.view?.isNone then throw (.access .detached)

/-- What a debugger shows of itself. -/
def text (d : Debugger) : String :=
  let stack := ", ".intercalate (d.callStack.map fun a => toString a.toNat)
  let lastHit :=
    match d.session.lastHit? with
    | some a => "Some(" ++ toString a.toNat ++ ")"
    | none => "None"
  "Debugger \x7b pc: " ++ hexWord d.pc ++ ", stack: [" ++ stack ++ "], last_hit: " ++ lastHit ++
    ", .. \x7d"

/-- One line for each return address that is expected, outermost first. -/
def stackLines (d : Debugger) : List String :=
  d.callStack.mapIdx fun depth address =>
    "#" ++ column 3 (toString depth) ++ " " ++ hexWord address

/-! ## Registers -/

/-- The watched register of a number. -/
def register (index : Nat) : Except RequestError Tracked :=
  if h : index < 34 then .ok ⟨index, h⟩ else .error (.invalidRegister index)

/-- The contents of a watched register. -/
def readRegister (index : Nat) : Request Word := do
  let t ← ofExcept (register index)
  pure ((← get).core.registers.tracked t)

/-- Writes a watched register on behalf of the instruction at `pc`. -/
def recordAt (pc : Word) (t : Tracked) (w : Word) : Debugger → Debugger
  | ⟨⟨core, session⟩, blocks, injector?⟩ =>
    let (session, registers) := session.recordAt pc core.registers t w
    ⟨⟨{ core with registers }, session⟩, blocks, injector?⟩

/-- Writes a watched register on behalf of the instruction at the program counter. -/
def writeRegister (index : Nat) (w : Word) : Request Unit := do
  let t ← ofExcept (register index)
  modify fun d => recordAt d.pc t w d

/-- The value that a text stands for. -/
def parse (input : String) : Except RequestError Word :=
  (Value.parse input).mapError .value

/-- Writes a watched register as a user typed it. -/
def enterRegister (index : Nat) (input : String) : Request Unit := do
  let _ ← ofExcept (register index)
  writeRegister index (← ofExcept (parse input))

/-- The contents of a watched register as text. -/
def registerText (index : Nat) : Request String := do
  pure (hexWord (← readRegister index))

/-- Who wrote a watched register last. -/
def lastWrite? (d : Debugger) (index : Nat) : Option Word := d.session.trace[index]?

/-- The contents of a system control register. -/
def readSystem (index : Nat) : Request Word := do
  match (← get).core.registers.get? .cop0 index with
  | some w => pure w
  | none => throw (.invalidRegister index)

/-- Writes a system control register as a user typed it, with all that follows from it. -/
def enterSystem (index : Nat) (input : String) : Request Unit := do
  let _ ← readSystem index
  let w ← ofExcept (parse input)
  modify (Machine.onCore (Core.writeSystem · index w))

/-- The contents of a system control register as text. -/
def systemText (index : Nat) : Request String := do
  pure (hexWord (← readSystem index))

/-! ## Breakpoints -/

/-- The breakpoints. -/
def breakpoints (d : Debugger) : Breakpoints := d.session.breakpoints

/-- Changes the breakpoints, and drops the translations that cover an address. -/
def changeBreakpoints (address : Word) (f : Breakpoints → Breakpoints) (d : Debugger) : Debugger :=
  (d.onContext fun s => { s with breakpoints := f s.breakpoints }).invalidate address

/-- Puts a breakpoint at an address. The answer is whether there was none. -/
def setBreakpoint (address : Word) : Request Bool := fun d =>
  .ok (!d.breakpoints.contains address) (changeBreakpoints address (·.place address) d)

/-- Switches the breakpoint at an address on or off. The answer is whether there is one. -/
def switchBreakpoint (address : Word) (on : Bool) : Request Bool := fun d =>
  .ok (d.breakpoints.contains address) (changeBreakpoints address (·.setEnabled address on) d)

/-- Removes the breakpoint at an address. -/
def dropBreakpoint (address : Word) (d : Debugger) : Debugger :=
  if d.breakpoints.contains address then
    changeBreakpoints address (·.erase address) (d.onContext fun s =>
      if s.lastHit? = some address then { s with lastHit? := none } else s)
  else d

/-- Removes the breakpoint at an address. The answer is whether there was one. -/
def removeBreakpoint (address : Word) : Request Bool := fun d =>
  .ok (d.breakpoints.contains address) (dropBreakpoint address d)

/-! ## Listeners -/

/-- Adds a listener and gives its number. -/
def listen (event : Event) (respond : Nat → StepInfo → List Notice) : Request Nat := fun d =>
  let (listeners, number) := d.session.listeners.add event respond
  .ok number (d.onContext fun s => { s with listeners })

/-- Removes a listener. The answer is whether there was one of that number. -/
def unlisten (number : Nat) : Request Bool := fun d =>
  .ok (d.session.listeners.has number)
    (d.onContext fun s => { s with listeners := s.listeners.remove number })

/-! ## Memory -/

/-- The instruction at an address as text. The answer is `none` if it has no text. -/
def disassemble (address : Word) : Request (Option String) := do
  let w ← access (Machine.readInstruction address)
  match Instruction.decode? w with
  | some i => pure (i.disassemble? address)
  | none => pure (some (".word   " ++ hexWord w))

/-- The bytes from an address on, as loads see them. -/
def readMemory (address : Word) (count : Nat) : Request (List UInt8) :=
  access (Machine.atCore (Core.peek (Address.run address count)))

/-- The addresses of the words that `count` bytes from an address on lie in. -/
def wordsOf (address : Word) (count : Nat) : List Word :=
  let first := Word.alignDown address
  (List.range ((count + (address &&& (3 : Word)).toNat + 3) / 4)).map fun i =>
    first + 4 * UInt32.ofNat i

/-- Writes bytes from an address on, as stores do, and drops the translations of what is
overwritten. -/
def writeMemory (address : Word) (bytes : List UInt8) : Request Unit := do
  access (Machine.atCore (Core.poke address bytes))
  modify fun d => (wordsOf address bytes.length).foldl (fun d a => d.invalidate a) d

/-! ## Steps -/

/-- Comes to a stand because of a signal, and tells why. -/
def halt (s : Signal) (d : Debugger) : StopReason × Debugger :=
  match s with
  | .breakpoint address =>
    let d := d.onContext (Session.stayAt · address)
    let hits := ((breakpoints d)[address]?.map Breakpoint.hits).getD 0
    let d := d.onCore (Core.report · .info ("stopped at " ++ hexWord address))
    (.breakpoint address hits, emit .stepped d)
  | .trap t =>
    let said := (t.cause?.map Fault.text).getD t.message
    let d := d.onCore (Core.report · .error said)
    (.exception t.pc, emit .stepped (moveTo t.pc d))
  | .stopped pc =>
    let d := d.onCore (Core.report · .warn ("execution stopped before " ++ hexWord pc))
    (.halted pc, moveTo pc d)

/-- The instruction at the program counter, if there is one. -/
def currentInstruction : Request (Option Instruction) := fun d =>
  match Machine.readInstruction d.pc d with
  | .ok w d => .ok (Instruction.decode? w) d
  | .error _ d => .ok none d

/-- The call at the program counter, if there is one. -/
def currentCall : Request (Option Instruction) := do
  pure ((← currentInstruction).filter Instruction.isCall)

/-- Executes the instruction at an address with its delay slot and goes on with where control goes,
unless a signal brings the program to a stand. -/
def executeThen (address : Word) (next : Word → Debugger → Debugger) : Request Unit := fun d =>
  match Machine.executeOne Session.observer address d with
  | .ok target d => .ok () (next target d)
  | .error s d => .ok () (halt s d).2

/-- Forgets the innermost frame, as on a return. -/
def leaveFrame (d : Debugger) : Debugger :=
  emit .steppedOut (d.onContext fun s => { s with frames := s.frames.tail })

/-- Executes one instruction. A jump to a register is carried out here, and only its delay slot is
executed by the machine. -/
def stepOver : Request Unit := do
  requireMemory
  let pc := (← get).pc
  let i? ← currentInstruction
  match i?.filter (·.mnemonic == .jr) with
  | some i =>
    let source := Tracked.ofGpr (i.gpr .source)
    -- The delay slot may write the register, so the target is read first.
    let target := (← get).core.registers.tracked source
    executeThen (pc + Instruction.size) fun _ d =>
      let d := moveTo target d
      let d := if source = .returnAddress then leaveFrame d else d
      emit .stepped d
  | none => executeThen pc fun next d => emit .stepped (moveTo next d)

/-- Whether there is a call at the program counter. -/
def canStepInto : Request Bool := do
  pure (← currentCall).isSome

/-- Where a call goes, and the register that it leaves the return address in. -/
def callTarget (i : Instruction) (pc : Word) (f : RegisterFile) : Word × Tracked :=
  if i.mnemonic == .jal then ((i.staticTarget? pc).getD 0, .returnAddress)
  else (f.tracked (.ofGpr (i.gpr .source)), .ofGpr (i.gpr .destination))

/-- Enters the routine that is called at the program counter. The answer is whether there is a call;
if there is none, nothing happens. The delay slot is executed before the return address is left. -/
def stepInto : Request Bool := do
  match ← currentCall with
  | none => pure false
  | some i =>
    let pc := (← get).pc
    let (target, link) := callTarget i pc (← get).core.registers
    let back := Instruction.returnAddress pc
    -- Listeners that are called from the delay slot already see the new frame.
    modify (Machine.onContext fun s => { s with frames := back :: s.frames })
    enter pc target link back
    pure true
where
  /-- Executes the delay slot of the call and completes the call, or takes it back if a signal
  brings the program to a stand. -/
  enter (pc target : Word) (link : Tracked) (back : Word) : Request Unit := fun d =>
    match Machine.executeOne Session.observer (pc + Instruction.size) d with
    | .error s d =>
      .ok () (halt s (d.onContext fun s => { s with frames := s.frames.tail })).2
    | .ok _ d =>
      let d := if link = .zero then d else recordAt pc link back d
      .ok () (emit .stepped (emit .steppedInto (moveTo target d)))

/-! ## Runs -/

/-- Runs until the routine at the program counter returns. -/
def stepOut (fuel : Nat) : Request (Option Unit) := do
  requireMemory
  finish fuel
where
  /-- Runs the routine and comes to a stand where it returns to, or because of a signal. -/
  finish (fuel : Nat) : Request (Option Unit) := fun d =>
    match Machine.execute Session.observer fuel d.pc d with
    | .ok none d => .ok none d
    | .ok (some target) d => .ok (some ()) (emit .stepped (moveTo target d))
    | .error s d => .ok (some ()) (halt s d).2

/-- Runs routine after routine until a signal brings the program to a stand. Behind a routine the
program goes on at the return address. -/
def resume (blocks : Nat) : (fuel : Nat) → Debugger → Option StopReason × Debugger
  | 0, d => (none, d)
  | fuel + 1, d =>
    match Machine.execute Session.observer blocks d.pc d with
    | .ok none d => (none, d)
    | .ok (some _) d => resume blocks fuel (moveTo (d.core.registers.tracked .returnAddress) d)
    | .error s d =>
      let (reason, d) := halt s d
      (some reason, d)

/-- Runs until a breakpoint, an exception or a request to stop brings the program to a stand. -/
def run (fuel : Nat) : Request (Option StopReason) := do
  requireMemory
  fun d =>
    let (reason?, d) := resume fuel fuel d
    .ok reason? d

/-- Runs until the program comes to an address, or to a stand before. For the time of the run there
is a breakpoint at the address; afterwards there is none, whatever there was before. -/
def runUntil (address : Word) (fuel : Nat) : Request (Option StopReason) := fun d =>
  match run fuel (changeBreakpoints address (·.place address) d) with
  | .ok reason? d => .ok reason? (dropBreakpoint address d)
  | .error e d => .error e (dropBreakpoint address d)

end Debugger

end MipsMonitor.Debug
