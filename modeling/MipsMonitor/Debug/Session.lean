import MipsMonitor.Debug.Breakpoints
import MipsMonitor.Debug.Event

/-!
# Sessions

What a debugger knows of the program beside the processor: the program counter, the return addresses
that are expected, breakpoints and the one where execution stopped last, who wrote each register
last, and the listeners. A session is the context of an observer (`Session.observer`), and its
injector asks for a look at a breakpoint exactly where one is switched on.
-/

namespace MipsMonitor.Debug

/-- For each watched register, the address of the instruction that wrote it last. -/
abbrev WriteTrace := Vector Word 34

/-- What a debugger knows of the program beside the processor. -/
structure Session where
  /-- The program counter. -/
  pc : Word
  /-- The return addresses that are expected, innermost first. -/
  frames : List Word
  /-- The breakpoints. -/
  breakpoints : Breakpoints
  /-- The breakpoint where execution stopped last and has not moved on from. -/
  lastHit? : Option Word
  /-- Who wrote each register last. -/
  trace : WriteTrace
  /-- The listeners. -/
  listeners : Listeners
  /-- The events that occurred, in order. -/
  events : Array StepInfo

namespace Session

/-- Where the processor starts after a reset. -/
def bootAddress : Word := 0xBFC00000

/-- No register was written. -/
def untraced : WriteTrace := Vector.replicate 34 0

/-- A session that has not begun. -/
def fresh : Session := ⟨bootAddress, [], ∅, none, untraced, .none, #[]⟩

/-- Moves the program counter, and disarms the breakpoint where execution stopped last. -/
def moveTo (s : Session) (pc : Word) : Session :=
  match s.lastHit? with
  | some address =>
    { s with pc, lastHit? := none, breakpoints := s.breakpoints.setSkipOnce address false }
  | none => { s with pc }

/-- Stays at a breakpoint, armed to let the program pass. -/
def stayAt (s : Session) (address : Word) : Session :=
  let s := s.moveTo address
  { s with breakpoints := s.breakpoints.setSkipOnce address true, lastHit? := some address }

/-- Lets an event occur and calls the listeners. -/
def emit (s : Session) (event : Event) : Session × List Notice :=
  let info : StepInfo := ⟨event, s.pc, s.frames.length⟩
  let (listeners, notices) := s.listeners.tell info
  ({ s with listeners, events := s.events.push info }, notices)

/-- Notes that the instruction at `pc` writes a watched register, and writes it. The register that
is always zero is given zero. -/
def recordAt (s : Session) (pc : Word) (f : RegisterFile) (t : Tracked) (w : Word) :
    Session × RegisterFile :=
  ({ s with trace := s.trace.set t.val pc t.isLt }, f.setTracked t (if t = .zero then 0 else w))

/-- The actions before an instruction: its address is told, breakpoints are looked at where one is
switched on, and calls and returns are followed. -/
def injector : Injector Session := fun s address i? =>
  let check := if s.breakpoints.hasEnabled address then [Action.check] else []
  let follow :=
    match i? with
    | some i => if i.isCall then [.enter address] else if i.isReturn then [.leave] else []
    | none => []
  -- The address comes first, so that a stop finds the program counter where it belongs.
  .sync :: check ++ follow

/-- The session as an observer. -/
def observer : Observer Session where
  sync s address := ({ s with pc := address }, [])
  check s address :=
    let (breakpoints, stops) := s.breakpoints.hit address
    ({ s with breakpoints }, [], if stops then some (.breakpoint address) else none)
  enter s callSite :=
    emit { s with frames := Instruction.returnAddress callSite :: s.frames } .steppedInto
  leave s := emit { s with frames := s.frames.tail } .steppedOut
  write s f t w :=
    let (s, f) := s.recordAt s.pc f t w
    (s, [], f)

end Session

end MipsMonitor.Debug
