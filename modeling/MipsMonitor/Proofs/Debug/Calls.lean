import MipsMonitor.Debug.Debugger
import MipsMonitor.Proofs.Outcome

/-!
# Calls

All that the host can ask of a debugger, as data (`Call`), with the replies to it (`Reply`). A call is
served or refused (`Call.serve`), and calls are made one behind the other until one of them lets the
program run and does not come back (`Debugger.serveAll`). So a statement can quantify over what is
asked of a debugger, and compare what two debuggers make of it.
-/

namespace MipsMonitor.Debug

/-- What the host can ask of a debugger. -/
inductive Call where
  /-- To attach memory and start afresh. -/
  | reset (pc : Word) (v : View Ram)
  /-- To move the program counter. -/
  | moveTo (pc : Word)
  /-- To stop at the end of the block that runs. -/
  | requestStop
  /-- To add a listener. -/
  | listen (event : Event) (respond : Nat → StepInfo → List Notice)
  /-- To remove a listener. -/
  | unlisten (number : Nat)
  /-- To put a breakpoint at an address. -/
  | setBreakpoint (address : Word)
  /-- To switch a breakpoint on or off. -/
  | switchBreakpoint (address : Word) (on : Bool)
  /-- To remove a breakpoint. -/
  | removeBreakpoint (address : Word)
  /-- For the contents of a watched register. -/
  | readRegister (index : Nat)
  /-- For the contents of a watched register as text. -/
  | registerText (index : Nat)
  /-- For the instruction that wrote a watched register last. -/
  | lastWrite (index : Nat)
  /-- To write a watched register. -/
  | writeRegister (index : Nat) (w : Word)
  /-- To write a watched register as a user typed it. -/
  | enterRegister (index : Nat) (input : String)
  /-- For the contents of a system control register as text. -/
  | systemText (index : Nat)
  /-- To write a system control register as a user typed it. -/
  | enterSystem (index : Nat) (input : String)
  /-- For the instruction at an address as text. -/
  | disassemble (address : Word)
  /-- For bytes of memory. -/
  | readMemory (address : Word) (count : Nat)
  /-- To write bytes to memory. -/
  | writeMemory (address : Word) (bytes : List UInt8)
  /-- To execute one instruction. -/
  | stepOver
  /-- Whether there is a call at the program counter. -/
  | canStepInto
  /-- To enter the routine that is called at the program counter. -/
  | stepInto
  /-- To run until the routine at the program counter returns. -/
  | stepOut (fuel : Nat)
  /-- To run until the program comes to a stand. -/
  | run (fuel : Nat)
  /-- To run until the program comes to an address. -/
  | runUntil (address : Word) (fuel : Nat)

/-- What a debugger replies. -/
inductive Reply where
  /-- What was asked for is done. -/
  | done
  /-- Yes or no. -/
  | flag (b : Bool)
  /-- The number of a listener. -/
  | number (n : Nat)
  /-- The contents of a register. -/
  | word (w : Word)
  /-- An address, where there is one. -/
  | address? (a? : Option Word)
  /-- A text. -/
  | text (s : String)
  /-- The text of an instruction, where it has one. -/
  | text? (s? : Option String)
  /-- Bytes of memory. -/
  | bytes (bs : List UInt8)
  /-- Why the program stands still. -/
  | stop (reason : StopReason)
deriving DecidableEq

namespace Call

/-- A request whose answer is given at once, as a reply. -/
def answered {α : Type} (reply : α → Reply) (request : Request α) : Request (Option Reply) := do
  pure (some (reply (← request)))

/-- A request that lets the program run, as a reply if the program comes to a stand. -/
def awaited {α : Type} (reply : α → Reply) (request : Request (Option α)) :
    Request (Option Reply) := do
  pure ((← request).map reply)

/-- Serves a call. There is no reply if the program is still running. -/
def serve : Call → Request (Option Reply)
  | reset pc v => answered (fun _ => .done) (modify (Debugger.reset pc v))
  | moveTo pc => answered (fun _ => .done) (modify (Debugger.moveTo pc))
  | requestStop => answered (fun _ => .done) (modify (Machine.onCore Core.requestStop))
  | listen event respond => answered .number (Debugger.listen event respond)
  | unlisten number => answered .flag (Debugger.unlisten number)
  | setBreakpoint address => answered .flag (Debugger.setBreakpoint address)
  | switchBreakpoint address on => answered .flag (Debugger.switchBreakpoint address on)
  | removeBreakpoint address => answered .flag (Debugger.removeBreakpoint address)
  | readRegister index => answered .word (Debugger.readRegister index)
  | registerText index => answered .text (Debugger.registerText index)
  | lastWrite index => answered (fun d => .address? (Debugger.lastWrite? d index)) get
  | writeRegister index w => answered (fun _ => .done) (Debugger.writeRegister index w)
  | enterRegister index input => answered (fun _ => .done) (Debugger.enterRegister index input)
  | systemText index => answered .text (Debugger.systemText index)
  | enterSystem index input => answered (fun _ => .done) (Debugger.enterSystem index input)
  | disassemble address => answered .text? (Debugger.disassemble address)
  | readMemory address count => answered .bytes (Debugger.readMemory address count)
  | writeMemory address bytes => answered (fun _ => .done) (Debugger.writeMemory address bytes)
  | stepOver => answered (fun _ => .done) Debugger.stepOver
  | canStepInto => answered .flag Debugger.canStepInto
  | stepInto => answered .flag Debugger.stepInto
  | stepOut fuel => awaited (fun _ => .done) (Debugger.stepOut fuel)
  | run fuel => awaited .stop (Debugger.run fuel)
  | runUntil address fuel => awaited .stop (Debugger.runUntil address fuel)

end Call

namespace Debugger

/-- What becomes of a call: a refusal, a reply, or nothing while the program is still running. -/
abbrev Response := Except RequestError (Option Reply)

/-- Makes calls one behind the other, refused ones as well. Behind one that does not come back there
are no more calls. -/
def serveAll : List Call → Debugger → List Response × Debugger
  | [], d => ([], d)
  | call :: calls, d =>
    match call.serve d with
    | .error e d =>
      let (responses, d) := serveAll calls d
      (.error e :: responses, d)
    | .ok none d => ([.ok none], d)
    | .ok (some r) d =>
      let (responses, d) := serveAll calls d
      (.ok (some r) :: responses, d)

end Debugger

end MipsMonitor.Debug
