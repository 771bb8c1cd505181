import MipsMonitor.Remote.Monitor
import MipsMonitor.Remote.RegisterImage

/-!
# Remote debugging

A client on the other end of a network link sends commands, and the debugger answers them one by one
until the client leaves, kills the program, or hangs up, or until the program cannot go on. How
commands and replies are spelled on the link is not this module's matter; what they mean is.
-/

namespace MipsMonitor.Remote

open Debug Text

/-- A link to a client could not be made. -/
structure LinkError where
  /-- The number of the error. -/
  code : Nat
  /-- The kind of the error. -/
  kind : String
  /-- What is said about it. -/
  text : String
deriving DecidableEq, Repr

namespace LinkError

/-- There is no network to make a link on. -/
def networkUnreachable : LinkError := ⟨101, "NetworkUnreachable", "Network is unreachable"⟩

/-- The wording of the error. -/
def message (e : LinkError) : String := e.text ++ " (os error " ++ toString e.code ++ ")"

/-- The wording of the error in full, for a link of the host to itself. -/
def report (e : LinkError) : String :=
  "no loopback: Os \x7b code: " ++ toString e.code ++ ", kind: " ++ e.kind ++ ", message: " ++
    quoted e.text ++ " \x7d"

end LinkError

/-- The signals of the remote protocol that have a name here. -/
def signalNames : List (Nat × String) :=
  [(1, "SIGHUP - Hangup"), (2, "SIGINT - Interrupt"), (3, "SIGQUIT - Quit"),
   (4, "SIGILL - Illegal instruction"), (5, "SIGTRAP - Trace/breakpoint trap"),
   (6, "SIGABRT - Aborted"), (7, "SIGEMT - Emulation trap"),
   (8, "SIGFPE - Arithmetic exception"), (9, "SIGKILL - Killed"), (10, "SIGBUS - Bus error"),
   (11, "SIGSEGV - Segmentation fault"), (12, "SIGSYS - Bad system call"),
   (13, "SIGPIPE - Broken pipe"), (14, "SIGALRM - Alarm clock"), (15, "SIGTERM - Terminated")]

/-- The name of a signal. -/
def signalName (signal : Nat) : String := (signalNames.lookup signal).getD (toString signal)

/-- How far a program is to go on. -/
inductive Resume where
  /-- Until something stops it. -/
  | continue_
  /-- By one instruction. -/
  | step
deriving DecidableEq, Repr

/-- How a request to go on is named in a report. -/
def Resume.name : Resume → String
  | continue_ => "resume"
  | step => "step"

/-- What a client asks for. -/
inductive Command where
  /-- A line for the monitor. -/
  | monitor (line : ByteArray)
  /-- The registers. -/
  | readRegisters
  /-- Other registers. -/
  | writeRegisters (image : RegisterImage)
  /-- Bytes of memory. -/
  | readMemory (address : Word) (count : Nat)
  /-- Other bytes of memory. -/
  | writeMemory (address : Word) (bytes : List UInt8)
  /-- A breakpoint. -/
  | setBreakpoint (address : Word)
  /-- No breakpoint. -/
  | removeBreakpoint (address : Word)
  /-- To go on, perhaps with a signal for the program, and perhaps interrupted before it does. -/
  | resume (how : Resume) (signal? : Option Nat) (interrupted : Bool)
  /-- The ways of going on that are known. -/
  | features
  /-- To end the conversation. -/
  | detach
  /-- To end the program. -/
  | kill

/-- Why a program that went on stands still. -/
inductive Stop where
  /-- It came to a breakpoint. -/
  | breakpoint
  /-- It got a signal. -/
  | signal (n : Nat)
  /-- It ended by a signal. -/
  | terminated (n : Nat)
deriving DecidableEq, Repr

/-- What a client is answered. -/
inductive Reply where
  /-- It is done. -/
  | done
  /-- It is done, and this was printed. -/
  | console (printed : String)
  /-- The registers. -/
  | registers (image : RegisterImage)
  /-- Bytes of memory. -/
  | memory (bytes : List UInt8)
  /-- It cannot be done. -/
  | refused (code : Nat)
  /-- The program stands still. -/
  | stopped (why : Stop)
  /-- The ways of going on that are known. -/
  | features (text : String)
  /-- Nothing more. -/
  | silence
  /-- The conversation was over before. -/
  | closed

/-- How a conversation ends. -/
inductive Ending where
  /-- The client left. -/
  | disconnect
  /-- The client ended the program. -/
  | kill
  /-- The program ended by a signal. -/
  | terminated (signal : Nat)
  /-- The client hung up. -/
  | hangUp
deriving DecidableEq, Repr

namespace Ending

/-- The wording of an ending. -/
def text : Ending → String
  | disconnect => "Disconnect"
  | kill => "Kill"
  | terminated signal => "TargetTerminated(Signal(" ++ toString signal ++ "))"
  | hangUp => "Io"

end Ending

/-- The code of a command that failed. -/
def failedCode : Nat := 121

/-- The code of a change to breakpoints that changes nothing. -/
def unchangedCode : Nat := 22

/-- The signal of a finished step or an exception. -/
def trapSignal : Nat := 5

/-- The signal of an interrupted program. -/
def interruptSignal : Nat := 2

/-- The signal of a program that cannot go on. -/
def abortSignal : Nat := 6

/-- Adds a report of the remote part to the log. -/
def report (level : Level) (text : String) : Debugger → Debugger :=
  Machine.onCore (Core.note · [⟨.journal "psx_debugger::gdb", level, text⟩])

/-- The end of a program that cannot go on, with the reason in the log. -/
def giveUp (context : String) (e : RequestError) (d : Debugger) : Stop × Debugger :=
  (.terminated abortSignal, report .error (context ++ ": " ++ e.message) d)

/-- Goes on, and tells why the program stands still. -/
def goOn (fuel : Nat) (how : Resume) (d : Debugger) : Option (Stop × Debugger) :=
  match how with
  | .step =>
    match Debugger.stepOver d with
    | .ok () d => some (.signal trapSignal, d)
    | .error e d => some (giveUp "failed to step" e d)
  | .continue_ =>
    match Debugger.run fuel d with
    | .ok none _ => none
    | .ok (some (.breakpoint _ _)) d => some (.breakpoint, d)
    | .ok (some (.exception _)) d => some (.signal trapSignal, d)
    | .ok (some (.halted _)) d => some (.signal interruptSignal, d)
    | .error e d => some (giveUp "failed to run" e d)

/-- The reply to a request for a debugger that changes nothing to speak of. -/
def replyTo {α : Type} (r : Request α) (onOk : α → Reply) (d : Debugger) : Reply × Debugger :=
  match r d with
  | .ok a d => (onOk a, d)
  | .error _ d => (.refused failedCode, d)

/-- The reply to a change of the breakpoints. -/
def changed (did : Bool) : Reply := if did then .done else .refused unchangedCode

/-- Answers a command, and tells whether it ends the conversation. The answer is `none` if the
program goes on for more than `fuel` blocks. -/
def exchange (fuel : Nat) (command : Command) (d : Debugger) :
    Option (Reply × Option Ending × Debugger) :=
  let stay (reply : Reply × Debugger) := some (reply.1, none, reply.2)
  match command with
  | .monitor line =>
    let (printed, d) := Monitor.answer line d
    some (.console printed, none, d)
  | .readRegisters => some (.registers (.ofDebugger d), none, d)
  | .writeRegisters image => some (.done, none, image.write d)
  | .readMemory address count => stay (replyTo (Debugger.readMemory address count) .memory d)
  | .writeMemory address bytes =>
    stay (replyTo (Debugger.writeMemory address bytes) (fun _ => .done) d)
  | .setBreakpoint address => stay (replyTo (Debugger.setBreakpoint address) changed d)
  | .removeBreakpoint address => stay (replyTo (Debugger.removeBreakpoint address) changed d)
  | .resume how signal? interrupted =>
    let d :=
      match signal? with
      | some signal =>
        report .warn ("gdb: " ++ how.name ++ " with signal " ++ signalName signal ++
          " is not supported") d
      | none => d
    if interrupted then some (.stopped (.signal interruptSignal), none, d)
    else
      match goOn fuel how d with
      | none => none
      | some (.terminated n, d) => some (.stopped (.terminated n), some (.terminated n), d)
      | some (why, d) => some (.stopped why, none, d)
  | .features => some (.features "vCont;c;C;s;S", none, d)
  | .detach => some (.done, some .disconnect, d)
  | .kill => some (.silence, some .kill, d)

/-- A conversation that is over. -/
structure Conversation where
  /-- The replies, one for each command up to the first one that came too late. -/
  replies : List Reply
  /-- How it ended. -/
  ending : Ending
  /-- The debugger afterwards. -/
  debugger : Debugger

/-- Answers commands until the conversation ends. An ending other than that the client hangs up is
reported. -/
def converse (fuel : Nat) : List Command → Debugger → Option Conversation
  | [], d => some ⟨[], .hangUp, d⟩
  | command :: rest, d =>
    match exchange fuel command d with
    | none => none
    | some (reply, none, d) =>
      (converse fuel rest d).map fun c => { c with replies := reply :: c.replies }
    | some (reply, some ending, d) =>
      -- Only the first command that comes too late is answered.
      let late := if rest.isEmpty then [] else [Reply.closed]
      some ⟨reply :: late, ending, report .info ("GDB disconnected: " ++ ending.text) d⟩

/-- Serves the client at the other end of a link. -/
def serve (fuel : Nat) (link : Except LinkError (List Command)) (d : Debugger) :
    Except LinkError (Option Conversation) :=
  link.map fun commands => converse fuel commands d

end MipsMonitor.Remote
