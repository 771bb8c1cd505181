import MipsMonitor.CommandLine.Options
import MipsMonitor.Remote.Conversation

/-!
# The program

What the program prints and how it ends, as a function of its arguments and of the files that it
reads (`run`). Images are loaded, the debugger is started, and the program under it is executed step
by step or run until something stops it; then its state is shown. Nothing here takes time: a limit
on the time of a run is accepted and never reached.
-/

namespace MipsMonitor.CommandLine

open Debug Text

/-- How the program ends. -/
structure Outcome where
  /-- The exit code. -/
  code : Nat
  /-- What is printed. -/
  stdout : String
  /-- The lines of the log and of errors. -/
  stderr : List String
deriving DecidableEq, Repr

/-- Lines as text. -/
def unlines (lines : List String) : String := String.join (lines.map (· ++ "\n"))

/-- The name of the program. -/
def programName : String := "psxdbg"

/-- The name and the version of the program. -/
def versionLine : String := programName ++ " 0.1.0"

/-- What is printed about one option. -/
def helpLine (key : Key) : String :=
  let value := "<" ++ key.valueName ++ ">"
  "  -" ++ String.singleton key.letter ++ ", --" ++ key.name ++ " " ++
    (if key.valueIsOptional then "[" ++ value ++ "]" else value)

/-- What is printed about the options. -/
def helpLines : List String :=
  ["Usage: " ++ programName ++ " [OPTIONS]", "", "Options:"] ++ Key.all.map helpLine ++
    ["  -h, --help", "  -V, --version"]

/-- The log of a program, as it appears on the screen; entries below the limit are left out. -/
def logLines (limit : Level) (log : List Entry) : List String :=
  log.filterMap fun e =>
    match e.sink with
    | .journal target =>
      if e.level.isWithin limit then
        some ("[" ++ column 5 e.level.name ++ " " ++ target ++ "] " ++ e.text)
      else none
    | .recorder => none

/-- An entry of the program itself. -/
def entry (level : Level) (text : String) : Entry := ⟨.journal programName, level, text⟩

/-- What the program was doing when an error ended it, and the error. -/
structure Failure where
  /-- What the program was doing. -/
  context : String
  /-- The wording of the error. -/
  message : String
deriving DecidableEq, Repr

/-- The line about a failure. -/
def Failure.line (f : Failure) : String := f.context ++ ": " ++ f.message

/-- The wording of the error that there is no such file. -/
def missingFile : String := "No such file or directory (os error 2)"

/-- Reads files: the bytes, or the wording of the error. -/
abbrev FileReader := String → Except String ByteArray

/-- Installs the image of the boot ROM, if one is asked for. -/
def installRom (read : FileReader) (o : Options) (ram : Ram) : Except Failure Ram :=
  match o.bios? with
  | none => .ok ram
  | some path => do
    let image ← (read path).mapError (⟨"failed to read BIOS", ·⟩)
    (ram.withRom image).mapError (⟨"failed to install BIOS", ·.message⟩)

/-- Loads the program image, if one is asked for, and reports it. -/
def loadProgram (read : FileReader) (o : Options) (ram : Ram) : Except Failure (Ram × List Entry) :=
  match o.program? with
  | none => .ok (ram, [])
  | some path => do
    let image ← (read path).mapError (⟨"failed to read program", ·⟩)
    let ram ← (ram.load o.loadAddress image).mapError (⟨"failed to load program", ·.message⟩)
    let said := "loaded " ++ hex image.size ++ " bytes at " ++ hexWord o.loadAddress
    .ok (ram, [entry .info said])

/-- Where execution starts. -/
def startAddress (o : Options) : Word :=
  match o.entry? with
  | some address => address
  | none => if o.program?.isSome then o.loadAddress else Session.bootAddress

/-- The report of an entered routine. -/
def reportEntered (_ : Nat) (info : StepInfo) : List Notice :=
  [.report (entry .debug
    ("entered " ++ hexWord info.pc ++ ", depth " ++ toString info.depth))]

/-- The report of a routine that was left. -/
def reportLeft (_ : Nat) (info : StepInfo) : List Notice :=
  [.report (entry .debug ("returned to depth " ++ toString info.depth))]

/-- The session at the start: its listeners report the routines that are entered and left. -/
def session : Session :=
  -- The reset that starts the debugger counts as the entry of the first routine.
  let (listeners, _) := Listeners.none.add .steppedInto reportEntered
  let (listeners, _) := listeners.add .steppedOut reportLeft
  { Session.fresh with listeners }

/-- The debugger at the start. -/
def start (o : Options) (ram : Ram) (log : List Entry) : Debugger :=
  let d : Debugger := Machine.onCore (Core.note · log) (Machine.detached .standard session)
  Debugger.reset (startAddress o) (.direct ram) d

/-- What was printed so far, and the debugger. -/
structure Transcript where
  /-- The lines that were printed. -/
  lines : Array String
  /-- The debugger. -/
  debugger : Debugger

/-- Executes instructions one by one and shows each before it is executed. The first component tells
what ended the program before, if anything did. -/
def stepwise : Nat → Transcript → Option Outcome × Transcript
  | 0, t => (none, t)
  | n + 1, ⟨lines, d⟩ =>
    let pc := Debugger.pc d
    let abort (code : Nat) (line : String) (lines : Array String) (d : Debugger) :=
      (some ⟨code, unlines lines.toList, [line]⟩, ⟨lines, d⟩)
    let show_ (text : String) := hexWord pc ++ ": " ++ text
    let step (lines : Array String) (d : Debugger) :=
      match Debugger.stepOver d with
      | .ok () d => stepwise n ⟨lines, d⟩
      | .error e d => abort 1 (Failure.line ⟨"failed to step", e.message⟩) lines d
    match Debugger.disassemble pc d with
    | .ok (some text) d => step (lines.push (show_ text)) d
    | .error e d => step (lines.push (show_ ("<" ++ e.message ++ ">"))) d
    | .ok none d =>
      abort 101 ("a register of the instruction at " ++ hexWord pc ++ " has no name") lines d

/-- What is printed when a program that ran stands still. -/
def reasonLine : StopReason → String
  | .breakpoint address hits =>
    "breakpoint at " ++ hexWord address ++ " (hit " ++ toString hits ++ " times)"
  | .exception pc => "exception at " ++ hexWord pc
  | .halted pc => "halted before " ++ hexWord pc

/-- Ends the program after a run. -/
def afterRun (limit : Level) (r : EStateM.Result RequestError Debugger (Option StopReason)) :
    Option Outcome :=
  match r with
  | .ok none _ => none
  | .ok (some reason) d =>
    let lines := [reasonLine reason, d.core.registers.dump] ++ Debugger.stackLines d
    some ⟨0, unlines lines, logLines limit d.core.log.toList⟩
  | .error e d =>
    let line := Failure.line ⟨"failed to run", e.message⟩
    some ⟨1, "", logLines limit d.core.log.toList ++ [line]⟩

/-- Ends the program after instructions that were executed one by one. -/
def afterSteps (limit : Level) (ended? : Option Outcome) (t : Transcript) : Outcome :=
  let log := logLines limit t.debugger.core.log.toList
  match ended? with
  | some ended => { ended with stderr := log ++ ended.stderr }
  | none => ⟨0, unlines (t.lines.push t.debugger.core.registers.dump).toList, log⟩

/-- The port where a remote client is awaited unless another one is asked for. -/
def defaultPort : Nat := 9001

/-- Ends the program where a remote client was to be awaited: there is no network to do it on. -/
def awaitClient (limit : Level) (port? : Option Nat) (d : Debugger) : Outcome :=
  let place := quoted ("localhost:" ++ toString (port?.getD defaultPort))
  let cause := Remote.LinkError.networkUnreachable.message
  let failure := Failure.line ⟨"failed to wait for GDB", cause⟩
  ⟨1, "", logLines limit d.core.log.toList ++
    ["Waiting for a GDB connection on " ++ place ++ "...", failure]⟩

/-- Does what the options ask for with a debugger. -/
def debug (limit : Level) (fuel : Nat) (o : Options) (d : Debugger) : Option Outcome :=
  match o.gdb?, o.steps?, o.runUntil? with
  | some port?, _, _ => some (awaitClient limit port? d)
  | none, some n, _ =>
    let (ended?, t) := stepwise n ⟨#[], d⟩
    some (afterSteps limit ended? t)
  | none, none, some address => afterRun limit (Debugger.runUntil address fuel d)
  | none, none, none => afterRun limit (Debugger.run fuel d)

/-- Runs with options. -/
def runWith (read : FileReader) (limit : Level) (fuel : Nat) (o : Options) : Option Outcome :=
  match installRom read o .blank >>= loadProgram read o with
  | .ok (ram, log) => debug limit fuel o (start o ram log)
  | .error f => some ⟨1, "", [f.line]⟩

/-- What the program does with its arguments. Entries of its log below the limit are left out. The
answer is `none` if the program under the debugger runs for more than `fuel` blocks. -/
def run (read : FileReader) (limit : Level) (fuel : Nat) (args : List String) : Option Outcome :=
  match Demand.ofArguments args with
  | .version => some ⟨0, versionLine ++ "\n", []⟩
  | .help => some ⟨0, unlines helpLines, []⟩
  | .refused => some ⟨2, "", []⟩
  | .run o => runWith read limit fuel o

end MipsMonitor.CommandLine
