import MipsMonitor.Debug.Debugger

/-!
# Monitor commands

Lines of text that a remote client sends past its own protocol, and what is printed in answer. A
line is a command and its arguments, separated by blanks; arguments that the command does not take
are pointed out at the end.
-/

namespace MipsMonitor.Remote

open Debug Text

/-- A command. -/
inductive MonitorCommand where
  /-- Lists the commands. -/
  | help
  /-- Shows the registers. -/
  | regs
  /-- Shows the return addresses that are expected. -/
  | stack
  /-- Shows who wrote each watched register last. -/
  | trace
  /-- Lists the breakpoints. -/
  | breakpoints
  /-- Shows instructions. -/
  | disasm
deriving DecidableEq, Repr

namespace MonitorCommand

/-- All commands. -/
def all : List MonitorCommand := [help, regs, stack, trace, breakpoints, disasm]

/-- How a command is written. -/
def name : MonitorCommand → String
  | help => "help"
  | regs => "regs"
  | stack => "stack"
  | trace => "trace"
  | breakpoints => "breakpoints"
  | disasm => "disasm"

/-- What the list of commands says about a command. -/
def description : MonitorCommand → String
  | help => "print this help message"
  | regs => "dump the register file"
  | stack => "print the call stack, innermost frame last"
  | trace => "print the PC of the most recent write to each register"
  | breakpoints => "list breakpoints and their hit counts"
  | disasm => "disassemble [address] [count] instructions"

end MonitorCommand

namespace Monitor

/-- What a command prints, and the arguments that it does not take. -/
structure Printout where
  /-- The lines. -/
  lines : List String
  /-- The arguments that are left. -/
  rest : List String
deriving DecidableEq, Repr

/-- Who wrote each watched register last. -/
def traceLines (d : Debugger) : List String :=
  Tracked.all.map fun t => column 9 (Tracked.name t) ++ " " ++ hexWord (d.context.trace.get t)

/-- The breakpoints with their state and their hits. -/
def breakpointLines (d : Debugger) : List String :=
  let bs := (Debugger.breakpoints d).toList
  if bs.isEmpty then ["no breakpoints set"]
  else
    bs.map fun (address, b) =>
      hexWord address ++ " " ++ column 8 (if b.enabled then "enabled" else "disabled") ++
        " hits: " ++ toString b.hits

/-- Up to `count` instructions from an address on. The one at the program counter is marked. An
instruction that cannot be read ends the list with the reason, one without a text ends it. -/
def listing : (count : Nat) → (address : Word) → Debugger → List String × Debugger
  | 0, _, d => ([], d)
  | count + 1, address, d =>
    match Debugger.disassemble address d with
    | .error e d => ([e.message], d)
    | .ok none d => ([], d)
    | .ok (some shown) d =>
      let marker := if address = Debugger.pc d then ">" else " "
      let (rest, d) := listing count (address + Instruction.size) d
      ((marker ++ " " ++ hexWord address ++ ": " ++ shown) :: rest, d)

/-- Takes the first argument as a value, if there is one. -/
def takeValue (default : Word) : List String → Except ValueError Word × List String
  | [] => (.ok default, [])
  | arg :: rest => (Value.parse arg, rest)

/-- Shows instructions from the address on that is the first argument, as many as the second. -/
def disassembly (args : List String) (d : Debugger) : Printout × Debugger :=
  match takeValue (Debugger.pc d) args with
  | (.error e, rest) => (⟨[e.message], rest⟩, d)
  | (.ok start, rest) =>
    match takeValue 8 rest with
    | (.error e, rest) => (⟨[e.message], rest⟩, d)
    | (.ok count, rest) =>
      let (lines, d) := listing count.toNat start d
      (⟨lines, rest⟩, d)

/-- Carries out a command. -/
def perform (command : MonitorCommand) (args : List String) (d : Debugger) :
    Printout × Debugger :=
  match command with
  | .help => (⟨MonitorCommand.all.map fun c => column 12 c.name ++ " " ++ c.description, args⟩, d)
  | .regs => (⟨[d.core.registers.dump], args⟩, d)
  | .stack => (⟨Debugger.stackLines d, args⟩, d)
  | .trace => (⟨traceLines d, args⟩, d)
  | .breakpoints => (⟨breakpointLines d, args⟩, d)
  | .disasm => disassembly args d

/-- Carries out a line. -/
def performLine (line : String) (d : Debugger) : Printout × Debugger :=
  match words line with
  | [] => (⟨["no command specified"], []⟩, d)
  | name :: args =>
    match MonitorCommand.all.find? (·.name == name) with
    | some command => perform command args d
    | none => (⟨["unrecognized command: '" ++ name ++ "'"], args⟩, d)

/-- Carries out a line as a client sent it, and gives everything that is printed. -/
def answer (line : ByteArray) (d : Debugger) : String × Debugger :=
  match String.fromUTF8? line with
  | none => ("monitor command is not valid UTF-8\n", d)
  | some line =>
    let (printout, d) := performLine line d
    let warning := if printout.rest.isEmpty then [] else ["warning: ignoring extra arguments"]
    (String.join ((printout.lines ++ warning).map (· ++ "\n")), d)

end Monitor

end MipsMonitor.Remote
