import MipsMonitor.Debug.Value

/-!
# Options

The options of the command line. An option is written with two dashes and its name or with one dash
and its letter; its value follows as an argument of its own, or in the same argument behind an
equals sign, which may be left out behind a letter. No option may be given twice, and there are no
other arguments. Options are read in order, and the first that asks for the version or for help, or
that is refused, decides.
-/

namespace MipsMonitor.CommandLine

open Debug Text

/-- The options that take a value. -/
inductive Key where
  /-- The path of a program image. -/
  | program
  /-- Where the program is loaded. -/
  | loadAddress
  /-- Where execution starts. -/
  | entry
  /-- The path of an image of the boot ROM. -/
  | bios
  /-- Where execution stops. -/
  | runUntil
  /-- How many instructions are executed one by one. -/
  | steps
  /-- The port where a remote client is awaited. -/
  | gdb
  /-- After how many milliseconds execution stops. -/
  | timeout
deriving DecidableEq, Repr

namespace Key

/-- All options that take a value. -/
def all : List Key := [program, loadAddress, entry, bios, runUntil, steps, gdb, timeout]

/-- The name of an option. -/
def name : Key → String
  | program => "program"
  | loadAddress => "load-address"
  | entry => "entry"
  | bios => "bios"
  | runUntil => "run-until"
  | steps => "steps"
  | gdb => "gdb"
  | timeout => "timeout"

/-- The letter of an option. -/
def letter : Key → Char
  | program => 'p'
  | loadAddress => 'l'
  | entry => 'e'
  | bios => 'b'
  | runUntil => 'r'
  | steps => 's'
  | gdb => 'g'
  | timeout => 't'

/-- What kind of value an option takes. -/
def valueName : Key → String
  | program | bios => "path"
  | loadAddress | entry | runUntil => "address"
  | steps => "count"
  | gdb => "port"
  | timeout => "ms"

/-- Whether the value of an option may be left out. -/
def valueIsOptional : Key → Bool
  | gdb => true
  | _ => false

end Key

/-- What the command line asks for. -/
structure Options where
  /-- The path of a program image. -/
  program? : Option String := none
  /-- Where the program is loaded. -/
  loadAddress : Word := 0x80010000
  /-- Where execution starts. -/
  entry? : Option Word := none
  /-- The path of an image of the boot ROM. -/
  bios? : Option String := none
  /-- Where execution stops. -/
  runUntil? : Option Word := none
  /-- How many instructions are executed one by one. -/
  steps? : Option Nat := none
  /-- Whether a remote client is awaited, and on which port. -/
  gdb? : Option (Option Nat) := none
  /-- After how many milliseconds execution stops. -/
  timeout? : Option Nat := none
deriving DecidableEq, Repr

/-- What arguments come to. -/
inductive Demand where
  /-- To run with options. -/
  | run (options : Options)
  /-- To tell the version. -/
  | version
  /-- To explain the options. -/
  | help
  /-- Nothing: the arguments are wrong. -/
  | refused
deriving DecidableEq, Repr

/-- A natural number up to a limit. -/
def number? (limit : Int) (s : String) : Option Nat :=
  match readInt 10 .signed64 s.toList with
  | .ok n => if 0 ≤ n ∧ n ≤ limit then some n.toNat else none
  | .error _ => none

/-- An address. -/
def address? (s : String) : Option Word := (Value.parse s).toOption

namespace Options

/-- The options with the value of one of them given, if it is a value of the right kind. -/
def give? (o : Options) (key : Key) (value : String) : Option Options :=
  match key with
  | .program => some { o with program? := some value }
  | .loadAddress => (address? value).map fun a => { o with loadAddress := a }
  | .entry => (address? value).map fun a => { o with entry? := some a }
  | .bios => some { o with bios? := some value }
  | .runUntil => (address? value).map fun a => { o with runUntil? := some a }
  | .steps => (number? 4294967295 value).map fun n => { o with steps? := some n }
  | .gdb => (number? 65535 value).map fun n => { o with gdb? := some (some n) }
  | .timeout =>
    match readInt 10 .unsigned64 value.toList with
    | .ok n => some { o with timeout? := some n.toNat }
    | .error _ => none

/-- The options with one of them given, with or without a value. -/
def giveOptional? (o : Options) (key : Key) (value? : Option String) : Option Options :=
  match value? with
  | some value => o.give? key value
  | none => if key.valueIsOptional then some { o with gdb? := some none } else none

end Options

/-- What one argument is. -/
inductive Argument where
  /-- An option, with the value that stands in the same argument. -/
  | option (key : Key) (value? : Option String)
  /-- A request for the version. -/
  | version
  /-- A request for help. -/
  | help
  /-- The mark behind which there are no options. -/
  | endOfOptions
  /-- Anything else that starts with a dash. -/
  | unknown
  /-- A text that is no option. -/
  | plain (s : String)
deriving DecidableEq, Repr

namespace Argument

/-- The text behind an equals sign, or the whole text if it does not start with one. -/
def dropEquals : List Char → List Char
  | '=' :: cs => cs
  | cs => cs

/-- An option written by its name, perhaps with a value behind an equals sign. -/
def ofName (cs : List Char) : Argument :=
  let name := String.ofList (cs.takeWhile (· != '='))
  let value? :=
    match cs.dropWhile (· != '=') with
    | [] => none
    | _ :: value => some (String.ofList value)
  match Key.all.find? (·.name == name), value? with
  | some key, value? => option key value?
  | none, none => if name == "version" then version else if name == "help" then help else unknown
  | none, some _ => unknown

/-- An option written by its letter, perhaps with a value behind it. -/
def ofLetter (c : Char) (cs : List Char) : Argument :=
  match Key.all.find? (·.letter == c) with
  | some key => option key (if cs.isEmpty then none else some (String.ofList (dropEquals cs)))
  | none => if c == 'V' then version else if c == 'h' then help else unknown

/-- What an argument is. -/
def ofString (s : String) : Argument :=
  match s.toList with
  | ['-', '-'] => endOfOptions
  | '-' :: '-' :: cs => ofName cs
  | '-' :: c :: cs => ofLetter c cs
  | _ => plain s

end Argument

/-- Reads arguments behind those that gave `o`; `given` are the options that were given. An option
that waits for its value takes the next argument unless that starts with a dash. -/
def readArguments (o : Options) (given : List Key) : List Argument → Demand
  | [] => .run o
  | .version :: _ => .version
  | .help :: _ => .help
  | .unknown :: _ => .refused
  | .plain _ :: _ => .refused
  | .endOfOptions :: rest => if rest.isEmpty then .run o else .refused
  | .option key (some value) :: rest =>
    if given.contains key then .refused
    else
      match o.give? key value with
      | some o => readArguments o (key :: given) rest
      | none => .refused
  -- An argument that starts with a dash is no value and leaves the option without one.
  | .option key none :: .plain value :: rest =>
    if given.contains key then .refused
    else
      match o.give? key value with
      | some o => readArguments o (key :: given) rest
      | none => .refused
  | .option key none :: rest =>
    if given.contains key then .refused
    else
      match o.giveOptional? key none with
      | some o => readArguments o (key :: given) rest
      | none => .refused

/-- What a command line asks for. -/
def Demand.ofArguments (args : List String) : Demand :=
  readArguments {} [] (args.map Argument.ofString)

end MipsMonitor.CommandLine
