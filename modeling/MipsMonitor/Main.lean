import MipsMonitor.CommandLine.Run

/-!
# The command

Runs the program on the files of the host, and prints what it prints. The log shows errors alone,
unless the environment variable `PSXDBG_VERBOSE` is set.
-/

open MipsMonitor MipsMonitor.CommandLine

/-- The wording of an error of the host. -/
def hostMessage : IO.Error → String
  | .noFileOrDirectory .. => missingFile
  | e => toString e

/-- The files of the host that the options name, read beforehand. -/
def readHostFiles (o : Options) : IO (List (String × Except String ByteArray)) :=
  (o.bios?.toList ++ o.program?.toList).mapM fun (path : String) => do
    let bytes ← (IO.FS.readBinFile path).toBaseIO
    pure (path, bytes.mapError hostMessage)

/-- The number of blocks that a program may run for. -/
def hostFuel : Nat := 1000000000000000000

/-- Runs the program with the arguments of the command. -/
def main (args : List String) : IO UInt32 := do
  let verbose := (← IO.getEnv "PSXDBG_VERBOSE").isSome
  let files ←
    match Demand.ofArguments args with
    | .run o => readHostFiles o
    | _ => pure []
  let read (path : String) := (files.lookup path).getD (.error missingFile)
  match run read (if verbose then .debug else .error) hostFuel args with
  | some outcome =>
    IO.print outcome.stdout
    for line in outcome.stderr do IO.eprintln line
    pure (UInt32.ofNat outcome.code)
  | none => pure 1
