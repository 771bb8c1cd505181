import MipsMonitor.Machine.Observer

/-!
# The recorder

An observer that keeps everything it is told, in order. It stops at the breakpoints it was given and
can be told to request a stop when the program comes to an address.
-/

namespace MipsMonitor

/-- Something an observer is told. -/
inductive Sighting where
  /-- The program has come to an address. -/
  | sync (address : Word)
  /-- There may be a breakpoint at an address. -/
  | check (address : Word)
  /-- A routine is entered from a call. -/
  | enter (callSite : Word)
  /-- A routine is left. -/
  | leave
  /-- A register is written. -/
  | write (register : Tracked) (w : Word)
deriving DecidableEq, Repr

/-- The context of the recorder. -/
structure Recorder where
  /-- What was told, in order. -/
  sightings : Array Sighting
  /-- Where to stop the program. -/
  breakpoints : List Word
  /-- Where to request a stop. -/
  stopAt? : Option Word
deriving DecidableEq, Repr

namespace Recorder

/-- A recorder that has seen nothing and stops nowhere. -/
def fresh : Recorder := ⟨#[], [], none⟩

/-- The recorder with one more thing told. -/
def record (r : Recorder) (s : Sighting) : Recorder := { r with sightings := r.sightings.push s }

/-- The recorder as an observer. -/
def observer : Observer Recorder where
  sync r address :=
    (r.record (.sync address), if r.stopAt? = some address then [.stop] else [])
  check r address :=
    (r.record (.check address), [],
      if r.breakpoints.contains address then some (.breakpoint address) else none)
  enter r callSite := (r.record (.enter callSite), [])
  leave r := (r.record .leave, [])
  write r f t w := (r.record (.write t w), [], f.setTracked t w)

end Recorder

end MipsMonitor
