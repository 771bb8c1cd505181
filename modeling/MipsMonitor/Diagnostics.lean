/-!
# Diagnostics

What the machine reports while it works: entries of a level, a text and the sink that they are
written to. Reporting never changes what the machine does, so entries are kept as data beside its
state, in the order in which they arose, and whoever runs the machine shows them.
-/

namespace MipsMonitor

/-- The weight of an entry. -/
inductive Level where
  | error
  | warn
  | info
  | debug
  | trace
deriving DecidableEq, Repr

namespace Level

/-- The name of a level. -/
def name : Level → String
  | error => "ERROR"
  | warn => "WARN"
  | info => "INFO"
  | debug => "DEBUG"
  | trace => "TRACE"

/-- The place of a level in the order of weight, the heaviest first. -/
def rank : Level → Nat
  | error => 0
  | warn => 1
  | info => 2
  | debug => 3
  | trace => 4

/-- Whether entries of a level are kept where everything down to `limit` is kept. -/
def isWithin (level limit : Level) : Bool := level.rank ≤ limit.rank

end Level

/-- Where entries go. -/
inductive Sink where
  /-- A recorder that belongs to one machine. -/
  | recorder
  /-- The journal of the whole program, under the name of the part that writes. -/
  | journal (target : String)
deriving DecidableEq, Repr

namespace Sink

/-- Where a machine reports unless it is told otherwise. -/
def standard : Sink := .journal "r3000"

end Sink

/-- One report. -/
structure Entry where
  /-- Where it goes. -/
  sink : Sink
  /-- Its weight. -/
  level : Level
  /-- Its text. -/
  text : String
deriving DecidableEq, Repr

end MipsMonitor
