import MipsMonitor.Machine.Observer

/-!
# Events

A debugger tells its listeners when it has made a step, and when a routine was entered or left. A
listener waits for one kind of event and answers its calls, which it counts, with notices to the
core. Listeners are numbered in the order in which they were added, and called in that order.
-/

namespace MipsMonitor.Debug

/-- A kind of event. -/
inductive Event where
  /-- A step was made. -/
  | stepped
  /-- A routine was entered. -/
  | steppedInto
  /-- A routine was left. -/
  | steppedOut
deriving DecidableEq, Repr

namespace Event

/-- All kinds of events. -/
def all : List Event := [stepped, steppedInto, steppedOut]

/-- The name of a kind of events. -/
def name : Event → String
  | stepped => "stepped"
  | steppedInto => "stepped_into"
  | steppedOut => "stepped_out"

end Event

/-- The state of the debugger when an event occurred. -/
structure StepInfo where
  /-- What occurred. -/
  event : Event
  /-- The program counter. -/
  pc : Word
  /-- The number of routines that have not returned. -/
  depth : Nat
deriving DecidableEq, Repr

/-- One that waits for events. -/
structure Listener where
  /-- Its number. -/
  number : Nat
  /-- The kind of event that it waits for. -/
  event : Event
  /-- How often it was called. -/
  calls : Nat
  /-- Its answer to a call, from the number of the call, starting at one, and what it is told. -/
  respond : Nat → StepInfo → List Notice

/-- The listeners of a debugger. -/
structure Listeners where
  /-- The number of the next listener. -/
  next : Nat
  /-- The listeners, in the order of their numbers. -/
  entries : List Listener

namespace Listeners

/-- No listeners. -/
def none : Listeners := ⟨0, []⟩

/-- Adds a listener, and gives its number. -/
def add (ls : Listeners) (event : Event) (respond : Nat → StepInfo → List Notice) :
    Listeners × Nat :=
  (⟨ls.next + 1, ls.entries ++ [⟨ls.next, event, 0, respond⟩]⟩, ls.next)

/-- Whether there is a listener of a number. -/
def has (ls : Listeners) (number : Nat) : Bool := ls.entries.any (·.number == number)

/-- Removes a listener. -/
def remove (ls : Listeners) (number : Nat) : Listeners :=
  { ls with entries := ls.entries.filter (·.number != number) }

/-- The listeners that are called for an event. -/
def awaiting (ls : Listeners) (event : Event) : List Listener :=
  ls.entries.filter (·.event == event)

/-- Calls the listeners that wait for an event, and gathers their answers. -/
def tell (ls : Listeners) (info : StepInfo) : Listeners × List Notice :=
  let entries := ls.entries.map fun l =>
    if l.event == info.event then { l with calls := l.calls + 1 } else l
  ({ ls with entries },
    (ls.awaiting info.event).flatMap fun l => l.respond (l.calls + 1) info)

/-- Which listeners were called for events, by number, and what each was told. -/
def deliveries (ls : Listeners) (infos : List StepInfo) : List (Nat × StepInfo) :=
  infos.flatMap fun info => (ls.awaiting info.event).map fun l => (l.number, info)

end Listeners

end MipsMonitor.Debug
