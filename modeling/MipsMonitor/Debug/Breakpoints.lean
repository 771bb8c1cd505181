import MipsMonitor.Word
import Std.Data.ExtTreeMap

/-!
# Breakpoints

Addresses where a program is to stop, in ascending order. A breakpoint can be switched off, counts
how often it stopped the program, and can be armed to let the program pass once, so that execution
can be resumed from where it stopped. `hit` is the rule that is applied when the program comes to an
address.
-/

namespace MipsMonitor.Debug

/-- What is known of one breakpoint. -/
structure Breakpoint where
  /-- Whether it stops the program at all. -/
  enabled : Bool
  /-- How often it stopped the program. -/
  hits : Nat
  /-- Whether it lets the program pass the next time. -/
  skipOnce : Bool
deriving DecidableEq, Repr

/-- A new breakpoint. -/
def Breakpoint.fresh : Breakpoint := ⟨true, 0, false⟩

/-- Breakpoints by address. -/
abbrev Breakpoints := Std.ExtTreeMap Word Breakpoint compare

namespace Breakpoints

/-- Changes the breakpoint at an address, if there is one. -/
def update (bs : Breakpoints) (address : Word) (f : Breakpoint → Breakpoint) : Breakpoints :=
  match bs[address]? with
  | some b => bs.insert address (f b)
  | none => bs

/-- Switches the breakpoint at an address on or off, if there is one. -/
def setEnabled (bs : Breakpoints) (address : Word) (on : Bool) : Breakpoints :=
  bs.update address fun b => { b with enabled := on }

/-- Puts a breakpoint at an address. One that is there already is switched on. -/
def place (bs : Breakpoints) (address : Word) : Breakpoints :=
  if bs.contains address then bs.setEnabled address true else bs.insert address .fresh

/-- Whether there is a breakpoint at an address that is switched on. -/
def hasEnabled (bs : Breakpoints) (address : Word) : Bool :=
  match bs[address]? with
  | some b => b.enabled
  | none => false

/-- Arms or disarms the breakpoint at an address, if there is one. -/
def setSkipOnce (bs : Breakpoints) (address : Word) (skip : Bool) : Breakpoints :=
  bs.update address fun b => { b with skipOnce := skip }

/-- The rule applied right before the instruction at an address is executed. A breakpoint that is
switched on either lets the program pass because it is armed, and is disarmed, or counts the hit and
stops the program, which the second component tells. -/
def hit (bs : Breakpoints) (address : Word) : Breakpoints × Bool :=
  match bs[address]? with
  | none => (bs, false)
  | some b =>
    if !b.enabled then (bs, false)
    else if b.skipOnce then (bs.insert address { b with skipOnce := false }, false)
    else (bs.insert address { b with hits := b.hits + 1 }, true)

/-- Forgets all hits. -/
def resetHits (bs : Breakpoints) : Breakpoints := bs.map fun _ b => { b with hits := 0 }

end Breakpoints

end MipsMonitor.Debug
