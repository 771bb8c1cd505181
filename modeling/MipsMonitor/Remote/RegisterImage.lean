import MipsMonitor.Debug.Debugger

/-!
# Register images

The registers that travel between the debugger and a remote client: the general registers, the two
results, three system control registers and the program counter. Writing an image has all that
follows from writing its registers one by one.
-/

namespace MipsMonitor.Remote

open Debug

/-- The registers that a remote client reads and writes together. -/
structure RegisterImage where
  /-- The general registers. -/
  general : Vector Word 32
  /-- The high half of a product, or the remainder of a division. -/
  hi : Word
  /-- The low half of a product, or the quotient of a division. -/
  lo : Word
  /-- The status register. -/
  status : Word
  /-- The cause register. -/
  cause : Word
  /-- The address whose translation or access failed last. -/
  badAddress : Word
  /-- The program counter. -/
  pc : Word
deriving DecidableEq, Repr

namespace RegisterImage

/-- The registers of a debugger. -/
def ofDebugger (d : Debugger) : RegisterImage :=
  let f := d.core.registers
  { general := Vector.ofFn fun r : Gpr => f.tracked (.ofGpr r)
    hi := f.tracked .hi
    lo := f.tracked .lo
    status := f.get .status
    cause := f.get .cause
    badAddress := f.get .badAddress
    pc := Debugger.pc d }

/-- The watched registers of an image, in the order in which they are written. -/
def tracked (image : RegisterImage) : List (Tracked × Word) :=
  (List.finRange 32).map (fun r => (Tracked.ofGpr r, image.general.get r)) ++
    [(.hi, image.hi), (.lo, image.lo)]

/-- The system control registers of an image, in the order in which they are written. -/
def system (image : RegisterImage) : List (Nat × Word) :=
  [(Register.status.index, image.status), (Register.cause.index, image.cause),
    (Register.badAddress.index, image.badAddress)]

/-- Writes the registers of an image. The program counter counts as moved only if it differs. -/
def write (image : RegisterImage) (d : Debugger) : Debugger :=
  let pc := Debugger.pc d
  let d := image.tracked.foldl (fun d (t, w) => Debugger.recordAt pc t w d) d
  let d := image.system.foldl (fun d (index, w) => Machine.onCore (Core.writeSystem · index w) d) d
  if image.pc = pc then d else Debugger.moveTo image.pc d

end RegisterImage

end MipsMonitor.Remote
