import MipsMonitor.Memory.Ram

/-!
# The view of memory

While the status register isolates the cache, loads and stores reach the 4 KiB instruction cache
and nothing else; memory stays hidden behind it until the isolation ends. `Cached` is a memory with
a cache in front, `View` is what the processor addresses: memory itself, or a cache that hides it.
Isolating and ending the isolation give the memory back as it was (`unisolate_isolate`), and so does
a write in between (`backing_put_isolate`).
-/

namespace MipsMonitor

/-- A memory hidden behind an instruction cache. Every address designates a byte of the cache. -/
structure Cached (μ : Type) where
  /-- The bytes of the cache. -/
  lines : Cells 0x1000
  /-- Where the cache reports. -/
  sink? : Option Sink
  /-- The memory behind it. -/
  hidden : μ

namespace Cached

variable {μ : Type}

/-- A memory behind an empty cache that reports nowhere yet. -/
def inFrontOf (hidden : μ) : Cached μ := ⟨.zero 0x1000, none, hidden⟩

/-- The place of an address in the cache. -/
def line (address : Word) : Fin 0x1000 := Fin.ofNat 0x1000 address.toNat

instance [ByteMemory μ] : ByteMemory (Cached μ) where
  readByte c address := .ok (c.lines.get (line address))
  refusal? _ _ := none
  put c address b := { c with lines := c.lines.set (line address) b }
  reset c := { c with lines := .zero 0x1000, hidden := ByteMemory.reset c.hidden }
  withSink c sink := { c with sink? := some sink, hidden := ByteMemory.withSink c.hidden sink }
  readNote? _ _ := none
  writeNote? _ _ _ := none
  resetNotes c :=
    (c.sink?.map (⟨·, .debug, "resetting isolated cache"⟩)).toList ++ ByteMemory.resetNotes c.hidden

end Cached

/-- What the processor addresses. -/
inductive View (μ : Type) where
  /-- Memory itself. -/
  | direct (memory : μ)
  /-- A cache that hides memory. -/
  | isolated (cached : Cached μ)

namespace View

variable {μ : Type}

/-- Whether memory is hidden. -/
def isIsolated : View μ → Bool
  | direct _ => false
  | isolated _ => true

/-- Hides memory behind an empty cache, unless it is hidden already. -/
def isolate : View μ → View μ
  | direct m => isolated (.inFrontOf m)
  | isolated c => isolated c

/-- Drops the cache that hides memory, if there is one. -/
def unisolate : View μ → View μ
  | direct m => direct m
  | isolated c => direct c.hidden

/-- The memory behind the cache. Instructions are always fetched from here. -/
def backing : View μ → μ
  | direct m => m
  | isolated c => c.hidden

/-- Runs an action on the memory behind the cache. -/
def onBacking {ε α : Type} (action : EStateM ε μ α) : EStateM ε (View μ) α
  | direct m =>
    match action m with
    | .ok a m => .ok a (direct m)
    | .error e m => .error e (direct m)
  | isolated ⟨lines, sink?, hidden⟩ =>
    match action hidden with
    | .ok a m => .ok a (isolated ⟨lines, sink?, m⟩)
    | .error e m => .error e (isolated ⟨lines, sink?, m⟩)

/-- What a view is called. -/
def text : View μ → String
  | direct _ => "MemoryView::Direct"
  | isolated _ => "MemoryView::Isolated"

instance [ByteMemory μ] : ByteMemory (View μ) where
  readByte
    | direct m => ByteMemory.readByte m
    | isolated c => ByteMemory.readByte c
  refusal?
    | direct m => ByteMemory.refusal? m
    | isolated c => ByteMemory.refusal? c
  put
    | direct m, address, b => direct (ByteMemory.put m address b)
    | isolated c, address, b => isolated (ByteMemory.put c address b)
  reset
    | direct m => direct (ByteMemory.reset m)
    | isolated c => isolated (ByteMemory.reset c)
  withSink
    | direct m, sink => direct (ByteMemory.withSink m sink)
    | isolated c, sink => isolated (ByteMemory.withSink c sink)
  readNote?
    | direct m => ByteMemory.readNote? m
    | isolated c => ByteMemory.readNote? c
  writeNote?
    | direct m => ByteMemory.writeNote? m
    | isolated c => ByteMemory.writeNote? c
  resetNotes
    | direct m => ByteMemory.resetNotes m
    | isolated c => ByteMemory.resetNotes c

/-- Ending an isolation gives the memory back. -/
@[simp]
theorem unisolate_isolate (v : View μ) : v.isolate.unisolate = v.unisolate := by
  cases v <;> rfl

/-- A write to an isolated view leaves memory alone. -/
theorem backing_put_isolate [ByteMemory μ] (v : View μ) (address : Word) (b : UInt8) :
    (ByteMemory.put v.isolate address b).backing = v.backing := by
  cases v <;> rfl

end View

end MipsMonitor
