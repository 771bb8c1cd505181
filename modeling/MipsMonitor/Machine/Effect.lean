import MipsMonitor.Machine.Core
import MipsMonitor.Machine.Operation

/-!
# Effects

What an operation comes to in a given state of the processor: the general registers and results
that it writes, at most one change elsewhere, and where control goes afterwards. Working the effect
out changes nothing, and an operation that traps before its store has no effect at all; only a store
can still be refused when the effect takes place.
-/

namespace MipsMonitor

/-- How control is transferred. -/
inductive Transfer where
  /-- Within a routine. -/
  | plain
  /-- Into a routine. -/
  | enter
  /-- Back from a routine. -/
  | leave
deriving DecidableEq, Repr

/-- Where control goes behind an instruction. -/
inductive Flow where
  /-- To the next instruction. -/
  | next
  /-- To a target, once the delay slot is executed. -/
  | jump (target : Word) (transfer : Transfer)
deriving DecidableEq, Repr

/-- A change outside of the watched registers. -/
inductive Change where
  /-- A register of the system control coprocessor is written. -/
  | system (index : Nat) (w : Word)
  /-- A register of the geometry coprocessor is written. -/
  | geometry (dest : Register) (w : Word)
  /-- Bytes are stored. -/
  | store (address : Word) (bytes : List UInt8)
deriving DecidableEq, Repr

/-- What an operation comes to. -/
structure Effect where
  /-- The watched registers that are written, in order. -/
  writes : List (Tracked × Word) := []
  /-- What else changes. -/
  change? : Option Change := none
  /-- Where control goes. -/
  flow : Flow := .next
deriving DecidableEq, Repr

/-- The trap of the instruction at `pc` whose access to memory failed. -/
def AccessError.trap (pc : Word) : AccessError → Trap
  | detached => .detached pc
  | misaligned _ => .architectural .addressLoadError pc
  | memory e => .memory e pc

namespace Arithmetic

/-- The value of a function. -/
def apply : Arithmetic → Word → Word → Word
  | add, a, b => a + b
  | sub, a, b => a - b
  | and, a, b => a &&& b
  | or, a, b => a ||| b
  | xor, a, b => a ^^^ b
  | nor, a, b => ~~~(a ||| b)
  | lessSigned, a, b => if a.toInt32 < b.toInt32 then 1 else 0
  | less, a, b => if a < b then 1 else 0
  | shiftLeft, a, b => a <<< b
  | shiftRight, a, b => a >>> b
  | shiftRightSigned, a, b => (a.toInt32 >>> b.toInt32).toUInt32
  | second, _, b => b

end Arithmetic

namespace Trapping

/-- The exact sum or difference of two signed words. -/
def exact : Trapping → Word → Word → Int
  | add, a, b => Word.signed a + Word.signed b
  | sub, a, b => Word.signed a - Word.signed b

/-- The sum or difference, unless it leaves the range of signed words. -/
def value? (f : Trapping) (a b : Word) : Option Word :=
  let n := f.exact a b
  if -2147483648 ≤ n ∧ n ≤ 2147483647 then some (UInt32.ofInt n) else none

end Trapping

namespace LongArithmetic

/-- The high and the low half of the 64 low bits of a number. -/
def halves (n : Int) : Word × Word := (UInt32.ofInt (n / 4294967296), UInt32.ofInt n)

/-- The contents of the two result registers. A division by zero leaves the dividend as remainder
and a quotient of ones, or of one where the dividend is negative. -/
def apply : LongArithmetic → Word → Word → Word × Word
  | multiplySigned, a, b => halves (Word.signed a * Word.signed b)
  | multiply, a, b => halves (a.toNat * b.toNat)
  | divideSigned, a, b =>
    if b = 0 then (a, if Word.signed a < 0 then 1 else 0xFFFFFFFF)
    -- The one quotient that is no signed word, that of the least number by minus one, wraps around.
    else
      (UInt32.ofInt (Int.tmod (Word.signed a) (Word.signed b)),
        UInt32.ofInt (Int.tdiv (Word.signed a) (Word.signed b)))
  | divide, a, b => if b = 0 then (a, 0xFFFFFFFF) else (a % b, a / b)

end LongArithmetic

/-- Whether a condition holds. -/
def Condition.holds : Condition → Word → Word → Bool
  | equal, a, b => a == b
  | notEqual, a, b => a != b
  | positive, a, _ => 0 < a.toInt32
  | notPositive, a, _ => a.toInt32 ≤ 0
  | notNegative, a, _ => 0 ≤ a.toInt32
  | negative, a, _ => a.toInt32 < 0

namespace Word

/-- The low bits of `new`, moved up by `amount`, over those of `old`, whose low bits stay. -/
def fillHigh (amount old new : Word) : Word :=
  (old &&& ~~~((0xFFFFFFFF : Word) <<< amount)) ||| (new <<< amount)

/-- The high bits of `new`, moved down by `amount`, over those of `old`, whose high bits stay. -/
def fillLow (amount old new : Word) : Word :=
  (old &&& ~~~((0xFFFFFFFF : Word) >>> amount)) ||| (new >>> amount)

/-- The bits of a word below the byte that an address designates in it. -/
def bitsBelow (address : Word) : Word := 8 * (address &&& (3 : Word))

/-- The bits of a word above the byte that an address designates in it. -/
def bitsAbove (address : Word) : Word := 24 - bitsBelow address

end Word

namespace Load

/-- What the address has to be a multiple of. -/
def alignment : Load → Word
  | byteSigned | byte | left | right => 1
  | halfSigned | half => 2
  | word => 4

/-- The addresses of the bytes that are loaded. -/
def span (what : Load) (address : Word) : List Word :=
  match what with
  | byteSigned | byte => Address.run address 1
  | halfSigned | half => Address.run address 2
  | word => Address.run address 4
  | left | right => Address.run (Word.alignDown address) 4

/-- What the register holds afterwards, from what it held, the address, and the number loaded. -/
def result (what : Load) (address old loaded : Word) : Word :=
  match what with
  | byteSigned => Word.signExtendByte loaded
  | halfSigned => Word.signExtendHalf loaded
  | byte | half | word => loaded
  | left => Word.fillHigh (Word.bitsAbove address) old loaded
  | right => Word.fillLow (Word.bitsBelow address) old loaded

end Load

namespace Store

/-- What the address has to be a multiple of. -/
def alignment : Store → Word
  | byte | left | right => 1
  | half => 2
  | word => 4

/-- The addresses of the bytes that are read first. -/
def span (what : Store) (address : Word) : List Word :=
  match what with
  | left | right => Address.run (Word.alignDown address) 4
  | byte | half | word => []

/-- What is stored where, from the register and the number read first. -/
def result (what : Store) (address w old : Word) : Change :=
  match what with
  | byte => .store address [w.toUInt8]
  | half => .store address (Word.halfToBytes w)
  | word => .store address (Word.toBytes w)
  | left =>
    .store (Word.alignDown address) (Word.toBytes (Word.fillLow (Word.bitsAbove address) old w))
  | right =>
    .store (Word.alignDown address) (Word.toBytes (Word.fillHigh (Word.bitsBelow address) old w))

end Store

namespace Operation

/-- The value of a general register. -/
def gpr (f : RegisterFile) (r : Gpr) : Word := f.value (.ofGpr r)

/-- The value of a second operand. -/
def operand (f : RegisterFile) : Source → Word
  | .register r => gpr f r
  | .constant w => w

/-- The address of a load or store. -/
def address (f : RegisterFile) (l : Location) : Word := gpr f l.base + l.offset

/-- The addresses that an operation reads, if it gets as far as reading. -/
def span (op : Operation) (f : RegisterFile) : List Word :=
  let aligned (l : Location) (alignment : Word) (span : Word → List Word) :=
    if Word.isAligned (address f l) alignment then span (address f l) else []
  match op with
  | load what _ l => aligned l what.alignment what.span
  | store what _ l => aligned l what.alignment what.span
  | loadGeometry _ l => aligned l 4 (Address.run · 4)
  | _ => []

/-- The number at addresses, read for the instruction at `pc`. -/
def fetch (view? : Option (View Ram)) (pc : Word) (span : List Word) : Except Trap Word :=
  match view? with
  | none => .error (.detached pc)
  | some v =>
    match ByteMemory.readNumber v span with
    | .ok w => .ok w
    | .error e => .error (.memory e pc)

/-- The effect of leaving a return address, if there is one, and of transferring control. -/
def transfer (link? : Option (Tracked × Word)) (flow : Flow) : Effect :=
  { writes := link?.toList, flow }

/-- What an operation of the instruction at `pc` comes to. -/
def effect (op : Operation) (pc : Word) (f : RegisterFile) (view? : Option (View Ram)) :
    Except Trap Effect :=
  match op with
  | arithmetic g dest lhs rhs =>
    .ok { writes := [(.ofGpr dest, g.apply (gpr f lhs) (operand f rhs))] }
  | trapping g dest lhs rhs =>
    match g.value? (gpr f lhs) (operand f rhs) with
    | some w => .ok { writes := [(.ofGpr dest, w)] }
    | none => .error (.architectural .overflow pc)
  | long g lhs rhs =>
    let (high, low) := g.apply (gpr f lhs) (gpr f rhs)
    .ok { writes := [(.hi, high), (.lo, low)] }
  | move dest source => .ok { writes := [(dest, f.value source)] }
  | load what dest l =>
    if Word.isAligned (address f l) what.alignment then
      match fetch view? pc (what.span (address f l)) with
      | .ok w => .ok { writes := [(.ofGpr dest, what.result (address f l) (gpr f dest) w)] }
      | .error t => .error t
    else .error (.architectural .addressLoadError pc)
  | store what source l =>
    if Word.isAligned (address f l) what.alignment then
      -- A store that overwrites all it touches reads nothing first, but it too needs memory.
      match fetch view? pc (what.span (address f l)) with
      | .ok w => .ok { change? := some (what.result (address f l) (gpr f source) w) }
      | .error t => .error t
    else .error (.architectural .addressStoreError pc)
  | loadGeometry dest l =>
    if Word.isAligned (address f l) 4 then
      match fetch view? pc (Address.run (address f l) 4) with
      | .ok w => .ok { change? := some (.geometry ⟨.cop2Data, dest⟩ w) }
      | .error t => .error t
    else .error (.architectural .addressLoadError pc)
  | storeGeometry source l =>
    if Word.isAligned (address f l) 4 then
      .ok { change? := some (.store (address f l) (Word.toBytes (f.get ⟨.cop2Data, source⟩))) }
    else .error (.architectural .addressStoreError pc)
  | branch condition lhs rhs target link? =>
    -- The condition sees the registers as they are before the return address is left.
    let flow :=
      if condition.holds (gpr f lhs) (gpr f rhs) then
        .jump target (if link?.isSome then .enter else .plain)
      else .next
    .ok (transfer (link?.map (.returnAddress, ·)) flow)
  | jump target link? =>
    .ok (transfer (link?.map (.returnAddress, ·))
      (.jump target (if link?.isSome then .enter else .plain)))
  | jumpRegister source =>
    let how := if Tracked.ofGpr source = .returnAddress then Transfer.leave else .plain
    .ok { flow := .jump (gpr f source) how }
  | callRegister source dest link =>
    .ok (transfer (some (.ofGpr dest, link)) (.jump (gpr f source) .enter))
  | moveFrom dest bank index => .ok { writes := [(.ofGpr dest, (f.get? bank index).getD 0)] }
  | moveToSystem index source => .ok { change? := some (.system index (gpr f source)) }
  | moveToGeometry dest source => .ok { change? := some (.geometry dest (gpr f source)) }
  | returnFromException =>
    .ok { change? := some (.system Register.status.index f.status.returnFromException.raw) }
  | geometryCommand => .ok {}
  | raise e => .error (.architectural e pc)

end Operation

end MipsMonitor
