import MipsMonitor.Instruction.Operand
import MipsMonitor.Word

/-!
# Bit patterns

The shape of an instruction word, from the most significant bit down: runs of fixed bits and runs
of bits that belong to an operand. A pattern is made from such segments (`Pattern.ofSegments`) or
read from text (`Pattern.parse`), where a digit stands for a fixed bit and a letter for a bit of an
operand. A word matches a pattern if all fixed bits agree (`Pattern.accepts`), and `Pattern.get?`
takes the value of an operand out of a word.
-/

namespace MipsMonitor

/-- What a run of bits holds. -/
inductive Content where
  /-- Bits that must have this value. -/
  | fixed (value : Word)
  /-- The bits of an operand. -/
  | operand (op : Operand)
deriving DecidableEq, Repr

/-- A run of bits at its place in the word. -/
structure Component where
  /-- The lowest bit. -/
  shift : Nat
  /-- The number of bits. -/
  len : Nat
  /-- What the bits hold. -/
  content : Content
deriving DecidableEq, Repr

namespace Component

/-- The bits of a word at the place of the component. -/
def extract (c : Component) (w : Word) : Word := Word.bits w c.shift c.len

/-- Whether a word has the fixed bits of the component. -/
def accepts (c : Component) (w : Word) : Bool :=
  match c.content with
  | .fixed value => c.extract w == value
  | .operand _ => true

end Component

/-- The shape of an instruction word. -/
structure Pattern where
  /-- The runs of bits, from the most significant one down. -/
  components : List Component
deriving DecidableEq, Repr

/-- Why a text is not a pattern. -/
inductive PatternError where
  /-- There are more than 32 bits. -/
  | tooLong
  /-- There are fewer than 32 bits. -/
  | tooShort
  /-- A letter stands for no operand. -/
  | invalidOperand
  /-- There are more runs than a pattern has places for. -/
  | tooManyComponents
deriving DecidableEq, Repr

/-- The places for the runs of a pattern. -/
def Pattern.maxComponents : Nat := 12

/-- The wording of an error. A run too many has no wording of its own: it is put behind the last
place, which fails as every access out of bounds does. -/
def PatternError.message : PatternError → String
  | tooLong => "pattern is longer than 32 bits"
  | tooShort => "pattern is shorter than 32 bits"
  | invalidOperand => "invalid operand"
  | tooManyComponents =>
    "index out of bounds: the len is " ++ toString Pattern.maxComponents ++ " but the index is " ++
      toString Pattern.maxComponents

namespace Pattern

/-- Whether a word has all fixed bits of the pattern. -/
def accepts (p : Pattern) (w : Word) : Bool := p.components.all (·.accepts w)

/-- The value of an operand in a word: the first run of its bits, if the pattern has one. -/
def get? (p : Pattern) (op : Operand) (w : Word) : Option Word :=
  p.components.findSome? fun c => if c.content = .operand op then some (c.extract w) else none

/-- Lays segments side by side below bit `high`. -/
def place : Nat → List (Nat × Content) → List Component
  | _, [] => []
  | high, (len, content) :: rest => ⟨high - len, len, content⟩ :: place (high - len) rest

/-- The pattern whose segments, each with its number of bits, fill a word from the top. -/
def ofSegments (segments : List (Nat × Content)) : Pattern := ⟨place 32 segments⟩

/-- Whether a byte is a binary digit. -/
def isBinary (b : UInt8) : Bool := b == 0x30 || b == 0x31

/-- Whether two neighbouring bytes belong to the same run: both are binary digits, or they are the
same letter. -/
def sameRun (a b : UInt8) : Bool := (isBinary a && isBinary b) || a == b

/-- The number that a run of binary digits spells. -/
def binaryValue (run : List UInt8) : Word :=
  run.foldl (fun value b => value * 2 + (if b == 0x31 then 1 else 0)) 0

/-- What a run of bytes stands for. -/
def content : List UInt8 → Except PatternError Content
  | [] => .error .invalidOperand
  | b :: rest =>
    if isBinary b then .ok (.fixed (binaryValue (b :: rest)))
    else
      match Operand.ofLetter? (Char.ofNat b.toNat) with
      | some op => .ok (.operand op)
      | none => .error .invalidOperand

/-- The segments of runs, from the left; at most `room` of them are taken. A run is read before it
is counted, so a wrong letter in the first run too many is what is reported. -/
def segments : Nat → List (List UInt8) → Except PatternError (List (Nat × Content))
  | _, [] => .ok []
  | room, run :: rest =>
    match content run with
    | .error e => .error e
    | .ok c =>
      match room with
      | 0 => .error .tooManyComponents
      | room + 1 => (segments room rest).map ((run.length, c) :: ·)

/-- The bytes of a pattern's text that count: all but the spaces. -/
def significant (text : String) : List UInt8 := text.toUTF8.data.toList.filter (· != 0x20)

/-- Reads a pattern. The number of bits is checked before anything else. -/
def parse (text : String) : Except PatternError Pattern :=
  let bytes := significant text
  if 32 < bytes.length then .error .tooLong
  else if bytes.length < 32 then .error .tooShort
  else (segments maxComponents (bytes.splitBy sameRun)).map ofSegments

end Pattern

end MipsMonitor
