import MipsMonitor.Machine.Observer

/-!
# Plans

An injector given by tables: actions for every instruction, for single addresses, and for words that
encode nothing, calls and returns.
-/

namespace MipsMonitor

/-- The kinds of actions. -/
inductive ActionKind where
  | sync | check | enter | leave
deriving DecidableEq, Repr

/-- The action of a kind before the instruction at an address. -/
def ActionKind.action (address : Word) : ActionKind → Action
  | sync => .sync
  | check => .check
  | enter => .enter address
  | leave => .leave

/-- An injector given by tables. -/
structure Plan where
  /-- For every instruction. -/
  all : List ActionKind
  /-- For the instructions at single addresses. -/
  sites : List (Word × List ActionKind)
  /-- For words that encode nothing. -/
  undecoded : List ActionKind
  /-- For calls. -/
  calls : List ActionKind
  /-- For returns. -/
  returns : List ActionKind
deriving DecidableEq, Repr

namespace Plan

/-- The kinds of actions for what a word encodes. -/
def kindsFor (p : Plan) : Option Instruction → List ActionKind
  | none => p.undecoded
  | some i => if i.isCall then p.calls else if i.isReturn then p.returns else []

/-- The kinds of actions before an instruction. -/
def kinds (p : Plan) (address : Word) (i? : Option Instruction) : List ActionKind :=
  p.all ++ (p.sites.filter (·.1 == address)).flatMap (·.2) ++ p.kindsFor i?

/-- The plan as an injector. -/
def injector {σ : Type} (p : Plan) : Injector σ := fun _ address i? =>
  (p.kinds address i?).map (ActionKind.action address)

end Plan

end MipsMonitor
