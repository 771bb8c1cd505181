import MipsMonitor.Proofs.Outcome
import MipsMonitor.Word

/-!
# Guarded computations

Computations with raw numbers, in which every step that may have no result is checked: an access by
index, a range, a shift, a division, and arithmetic that may leave its type. A check that fails
breaks the whole computation off (`Panic`). What is checked here is ruled out by types elsewhere in
this library; a guarded computation that always ends well shows that the types promise no more than
the numbers keep.

Each check comes with the condition under which it passes. Guarded actions have a state and may also
end with an error of their own (`GuardedAction`); they compute what an ordinary action does if no
check fails on the way.
-/

namespace MipsMonitor

/-- Why a computation breaks off. -/
inductive Panic where
  /-- There is no element of that index. -/
  | index (i size : Nat)
  /-- A range ends before it begins, or behind what it is taken from. -/
  | range (first last : Nat)
  /-- A number is moved by as many bits as it has, or by more. -/
  | shift (amount width : Nat)
  /-- Something is divided by zero. -/
  | divisionByZero
  /-- A number is not in the range of its type. -/
  | overflow (n : Int)
deriving DecidableEq, Repr

/-- A computation that may break off. -/
abbrev Guarded (α : Type) := Except Panic α

namespace Guarded

/-- The place of an element among `size` elements. -/
def index (size i : Nat) : Guarded (Fin size) :=
  if h : i < size then .ok ⟨i, h⟩ else .error (.index i size)

/-- The elements from `first` up to `last`, `last` excluded, exist among `size` elements. -/
def slice (size first last : Nat) : Guarded Unit :=
  if first ≤ last ∧ last ≤ size then .ok () else .error (.range first last)

/-- The keys from `first` to `last` are a range. -/
def range (first last : Nat) : Guarded Unit :=
  if first ≤ last then .ok () else .error (.range first last)

/-- A number, if it is in the range of its type. -/
def within (least greatest n : Int) : Guarded Int :=
  if least ≤ n ∧ n ≤ greatest then .ok n else .error (.overflow n)

/-- A difference of numbers without sign. -/
def sub (a b : Nat) : Guarded Nat :=
  if b ≤ a then .ok (a - b) else .error (.overflow (a - b : Int))

/-- A sum of numbers up to a greatest one. -/
def add (greatest a b : Nat) : Guarded Nat :=
  if a + b ≤ greatest then .ok (a + b) else .error (.overflow (a + b : Int))

/-- A product of words. -/
def mul (a b : Word) : Guarded Word := (within 0 4294967295 (a.toNat * b.toNat)).map fun _ => a * b

/-- A word moved up. -/
def shiftLeft (w : Word) (amount : Nat) : Guarded Word :=
  if amount < 32 then .ok (w <<< amount.toUInt32) else .error (.shift amount 32)

/-- A word moved down. -/
def shiftRight (w : Word) (amount : Nat) : Guarded Word :=
  if amount < 32 then .ok (w >>> amount.toUInt32) else .error (.shift amount 32)

/-- A word moved down with its sign. -/
def shiftRightSigned (w : Word) (amount : Nat) : Guarded Word :=
  if amount < 32 then .ok (w.toInt32 >>> amount.toUInt32.toInt32).toUInt32
  else .error (.shift amount 32)

/-- The high half of a number of 64 bits. -/
def highHalf (n : Int) (amount : Nat) : Guarded Word :=
  if amount < 64 then .ok (UInt32.ofInt (n >>> amount)) else .error (.shift amount 64)

/-- What is left of a division of words. -/
def remainder (a b : Word) : Guarded Word := if b = 0 then .error .divisionByZero else .ok (a % b)

/-- A quotient of words. -/
def quotient (a b : Word) : Guarded Word := if b = 0 then .error .divisionByZero else .ok (a / b)

/-- A quotient of signed words, rounded to zero. -/
def signedQuotient (a b : Int) : Guarded Int :=
  if b = 0 then .error .divisionByZero else within (-2147483648) 2147483647 (a.tdiv b)

/-- What is left of a division of signed words. The quotient has to be a signed word as well. -/
def signedRemainder (a b : Int) : Guarded Int := (signedQuotient a b).map fun _ => a.tmod b

/-! ## When checks pass -/

/-- What is given without a check does not break off. -/
@[simp]
theorem pure_eq {α : Type} (a : α) : (pure a : Guarded α) = .ok a := rfl

/-- A check that passes hands its value on. -/
@[simp]
theorem ok_bind {α β : Type} (a : α) (f : α → Guarded β) : ((.ok a : Guarded α) >>= f) = f a := rfl

/-- An access within the bounds passes. -/
theorem index_of_lt {size i : Nat} (h : i < size) : index size i = .ok ⟨i, h⟩ := dif_pos h

/-- An index of the right type is within the bounds. -/
@[simp]
theorem index_val {size : Nat} (i : Fin size) : index size i.val = .ok i := dif_pos i.isLt

/-- A slice with its ends in order and within the bounds passes. -/
theorem slice_of_le {size first last : Nat} (h : first ≤ last) (h' : last ≤ size) :
    slice size first last = .ok () := if_pos ⟨h, h'⟩

/-- A range with its ends in order passes. -/
theorem range_of_le {first last : Nat} (h : first ≤ last) : range first last = .ok () := if_pos h

/-- A number between two bounds passes. -/
theorem within_of_le {least greatest n : Int} (h : least ≤ n) (h' : n ≤ greatest) :
    within least greatest n = .ok n := if_pos ⟨h, h'⟩

/-- A difference that is not negative passes. -/
theorem sub_of_le {a b : Nat} (h : b ≤ a) : sub a b = .ok (a - b) := if_pos h

/-- A sum up to the greatest value passes. -/
theorem add_of_le {greatest a b : Nat} (h : a + b ≤ greatest) : add greatest a b = .ok (a + b) :=
  if_pos h

/-- A product that fits in a word passes. -/
theorem mul_of_lt {a b : Word} (h : a.toNat * b.toNat < 4294967296) : mul a b = .ok (a * b) := by
  unfold mul
  rw [within_of_le (by omega) (by omega)]
  rfl

/-- A shift to the left by less than the width passes. -/
theorem shiftLeft_of_lt {amount : Nat} (h : amount < 32) (w : Word) :
    shiftLeft w amount = .ok (w <<< amount.toUInt32) := if_pos h

/-- A shift to the right by less than the width passes. -/
theorem shiftRight_of_lt {amount : Nat} (h : amount < 32) (w : Word) :
    shiftRight w amount = .ok (w >>> amount.toUInt32) := if_pos h

/-- A shift to the right that keeps the sign passes if it is by less than the width. -/
theorem shiftRightSigned_of_lt {amount : Nat} (h : amount < 32) (w : Word) :
    shiftRightSigned w amount = .ok (w.toInt32 >>> amount.toUInt32.toInt32).toUInt32 := if_pos h

/-- A remainder passes if the divisor is not zero. -/
theorem remainder_of_ne {b : Word} (h : b ≠ 0) (a : Word) : remainder a b = .ok (a % b) := if_neg h

/-- A quotient passes if the divisor is not zero. -/
theorem quotient_of_ne {b : Word} (h : b ≠ 0) (a : Word) : quotient a b = .ok (a / b) := if_neg h

/-- All quotients of signed words but one are signed words. -/
theorem signedQuotient_of_ne {a b : Int} (ha : -2147483648 ≤ a) (ha' : a ≤ 2147483647) (hb : b ≠ 0)
    (h : ¬(a = -2147483648 ∧ b = -1)) : signedQuotient a b = .ok (a.tdiv b) := by
  have hle := Int.natAbs_tdiv_le_natAbs a b
  unfold signedQuotient
  rw [if_neg hb]
  refine within_of_le (by omega) ?_
  obtain hleast | hgreater : a = -2147483648 ∨ -2147483648 < a := by omega
  · obtain rfl | hone : b = 1 ∨ 2 ≤ b.natAbs := by omega
    · rw [Int.tdiv_one]
      omega
    · have habs : (a.tdiv b).natAbs = a.natAbs / b.natAbs := Int.natAbs_tdiv ..
      have hhalf : a.natAbs / b.natAbs ≤ a.natAbs / 2 := Nat.div_le_div_left hone (by omega)
      omega
  · omega

/-- A signed remainder passes if the divisor is not zero and the quotient fits. -/
theorem signedRemainder_of_ne {a b : Int} (ha : -2147483648 ≤ a) (ha' : a ≤ 2147483647) (hb : b ≠ 0)
    (h : ¬(a = -2147483648 ∧ b = -1)) : signedRemainder a b = .ok (a.tmod b) := by
  unfold signedRemainder
  rw [signedQuotient_of_ne ha ha' hb h]
  rfl

/-! ## Lists -/

/-- Where each check passes, so do all of them. -/
theorem allM_ok {α : Type} {f : α → Guarded Bool} {g : α → Bool} {xs : List α}
    (h : ∀ x ∈ xs, f x = .ok (g x)) : xs.allM f = .ok (xs.all g) := by
  induction xs with
  | nil => rfl
  | cons x xs ih =>
    rw [List.allM, h x List.mem_cons_self, ok_bind, List.all_cons]
    cases g x with
    | true => exact ih fun y hy => h y (List.mem_cons_of_mem x hy)
    | false => rfl

/-- A selection by a check that passes everywhere is the selection without it. -/
theorem filterM_ok {α : Type} {f : α → Guarded Bool} {g : α → Bool} {xs : List α}
    (h : ∀ x ∈ xs, f x = .ok (g x)) : xs.filterM f = .ok (xs.filter g) := by
  have haux (acc : List α) : xs.filterAuxM f acc = .ok ((xs.filter g).reverse ++ acc) := by
    induction xs generalizing acc with
    | nil => rfl
    | cons x xs ih =>
      rw [List.filterAuxM, h x List.mem_cons_self, ok_bind,
        ih fun y hy => h y (List.mem_cons_of_mem x hy), List.filter_cons]
      cases g x with
      | true => simp
      | false => rfl
  unfold List.filterM
  rw [haux, ok_bind, List.append_nil, List.reverse_reverse]
  rfl

/-- A search by a check that passes everywhere is the search without it. -/
theorem findM?_ok {α : Type} {f : α → Guarded Bool} {g : α → Bool} {xs : List α}
    (h : ∀ x ∈ xs, f x = .ok (g x)) : xs.findM? f = .ok (xs.find? g) := by
  induction xs with
  | nil => rfl
  | cons x xs ih =>
    rw [List.findM?, h x List.mem_cons_self, ok_bind, List.find?_cons]
    cases g x with
    | true => rfl
    | false => exact ih fun y hy => h y (List.mem_cons_of_mem x hy)

/-- A search for a value by a check that passes everywhere is the search without it. -/
theorem findSomeM?_ok {α β : Type} {f : α → Guarded (Option β)} {g : α → Option β} {xs : List α}
    (h : ∀ x ∈ xs, f x = .ok (g x)) : xs.findSomeM? f = .ok (xs.findSome? g) := by
  induction xs with
  | nil => rfl
  | cons x xs ih =>
    rw [List.findSomeM?, h x List.mem_cons_self, ok_bind, List.findSome?_cons]
    cases g x with
    | some b => rfl
    | none => exact ih fun y hy => h y (List.mem_cons_of_mem x hy)

end Guarded

/-! ## Actions -/

/-- An action with a state that may break off. If it does not, it ends with an answer or an
error. -/
def GuardedAction (ε σ α : Type) := σ → Guarded (EStateM.Result ε σ α)

namespace GuardedAction

variable {ε σ α β : Type}

instance : Monad (GuardedAction ε σ) where
  pure a s := .ok (.ok a s)
  bind x f s :=
    match x s with
    | .ok (.ok a s) => f a s
    | .ok (.error e s) => .ok (.error e s)
    | .error p => .error p

/-- The end of an action by an error. -/
def fail (e : ε) : GuardedAction ε σ α := fun s => .ok (.error e s)

/-- An action in which nothing has to be checked. -/
def unguarded (x : EStateM ε σ α) : GuardedAction ε σ α := fun s => .ok (x s)

/-- A computation that leaves the state alone. -/
def lift (x : Guarded α) : GuardedAction ε σ α := fun s => x.map (.ok · s)

instance : MonadLift Guarded (GuardedAction ε σ) := ⟨lift⟩

/-- A check that passes leaves the state as it is. -/
@[simp]
theorem lift_ok (a : α) (s : σ) :
    (liftM (Except.ok a : Guarded α) : GuardedAction ε σ α) s = .ok (.ok a s) := rfl

/-- A sequence goes on with the answer of its first part, and ends with its error. -/
theorem bind_apply (x : GuardedAction ε σ α) (f : α → GuardedAction ε σ β) (s : σ) :
    (x >>= f) s = match x s with
      | .ok (.ok a s) => f a s
      | .ok (.error e s) => .ok (.error e s)
      | .error p => .error p := rfl

/-- A sequence goes on behind an answer. -/
theorem bind_ok {x : GuardedAction ε σ α} {f : α → GuardedAction ε σ β} {s s' : σ} {a : α}
    (h : x s = .ok (.ok a s')) : (x >>= f) s = f a s' := by
  rw [bind_apply, h]

/-- A sequence ends with an error. -/
theorem bind_error {x : GuardedAction ε σ α} {f : α → GuardedAction ε σ β} {s s' : σ} {e : ε}
    (h : x s = .ok (.error e s')) : (x >>= f) s = .ok (.error e s') := by
  rw [bind_apply, h]

/-- From a state an action does not break off, and does what an ordinary action does. -/
def Agrees (x : GuardedAction ε σ α) (y : EStateM ε σ α) (s : σ) : Prop := x s = .ok (y s)

/-- Actions that agree agree one behind the other. -/
theorem Agrees.bind {x : GuardedAction ε σ α} {y : EStateM ε σ α} {f : α → GuardedAction ε σ β}
    {g : α → EStateM ε σ β} {s : σ} (hx : x.Agrees y s) (hf : ∀ a s', (f a).Agrees (g a) s') :
    (x >>= f).Agrees (y >>= g) s := by
  unfold Agrees at hx ⊢
  rw [MipsMonitor.bind_apply]
  cases hy : y s with
  | ok a s' =>
    rw [hy] at hx
    rw [bind_ok hx]
    exact hf a s'
  | error e s' =>
    rw [hy] at hx
    exact bind_error hx

/-- A guarded computation does not break off. It ends as an ordinary one does, with answers and
states that are related. -/
inductive Follows {τ : Type} (Q : α → β → Prop) (P : σ → τ → Prop) :
    Guarded (EStateM.Result ε σ α) → EStateM.Result ε τ β → Prop where
  /-- Both give an answer. -/
  | ok {a : α} {b : β} {s : σ} {t : τ} (hanswer : Q a b) (hstate : P s t) :
      Follows Q P (.ok (.ok a s)) (.ok b t)
  /-- Both give the same error. -/
  | error (e : ε) {s : σ} {t : τ} (hstate : P s t) : Follows Q P (.ok (.error e s)) (.error e t)

/-- Actions that follow ordinary ones do so one behind the other. -/
theorem Follows.bind {τ α' β' : Type} {Q : α → β → Prop} {Q' : α' → β' → Prop} {P : σ → τ → Prop}
    {x : GuardedAction ε σ α} {y : EStateM ε τ β} {f : α → GuardedAction ε σ α'}
    {g : β → EStateM ε τ β'} {s : σ} {t : τ} (hx : Follows Q P (x s) (y t))
    (hf : ∀ a b s' t', Q a b → P s' t' → Follows Q' P (f a s') (g b t')) :
    Follows Q' P ((x >>= f) s) ((y >>= g) t) := by
  rw [bind_apply, MipsMonitor.bind_apply]
  generalize x s = r at hx
  generalize y t = r' at hx
  cases hx with
  | ok hanswer hstate => exact hf _ _ _ _ hanswer hstate
  | error e hstate => exact .error e hstate

end GuardedAction

end MipsMonitor
