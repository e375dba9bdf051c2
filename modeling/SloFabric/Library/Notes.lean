/-
  File:      SloFabric/Library/Notes.lean
  Subject:   Computations that note what they do on the way.

  * `Noted N`: a value, and a list of notes; `result`, `notes`, `note`;
  * `both`, `either`: conjunction and disjunction that evaluate the second only if need be;
  * `Noted.Only P`: nothing is noted that lacks the property `P`; with a rule for each of them it is
    read off a computation step by step.
-/
import Mathlib.Control.Monad.Writer

/-- A computation of a value that notes things of type `N`. -/
abbrev Noted (N : Type) := Writer (List N)

namespace Noted

variable {N α β : Type}

def result (x : Noted N α) : α := x.run.1

def notes (x : Noted N α) : List N := x.run.2

/-- Note `n` and answer `a`. -/
def note (n : N) (a : α) : Noted N α := do
  tell [n]
  return a

/-- `x && y`, where `y` is not evaluated if `x` fails. -/
def both (x : Bool) (y : Noted N Bool) : Noted N Bool := if x then y else pure false

/-- `x || y`, where `y` is not evaluated if `x` holds. -/
def either (x y : Noted N Bool) : Noted N Bool := do
  if ← x then return true
  y

@[simp] theorem result_pure (a : α) : result (pure a : Noted N α) = a := rfl

@[simp] theorem result_note (n : N) (a : α) : (note n a).result = a := rfl

@[simp] theorem result_bind (x : Noted N α) (f : α → Noted N β) :
    result (x >>= f) = (f x.result).result := rfl

@[simp] theorem result_ite {c : Prop} [Decidable c] (x y : Noted N α) :
    result (if c then x else y) = if c then x.result else y.result := apply_ite _ _ _ _

@[simp] theorem result_both (x : Bool) (y : Noted N Bool) :
    (both x y).result = (x && y.result) := by
  cases x <;> rfl

@[simp] theorem result_either (x y : Noted N Bool) :
    (either x y).result = (x.result || y.result) := by
  unfold either
  rw [result_bind, result_ite]
  cases x.result <;> rfl

/-- Nothing else is noted than what has the property. -/
def Only (P : N → Prop) (x : Noted N α) : Prop := ∀ n ∈ x.notes, P n

variable {P : N → Prop}

@[simp] theorem only_pure (a : α) : Only P (pure a : Noted N α) := fun _ h =>
  absurd h List.not_mem_nil

@[simp] theorem only_note (n : N) (a : α) : Only P (note n a) ↔ P n := List.forall_mem_singleton

/-- **The rule for a sequence.** -/
@[simp] theorem only_bind (x : Noted N α) (f : α → Noted N β) :
    Only P (x >>= f) ↔ Only P x ∧ Only P (f x.result) := List.forall_mem_append

@[simp] theorem only_ite {c : Prop} [Decidable c] (x y : Noted N α) :
    Only P (if c then x else y) ↔ if c then Only P x else Only P y := by
  split <;> rfl

@[simp] theorem only_both (x : Bool) (y : Noted N Bool) :
    Only P (both x y) ↔ (x = true → Only P y) := by
  cases x <;> simp [both]

@[simp] theorem only_either (x y : Noted N Bool) :
    Only P (either x y) ↔ Only P x ∧ (x.result = false → Only P y) := by
  unfold either
  rw [only_bind, only_ite]
  cases x.result <;> simp

end Noted
