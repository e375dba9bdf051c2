/-
  File:      SloFabric/Library/Interleaving.lean
  Subject:   Interleavings of the call sequences of any number of threads.

  `Interleaving ts l`: the calls of the threads `ts`, each thread's in its own order, can happen in
  the order `l`. There is no bound on the threads and nothing is said about fairness.

  * `perm`: every call happens exactly once;
  * `countP`: what is counted over the whole is counted in the threads.
-/
import Mathlib.Algebra.GroupWithZero.Nat

/-- The calls of the threads `ts` can happen in this order. -/
inductive Interleaving {α : Type} : List (List α) → List α → Prop where
  | done {ts : List (List α)} (h : ∀ t ∈ ts, t = []) : Interleaving ts []
  | call {ts₁ ts₂ : List (List α)} {x : α} {t l : List α}
      (h : Interleaving (ts₁ ++ t :: ts₂) l) : Interleaving (ts₁ ++ (x :: t) :: ts₂) (x :: l)

namespace Interleaving

variable {α : Type} {ts : List (List α)} {l : List α}

/-- **Every call happens exactly once.** -/
theorem perm (h : Interleaving ts l) : l.Perm ts.flatten := by
  induction h with
  | done h => rw [List.flatten_eq_nil_iff.mpr h]
  | @call ts₁ ts₂ x t l _ ih =>
    rw [List.flatten_append, List.flatten_cons] at ih ⊢
    exact (ih.cons x).trans List.perm_middle.symm

/-- **What is counted over the whole is counted in the threads.** -/
theorem countP (h : Interleaving ts l) (p : α → Bool) :
    l.countP p = (ts.map (List.countP p)).sum := by
  rw [h.perm.countP_eq, List.countP_flatten]

end Interleaving
