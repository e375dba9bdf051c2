/-
  File:      SloFabric/Library/Erasure.lean
  Subject:   A run beside the same run without some of its operations.

  `Beside R p tr tr'`: the trace `tr'` has the operations of `tr` that pass `p`, in order, and
  answers that `R` relates to those of `tr`.

  * `Run.beside`: where two machines are related and stay so, whether an operation is taken by
    both or, if it does not pass, by the first alone, there is such a run of the second beside
    every run of the first.
-/
import SloFabric.Library.Runs
import Mathlib.Data.List.Forall2

variable {S T O A B : Type}

/-- One trace beside another one that lacks the operations that do not pass. -/
def Beside (R : O → A → B → Prop) (p : O → Bool) (tr : List (O × A)) (tr' : List (O × B)) :
    Prop :=
  List.Forall₂ (fun x y => x.1 = y.1 ∧ R x.1 x.2 y.2) (tr.filter fun x => p x.1) tr'

namespace Beside

variable {R : O → A → B → Prop} {p : O → Bool} {tr : List (O × A)} {tr' : List (O × B)}

theorem start : Beside R p [] [] := .nil

theorem pass (h : Beside R p tr tr') {o : O} {a : A} {b : B} (ho : p o = true) (hab : R o a b) :
    Beside R p (tr ++ [(o, a)]) (tr' ++ [(o, b)]) := by
  have hlast : [(o, a)].filter (fun x => p x.1) = [(o, a)] := List.filter_cons_of_pos ho
  rw [Beside, List.filter_append, hlast]
  exact List.rel_append h (.cons ⟨rfl, hab⟩ .nil)

theorem leaveOut (h : Beside R p tr tr') {o : O} (a : A) (ho : p o = false) :
    Beside R p (tr ++ [(o, a)]) tr' := by
  have hlast : [(o, a)].filter (fun x => p x.1) = [] :=
    List.filter_cons_of_neg (Bool.eq_false_iff.mp ho)
  rw [Beside, List.filter_append, hlast, List.append_nil]
  exact h

end Beside

/-- **The rule**: a relation `I` between the states that both kinds of step keep. -/
theorem Run.beside {step : S → O → Option (S × A)} {step' : T → O → Option (T × B)}
    {C : S → O → Prop} {R : O → A → B → Prop} {p : O → Bool} {I : S → T → Prop} {s₀ s : S} {t₀ : T}
    {tr : List (O × A)} (h : Run step C s₀ tr s) (h₀ : I s₀ t₀)
    (hpass : ∀ s t o s' a, I s t → C s o → p o = true → step s o = some (s', a) →
      ∃ t' b, step' t o = some (t', b) ∧ I s' t' ∧ R o a b)
    (homit : ∀ s t o s' a, I s t → C s o → p o = false → step s o = some (s', a) → I s' t) :
    ∃ t tr', Run step' (fun _ _ => True) t₀ tr' t ∧ I s t ∧ Beside R p tr tr' := by
  induction h with
  | start => exact ⟨t₀, [], .start, h₀, .start⟩
  | @next _ _ _ o a _ hc hs ih =>
    obtain ⟨t, tr', hrun, hi, hbeside⟩ := ih
    cases ho : p o with
    | true =>
      obtain ⟨t', b, ht, hi', hab⟩ := hpass _ t o _ a hi hc ho hs
      exact ⟨t', _, .next hrun trivial ht, hi', hbeside.pass ho hab⟩
    | false => exact ⟨t, tr', hrun, homit _ t o _ a hi hc ho hs, hbeside.leaveOut a ho⟩
