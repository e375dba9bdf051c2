/-
  File:      SloFabric/Library/Pairs.lean
  Subject:   Two runs of one machine, taken step by step.

  * `both`: the machine of pairs of states; an operation of it is a pair of operations;
  * `Run.agree`: where the two sides start alike and the condition makes every step treat them
    alike, they stay alike and answer alike.
-/
import SloFabric.Library.Runs

variable {S O A : Type} {step : S → O → Option (S × A)} {C : S × S → O × O → Prop}

/-- A step of both sides. -/
def both (step : S → O → Option (S × A)) (p : S × S) (o : O × O) :
    Option ((S × S) × (A × A)) :=
  (step p.1 o.1).bind fun x => (step p.2 o.2).map fun y => ((x.1, y.1), (x.2, y.2))

theorem both_cases {p p' : S × S} {o : O × O} {a : A × A} (h : both step p o = some (p', a)) :
    step p.1 o.1 = some (p'.1, a.1) ∧ step p.2 o.2 = some (p'.2, a.2) := by
  obtain ⟨x, hx, h⟩ := Option.bind_eq_some_iff.mp h
  obtain ⟨y, hy, h⟩ := Option.map_eq_some_iff.mp h
  cases h
  exact ⟨hx, hy⟩

namespace Run

/-- **Two runs that are treated alike stay alike.** -/
theorem agree {s₀ : S} {p : S × S} {tr : List ((O × O) × (A × A))}
    (h : Run (both step) C (s₀, s₀) tr p)
    (hC : ∀ s o p' a, C (s, s) o → both step (s, s) o = some (p', a) →
      p'.1 = p'.2 ∧ a.1 = a.2) :
    p.1 = p.2 ∧ ∀ x ∈ tr, x.2.1 = x.2.2 := by
  induction h with
  | start => exact ⟨rfl, fun x hx => absurd hx List.not_mem_nil⟩
  | @next tr p p' o a _ hc hs ih =>
    obtain ⟨s, t⟩ := p
    obtain ⟨heq, hall⟩ := ih
    simp only at heq
    subst heq
    obtain ⟨hstate, hanswer⟩ := hC s o p' a hc hs
    refine ⟨hstate, fun x hx => ?_⟩
    rcases List.mem_append.mp hx with hx | hx
    · exact hall x hx
    · rw [List.mem_singleton.mp hx]
      exact hanswer

end Run
