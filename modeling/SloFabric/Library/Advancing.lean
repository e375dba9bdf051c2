/-
  File:      SloFabric/Library/Advancing.lean
  Subject:   Stored versions that only advance.

  A machine stores a version under each key; some of its steps accept a new version for a key.

  * `Advances`: what one step may do to the versions -- the accepted one takes the place of an
    older one, and every other key keeps its version;
  * `Run.accepted_le`: if all steps do, no version falls behind one that was accepted in the run.
-/
import SloFabric.Library.Runs
import Mathlib.Order.Basic

variable {S O A K V : Type}

/-- `new` are the versions `old`, but for the accepted one, which is newer than what it replaces. -/
structure Advances [LT V] (accepted : Option (K × V)) (old new : K → Option V) : Prop where
  replaced : ∀ x, accepted = some x → new x.1 = some x.2 ∧ ∀ v, old x.1 = some v → v < x.2
  kept : ∀ k, (∀ x, accepted = some x → k ≠ x.1) → new k = old k

namespace Advances

theorem refl [LT V] (old : K → Option V) : Advances none old old :=
  ⟨nofun, fun _ _ => rfl⟩

theorem of_eq [LT V] {old new : K → Option V} (h : new = old) : Advances none old new :=
  h ▸ refl old

variable [DecidableEq K] [Preorder V] {accepted : Option (K × V)} {old new : K → Option V}

/-- A key's version does not go back. -/
theorem le (h : Advances accepted old new) {k : K} {v : V} (hv : old k = some v) :
    ∃ v', new k = some v' ∧ v ≤ v' := by
  cases haccepted : accepted with
  | none =>
    rw [haccepted] at h
    exact ⟨v, (h.kept k nofun).trans hv, le_rfl⟩
  | some x =>
    by_cases hk : k = x.1
    · obtain ⟨hnew, hold⟩ := h.replaced x haccepted
      subst hk
      exact ⟨x.2, hnew, (hold v hv).le⟩
    · refine ⟨v, ?_, le_rfl⟩
      rw [h.kept k fun y hy => ?_, hv]
      rw [haccepted] at hy
      cases hy
      exact hk

end Advances

/-- **No version falls behind an accepted one**, where every step of the run advances them. -/
theorem Run.accepted_le [DecidableEq K] [Preorder V] {step : S → O → Option (S × A)}
    {C : S → O → Prop} {accepted : O × A → Option (K × V)} {version : S → K → Option V}
    (hstep : ∀ s o s' a, C s o → step s o = some (s', a) →
      Advances (accepted (o, a)) (version s) (version s')) {s₀ s : S} {tr : List (O × A)}
    (h : Run step C s₀ tr s) :
    ∀ x ∈ tr.filterMap accepted, ∃ v, version s x.1 = some v ∧ x.2 ≤ v := by
  refine h.history (I := fun tr s => ∀ x ∈ tr.filterMap accepted, ∃ v, version s x.1 = some v ∧
    x.2 ≤ v) (fun x hx => nomatch hx) fun tr s o s' a hs hc hnext x hx => ?_
  have hadv := hstep s o s' a hc hnext
  rw [List.filterMap_append] at hx
  rcases List.mem_append.mp hx with hx | hx
  · obtain ⟨v, hv, hle⟩ := hs x hx
    obtain ⟨v', hv', hle'⟩ := hadv.le hv
    exact ⟨v', hv', hle.trans hle'⟩
  · have hone : accepted (o, a) = some x := by
      rw [List.filterMap_cons, List.filterMap_nil] at hx
      cases haccepted : accepted (o, a) with
      | none => rw [haccepted] at hx; cases hx
      | some y =>
        rw [haccepted] at hx
        rw [List.mem_singleton.mp hx]
    exact ⟨x.2, (hadv.replaced x hone).1, le_rfl⟩
