/-
  File:      SloFabric/Library/AnyOrder.lean
  Subject:   Machines whose operations are each about one part of the state.

  `subject o` is the part the operation `o` is about, and `Alike k s t` says that the states `s` and
  `t` are the same to the operations about `k`.

  * `Separate`: an operation is answered alike where its part is alike, and leaves it alike; the
    other parts it leaves alone;
  * `about`: the steps of a trace that are about a part;
  * `Run.untouched`, `Run.alike_at`: what becomes of a part is decided by the operations about it;
  * `Run.any_order`: so two runs whose operations differ in the order of those about different parts
    are answered alike, and end alike in every part.
-/
import SloFabric.Library.Runs

variable {S O A K : Type} [DecidableEq K] {step : S → O → Option (S × A)} {C : S → O → Prop}
  {subject : O → K} {Alike : K → S → S → Prop}

/-- The operations of the machine are each about one part of its states. -/
structure Separate (step : S → O → Option (S × A)) (C : S → O → Prop) (subject : O → K)
    (Alike : K → S → S → Prop) : Prop where
  equivalence : ∀ k, Equivalence (Alike k)
  answer : ∀ s t o s' t' a b, C s o → C t o → Alike (subject o) s t → step s o = some (s', a) →
    step t o = some (t', b) → a = b ∧ Alike (subject o) s' t'
  frame : ∀ s o s' a k, C s o → step s o = some (s', a) → k ≠ subject o → Alike k s s'

/-- The steps about a part. -/
def about (subject : O → K) (k : K) (tr : List (O × A)) : List (O × A) :=
  tr.filter fun x => decide (subject x.1 = k)

theorem about_append (k : K) (tr : List (O × A)) (x : O × A) :
    about subject k (tr ++ [x]) =
      if subject x.1 = k then about subject k tr ++ [x] else about subject k tr := by
  unfold about
  rw [List.filter_append]
  by_cases hx : subject x.1 = k
  · rw [if_pos hx, List.filter_cons_of_pos (by simpa using hx), List.filter_nil]
  · rw [if_neg hx, List.filter_cons_of_neg (by simpa using hx), List.filter_nil, List.append_nil]

/-- The operations about a part. -/
theorem about_ops (k : K) (tr : List (O × A)) :
    (about subject k tr).map (·.1) = (tr.map (·.1)).filter fun o => decide (subject o = k) := by
  rw [List.filter_map]
  rfl

namespace Run

/-- A part that no operation is about is left alone. -/
theorem untouched (hL : Separate step C subject Alike) {k : K} {s₀ s : S} {tr : List (O × A)}
    (h : Run step C s₀ tr s) (hnone : about subject k tr = []) : Alike k s₀ s := by
  induction h with
  | start => exact (hL.equivalence k).refl _
  | @next _ _ _ o a _ hc hs ih =>
    rw [about_append] at hnone
    split at hnone
    · cases List.append_eq_nil_iff.mp hnone |>.2
    · rename_i hk
      exact (hL.equivalence k).trans (ih hnone) (hL.frame _ o _ a k hc hs fun h => hk h.symm)

/-- **What becomes of a part** is decided by the operations about it. -/
theorem alike_at (hL : Separate step C subject Alike) {k : K} {s₀ t₀ s t : S}
    {tr tr' : List (O × A)} (h₀ : Alike k s₀ t₀) (h : Run step C s₀ tr s)
    (h' : Run step C t₀ tr' t)
    (hops : (about subject k tr).map (·.1) = (about subject k tr').map (·.1)) :
    about subject k tr = about subject k tr' ∧ Alike k s t := by
  have hE := hL.equivalence k
  induction h generalizing tr' t with
  | start =>
    have hnone : about subject k tr' = [] := List.map_eq_nil_iff.mp hops.symm
    exact ⟨hnone.symm, hE.trans h₀ (h'.untouched hL hnone)⟩
  | @next tr s₁ s o a _ hc hs ih =>
    rw [about_append] at hops ⊢
    by_cases hk : subject o = k
    · simp only [hk, if_true, List.map_append, List.map_cons, List.map_nil] at hops ⊢
      -- The other run has the operation too, with others behind it that are not about `k`.
      induction h' with
      | start => simp [about] at hops
      | @next tr' t₁ t o' b hrun' hc' hs' ih' =>
        rw [about_append] at hops ⊢
        by_cases hk' : subject o' = k
        · simp only [hk', if_true, List.map_append, List.map_cons, List.map_nil] at hops ⊢
          obtain ⟨hbefore, hlast⟩ := List.append_inj' hops rfl
          cases hlast
          obtain ⟨hsame, halike⟩ := ih hrun' hbefore
          obtain ⟨rfl, hnext⟩ := hL.answer _ _ o _ _ a b hc hc' (hk ▸ halike) hs hs'
          exact ⟨by rw [hsame], hk ▸ hnext⟩
        · simp only [hk', if_false] at hops ⊢
          obtain ⟨hsame, halike⟩ := ih' hops
          exact ⟨hsame, hE.trans halike
            (hL.frame _ o' _ b k hc' hs' fun h => hk' h.symm)⟩
    · simp only [hk, if_false] at hops ⊢
      obtain ⟨hsame, halike⟩ := ih h' hops
      exact ⟨hsame, hE.trans (hE.symm (hL.frame _ o _ a k hc hs fun h => hk h.symm)) halike⟩

/-- **The order of operations about different parts makes no difference.** -/
theorem any_order (hL : Separate step C subject Alike) {s₀ s t : S} {tr tr' : List (O × A)}
    (h : Run step C s₀ tr s) (h' : Run step C s₀ tr' t)
    (hops : ∀ k, (about subject k tr).map (·.1) = (about subject k tr').map (·.1)) (k : K) :
    about subject k tr = about subject k tr' ∧ Alike k s t :=
  h.alike_at hL ((hL.equivalence k).refl _) h' (hops k)

end Run
