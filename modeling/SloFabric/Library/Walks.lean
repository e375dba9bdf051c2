/-
  File:      SloFabric/Library/Walks.lean
  Subject:   Histories of a status that changes step by step.

  `Walk R a t`: the list `t` of statuses starts at `a`, and each is followed by one that `R`
  allows after it.

  * `Walk.single`, `Walk.snoc`: a walk starts, and goes on;
  * `Walk.closed`: statuses that are never left are not left;
  * `Walk.reached`: what a status comes from stands right before it;
  * `noteChange`: note the present status, unless it was noted last.
-/
import Mathlib.Data.List.Chain

variable {α : Type} {R : α → α → Prop} {a : α}

/-- The statuses `t` start at `a` and follow each other as `R` allows. -/
structure Walk (R : α → α → Prop) (a : α) (t : List α) : Prop where
  start : t.head? = some a
  legal : t.IsChain R

namespace Walk

theorem single (R : α → α → Prop) (a : α) : Walk R a [a] := ⟨rfl, List.isChain_singleton a⟩

theorem snoc {t : List α} {x y : α} (h : Walk R a t) (hlast : t.getLast? = some x) (hr : R x y) :
    Walk R a (t ++ [y]) := by
  refine ⟨?_, List.isChain_append.mpr ⟨h.legal, List.isChain_singleton y, ?_⟩⟩
  · rw [List.head?_append, h.start]
    rfl
  · intro x' hx' y' hy'
    rw [hlast] at hx'
    cases hx'
    cases hy'
    exact hr

/-- **What is never left is not left.** -/
theorem closed {E : α → Prop} (hE : ∀ x y, R x y → E x → E y) {p q : List α} {x : α}
    (h : Walk R a (p ++ x :: q)) (hx : E x) : ∀ y ∈ q, E y := by
  have hchain : (x :: q).IsChain R := h.legal.right_of_append
  clear h
  induction q generalizing x with
  | nil => simp
  | cons y q ih =>
    obtain ⟨hxy, hrest⟩ := List.isChain_cons_cons.mp hchain
    have hy : E y := hE x y hxy hx
    intro z hz
    rcases List.mem_cons.mp hz with rfl | hz
    · exact hy
    · exact ih hy hrest z hz

/-- **What a status comes from** stands right before it. -/
theorem reached {p q : List α} {y : α} (h : Walk R a (p ++ y :: q)) (hne : y ≠ a) :
    ∃ p' x, p = p' ++ [x] ∧ R x y ∧ Walk R a (p' ++ [x]) := by
  rcases List.eq_nil_or_concat' p with rfl | ⟨p', x, rfl⟩
  · exact absurd (Option.some.inj h.start) hne
  · have hsplit := List.isChain_append.mp h.legal
    refine ⟨p', x, rfl, hsplit.2.2 x (by simp) y (by simp), ?_, hsplit.1⟩
    rw [← h.start]
    cases p' <;> rfl

end Walk

/-- Note the present status, unless it was noted last. -/
def noteChange [DecidableEq α] (t : List α) (x : α) : List α :=
  if t.getLast? = some x then t else t ++ [x]

theorem getLast?_noteChange [DecidableEq α] (t : List α) (x : α) :
    (noteChange t x).getLast? = some x := by
  unfold noteChange
  split
  · assumption
  · simp
