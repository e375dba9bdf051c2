/-
  File:      SloFabric/Library/Pointwise.lean
  Subject:   Lists whose entries are related one by one.

  * `forall₂_dropWhile`, `forall₂_getLast?`: what is dropped from related lists, and their last
    entries, where the relation decides what is asked;
  * `foldl_mono`: a fold that grows in both arguments grows with the entries of the list;
  * `IsKthSmallest.pointwise`: so does the k-th smallest entry.
-/
import SloFabric.Library.OrderStatistics
import Mathlib.Data.List.Forall2

variable {α β : Type}

section Lists

variable {R : α → β → Prop} {l : List α} {l' : List β}

/-- The same entries are dropped. -/
theorem forall₂_dropWhile {p : α → Bool} {q : β → Bool} (hpq : ∀ a b, R a b → p a = q b)
    (h : List.Forall₂ R l l') : List.Forall₂ R (l.dropWhile p) (l'.dropWhile q) := by
  induction h with
  | nil => exact .nil
  | @cons a b l l' hab hl ih =>
    rw [List.dropWhile_cons, List.dropWhile_cons, hpq a b hab]
    split
    · exact ih
    · exact .cons hab hl

/-- The last entries are related. -/
theorem forall₂_getLast? (h : List.Forall₂ R l l') : Option.Rel R l.getLast? l'.getLast? := by
  induction h with
  | nil => exact .none
  | @cons a b l l' hab _ ih =>
    rw [List.getLast?_cons, List.getLast?_cons]
    generalize l.getLast? = x at ih
    generalize l'.getLast? = y at ih
    cases ih with
    | none => exact .some hab
    | some h => exact .some h

/-- An entry of the first list has a companion in the second. -/
theorem forall₂_mem (h : List.Forall₂ R l l') {a : α} (ha : a ∈ l) : ∃ b ∈ l', R a b := by
  induction h with
  | nil => exact absurd ha List.not_mem_nil
  | @cons x y l l' hxy _ ih =>
    rcases List.mem_cons.mp ha with rfl | ha
    · exact ⟨y, List.mem_cons_self, hxy⟩
    · obtain ⟨b, hb, hab⟩ := ih ha
      exact ⟨b, List.mem_cons_of_mem _ hb, hab⟩

end Lists

/-- **A fold grows with the list.** -/
theorem foldl_mono [Preorder α] [Preorder β] {f : β → α → β}
    (hf : ∀ b b' a a', b ≤ b' → a ≤ a' → f b a ≤ f b' a') {l l' : List α}
    (h : List.Forall₂ (· ≤ ·) l l') {b b' : β} (hb : b ≤ b') : l.foldl f b ≤ l'.foldl f b' := by
  induction h generalizing b b' with
  | nil => exact hb
  | cons ha _ ih => exact ih (hf _ _ _ _ hb ha)

/-- **The `k`-th smallest entry grows with the list.** -/
theorem IsKthSmallest.pointwise [LinearOrder α] {k : Nat} {l l' : List α} {x x' : α}
    (hx : IsKthSmallest k l x) (hx' : IsKthSmallest k l' x') (h : List.Forall₂ (· ≤ ·) l l') :
    x ≤ x' := by
  have hcount : l'.countP (fun y => decide (y ≤ x')) ≤ l.countP fun y => decide (y ≤ x') := by
    clear hx hx'
    induction h with
    | nil => exact Nat.le_refl 0
    | @cons a a' l l' ha _ ih =>
      rw [List.countP_cons, List.countP_cons]
      by_cases ha' : a' ≤ x'
      · rw [if_pos (decide_eq_true ha'), if_pos (decide_eq_true (ha.trans ha'))]
        exact Nat.succ_le_succ ih
      · rw [if_neg (by simpa using ha')]
        exact ih.trans (Nat.le_add_right _ _)
  by_contra hlt
  have hsum := IsKthSmallest.countP_add_le (not_le.mp hlt) l
  have hbelow := hx'.below
  have habove := hx.above
  omega
