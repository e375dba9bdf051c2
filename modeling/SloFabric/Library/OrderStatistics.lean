/-
  File:      SloFabric/Library/OrderStatistics.lean
  Subject:   The k-th smallest entry of a list.

  * `IsKthSmallest`: an entry with at least `k` entries that are not greater, and at least
    `n - k + 1` that are not smaller;
  * `isKthSmallest_sorted`: the sorted list has it at place `k - 1`;
  * `IsKthSmallest.mono`, `IsKthSmallest.perm`: it grows with `k`, and the order of the list does
    not matter;
  * `IsKthSmallest.first`, `IsKthSmallest.last`: the least and the greatest entry.
-/
import Mathlib.Data.List.Sort

variable {α : Type} [LinearOrder α]

/-- `x` is the `k`-th smallest entry of the list, counted from `1`. -/
structure IsKthSmallest (k : Nat) (l : List α) (x : α) : Prop where
  mem : x ∈ l
  below : k ≤ l.countP fun y => decide (y ≤ x)
  above : l.length + 1 ≤ l.countP (fun y => decide (x ≤ y)) + k

namespace IsKthSmallest

/-- No entry is both at most `x` and at least a greater `y`. -/
theorem countP_add_le {x y : α} (hxy : x < y) (l : List α) :
    l.countP (fun z => decide (z ≤ x)) + l.countP (fun z => decide (y ≤ z)) ≤ l.length := by
  induction l with
  | nil => exact Nat.le_refl 0
  | cons z l ih =>
    rw [List.countP_cons, List.countP_cons, List.length_cons]
    by_cases hz : z ≤ x
    · have hnot : ¬y ≤ z := not_le.mpr (hz.trans_lt hxy)
      simp only [hz, hnot, decide_true, decide_false, if_true, Bool.false_eq_true, if_false]
      omega
    · simp only [hz, decide_false, Bool.false_eq_true, if_false]
      split <;> omega

/-- **It grows with `k`.** -/
theorem mono {k k' : Nat} {l : List α} {x y : α} (hx : IsKthSmallest k l x)
    (hy : IsKthSmallest k' l y) (hk : k ≤ k') : x ≤ y := by
  by_contra hlt
  have hsum := countP_add_le (not_le.mp hlt) l
  have hbelow := hy.below
  have habove := hx.above
  omega

/-- **The order of the list does not matter.** -/
theorem perm {k : Nat} {l l' : List α} {x : α} (h : IsKthSmallest k l x) (hl : l.Perm l') :
    IsKthSmallest k l' x where
  mem := hl.mem_iff.mp h.mem
  below := hl.countP_eq _ ▸ h.below
  above := hl.countP_eq _ ▸ hl.length_eq ▸ h.above

/-- The first one is the least. -/
theorem first {l : List α} {x : α} (h : IsKthSmallest 1 l x) : ∀ y ∈ l, x ≤ y := by
  have hle : l.countP (fun y => decide (x ≤ y)) = l.length :=
    Nat.le_antisymm List.countP_le_length (by have habove := h.above; omega)
  exact fun y hy => of_decide_eq_true (List.countP_eq_length.mp hle y hy)

/-- The last one is the greatest. -/
theorem last {l : List α} {x : α} (h : IsKthSmallest l.length l x) : ∀ y ∈ l, y ≤ x := by
  have hle : l.countP (fun y => decide (y ≤ x)) = l.length :=
    Nat.le_antisymm List.countP_le_length h.below
  exact fun y hy => of_decide_eq_true (List.countP_eq_length.mp hle y hy)

end IsKthSmallest

/-- In a list in order, the entry at place `i` is the `i + 1`-th smallest. -/
theorem isKthSmallest_getElem {s : List α} (hs : s.Pairwise (· ≤ ·)) {i : Nat} {x : α}
    (h : s[i]? = some x) : IsKthSmallest (i + 1) s x := by
  obtain ⟨front, back, rfl, hlen⟩ : ∃ front back, s = front ++ x :: back ∧ front.length = i := by
    obtain ⟨hi, rfl⟩ := List.getElem?_eq_some_iff.mp h
    refine ⟨s.take i, s.drop (i + 1), ?_, List.length_take_of_le hi.le⟩
    rw [List.getElem_cons_drop, List.take_append_drop]
  obtain ⟨_, hrest, hcross⟩ := List.pairwise_append.mp hs
  have hback := (List.pairwise_cons.mp hrest).1
  have hfront : front.countP (fun y => decide (y ≤ x)) = front.length :=
    List.countP_eq_length.mpr fun y hy => decide_eq_true (hcross y hy x List.mem_cons_self)
  have habove : back.countP (fun y => decide (x ≤ y)) = back.length :=
    List.countP_eq_length.mpr fun y hy => decide_eq_true (hback y hy)
  refine ⟨by simp, ?_, ?_⟩
  · rw [List.countP_append, hfront, List.countP_cons, if_pos (decide_eq_true le_rfl)]
    omega
  · rw [List.countP_append, List.countP_cons, if_pos (decide_eq_true le_rfl), habove,
      List.length_append, List.length_cons]
    omega

/-- **The sorted list has the `k`-th smallest entry at place `k - 1`.** -/
theorem isKthSmallest_sorted {l : List α} {i : Nat} {x : α}
    (h : (l.insertionSort (· ≤ ·))[i]? = some x) : IsKthSmallest (i + 1) l x :=
  (isKthSmallest_getElem (List.pairwise_insertionSort (· ≤ ·) l) h).perm
    (List.perm_insertionSort (· ≤ ·) l)
