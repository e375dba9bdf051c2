/-
  File:      SloFabric/Library/WholeParts.lean
  Subject:   Numbers that are cut to whole multiples one by one and then added up.

  * `wholes`, `cuts`: how often the divisor goes into each number, and what is left of each;
  * `wholes_cuts`: together they make the sum;
  * `mean_near_iff`: a mean taken of the wholes is within one of the mean of the numbers exactly if
    the cuts come to less than what is divided by.
-/
import Mathlib.Algebra.Order.BigOperators.Group.List
import Mathlib.Algebra.Order.Field.Basic
import Mathlib.Data.Rat.Cast.Order
import Mathlib.Tactic.FieldSimp
import Mathlib.Tactic.Linarith
import Mathlib.Tactic.Ring

variable {α : Type} (d : ℤ) (f : α → ℤ)

/-- How often `d` goes into each number. -/
def wholes (l : List α) : ℤ := (l.map fun x => f x / d).sum

/-- What is left of each. -/
def cuts (l : List α) : ℤ := (l.map fun x => f x % d).sum

variable {d f}

@[simp] theorem wholes_push (l : List α) (x : α) :
    wholes d f (l ++ [x]) = wholes d f l + f x / d := by
  simp [wholes]

theorem cuts_nonneg (hd : 0 < d) (l : List α) : 0 ≤ cuts d f l := by
  refine List.sum_nonneg fun y hy => ?_
  obtain ⟨x, _, rfl⟩ := List.mem_map.mp hy
  exact Int.emod_nonneg _ hd.ne'

/-- **Wholes and cuts make the sum.** -/
theorem wholes_cuts (l : List α) : d * wholes d f l + cuts d f l = (l.map f).sum := by
  induction l with
  | nil => simp [wholes, cuts]
  | cons x l ih =>
    have hx := Int.mul_ediv_add_emod (f x) d
    have hw : wholes d f (x :: l) = f x / d + wholes d f l := rfl
    have hc : cuts d f (x :: l) = f x % d + cuts d f l := rfl
    rw [hw, hc, List.map_cons, List.sum_cons, mul_add, ← ih]
    linarith

/-- **When the mean of the wholes is near the mean.** -/
theorem mean_near_iff (hd : 0 < d) {w : ℤ} (hw : 0 < w) (l : List α) :
    |(wholes d f l : ℚ) / w * d - (l.map f).sum / w| < 1 ↔ cuts d f l < w := by
  have hwq : (0 : ℚ) < w := by exact_mod_cast hw
  have hdiff : (wholes d f l : ℚ) / w * d - ((l.map f).sum : ℤ) / w = -(cuts d f l / w) := by
    have hsum := wholes_cuts (d := d) (f := f) l
    rw [← hsum]
    push_cast
    field_simp
    ring
  have hcuts : (0 : ℚ) ≤ cuts d f l := by exact_mod_cast cuts_nonneg hd l
  rw [hdiff, abs_neg, abs_of_nonneg (div_nonneg hcuts hwq.le), div_lt_one₀ hwq]
  exact_mod_cast Iff.rfl
