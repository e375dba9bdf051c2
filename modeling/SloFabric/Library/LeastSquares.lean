/-
  File:      SloFabric/Library/LeastSquares.lean
  Subject:   The line of least squares through finitely many points of an ordered field.

  * `residual a b l`: the squared error of the line `y = a + b * x`; `BestLine a b l`: it has the
    least one, and no other line has it;
  * `spread`, `lineSlope`, `intercept`: the closed form, from the sums over the points;
  * `scaled_residual`: **the square completed**: what an arbitrary line has more than that one;
  * `bestLine_iff`: there is a best line exactly where the spread is not zero, and it is that one;
  * `spread_nonneg`, `same_of_spread`: the spread is zero only where all points are above one;
  * `bestLine_shift`: moving the points moves the line, and leaves its slope.
-/
import Mathlib.Algebra.BigOperators.Group.List.Basic
import Mathlib.Algebra.Order.Field.Basic
import Mathlib.Tactic.FieldSimp
import Mathlib.Tactic.Linarith
import Mathlib.Tactic.LinearCombination
import Mathlib.Tactic.Positivity
import Mathlib.Tactic.Ring

namespace LeastSquares

variable {F : Type} [Field F]

/-! ## 1. The sums -/

def sumX (l : List (F × F)) : F := (l.map (·.1)).sum

def sumY (l : List (F × F)) : F := (l.map (·.2)).sum

def sumXX (l : List (F × F)) : F := (l.map fun p => p.1 * p.1).sum

def sumXY (l : List (F × F)) : F := (l.map fun p => p.1 * p.2).sum

def sumYY (l : List (F × F)) : F := (l.map fun p => p.2 * p.2).sum

/-- How far the points lie apart, as the denominator of the slope. -/
def spread (l : List (F × F)) : F := l.length * sumXX l - sumX l * sumX l

def lineSlope (l : List (F × F)) : F := (l.length * sumXY l - sumX l * sumY l) / spread l

def intercept (l : List (F × F)) : F := (sumY l - lineSlope l * sumX l) / l.length

/-- The squared error of the line `y = a + b * x`. -/
def residual (a b : F) (l : List (F × F)) : F := (l.map fun p => (p.2 - (a + b * p.1)) ^ 2).sum

theorem residual_expand (a b : F) : ∀ l : List (F × F), residual a b l =
    sumYY l - 2 * a * sumY l - 2 * b * sumXY l + l.length * a ^ 2 + 2 * a * b * sumX l +
      b ^ 2 * sumXX l
  | [] => by simp [residual, sumYY, sumY, sumXY, sumX, sumXX]
  | p :: l => by
      have ih := residual_expand a b l
      simp only [residual, sumYY, sumY, sumXY, sumX, sumXX, List.map_cons, List.sum_cons,
        List.length_cons, Nat.cast_add, Nat.cast_one] at ih ⊢
      rw [ih]
      ring

theorem sum_distances (n c : F) : ∀ l : List (F × F), (l.map fun p => (n * p.1 - c) ^ 2).sum =
    n ^ 2 * sumXX l - 2 * n * c * sumX l + l.length * c ^ 2
  | [] => by simp [sumXX, sumX]
  | p :: l => by
      have ih := sum_distances n c l
      simp only [sumXX, sumX, List.map_cons, List.sum_cons, List.length_cons, Nat.cast_add,
        Nat.cast_one] at ih ⊢
      rw [ih]
      ring

/-- The spread is, up to a factor, the sum of the squared distances from the mean. -/
theorem scaled_spread (l : List (F × F)) :
    l.length * spread l = (l.map fun p => (l.length * p.1 - sumX l) ^ 2).sum := by
  rw [sum_distances, spread]
  ring

/-- **The square completed.** -/
theorem scaled_residual [CharZero F] {l : List (F × F)} (hl : l ≠ []) (hs : spread l ≠ 0)
    (a b : F) : l.length * (residual a b l - residual (intercept l) (lineSlope l) l) =
      (l.length * (a - intercept l) + (b - lineSlope l) * sumX l) ^ 2 +
        spread l * (b - lineSlope l) ^ 2 := by
  have hn : (l.length : F) ≠ 0 := Nat.cast_ne_zero.mpr (List.length_pos_iff.mpr hl).ne'
  -- the normal equations
  have hslope : lineSlope l * spread l = l.length * sumXY l - sumX l * sumY l := by
    rw [lineSlope, div_mul_cancel₀ _ hs]
  have hintercept : intercept l * l.length = sumY l - lineSlope l * sumX l := by
    rw [intercept, div_mul_cancel₀ _ hn]
  rw [residual_expand, residual_expand]
  generalize intercept l = α at *
  generalize lineSlope l = β at *
  rw [spread] at hslope ⊢
  linear_combination 2 * (l.length * (a - α) + (b - β) * sumX l) * hintercept +
    2 * (b - β) * hslope

/-! ## 2. The best line -/

variable [LinearOrder F] [IsStrictOrderedRing F]

/-- No line has a smaller error, and every other line has a larger one. -/
def BestLine (a b : F) (l : List (F × F)) : Prop :=
  ∀ a' b', (a', b') ≠ (a, b) → residual a b l < residual a' b' l

theorem sum_sq_nonneg {α : Type} (f : α → F) : ∀ l : List α, 0 ≤ (l.map fun x => f x ^ 2).sum
  | [] => le_refl _
  | x :: l => by
      rw [List.map_cons, List.sum_cons]
      exact add_nonneg (sq_nonneg _) (sum_sq_nonneg f l)

theorem sum_sq_eq_zero {α : Type} (f : α → F) : ∀ {l : List α},
    (l.map fun x => f x ^ 2).sum = 0 → ∀ x ∈ l, f x = 0
  | [], _, _, hx => absurd hx List.not_mem_nil
  | y :: l, h, x, hx => by
      rw [List.map_cons, List.sum_cons] at h
      have hy := sq_nonneg (f y)
      have hl := sum_sq_nonneg f l
      rcases List.mem_cons.mp hx with rfl | hx
      · exact pow_eq_zero_iff two_ne_zero |>.mp (by linarith)
      · exact sum_sq_eq_zero f (by linarith) x hx

theorem spread_nonneg {l : List (F × F)} (hl : l ≠ []) : 0 ≤ spread l := by
  have hn : (0 : F) < l.length := Nat.cast_pos.mpr (List.length_pos_iff.mpr hl)
  have hsum := sum_sq_nonneg (fun p : F × F => l.length * p.1 - sumX l) l
  rw [← scaled_spread] at hsum
  exact nonneg_of_mul_nonneg_right hsum hn

/-- Points without spread are all above one. -/
theorem same_of_spread {l : List (F × F)} (h : spread l = 0) :
    ∀ p ∈ l, l.length * p.1 = sumX l := by
  intro p hp
  have hsum := scaled_spread l
  rw [h, mul_zero] at hsum
  exact sub_eq_zero.mp (sum_sq_eq_zero (fun p : F × F => l.length * p.1 - sumX l) hsum.symm p hp)

/-- **The best line.** It exists exactly where the points do not all lie above one, and the closed
    form is it. -/
theorem bestLine_iff {l : List (F × F)} (hl : l ≠ []) (a b : F) :
    BestLine a b l ↔ spread l ≠ 0 ∧ a = intercept l ∧ b = lineSlope l := by
  have hn : (0 : F) < l.length := Nat.cast_pos.mpr (List.length_pos_iff.mpr hl)
  constructor
  · intro hbest
    have hs : spread l ≠ 0 := by
      intro hzero
      -- a line that is turned about the one abscissa of all points has the same error
      have hsame : residual (a - sumX l / l.length) (b + 1) l = residual a b l := by
        unfold residual
        congr 1
        refine List.map_congr_left fun p hp => ?_
        have hp : p.1 = sumX l / l.length := by
          rw [eq_div_iff hn.ne', mul_comm]
          exact same_of_spread hzero p hp
        rw [hp]
        ring
      have hlt := hbest (a - sumX l / l.length) (b + 1) (by simp)
      rw [hsame] at hlt
      exact lt_irrefl _ hlt
    refine ⟨hs, ?_⟩
    by_contra hne
    have hne' : (intercept l, lineSlope l) ≠ (a, b) := fun e => hne ⟨(congrArg Prod.fst e).symm,
      (congrArg Prod.snd e).symm⟩
    have hlt := hbest _ _ hne'
    have hsq := scaled_residual hl hs a b
    have hpos : 0 ≤ spread l * (b - lineSlope l) ^ 2 := mul_nonneg (spread_nonneg hl) (sq_nonneg _)
    have hsq' := sq_nonneg (l.length * (a - intercept l) + (b - lineSlope l) * sumX l)
    have hneg : l.length * (residual a b l - residual (intercept l) (lineSlope l) l) < 0 :=
      mul_neg_of_pos_of_neg hn (sub_neg.mpr hlt)
    linarith
  · rintro ⟨hs, rfl, rfl⟩ a' b' hne
    have hpos : 0 < spread l := lt_of_le_of_ne (spread_nonneg hl) hs.symm
    have hsq := scaled_residual hl hs a' b'
    have hterm : 0 < (l.length * (a' - intercept l) + (b' - lineSlope l) * sumX l) ^ 2 +
        spread l * (b' - lineSlope l) ^ 2 := by
      by_cases hb : b' = lineSlope l
      · have ha : a' - intercept l ≠ 0 := fun e => hne (by rw [sub_eq_zero.mp e, hb])
        rw [hb, sub_self, zero_mul, add_zero, zero_pow two_ne_zero, mul_zero, add_zero]
        exact sq_pos_of_ne_zero (mul_ne_zero hn.ne' ha)
      · have hb' := mul_pos hpos (sq_pos_of_ne_zero (sub_ne_zero.mpr hb))
        have hrest := sq_nonneg (l.length * (a' - intercept l) + (b' - lineSlope l) * sumX l)
        linarith
    rw [← hsq] at hterm
    exact sub_pos.mp ((mul_pos_iff_of_pos_left hn).mp hterm)

omit [IsStrictOrderedRing F] in
/-- Moving the points to the side moves the line with them. -/
theorem bestLine_shift (c a b : F) (l : List (F × F)) :
    BestLine a b (l.map fun p => (p.1 - c, p.2)) ↔ BestLine (a - b * c) b l := by
  have hshift (a b : F) :
      residual a b (l.map fun p => (p.1 - c, p.2)) = residual (a - b * c) b l := by
    unfold residual
    rw [List.map_map]
    congr 1
    refine List.map_congr_left fun p _ => ?_
    simp only [Function.comp_apply]
    ring
  unfold BestLine
  simp only [hshift]
  constructor
  · intro h a' b' hne
    have hlt := h (a' + b' * c) b' fun e => hne ?_
    · rwa [add_sub_cancel_right] at hlt
    · obtain ⟨ha, rfl⟩ := Prod.mk.inj e
      rw [← ha, add_sub_cancel_right]
  · intro h a' b' hne
    refine h _ _ fun e => hne ?_
    obtain ⟨ha, rfl⟩ := Prod.mk.inj e
    rw [sub_left_injective.eq_iff.mp ha]

end LeastSquares
