/-
  File:      SloFabric/Budget.lean
  Subject:   Error budgets: a finite allowance over a window, consumed in whole units.

  `consumed` and `window` are never negative; the two facts are fields, so every operation
  proves that it keeps them and no later proof has to.
-/
import SloFabric.Units

namespace SloFabric

inductive BudgetState where
  | healthy | nearLimit | exhausted
  deriving DecidableEq, Repr

inductive BurnRate where
  | normal | elevated | critical
  deriving DecidableEq, Repr

@[ext] structure ErrorBudget where
  total : Count
  consumed : Count
  window : Duration
  windowStart : Duration
  consumed_nonneg : 0 ≤ consumed
  window_nonneg : 0 ≤ window
  deriving DecidableEq

namespace ErrorBudget

theorem nonneg_iff {a : Int64} : 0 ≤ a ↔ 0 ≤ a.toInt := by
  rw [Int64.le_iff_toInt_le, Int64.toInt_zero]

/-- The constructor: nothing consumed, a negative window becomes `0`. -/
def make (total : Count) (window : Duration) : ErrorBudget where
  total := total
  consumed := 0
  window := if window < 0 then 0 else window
  windowStart := 0
  consumed_nonneg := Int64.le_refl 0
  window_nonneg := by
    split
    · exact Int64.le_refl 0
    · rename_i h; exact Int64.not_lt.mp h

/-- `consumed + 1`, stopping at the largest 64-bit integer. -/
def bump (c : Count) : Count := if c < Int64.maxValue then c + 1 else c

/-- `consumed + amount` for a positive amount that fits, else `consumed`. -/
def charge (c amount : Count) : Count :=
  if 0 < amount ∧ c ≤ Int64.maxValue - amount then c + amount else c

theorem toInt_max_sub {a : Int64} (h : 0 ≤ a.toInt) :
    (Int64.maxValue - a).toInt = 2 ^ 63 - 1 - a.toInt := by
  have hm := Int64.toInt_maxValue
  have := a.toInt_lt
  rw [toInt_sub_of_range (by omega) (by omega), hm]

theorem bump_toInt {c : Count} (h : 0 ≤ c) : (bump c).toInt = min (2 ^ 63 - 1) (c.toInt + 1) := by
  have hlow := nonneg_iff.mp h
  have hlt := c.toInt_lt
  have hm := Int64.toInt_maxValue
  unfold bump
  split
  · rename_i hfits
    rw [Int64.lt_iff_toInt_lt, hm] at hfits
    have h1 := Int64.toInt_one
    rw [toInt_add_of_range (by omega) (by omega)]
    omega
  · rename_i hfull
    rw [Int64.lt_iff_toInt_lt, hm] at hfull
    omega

theorem bump_nonneg {c : Count} (h : 0 ≤ c) : 0 ≤ bump c := by
  have hlow := nonneg_iff.mp h
  rw [nonneg_iff, bump_toInt h]
  omega

theorem charge_toInt {c : Count} (h : 0 ≤ c) (amount : Count) :
    (charge c amount).toInt =
      if c.toInt + max 0 amount.toInt < 2 ^ 63 then c.toInt + max 0 amount.toInt else c.toInt := by
  have hlow := nonneg_iff.mp h
  have hlt := c.toInt_lt
  have hsign : 0 < amount ↔ 0 < amount.toInt := by rw [Int64.lt_iff_toInt_lt, Int64.toInt_zero]
  unfold charge
  by_cases hpos : 0 < amount
  · have ha := hsign.mp hpos
    have hroom : c ≤ Int64.maxValue - amount ↔ c.toInt + amount.toInt < 2 ^ 63 := by
      rw [Int64.le_iff_toInt_le, toInt_max_sub ha.le]
      omega
    rw [max_eq_right ha.le]
    by_cases hfits : c.toInt + amount.toInt < 2 ^ 63
    · rw [if_pos ⟨hpos, hroom.mpr hfits⟩, if_pos hfits, toInt_add_of_range (by omega) hfits]
    · rw [if_neg fun hc => hfits (hroom.mp hc.2), if_neg hfits]
  · have ha : amount.toInt ≤ 0 := not_lt.mp fun h => hpos (hsign.mpr h)
    rw [if_neg fun hc => hpos hc.1, max_eq_left ha]
    split <;> omega

theorem charge_nonneg {c amount : Count} (h : 0 ≤ c) : 0 ≤ charge c amount := by
  have hlow := nonneg_iff.mp h
  rw [nonneg_iff, charge_toInt h]
  split <;> omega

/-- Charging a count to an empty budget leaves exactly that count. -/
theorem charge_zero {amount : Count} (h : 0 ≤ amount) : charge 0 amount = amount := by
  have ha := nonneg_iff.mp h
  have hlt := amount.toInt_lt
  apply Int64.toInt_inj.mp
  rw [charge_toInt (Int64.le_refl 0), Int64.toInt_zero, max_eq_right ha, zero_add, if_pos hlt]

/-- What is left of the allowance, not below `0`. -/
def remaining (b : ErrorBudget) : Count :=
  let rem := b.total - b.consumed
  if rem < 0 then 0 else rem

/-- What was consumed past the allowance, not below `0`. -/
def overrun (b : ErrorBudget) : Count :=
  let o := b.consumed - b.total
  if o < 0 then 0 else o

/-- Consume one unit. -/
def consume (b : ErrorBudget) : ErrorBudget :=
  { b with consumed := bump b.consumed, consumed_nonneg := bump_nonneg b.consumed_nonneg }

def consumeCount (b : ErrorBudget) (amount : Count) : ErrorBudget :=
  { b with consumed := charge b.consumed amount
           consumed_nonneg := charge_nonneg b.consumed_nonneg }

theorem consume_toInt (b : ErrorBudget) :
    b.consume.consumed.toInt = min (2 ^ 63 - 1) (b.consumed.toInt + 1) :=
  bump_toInt b.consumed_nonneg

theorem consumeCount_toInt (b : ErrorBudget) (amount : Count) :
    (b.consumeCount amount).consumed.toInt =
      if b.consumed.toInt + max 0 amount.toInt < 2 ^ 63 then b.consumed.toInt + max 0 amount.toInt
      else b.consumed.toInt :=
  charge_toInt b.consumed_nonneg amount

def resetWindow (b : ErrorBudget) (now : Duration) : ErrorBudget :=
  { b with consumed := 0, windowStart := now, consumed_nonneg := Int64.le_refl 0 }

def setWindowStart (b : ErrorBudget) (now : Duration) : ErrorBudget :=
  { b with windowStart := now }

/-- Has the window of `window` nanoseconds that began at `windowStart` ended? -/
def windowRolled (b : ErrorBudget) (now : Duration) : Bool :=
  if b.window ≤ 0 then false else decide (b.window ≤ now - b.windowStart)

variable {R : Type} [Double R]

open Double

/-- `state()`, with the fraction `0.10` read in `R`. -/
def state (R : Type) [Double R] (b : ErrorBudget) : BudgetState :=
  if b.total = 0 then .exhausted
  else
    let rem := b.total - b.consumed
    if rem ≤ 0 then .exhausted
    else if le (ofInt64 rem : R) (mul (ofInt64 b.total) (ofRat (10 / 100))) then .nearLimit
    else .healthy

def fractionElapsed (b : ErrorBudget) (now : Duration) : R :=
  if b.window ≤ 0 then ofRat 1
  else
    let e := now - b.windowStart
    let e := if e < 0 then 0 else e
    let f : R := div (ofInt64 e) (ofInt64 b.window)
    if lt (ofRat 1) f then ofRat 1 else f

def burnRate (b : ErrorBudget) (now : Duration) : R :=
  if b.total ≤ 0 then ofRat 0
  else
    let frac : R := b.fractionElapsed now
    if le frac (ofRat 0) then ofRat 0
    else div (div (ofInt64 b.consumed) (ofInt64 b.total)) frac

def classifyBurn (R : Type) [Double R] (b : ErrorBudget) (now : Duration) : BurnRate :=
  let r : R := b.burnRate now
  if lt (ofRat 2) r then .critical
  else if lt (ofRat 1) r then .elevated
  else .normal

end ErrorBudget

end SloFabric
