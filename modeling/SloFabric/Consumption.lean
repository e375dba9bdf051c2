/-
  File:      SloFabric/Consumption.lean
  Subject:   Error budgets over whole runs: what was consumed, what is left, and the state.

  * `BudgetOp`, `ErrorBudget.step`: the operations on a budget; those that consume answer a state;
  * `step_spec`: **what a step does to the counter**: a reset empties it; any other operation
    never lowers it, and raises it by the units it asks for exactly where they fit;
  * `Accounted`: the laws between the allowance, the counter, what is left and what is over;
  * `state_mono`: in doubles, a budget with more consumed is in no better state;
  * `consumeCount_eq_iff`: when a count consumed at once leaves what as many single units leave;
    `Bulk`: it does, and drops none.
-/
import SloFabric.Doubles
import SloFabric.Library.Runs

namespace SloFabric

/-- The operations that change a budget. -/
inductive BudgetOp where
  | consume
  | consumeCount (amount : Count)
  | resetWindow (now : Duration)
  | setWindowStart (now : Duration)
  deriving DecidableEq

namespace BudgetOp

/-- The units an operation asks for; an amount below zero asks for none. -/
def units : BudgetOp → Int
  | .consume => 1
  | .consumeCount amount => max 0 amount.toInt
  | .resetWindow _ => 0
  | .setWindowStart _ => 0

def resets : BudgetOp → Bool
  | .consume => false
  | .consumeCount _ => false
  | .resetWindow _ => true
  | .setWindowStart _ => false

end BudgetOp

/-- The order from `healthy` to `exhausted`. -/
def BudgetState.rank : BudgetState → Nat
  | .healthy => 0
  | .nearLimit => 1
  | .exhausted => 2

namespace ErrorBudget

variable {R : Type} [Double R] {b b' : ErrorBudget}

/-! ## 1. The operations -/

/-- One operation. Those that consume answer the state they leave. -/
def step (R : Type) [Double R] (b : ErrorBudget) :
    BudgetOp → Option (ErrorBudget × Option BudgetState)
  | .consume => some (b.consume, some (b.consume.state R))
  | .consumeCount amount =>
    some (b.consumeCount amount, some ((b.consumeCount amount).state R))
  | .resetWindow now => some (b.resetWindow now, none)
  | .setWindowStart now => some (b.setWindowStart now, none)

/-- The counter has room for the units of an operation. -/
def Fits (b : ErrorBudget) (o : BudgetOp) : Prop := b.consumed.toInt + o.units < 2 ^ 63

theorem step_total {o : BudgetOp} {a : Option BudgetState} (h : step R b o = some (b', a)) :
    b'.total = b.total := by
  cases o <;> cases h <;> rfl

/-- **What a step does to the counter.** -/
theorem step_spec {o : BudgetOp} {a : Option BudgetState} (h : step R b o = some (b', a)) :
    if o.resets then b'.consumed = 0
    else b.consumed.toInt ≤ b'.consumed.toInt ∧
      (b'.consumed.toInt = b.consumed.toInt + o.units ↔ b.Fits o) := by
  have hlt := b.consumed.toInt_lt
  unfold Fits
  cases o with
  | consume =>
    cases h
    rw [BudgetOp.resets, BudgetOp.units, if_neg Bool.false_ne_true, consume_toInt]
    omega
  | consumeCount amount =>
    cases h
    rw [BudgetOp.resets, BudgetOp.units, if_neg Bool.false_ne_true, consumeCount_toInt]
    split <;> omega
  | resetWindow now =>
    cases h
    rfl
  | setWindowStart now =>
    cases h
    have hsame : (b.setWindowStart now).consumed = b.consumed := rfl
    rw [BudgetOp.resets, BudgetOp.units, if_neg Bool.false_ne_true, hsame]
    omega

section Runs

variable {C : ErrorBudget → BudgetOp → Prop} {tr : List (BudgetOp × Option BudgetState)}

theorem run_total (h : Run (step R) C b tr b') : b'.total = b.total :=
  h.invariant (I := fun s => s.total = b.total) rfl fun _ _ _ _ hi _ hs => (step_total hs).trans hi

/-- Without a reset the counter never falls. -/
theorem run_consumed (h : Run (step R) (fun _ o => o.resets = false) b tr b') :
    b.consumed.toInt ≤ b'.consumed.toInt := by
  refine h.invariant (I := fun s => b.consumed.toInt ≤ s.consumed.toInt) le_rfl ?_
  intro s o s' a hi hc hs
  have hspec := step_spec hs
  rw [hc, if_neg Bool.false_ne_true] at hspec
  exact hi.trans hspec.1

end Runs

/-! ## 2. What is left and what is over -/

theorem toInt_sub_of_nonneg {a c : Int64} (ha : 0 ≤ a) (hc : 0 ≤ c) :
    (a - c).toInt = a.toInt - c.toInt := by
  have ha' := nonneg_iff.mp ha
  have hc' := nonneg_iff.mp hc
  have := a.toInt_lt
  have := c.toInt_lt
  exact toInt_sub_of_range (by omega) (by omega)

theorem clamp_toInt (d : Int64) : (if d < 0 then 0 else d).toInt = max 0 d.toInt := by
  have hneg : d < 0 ↔ d.toInt < 0 := by rw [Int64.lt_iff_toInt_lt, Int64.toInt_zero]
  split
  · rename_i h
    rw [Int64.toInt_zero, max_eq_left (hneg.mp h).le]
  · rename_i h
    rw [max_eq_right (not_lt.mp fun hd => h (hneg.mpr hd))]

theorem remaining_toInt (ht : 0 ≤ b.total) :
    b.remaining.toInt = max 0 (b.total.toInt - b.consumed.toInt) := by
  rw [remaining, clamp_toInt, toInt_sub_of_nonneg ht b.consumed_nonneg]

theorem overrun_toInt (ht : 0 ≤ b.total) :
    b.overrun.toInt = max 0 (b.consumed.toInt - b.total.toInt) := by
  rw [overrun, clamp_toInt, toInt_sub_of_nonneg b.consumed_nonneg ht]

theorem eq_zero_iff {d : Int64} : d = 0 ↔ d.toInt = 0 := by
  rw [← Int64.toInt_inj, Int64.toInt_zero]

open Double

/-- The state, from what is left. -/
theorem state_eq (ht : 0 ≤ b.total) : b.state R =
    if b.remaining = 0 then .exhausted
    else if le (ofInt64 b.remaining : R) (mul (ofInt64 b.total) (ofRat (10 / 100))) then .nearLimit
    else .healthy := by
  have hc := nonneg_iff.mp b.consumed_nonneg
  have hleft := remaining_toInt ht
  have hsub := toInt_sub_of_nonneg ht b.consumed_nonneg
  have hnone : b.total - b.consumed ≤ 0 ↔ b.remaining = 0 := by
    rw [Int64.le_iff_toInt_le, eq_zero_iff, hleft, hsub, Int64.toInt_zero]
    omega
  unfold state
  by_cases htotal : b.total = 0
  · have hzero : b.remaining = 0 := by
      rw [eq_zero_iff, hleft, htotal, Int64.toInt_zero]
      omega
    rw [if_pos htotal, if_pos hzero]
  · rw [if_neg htotal]
    by_cases hrem : b.remaining = 0
    · rw [if_pos hrem]
      simp only [hnone.mpr hrem, if_true]
    · have hsome : b.remaining = b.total - b.consumed := by
        rw [← Int64.toInt_inj, hleft, hsub]
        rw [eq_zero_iff, hleft] at hrem
        omega
      rw [if_neg hrem, hsome]
      simp only [mt hnone.mp hrem, if_false]

theorem exhausted_iff (ht : 0 ≤ b.total) : b.state R = .exhausted ↔ b.remaining = 0 := by
  rw [state_eq ht]
  split
  · rename_i h
    exact iff_of_true rfl h
  · rename_i h
    split <;> exact iff_of_false (by decide) h

/-- The laws of a budget with the allowance `total`. -/
structure Accounted (total : Count) (b : ErrorBudget) : Prop where
  consumed : 0 ≤ b.consumed.toInt
  remaining : 0 ≤ b.remaining.toInt ∧ b.remaining.toInt ≤ total.toInt
  overrun : 0 ≤ b.overrun.toInt
  balance : b.remaining.toInt - b.overrun.toInt = total.toInt - b.consumed.toInt
  one_sided : ¬(0 < b.remaining.toInt ∧ 0 < b.overrun.toInt)
  exhausted : b.state Binary64 = .exhausted ↔ b.remaining = 0

theorem accounted (ht : 0 ≤ b.total) : b.Accounted b.total := by
  have hc := nonneg_iff.mp b.consumed_nonneg
  have ht' := nonneg_iff.mp ht
  have hleft := remaining_toInt ht
  have hover := overrun_toInt ht
  exact ⟨hc, by omega, by omega, by omega, by omega, exhausted_iff ht⟩

/-- **A budget with more consumed is in no better state.** -/
theorem state_mono (ht : 0 ≤ b.total) (htotal : b'.total = b.total)
    (h : b.consumed.toInt ≤ b'.consumed.toInt) :
    (b.state Binary64).rank ≤ (b'.state Binary64).rank := by
  have ht' : 0 ≤ b'.total := htotal.symm ▸ ht
  have hleft := remaining_toInt ht
  have hleft' := remaining_toInt ht'
  rw [htotal] at hleft'
  have hle : b'.remaining.toInt ≤ b.remaining.toInt := by omega
  have hnonneg : 0 ≤ b'.remaining.toInt := by omega
  rw [state_eq ht, state_eq ht', htotal]
  by_cases hnone' : b'.remaining = 0
  · rw [if_pos hnone']
    split
    · exact le_rfl
    · split <;> decide
  · have hnone : b.remaining ≠ 0 := by
      rw [eq_zero_iff] at hnone'
      rw [ne_eq, eq_zero_iff]
      omega
    rw [if_neg hnone, if_neg hnone']
    split
    · rename_i hnear
      -- The counter is below the same threshold, and the conversion to doubles keeps the order.
      have hnear' : le (ofInt64 b'.remaining : Binary64)
          (mul (ofInt64 b.total) (ofRat (10 / 100))) = true :=
        Binary64.le_of_le_of_le (ofInt64_mono hnonneg hle) hnear
      rw [if_pos hnear']
    · exact Nat.zero_le _

/-! ## 3. The laws of every run -/

/-- **Error budget accounting.** The laws hold after any operations, and without a reset the
    counter never falls and the state never gets better. -/
theorem budget_accounting {total : Count} {window : Duration} (ht : 0 ≤ total)
    {tr : List (BudgetOp × Option BudgetState)}
    (h : Run (step Binary64) (fun _ _ => True) (make total window) tr b) :
    b.Accounted total ∧
      ∀ tr' b', Run (step Binary64) (fun _ o => o.resets = false) b tr' b' →
        b.consumed.toInt ≤ b'.consumed.toInt ∧
          (b.state Binary64).rank ≤ (b'.state Binary64).rank := by
  have htotal : b.total = total := run_total h
  have hnonneg : 0 ≤ b.total := htotal ▸ ht
  refine ⟨htotal ▸ accounted hnonneg, fun tr' b' h' => ?_⟩
  have hrise := run_consumed h'
  exact ⟨hrise, state_mono hnonneg (run_total h') hrise⟩

/-- Ten units, a reset after four of them, and three more. -/
theorem budget_accounting_ten : ∃ tr b,
    Run (step Binary64) (fun _ _ => True) (make 10 60) tr b ∧ b.consumed = 3 ∧
      b.Accounted 10 ∧ ∀ tr' b', Run (step Binary64) (fun _ o => o.resets = false) b tr' b' →
        b.consumed.toInt ≤ b'.consumed.toInt ∧
          (b.state Binary64).rank ≤ (b'.state Binary64).rank := by
  have htest : (execute (step Binary64) (fun _ _ => true) (make 10 60)
      [.consumeCount 4, .resetWindow 60, .consume, .consumeCount 2, .consumeCount (-5)]).any
      (fun x => decide (x.1.consumed = 3)) = true := by decide +kernel
  obtain ⟨b, tr, h, hthree⟩ := Run.of_test (C := fun _ _ => True) (fun _ _ _ => trivial) htest
  exact ⟨tr, b, h, of_decide_eq_true hthree, budget_accounting (by decide) h⟩

/-! ## 4. A count at once, and one by one -/

/-- The counter and all that is told from it. -/
theorem consumes_eq (b : ErrorBudget) (n : Nat) :
    (consume^[n] b).consumed.toInt = min (2 ^ 63 - 1) (b.consumed.toInt + n) ∧
      (consume^[n] b).total = b.total ∧ (consume^[n] b).window = b.window ∧
      (consume^[n] b).windowStart = b.windowStart := by
  induction n with
  | zero =>
    have hlt := b.consumed.toInt_lt
    refine ⟨?_, rfl, rfl, rfl⟩
    rw [Function.iterate_zero, id_eq]
    omega
  | succ n ih =>
    obtain ⟨hconsumed, htotal, hwindow, hstart⟩ := ih
    rw [Function.iterate_succ_apply']
    refine ⟨?_, htotal, hwindow, hstart⟩
    rw [consume_toInt, hconsumed]
    push_cast
    omega

/-- **When the two forms agree**: where the count fits, and on a counter that is full already. -/
theorem consumeCount_eq_iff {n : Count} (hn : 0 ≤ n) :
    b.consumeCount n = consume^[n.toInt.toNat] b ↔
      b.Fits (.consumeCount n) ∨ b.consumed.toInt = 2 ^ 63 - 1 := by
  have hn' := nonneg_iff.mp hn
  have hlt := b.consumed.toInt_lt
  obtain ⟨hconsumed, htotal, hwindow, hstart⟩ := consumes_eq b n.toInt.toNat
  have hcount : b.consumeCount n = consume^[n.toInt.toNat] b ↔
      (b.consumeCount n).consumed.toInt = (consume^[n.toInt.toNat] b).consumed.toInt := by
    constructor
    · intro h
      rw [h]
    · intro h
      exact ErrorBudget.ext htotal.symm (Int64.toInt_inj.mp h) hwindow.symm hstart.symm
  rw [hcount, hconsumed, consumeCount_toInt, max_eq_right hn', Fits, BudgetOp.units,
    max_eq_right hn']
  split <;> omega

/-- `consume_count(n)` leaves the budget that `n` calls of `consume` leave, and drops no unit. -/
structure Bulk (b : ErrorBudget) (n : Count) : Prop where
  consumed : (b.consumeCount n).consumed = (consume^[n.toInt.toNat] b).consumed
  remaining : (b.consumeCount n).remaining = (consume^[n.toInt.toNat] b).remaining
  overrun : (b.consumeCount n).overrun = (consume^[n.toInt.toNat] b).overrun
  state : (b.consumeCount n).state Binary64 = (consume^[n.toInt.toNat] b).state Binary64
  exact : (b.consumeCount n).consumed.toInt = b.consumed.toInt + n.toInt

/-- What fits is consumed alike; an amount that does not fit is dropped as a whole. -/
theorem bulk_iff {n : Count} (hn : 0 ≤ n) : b.Bulk n ↔ b.consumed.toInt + n.toInt < 2 ^ 63 := by
  have hn' := nonneg_iff.mp hn
  constructor
  · intro h
    have hexact := h.exact
    have hlt := (b.consumeCount n).consumed.toInt_lt
    omega
  · intro h
    have hfits : b.Fits (.consumeCount n) := by
      rw [Fits, BudgetOp.units, max_eq_right hn']
      exact h
    have heq := (consumeCount_eq_iff hn).mpr (Or.inl hfits)
    refine ⟨by rw [heq], by rw [heq], by rw [heq], by rw [heq], ?_⟩
    rw [consumeCount_toInt, max_eq_right hn', if_pos h]

/-- What a load replays on a new budget is never dropped. -/
theorem bulk_replay (total : Count) (window start : Duration) {n : Count} (hn : 0 ≤ n) :
    ((make total window).setWindowStart start).Bulk n := by
  have hempty : ((make total window).setWindowStart start).consumed.toInt = 0 := rfl
  have hlt := n.toInt_lt
  rw [bulk_iff hn, hempty]
  omega

/-- The units asked for since the last reset. -/
def spend (_ : ErrorBudget) (n : Int) (x : BudgetOp × Option BudgetState) : Int :=
  if x.1.resets then 0 else n + x.1.units

/-- The counter holds every unit that was asked for. -/
def Exact (w : Watched ErrorBudget Int) : Prop := w.state.consumed.toInt = w.seen

/-- **A step drops nothing** exactly where its units fit. -/
theorem exact_step {w w' : Watched ErrorBudget Int} {o : BudgetOp} {a : Option BudgetState}
    (hw : Exact w) (h : watch (step R) spend w o = some (w', a)) :
    Exact w' ↔ w.state.Fits o := by
  obtain ⟨hs, hseen⟩ := watch_cases h
  have hspec := step_spec hs
  have hexact : w.state.consumed.toInt = w.seen := hw
  rw [Exact, hseen, spend]
  cases hreset : o.resets with
  | true =>
    rw [hreset, if_pos rfl] at hspec
    have hunits : o.units = 0 := by
      cases o <;> first | rfl | cases hreset
    have hlt := w.state.consumed.toInt_lt
    rw [if_pos rfl, hspec, Fits, hunits]
    exact iff_of_true rfl (by omega)
  | false =>
    rw [hreset, if_neg Bool.false_ne_true] at hspec
    rw [if_neg Bool.false_ne_true, ← hexact]
    exact hspec.2

/-- **When a count at once is the units one by one.** For a budget and a count that is not
    negative, exactly where the counter has room for the whole count; and in a run no unit is
    dropped exactly where every operation finds room for its units. -/
theorem bulk_consumption_iff (b : ErrorBudget) {n : Count} (hn : 0 ≤ n) (total : Count)
    (window : Duration) (tr : List (BudgetOp × Option BudgetState))
    (w : Watched ErrorBudget Int) :
    (b.Bulk n ↔ b.consumed.toInt + n.toInt < 2 ^ 63) ∧
      (Run (watch (step Binary64) spend) (fun w o => w.state.Fits o) ⟨make total window, 0⟩ tr w ↔
        Run (watch (step Binary64) spend) (fun w _ => Exact w) ⟨make total window, 0⟩ tr w ∧
          Exact w) :=
  ⟨bulk_iff hn, Run.kept_iff rfl fun _ _ _ _ hw hs => exact_step hw hs⟩

/-- Two units at once, after one of ten. -/
theorem bulk_consumption_two : (make 10 60).consume.Bulk 2 :=
  (bulk_consumption_iff _ (by decide) 10 60 [] ⟨make 10 60, 0⟩).1.mpr (by decide)

/-- **The whole count is dropped.** After one unit of ten, the largest count leaves the budget
    healthy with one unit consumed; as many single units exhaust it. -/
theorem bulk_consumption_fails : ∃ tr b,
    Run (step Binary64) (fun _ _ => True) (make 10 60) tr b ∧
      (b.consumeCount Int64.maxValue).consumed = 1 ∧
      (b.consumeCount Int64.maxValue).state Binary64 = .healthy ∧
      (consume^[Int64.maxValue.toInt.toNat] b).consumed = Int64.maxValue ∧
      (consume^[Int64.maxValue.toInt.toNat] b).state Binary64 = .exhausted ∧
      ¬b.Bulk Int64.maxValue := by
  have hsingle : (make 10 60).consume.consumed.toInt = 1 := by decide
  have hmax := Int64.toInt_maxValue
  obtain ⟨hconsumed, htotal, -, -⟩ := consumes_eq (make 10 60).consume Int64.maxValue.toInt.toNat
  rw [hsingle, Int.toNat_of_nonneg (by omega)] at hconsumed
  have hpos : 0 ≤ (consume^[Int64.maxValue.toInt.toNat] (make 10 60).consume).total := by
    rw [htotal]
    decide
  have hfull : (consume^[Int64.maxValue.toInt.toNat] (make 10 60).consume).consumed =
      Int64.maxValue := by
    rw [← Int64.toInt_inj, hconsumed]
    omega
  have hrun : Run (step Binary64) (fun _ _ => True) (make 10 60) _ (make 10 60).consume :=
    .next (o := .consume) .start trivial rfl
  refine ⟨_, _, hrun, by decide, by decide +kernel, hfull, ?_, ?_⟩
  · rw [exhausted_iff hpos, eq_zero_iff, remaining_toInt hpos, hfull, htotal]
    decide
  · intro h
    have hexact := h.exact
    have hlt := ((make 10 60).consume.consumeCount Int64.maxValue).consumed.toInt_lt
    omega

end ErrorBudget

end SloFabric
