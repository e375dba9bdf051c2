/-
  File:      SloFabric/Trend.lean
  Subject:   What the predicted risk of a latency or a memory pressure predicts, in exact numbers.

  * `points`: the samples of a window as points of time and value;
  * `Climbs`: they have a line of least squares, and it rises; `TrendRisk`: the risk is the one of
    following it for the horizon of the objective;
  * `trendSums_eq`: the loop of the source computes the sums of the points, seen from the first;
  * `predictRisk_trend`: what it predicts from them;
  * `evaluate_trend`: what every evaluation reports.
-/
import SloFabric.Decision
import SloFabric.Exact
import SloFabric.Library.LeastSquares

namespace SloFabric

open LeastSquares Double

/-! ## 1. The trend -/

/-- The samples of the window: when, and how much. -/
def points (acc : ObjectiveAccumulator ℚ) : List (ℚ × ℚ) :=
  acc.window.samples.map fun w => ((w.time.toInt : ℚ), w.value)

/-- How far ahead a trend is followed: for the window of the objective, or a minute. -/
def horizonOf (o : Objective ℚ) : ℚ :=
  ((if 0 < o.windowDuration then o.windowDuration else 60000000000 : Int64).toInt : ℚ)

/-- Four samples or more, that must not rise, lie best along a line that rises by `b`. -/
def Climbs (o : Objective ℚ) (acc : ObjectiveAccumulator ℚ) (b : ℚ) : Prop :=
  o.comparison = .atMost ∧ 4 ≤ acc.window.size ∧ 0 < b ∧ ∃ a, BestLine a b (points acc)

/-- **The risk of a trend**: that of the value the line reaches, seen from the measured one; where
    nothing rises there is none. -/
def TrendRisk (o : Objective ℚ) (acc : ObjectiveAccumulator ℚ) (measured limit : ℚ)
    (risk : PredictedRisk) : Prop :=
  (∃ b, Climbs o acc b ∧ risk = riskOf (measured + b * horizonOf o) limit) ∨
    (∀ b, ¬Climbs o acc b) ∧ risk = .none

/-! ## 2. The sums of the source -/

theorem trendSums_eq (x0 : ℚ) (l : List (WindowSample ℚ)) :
    let q := l.map fun w => ((w.time.toInt : ℚ) - x0, w.value)
    trendSums x0 l = (sumX q, sumY q, sumXX q, sumXY q) := by
  have go : ∀ (l : List (WindowSample ℚ)) (s : ℚ × ℚ × ℚ × ℚ),
      l.foldl (fun s w =>
        let x := sub (ofInt64 w.time) x0
        (add s.1 x, add s.2.1 w.value, add s.2.2.1 (mul x x), add s.2.2.2 (mul x w.value))) s =
      let q := l.map fun w => ((w.time.toInt : ℚ) - x0, w.value)
      (s.1 + sumX q, s.2.1 + sumY q, s.2.2.1 + sumXX q, s.2.2.2 + sumXY q) := by
    intro l
    induction l with
    | nil => intro s; simp [sumX, sumY, sumXX, sumXY]
    | cons w l ih =>
      intro s
      rw [List.foldl_cons, ih]
      simp only [sumX, sumY, sumXX, sumXY, List.map_cons, List.sum_cons, ← add_assoc]
      rfl
  have h := go l (0, 0, 0, 0)
  simp only [zero_add] at h
  exact h

theorem bestLine_points {acc : ObjectiveAccumulator ℚ} (hne : acc.window.samples ≠ []) (x0 b : ℚ) :
    let q := acc.window.samples.map fun w => ((w.time.toInt : ℚ) - x0, w.value)
    (∃ a, BestLine a b (points acc)) ↔ spread q ≠ 0 ∧ b = lineSlope q := by
  intro q
  have hq : q = (points acc).map fun p => (p.1 - x0, p.2) := by
    rw [points, List.map_map]
    rfl
  have hqne : q ≠ [] := fun h => hne (List.map_eq_nil_iff.mp h)
  constructor
  · rintro ⟨a, ha⟩
    have hshift : BestLine (a + b * x0) b q := by
      rw [hq, bestLine_shift, add_sub_cancel_right]
      exact ha
    obtain ⟨hs, _, hb⟩ := (bestLine_iff hqne _ _).mp hshift
    exact ⟨hs, hb⟩
  · rintro ⟨hs, rfl⟩
    have hbest : BestLine (intercept q) (lineSlope q) q :=
      (bestLine_iff hqne _ _).mpr ⟨hs, rfl, rfl⟩
    refine ⟨intercept q - lineSlope q * x0, ?_⟩
    rw [← bestLine_shift, ← hq]
    exact hbest

/-- **What the source predicts.** -/
theorem predictRisk_trend {o : Objective ℚ} (hdim : o.dim = .latency ∨ o.dim = .memoryPressure)
    (acc : ObjectiveAccumulator ℚ) (now : Duration) (measured limit : ℚ) :
    TrendRisk o acc measured limit (predictRisk o acc now measured limit) := by
  have hcost : ¬(o.dim = .cost ∧ o.kind = .costWindowBudget) := by
    rintro ⟨h, _⟩
    rcases hdim with h' | h' <;> rw [h] at h' <;> cases h'
  unfold predictRisk
  rw [if_neg hcost, if_pos hdim]
  by_cases hfew : acc.window.size < 4
  · rw [if_pos hfew]
    exact Or.inr ⟨fun b h => absurd h.2.1 (Nat.not_le.mpr hfew), rfl⟩
  rw [if_neg hfew]
  by_cases hcmp : o.comparison = .atMost
  swap
  · rw [if_pos hcmp]
    exact Or.inr ⟨fun b h => hcmp h.1, rfl⟩
  rw [if_neg (not_not.mpr hcmp)]
  cases hsamples : acc.window.samples with
  | nil =>
    rw [SampleWindow.size, hsamples] at hfew
    exact absurd (by decide) hfew
  | cons front rest =>
    have hne : acc.window.samples ≠ [] := by simp [hsamples]
    have hlines (b : ℚ) := bestLine_points hne (ofInt64 front.time) b
    have hsums := trendSums_eq (ofInt64 front.time) acc.window.samples
    have hlength : (acc.window.samples.map fun w =>
        ((w.time.toInt : ℚ) - ofInt64 front.time, w.value)).length = acc.window.size :=
      List.length_map ..
    rw [hsamples] at hlines hsums hlength
    simp only at hlines hsums ⊢
    rw [hsums]
    generalize (front :: rest).map (fun w : WindowSample ℚ =>
      ((w.time.toInt : ℚ) - ofInt64 front.time, w.value)) = q at hlines hlength ⊢
    have hspread : sub (mul (ofSize acc.window.size) (sumXX q)) (mul (sumX q) (sumX q)) =
        spread q := by
      rw [spread, hlength]
      rfl
    have hslope : div (sub (mul (ofSize acc.window.size) (sumXY q)) (mul (sumX q) (sumY q)))
        (spread q) = lineSlope q := by
      rw [lineSlope, hlength]
      rfl
    simp only [hspread, hslope]
    have hclimbs (b : ℚ) : Climbs o acc b ↔ 0 < b ∧ spread q ≠ 0 ∧ b = lineSlope q := by
      rw [Climbs, hlines b]
      exact ⟨fun h => h.2.2, fun h => ⟨hcmp, Nat.not_lt.mp hfew, h⟩⟩
    have hzero : eq (spread q) (ofRat 0) = decide (spread q = 0) := rfl
    have hfalls : le (lineSlope q) (ofRat 0) = decide (lineSlope q ≤ 0) := rfl
    rw [hzero, hfalls]
    by_cases hs : spread q = 0
    · rw [if_pos (decide_eq_true hs)]
      exact Or.inr ⟨fun b h => ((hclimbs b).mp h).2.1 hs, rfl⟩
    rw [if_neg (by simpa using hs)]
    by_cases hb : lineSlope q ≤ 0
    · rw [if_pos (decide_eq_true hb)]
      refine Or.inr ⟨fun b h => ?_, rfl⟩
      obtain ⟨hpos, _, rfl⟩ := (hclimbs b).mp h
      exact absurd hpos (not_lt.mpr hb)
    · rw [if_neg (by simpa using hb)]
      exact Or.inl ⟨lineSlope q, (hclimbs _).mpr ⟨not_le.mp hb, hs, rfl⟩, rfl⟩

/-! ## 3. What is reported -/

/-- Starting a budget window moves no sample. -/
theorem trendRisk_roll {o : Objective ℚ} {acc : ObjectiveAccumulator ℚ} {now : Duration}
    {measured limit : ℚ} {risk : PredictedRisk} :
    TrendRisk o (rollBudget acc now) measured limit risk ↔ TrendRisk o acc measured limit risk := by
  have hwindow : (rollBudget acc now).window = acc.window := by
    unfold rollBudget
    split <;> rfl
  simp only [TrendRisk, Climbs, points, hwindow]

/-- **The predicted risk is that of the trend.** Every evaluation, in whatever state, says of each
    latency and memory pressure objective that it judges: where it was measured, the risk it
    predicts is that of the value which the line of least squares through the samples in its
    window, if there is one and it rises, reaches at the horizon; else it predicts none. -/
theorem evaluate_trend [Platform ℚ] {s s' : State ℚ} {service : ServiceId}
    {workload : WorkloadId} {now : Duration} {res : EvaluationResult ℚ} {c : SloContract ℚ}
    (h : evaluate s service workload now = some (s', .ok res))
    (hc : selectContract s.contracts service workload now = some c) {i : Nat} {obj : Objective ℚ}
    (hobj : c.objectives[i]? = some obj)
    (hdim : obj.dim = .latency ∨ obj.dim = .memoryPressure) :
    ∃ st, res.explanation.objectives[i]? = some st ∧
      (st.currentValue = none → st.predicted = .none) ∧
      (st.currentValue ≠ none → TrendRisk obj (judgedOn s c now i obj)
        (computeMeasured (judgedOn s c now i obj) now).value (numericLimit obj true)
        st.predicted) := by
  refine ⟨_, evaluate_turn h hc hobj, ?_⟩
  unfold judgedOn evaluateObjective
  generalize acquire (accumulatorsAfter s.accumulators now (c.objectives.take i)) obj = acc
  cases hm : unmeasured (computeMeasured acc now) (evaluateFreshness acc now) with
  | true => exact ⟨fun _ => by simp [hm], fun hne => absurd (by simp [hm]) hne⟩
  | false =>
    refine ⟨fun hnone => ?_, fun _ => ?_⟩
    · simp [hm] at hnone
    · simp only [hm, Bool.false_eq_true, if_false]
      exact trendRisk_roll.mp (predictRisk_trend hdim (rollBudget acc now) now _ _)

/-- A mean latency of at most 100 ms. -/
def meanObjective : Objective ℚ where
  id := ⟨1⟩
  gen := ⟨1⟩
  windowType := .rollingCount
  target := .duration 100000000
  allowedUncertainty := 0
  percentileRank := 99 / 100

/-- A contract with the objective. -/
def meanContract : SloContract ℚ :=
  { id := ⟨1⟩, gen := ⟨1⟩, service := ⟨1⟩, workload := ⟨1⟩, objectives := [meanObjective]
    policyId := ⟨1⟩, policyGen := ⟨1⟩, lifecycle := .active }

/-- A fabric with the objective and latencies of 10, 20, 30 and 40 ms in four seconds. -/
def risingFabric : State ℚ :=
  let s := (setPolicy (State.fresh ℚ) smallPolicy).1
  let s := (addContract s meanContract).1
  let put (s : State ℚ) (n : Int64) : State ℚ :=
    (ingest s { id := ⟨n.toUInt64 + 1⟩, objectiveId := ⟨1⟩, time := n * 1000000000
                value := .duration ((n + 1) * 10000000) } 0).1
  put (put (put (put s 0) 1) 2) 3

/-- At ten milliseconds a second the latency is far beyond its limit in a minute. -/
theorem evaluate_trend_small :
    ∃ s' res c st, evaluate risingFabric ⟨1⟩ ⟨1⟩ 3000000000 = some (s', .ok res) ∧
      res.explanation.objectives[0]? = some st ∧ st.predicted = .high ∧
      TrendRisk meanObjective (judgedOn risingFabric c 3000000000 0 meanObjective)
        (computeMeasured (judgedOn risingFabric c 3000000000 0 meanObjective) 3000000000).value
        (numericLimit meanObjective true) st.predicted := by
  have hc : (selectContract risingFabric.contracts ⟨1⟩ ⟨1⟩ 3000000000).any
      (fun c => decide (c.objectives[0]? = some meanObjective)) = true := by
    decide +kernel
  have htest : (reported (evaluate risingFabric ⟨1⟩ ⟨1⟩ 3000000000)).any (fun x =>
      x.2.explanation.objectives[0]?.any fun st =>
        decide (st.predicted = .high) && decide (st.currentValue ≠ none)) = true := by
    decide +kernel
  obtain ⟨c, hc, hobj⟩ := (Option.any_eq_true _ _).mp hc
  obtain ⟨s', res, heval, hst⟩ := of_reported htest
  obtain ⟨st, hst, hp⟩ := (Option.any_eq_true _ _).mp hst
  simp only [Bool.and_eq_true, decide_eq_true_eq] at hp
  obtain ⟨st', hst', _, htrend⟩ := evaluate_trend heval hc (of_decide_eq_true hobj) (Or.inl rfl)
  obtain rfl : st = st' := Option.some.inj (hst.symm.trans hst')
  exact ⟨s', res, c, st, heval, hst, hp.1, htrend hp.2⟩

end SloFabric
