/-
  File:      SloFabric/Looks.lean
  Subject:   What an evaluation that has a value says about one objective.

  * `Look`, `Look.Of`: an evaluation that succeeds and has fresh, sufficient evidence of the
    objective, in any state; `Look.value`, `Look.remembered`, `Look.reported`: the value measured,
    the verdict remembered from the evaluation before, and the one reported;
  * `reported_eq`, `reported_violating`: what is reported, and when it is Violating;
  * `Beyond`, `target_law_iff`: without thresholds the verdict Violating goes by the target only,
    but where the value is in the margin and the verdict before was Violating;
  * `Follows`, `GraceLaw`, `grace_period_iff`: a breach is declared at once, whatever the grace
    period; it was waited for only where the objective was Violating already;
  * `Foreseen`, `at_risk_iff`: a risk that is foreseen is never the verdict.
-/
import SloFabric.Minimum
import SloFabric.Exact

namespace SloFabric

variable {R : Type}

/-! ## 1. Looks -/

/-- An evaluation, with the place of an objective in the contract it selects. -/
structure Look (R : Type) where
  before : State R
  after : State R
  service : ServiceId
  workload : WorkloadId
  now : Duration
  result : EvaluationResult R
  contract : SloContract R
  place : Nat

namespace Look

/-- The verdict reported. -/
def reported (x : Look R) : Option ComplianceState :=
  (x.result.explanation.objectives[x.place]?).map (·.state)

section Spec

variable [Double R] [Platform R] (obj : Objective R) (x : Look R)

/-- The accumulator the objective is judged on. -/
def judgedBy : ObjectiveAccumulator R := judgedOn x.before x.contract x.now x.place obj

/-- The value measured. -/
def value : R := (computeMeasured (x.judgedBy obj) x.now).value

/-- The verdict of the evaluation before. -/
def remembered : ComplianceState := (x.judgedBy obj).lastState

/-- The zone of the value. -/
def zone : Zone := classifyZone obj (x.value obj)

/-- The risk predicted. -/
def risk : PredictedRisk :=
  predictRisk obj (rollBudget (x.judgedBy obj) x.now) x.now (x.value obj) (numericLimit obj true)

/-- **It is a look at the objective**: it has fresh, sufficient evidence of it. -/
structure Of : Prop where
  evaluated : evaluate x.before x.service x.workload x.now = some (x.after, .ok x.result)
  selected : selectContract x.before.contracts x.service x.workload x.now = some x.contract
  listed : x.contract.objectives[x.place]? = some obj
  measured : GivesValue (x.judgedBy obj) x.now

end Spec

variable [Double R] [Platform R] {obj : Objective R} {x : Look R}

/-- **What is reported.** -/
theorem reported_eq (h : x.Of obj) : x.reported =
    some (measuredState obj (rollBudget (x.judgedBy obj) x.now) (x.value obj)) := by
  obtain ⟨st, hst, _, hstate⟩ := evaluate_reports h.evaluated h.selected h.listed
  have hvalue : unmeasured (computeMeasured (x.judgedBy obj) x.now)
      (evaluateFreshness (x.judgedBy obj) x.now) = false := (hasValue_iff _ _).mpr h.measured
  rw [reported, hst, Option.map_some, hstate]
  unfold verdict
  exact congrArg some (if_neg (ne_true_of_eq_false hvalue))

/-- The objective is held Violating by a value near its limit. -/
def Held (obj : Objective R) (x : Look R) : Prop :=
  x.zone obj = .near ∧ x.remembered obj = .violating

/-- **When Violating is reported**: for a value in the Violation zone, and where it is held. -/
theorem reported_violating (h : x.Of obj) :
    x.reported = some .violating ↔ x.zone obj = .violation ∨ x.Held obj := by
  have hlast : (rollBudget (x.judgedBy obj) x.now).lastState = x.remembered obj :=
    rollBudget_lastState _ _
  have hstate : measuredState obj (rollBudget (x.judgedBy obj) x.now) (x.value obj) = .violating ↔
      stepState obj (x.value obj) (x.remembered obj) = .violating := by
    unfold measuredState
    rw [hlast]
    simp only
    split
    · rename_i hspoilt
      have hcompliant := (Bool.and_eq_true_iff.mp hspoilt).2
      rw [eq_of_beq hcompliant]
      simp
    · rfl
  rw [reported_eq h, Option.some.injEq, hstate]
  unfold stepState Held zone
  cases classifyZone obj (x.value obj) with
  | violation | compliant => simp
  | near =>
    simp only [reduceCtorEq, false_or, true_and]
    split
    · rfl
    · rename_i hnot
      simp only [reduceCtorEq, false_iff]
      exact fun hv => hnot (Or.inl hv)

omit [Platform R] in
theorem stepState_ne_atRisk (obj : Objective R) (measured : R) (last : ComplianceState) :
    stepState obj measured last ≠ .atRisk := by
  unfold stepState
  cases classifyZone obj measured with
  | violation | compliant => simp
  | near =>
    simp only
    split
    · rename_i hlast
      rcases hlast with rfl | rfl <;> decide
    · decide

/-- AtRisk is never reported. -/
theorem reported_ne_atRisk (h : x.Of obj) : x.reported ≠ some .atRisk := by
  rw [reported_eq h, ne_eq, Option.some.injEq]
  unfold measuredState
  simp only
  split
  · decide
  · exact stepState_ne_atRisk _ _ _

end Look

/-! ## 2. The target -/

/-- The value is beyond the target by more than the comparison epsilon. -/
def Beyond (obj : Objective ℚ) (v : ℚ) : Prop :=
  match obj.comparison with
  | .atMost => numericOf obj.target + 1 / 10 ^ 9 < v
  | .atLeast => v < numericOf obj.target - 1 / 10 ^ 9

/-- Without thresholds the Violation zone is beyond the target. -/
theorem violation_iff_beyond {obj : Objective ℚ} (hbreach : obj.breachThreshold = none) (v : ℚ) :
    classifyZone obj v = .violation ↔ Beyond obj v := by
  have hlimit : numericLimit obj true = numericOf obj.target := by
    simp [numericLimit, hbreach]
  unfold classifyZone Beyond
  simp only [hlimit]
  cases obj.comparison with
  | atMost =>
    have hlt : Double.lt (Double.add (numericOf obj.target) epsilon) v = true ↔
        numericOf obj.target + 1 / 10 ^ 9 < v := decide_eq_true_iff
    rw [← hlt]
    simp only
    split <;> rename_i hb
    · simp [hb]
    · simp only [hb]
      repeat' split
      all_goals simp
  | atLeast =>
    have hlt : Double.lt v (Double.sub (numericOf obj.target) epsilon) = true ↔
        v < numericOf obj.target - 1 / 10 ^ 9 := decide_eq_true_iff
    rw [← hlt]
    simp only
    split <;> rename_i hb
    · simp [hb]
    · simp only [hb]
      repeat' split
      all_goals simp

/-- **The target is both breach and recovery point**: Violating is reported for the values beyond it
    and for no others. -/
def TargetLaw (obj : Objective ℚ) (x : Look ℚ) : Prop :=
  x.reported = some .violating ↔ Beyond obj (x.value obj)

/-- **When the target decides.** Without a breach threshold, a sequence of evaluations goes by the
    target if and only if none of them finds the value near it with a violation remembered. -/
theorem target_law_iff [Platform ℚ] {obj : Objective ℚ} (hbreach : obj.breachThreshold = none)
    {l : List (Look ℚ)} (hl : ∀ x ∈ l, x.Of obj) :
    (∀ x ∈ l, TargetLaw obj x) ↔ ∀ x ∈ l, ¬x.Held obj := by
  refine forall₂_congr fun x hx => ?_
  have hbeyond : x.zone obj = .violation ↔ Beyond obj (x.value obj) :=
    violation_iff_beyond hbreach _
  unfold TargetLaw
  rw [Look.reported_violating (hl x hx), ← hbeyond]
  constructor
  · intro hlaw hheld
    have hzone := hlaw.mp (Or.inr hheld)
    rw [hheld.1] at hzone
    cases hzone
  · exact fun hfree => or_iff_left hfree

/-! ## 3. The grace period -/

section Grace

variable [Double R] [Platform R]

/-- One look after the other: the verdict of the first is remembered by the second. -/
def Follows (obj : Objective R) (x y : Look R) : Prop :=
  x.reported = some (y.remembered obj) ∧ x.now ≤ y.now

/-- **A breach is declared after the grace period**: where a value in the Violation zone leads to
    the verdict Violating, the objective was Violating before, or every value since an evaluation at
    least the grace period ago is in the Violation zone. -/
def GraceLaw (obj : Objective R) (l : List (Look R)) : Prop :=
  ∀ (k : Nat) (x : Look R), l[k]? = some x → x.zone obj = .violation →
    x.reported = some .violating → x.remembered obj = .violating ∨
      ∃ (j : Nat) (y : Look R), j < k ∧ l[j]? = some y ∧
        y.now.toInt ≤ x.now.toInt - obj.gracePeriod.toInt ∧
        ∀ (i : Nat) (z : Look R), j ≤ i → i ≤ k → l[i]? = some z → z.zone obj = .violation

/-- **When the grace period is kept**: where no value enters the Violation zone from another verdict
    than Violating. -/
theorem grace_period_iff {obj : Objective R} {l : List (Look R)} (hl : ∀ x ∈ l, x.Of obj)
    (hfollows : l.IsChain (Follows obj)) :
    GraceLaw obj l ↔
      ∀ x ∈ l, x.zone obj = .violation → x.remembered obj = .violating := by
  constructor
  · intro hlaw x hx hzone
    obtain ⟨k, hk⟩ := List.mem_iff_getElem?.mp hx
    have hreported := (Look.reported_violating (hl x hx)).mpr (Or.inl hzone)
    rcases hlaw k x hk hzone hreported with hv | ⟨j, y, hjk, hy, _, hall⟩
    · exact hv
    · -- the evaluation before was in the Violation zone, and said so
      obtain ⟨k, rfl⟩ : ∃ k', k = k' + 1 := ⟨k - 1, by omega⟩
      obtain ⟨hlt, rfl⟩ := List.getElem?_eq_some_iff.mp hk
      have hlast : l[k]? = some l[k] := List.getElem?_eq_getElem (by omega)
      have hzone := hall k l[k] (by omega) (by omega) hlast
      have hsaid := (Look.reported_violating (hl _ (List.mem_of_getElem? hlast))).mpr (Or.inl hzone)
      have hstep := (List.isChain_iff_getElem.mp hfollows k hlt).1
      rw [hsaid] at hstep
      exact (Option.some.inj hstep).symm
  · exact fun hall k x hk hzone _ => Or.inl (hall x (List.mem_of_getElem? hk) hzone)

end Grace

/-! ## 4. A risk that is foreseen -/

section Risk

variable [Double R] [Platform R]

/-- A risk is predicted, and there is no violation yet. -/
def Foreseen (obj : Objective R) (x : Look R) : Prop :=
  (x.risk obj = .elevated ∨ x.risk obj = .high) ∧ x.zone obj ≠ .violation ∧ ¬x.Held obj

/-- **A risk that is foreseen is not reported as one.** -/
theorem at_risk_iff {obj : Objective R} {x : Look R} (h : x.Of obj) :
    (Foreseen obj x → x.reported = some .atRisk) ↔ ¬Foreseen obj x :=
  ⟨fun hlaw hf => Look.reported_ne_atRisk h (hlaw hf), fun hno hf => absurd hf hno⟩

end Risk

/-! ## 5. Concrete looks -/

section Tests

variable [Double R] [Platform R] [DecidableEq R]

/-- The look at the first objective of the contract for service and workload `1`. -/
def lookAt (s : State R) (now : Duration) : Option (Look R) :=
  (SloFabric.reported (evaluate s ⟨1⟩ ⟨1⟩ now)).bind fun r =>
    (selectContract s.contracts ⟨1⟩ ⟨1⟩ now).map fun c =>
      { before := s, after := r.1, service := ⟨1⟩, workload := ⟨1⟩, now := now, result := r.2
        contract := c, place := 0 }

omit [DecidableEq R] in
theorem lookAt_before {s : State R} {now : Duration} {x : Look R} (h : lookAt s now = some x) :
    x.before = s := by
  obtain ⟨r, _, hmap⟩ := Option.bind_eq_some_iff.mp h
  obtain ⟨c, _, rfl⟩ := Option.map_eq_some_iff.mp hmap
  rfl

/-- `Look.Of`, as a test. -/
def ofTest (obj : Objective R) (x : Look R) : Bool :=
  decide (x.contract.objectives[x.place]? = some obj) &&
    !unmeasured (computeMeasured (x.judgedBy obj) x.now) (evaluateFreshness (x.judgedBy obj) x.now)

theorem of_lookAt {s : State R} {now : Duration} {obj : Objective R}
    {p : Look R → Bool} (h : (lookAt s now).any (fun x => ofTest obj x && p x) = true) :
    ∃ x, lookAt s now = some x ∧ x.Of obj ∧ p x = true := by
  obtain ⟨x, hx, htest⟩ := (Option.any_eq_true _ _).mp h
  obtain ⟨hof, hp⟩ := Bool.and_eq_true_iff.mp htest
  obtain ⟨hobj, hvalue⟩ := Bool.and_eq_true_iff.mp hof
  have hmeasured : HasValue (x.judgedBy obj) x.now := (Bool.not_eq_true' _).mp hvalue
  refine ⟨x, hx, ?_, hp⟩
  obtain ⟨⟨s', res⟩, hres, hmap⟩ := Option.bind_eq_some_iff.mp hx
  obtain ⟨c, hc, rfl⟩ := Option.map_eq_some_iff.mp hmap
  refine ⟨?_, hc, of_decide_eq_true hobj, (hasValue_iff _ _).mp hmeasured⟩
  unfold SloFabric.reported at hres
  split at hres
  · rename_i heq
    cases hres
    exact heq
  · cases hres

end Tests

/-- A latency of at most 100 ms. -/
def hundredMillis : Objective ℚ where
  id := ⟨1⟩
  gen := ⟨1⟩
  target := .duration 100000000
  freshnessTtl := 1000000000
  allowedUncertainty := 0
  percentileRank := 99 / 100

/-- A fabric with the objective and a latency of 200 ms. -/
def beyondFabric : State ℚ :=
  let s := (setPolicy (State.fresh ℚ) smallPolicy).1
  let s := (addContract s { id := ⟨1⟩, gen := ⟨1⟩, service := ⟨1⟩, workload := ⟨1⟩,
                            objectives := [hundredMillis], policyId := ⟨1⟩, policyGen := ⟨1⟩,
                            lifecycle := .active }).1
  (ingest s { id := ⟨1⟩, objectiveId := ⟨1⟩, value := .duration 200000000 } 0).1

/-- Then an evaluation, and a latency of 97 ms. -/
def backFabric : State ℚ :=
  (ingest (((lookAt beyondFabric 0).map (·.after)).getD beyondFabric)
    { id := ⟨2⟩, objectiveId := ⟨1⟩, time := 1, value := .duration 97000000 } 1).1

/-- **Back under the target, and still Violating.** -/
theorem target_law_fails :
    ¬∀ (obj : Objective ℚ) (l : List (Look ℚ)), obj.breachThreshold = none →
      obj.recoveryThreshold = none → (∀ x ∈ l, x.Of obj) → l.IsChain (Follows obj) →
      ∀ x ∈ l, TargetLaw obj x := by
  intro hall
  have hfirst : (lookAt beyondFabric 0).any (fun x => ofTest hundredMillis x &&
      (x.reported == some .violating && x.now == 0)) = true := by
    decide +kernel
  have hsecond : (lookAt backFabric 1).any (fun x => ofTest hundredMillis x &&
      (x.reported == some .violating && x.remembered hundredMillis == .violating && x.now == 1 &&
        x.value hundredMillis == 97000000)) = true := by
    decide +kernel
  obtain ⟨x, _, hx, hfirst⟩ := of_lookAt hfirst
  obtain ⟨y, _, hy, hsecond⟩ := of_lookAt hsecond
  simp only [Bool.and_eq_true, beq_iff_eq] at hfirst hsecond
  obtain ⟨hreported, hnow⟩ := hfirst
  obtain ⟨⟨⟨hstill, hremembered⟩, hnow'⟩, hvalue⟩ := hsecond
  have hfollows : Follows hundredMillis x y :=
    ⟨by rw [hreported, hremembered], by rw [hnow, hnow']; decide⟩
  have hbeyond := (hall hundredMillis [x, y] rfl rfl (by simp [hx, hy]) (by simp [hfollows])
    y (by simp)).mp hstill
  rw [hvalue] at hbeyond
  exact absurd hbeyond (by
    show ¬(100000000 + 1 / 10 ^ 9 : ℚ) < 97000000
    norm_num)

theorem target_law_iff_small : ∃ x, lookAt beyondFabric 0 = some x ∧
    x.reported = some .violating ∧ TargetLaw hundredMillis x := by
  have htest : (lookAt beyondFabric 0).any (fun x => ofTest hundredMillis x &&
      (x.reported == some .violating && x.zone hundredMillis == .violation)) = true := by
    decide +kernel
  obtain ⟨x, hlook, hx, htest⟩ := of_lookAt htest
  obtain ⟨hreported, hzone⟩ := Bool.and_eq_true_iff.mp htest
  have hfree : ∀ y ∈ [x], ¬y.Held hundredMillis := by
    intro y hy hheld
    rw [List.mem_singleton.mp hy] at hheld
    have hnear := hheld.1
    rw [eq_of_beq hzone] at hnear
    cases hnear
  exact ⟨x, hlook, eq_of_beq hreported,
    (target_law_iff (l := [x]) rfl (by simpa using hx)).mpr hfree x (List.mem_singleton.mpr rfl)⟩

/-- A latency of at most 100 ms, with a grace period of a minute. -/
def patient : Objective Binary64 := { smallObjective 1 1 with gracePeriod := 60000000000 }

/-- A latency of 200 ms. -/
def oneBreach : List (Op Binary64) :=
  [.setPolicy smallPolicy, .addContract (smallContract 1 1 1 [patient]),
    .ingest (smallEvidence 1 1 200000000) 0]

/-- **A breach is declared at its first value.** -/
theorem grace_period_fails :
    ¬∀ (obj : Objective Binary64) (l : List (Look Binary64)), 0 < obj.gracePeriod →
      (∀ x ∈ l, Reachable x.before ∧ x.Of obj) → l.IsChain (Follows obj) → GraceLaw obj l := by
  intro hall
  have htest : (lookAt (after oneBreach) 0).any (fun x => ofTest patient x &&
      (x.zone patient == .violation && x.reported == some .violating &&
        x.remembered patient == .insufficientEvidence)) = true := by
    decide +kernel
  obtain ⟨x, hlook, hx, htest⟩ := of_lookAt htest
  simp only [Bool.and_eq_true, beq_iff_eq] at htest
  obtain ⟨⟨hzone, hreported⟩, hremembered⟩ := htest
  have hlaw := hall patient [x] (by decide)
    (by simpa [lookAt_before hlook] using ⟨reachable_after oneBreach, hx⟩) (.singleton x)
  rcases hlaw 0 x rfl hzone hreported with hv | ⟨j, _, hj, _⟩
  · rw [hremembered] at hv
    cases hv
  · exact Nat.not_lt_zero j hj

/-- A breach that was declared before. -/
theorem grace_period_iff_small : ∃ y,
    lookAt (after (oneBreach ++ [.evaluate ⟨1⟩ ⟨1⟩ 0])) 5 = some y ∧
    y.reported = some .violating ∧ GraceLaw patient [y] := by
  have htest : (lookAt (after (oneBreach ++ [.evaluate ⟨1⟩ ⟨1⟩ 0])) 5).any (fun y =>
      ofTest patient y && (y.reported == some .violating &&
        y.remembered patient == .violating)) = true := by
    decide +kernel
  obtain ⟨y, hlook, hy, htest⟩ := of_lookAt htest
  obtain ⟨hreported, hremembered⟩ := Bool.and_eq_true_iff.mp htest
  have hheld : ∀ x ∈ [y], x.zone patient = .violation → x.remembered patient = .violating := by
    intro x hx _
    rw [List.mem_singleton.mp hx, eq_of_beq hremembered]
  exact ⟨y, hlook, eq_of_beq hreported,
    (grace_period_iff (by simpa using hy) (.singleton y)).mpr hheld⟩

/-- A mean latency of at most 100 ms. -/
def meanLatency : Objective Binary64 := { smallObjective 1 1 with windowType := .rollingCount }

/-- A latency of so many milliseconds, measured at a second. -/
def rising (id : UInt64) (millis : Int64) (second : Int64) : Op Binary64 :=
  .ingest { smallEvidence id 1 (millis * 1000000) with time := second * 1000000000 }
    (second * 1000000000)

/-- Latencies of 10, 20, 30 and 40 ms in four seconds. -/
def risingLatency : List (Op Binary64) :=
  [.setPolicy smallPolicy, .addContract (smallContract 1 1 1 [meanLatency]),
    rising 1 10 0, rising 2 20 1, rising 3 30 2, rising 4 40 3]

theorem foreseen_risingLatency : ∃ x, lookAt (after risingLatency) 3000000000 = some x ∧
    x.Of meanLatency ∧ Foreseen meanLatency x ∧ x.reported = some .compliant := by
  have htest : (lookAt (after risingLatency) 3000000000).any (fun x => ofTest meanLatency x &&
      (x.risk meanLatency == .high && x.zone meanLatency == .compliant &&
        x.reported == some .compliant)) = true := by
    decide +kernel
  obtain ⟨x, hlook, hx, htest⟩ := of_lookAt htest
  simp only [Bool.and_eq_true, beq_iff_eq] at htest
  obtain ⟨⟨hrisk, hzone⟩, hreported⟩ := htest
  refine ⟨x, hlook, hx, ⟨Or.inr hrisk, ?_, fun hheld => ?_⟩, hreported⟩
  · rw [hzone]
    decide
  · have hnear := hheld.1
    rw [hzone] at hnear
    cases hnear

/-- **A risk that is foreseen, and Compliant.** -/
theorem at_risk_fails :
    ¬∀ (obj : Objective Binary64) (x : Look Binary64), Reachable x.before → x.Of obj →
      Foreseen obj x → x.reported = some .atRisk := by
  intro hall
  obtain ⟨x, hlook, hx, hforeseen, hreported⟩ := foreseen_risingLatency
  have hreach : Reachable x.before := by
    rw [lookAt_before hlook]
    exact reachable_after risingLatency
  have hatRisk := hall meanLatency x hreach hx hforeseen
  rw [hreported] at hatRisk
  cases hatRisk

theorem at_risk_iff_small : ∃ x, x.Of meanLatency ∧ Foreseen meanLatency x ∧
    ¬(Foreseen meanLatency x → x.reported = some .atRisk) := by
  obtain ⟨x, _, hx, hforeseen, _⟩ := foreseen_risingLatency
  exact ⟨x, hx, hforeseen, fun hlaw => (at_risk_iff hx).mp hlaw hforeseen⟩

end SloFabric
