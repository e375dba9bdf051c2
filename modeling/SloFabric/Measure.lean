/-
  File:      SloFabric/Measure.lean
  Subject:   From an accumulator to a verdict on one objective: freshness, the measured value,
             the zone it falls in, the next compliance state, the predicted risk, the action.
-/
import SloFabric.Accumulator

namespace SloFabric

inductive Freshness where
  | current | stale | expired | revalidationRequired | unknown
  deriving DecidableEq, Repr

inductive PredictedRisk where
  | none | low | elevated | high
  deriving DecidableEq, Repr

/-- The typed runtime responses (`Admit` is `admitted` here). The last one has no name in the
    source: it is the byte `23` that the decoders of receipts and evaluation records let
    through. -/
inductive EnforcementAction where
  | noAction | admitted | defer | reject | throttle | reserveCapacity | increaseCapacity
  | reduceBatchSize | increaseBatchSize | changeQueuePriority | preemptLowerPriority
  | promoteWarmCapacity | replicate | drain | failover | recover | replanRecovery
  | reclaimMemory | reduceResidency | limitPower | changePlacement | escalate
  | manualInterventionRequired | undeclared
  deriving DecidableEq, Repr

variable {R : Type} [Double R]

open Double Codec

/-! ## 1. Freshness and the measured value -/

/-- The freshness of an accumulator's evidence at `now`. -/
def evaluateFreshness (acc : ObjectiveAccumulator R) (now : Duration) : Freshness :=
  let o := acc.defn
  if acc.usesAvailability then
    if !acc.avail.hasDenominator then .expired else .current
  else if acc.usesRecovery then .current
  else if acc.usesCost then
    if acc.cost.items.isEmpty then .expired else .current
  else
    match acc.window.samples.getLast? with
    | none => .expired
    | some latest =>
      let age := now - latest.time
      let ttl := o.freshnessTtl
      if age < 0 then .stale
      else if ttl ≤ 0 then
        let w := o.windowDuration
        if 0 < w ∧ w ≤ age then .stale else .current
      else if ttl < age then .stale
      else .current

/-- What `compute_measured` answers: `got` is its result, the rest its output parameters. -/
structure Measurement (R : Type) where
  got : Bool
  value : R
  unit : UnitKind
  sufficient : Bool
  samples : Count
  detail : Bytes

/-- The window aggregate of an objective's dimension and kind. -/
def windowValue (acc : ObjectiveAccumulator R) : R :=
  let o := acc.defn
  match o.dim with
  | .latency =>
    if o.kind = .latencyPercentile then acc.window.quantile o.percentileRank
    else if o.kind = .latencyMean then acc.window.mean
    else acc.window.max
  | .throughput => acc.window.mean
  | .memoryPressure =>
    if o.kind = .memoryMinHeadroom then acc.window.min else acc.window.max
  | _ => acc.window.mean

/-- The measured value of an objective, from its accumulator. -/
def computeMeasured (acc : ObjectiveAccumulator R) (now : Duration) : Measurement R :=
  let o := acc.defn
  let unit := expectedUnitFor o.dim
  let failed (samples : Count) (detail : String) : Measurement R :=
    ⟨false, ofRat 0, unit, false, samples, ascii detail⟩
  let windowCount := Int64.ofNat acc.window.size
  match o.dim with
  | .availability =>
    if !acc.avail.hasDenominator then failed 0 "no eligible denominator"
    else
      ⟨true, mul acc.avail.ratio (ofRat 10000), .basisPoints, acc.avail.hasDenominator,
        if acc.avail.mode = .time then 1 else acc.avail.eligible, []⟩
  | .recoveryTime =>
    if !acc.recovery.authoritative then
      ⟨true, ofRat 0, unit, true, 0, ascii "no recovery in progress"⟩
    else ⟨true, ofInt64 (acc.recovery.currentRecoveryDuration now), unit, true, 1, []⟩
  | .cost =>
    if o.kind = .costWindowBudget then
      if acc.cost.items.isEmpty then failed 0 "no cost evidence"
      else
        ⟨true, acc.cost.sum, unit, decide (1 ≤ acc.cost.items.length),
          Int64.ofNat acc.cost.items.length, []⟩
    else if acc.window.isEmpty then failed 0 "no cost evidence"
    else
      -- `size() >= static_cast<size_t>(min_evidence)`: an unsigned comparison
      ⟨true, acc.window.mean, unit, decide (o.minEvidence.toUInt64.toNat ≤ acc.window.size),
        windowCount, []⟩
  | .latency | .throughput | .memoryPressure =>
    if acc.window.isEmpty then failed 0 "no evidence"
    else if acc.window.size < (if o.minEvidence < 1 then 1 else o.minEvidence.toInt.toNat) then
      failed windowCount "insufficient samples"
    else if o.dim = .latency ∧ o.kind = .latencyPercentile ∧
        !acc.window.quantileSufficient o.percentileRank then
      failed windowCount "insufficient percentile evidence"
    else ⟨true, windowValue acc, unit, true, windowCount, []⟩

/-! ## 2. Zones and states -/

inductive Zone where
  | violation | near | compliant
  deriving DecidableEq, Repr

/-- `kMargin`. -/
def margin : R := ofRat (5 / 100)

/-- `kEpsilon`. -/
def epsilon : R := ofRat (1 / 10 ^ 9)

def numericLimit (o : Objective R) (breach : Bool) : R :=
  if breach then numericOf (o.breachThreshold.getD o.target)
  else numericOf (o.recoveryThreshold.getD o.target)

/-- The natural cap of a unit, `0` where there is none. -/
def physicalMax : UnitKind → R
  | .basisPoints => ofRat 10000
  | .percent => ofRat 100
  | .pressureRatio => ofRat 1000000
  | _ => ofRat 0

def classifyZone (o : Objective R) (measured : R) : Zone :=
  let breach := numericLimit o true
  let recovery := numericLimit o false
  let hyst := !eq breach recovery
  let cap : R := physicalMax (unitKindOf o.target)
  match o.comparison with
  | .atMost =>
    if lt (add breach epsilon) measured then .violation
    else if hyst then (if lt (add recovery epsilon) measured then .near else .compliant)
    else if lt (mul breach (sub (ofRat 1) margin)) measured then .near
    else .compliant
  | .atLeast =>
    if lt measured (sub breach epsilon) then .violation
    else if hyst then (if lt measured (sub recovery epsilon) then .near else .compliant)
    else if lt measured (mul breach (add (ofRat 1) margin)) ∧ (le cap (ofRat 0) ∨ lt measured cap)
      then .near
    else .compliant

def stepState (o : Objective R) (measured : R) (last : ComplianceState) : ComplianceState :=
  match classifyZone o measured with
  | .violation => .violating
  | .compliant => .compliant
  | .near => if last = .violating ∨ last = .recovering then last else .nearLimit

/-- A verdict is only Compliant where the measured value is in the Compliant zone, or held by a
    last state that is not Compliant. -/
theorem stepState_eq_compliant {o : Objective R} {measured : R} {last : ComplianceState}
    (h : stepState o measured last = .compliant) : classifyZone o measured = .compliant := by
  unfold stepState at h
  cases hz : classifyZone o measured with
  | violation => simp [hz] at h
  | compliant => rfl
  | near =>
    simp only [hz] at h
    split at h
    · rename_i hl
      rcases hl with hl | hl <;> rw [hl] at h <;> cases h
    · cases h

/-! ## 3. Risk, severity and action -/

/-- The least-squares sums over the window: `(sx, sy, sxx, sxy)`, times relative to `x0`. -/
def trendSums (x0 : R) (l : List (WindowSample R)) : R × R × R × R :=
  l.foldl (fun s w =>
    let x := sub (ofInt64 w.time) x0
    (add s.1 x, add s.2.1 w.value, add s.2.2.1 (mul x x), add s.2.2.2 (mul x w.value)))
    (ofRat 0, ofRat 0, ofRat 0, ofRat 0)

/-- The risk a projected value means against a limit. -/
def riskOf (projected limit : R) : PredictedRisk :=
  if lt (mul limit (ofRat (15 / 10))) projected then .high
  else if lt limit projected then .elevated
  else .none

def predictRisk (o : Objective R) (acc : ObjectiveAccumulator R) (now : Duration)
    (measured breach : R) : PredictedRisk :=
  if o.dim = .cost ∧ o.kind = .costWindowBudget then
    match acc.cost.items with
    | [] => .none
    | first :: _ =>
      let target := numericOf o.target
      let span := now - first.1
      let window := if o.windowDuration < 1 then 1 else o.windowDuration
      let frac : R := if 0 < span then div (ofInt64 span) (ofInt64 window) else ofRat 1
      let frac := if le frac (ofRat 0) then ofRat 1 else frac
      riskOf (div acc.cost.sum frac) target
  else if o.dim = .latency ∨ o.dim = .memoryPressure then
    if acc.window.size < 4 then .none
    else if o.comparison ≠ .atMost then .none
    else
      match acc.window.samples with
      | [] => .none
      | front :: _ =>
        let n : R := ofSize acc.window.size
        let (sx, sy, sxx, sxy) := trendSums (ofInt64 front.time) acc.window.samples
        let denom := sub (mul n sxx) (mul sx sx)
        if eq denom (ofRat 0) then .none
        else
          let slope := div (sub (mul n sxy) (mul sx sy)) denom
          if le slope (ofRat 0) then .none
          else
            let horizon : R :=
              ofInt64 (if 0 < o.windowDuration then o.windowDuration else 60000000000)
            riskOf (add measured (mul slope horizon)) breach
  else .none

def actionFor (o : Objective R) (state : ComplianceState) : EnforcementAction :=
  if state = .violating ∨ state = .recovering then
    match o.dim with
    | .latency => .increaseCapacity
    | .availability => .replicate
    | .throughput => .increaseCapacity
    | .recoveryTime => .failover
    | .memoryPressure => .reclaimMemory
    | .cost => .manualInterventionRequired
  else if state = .atRisk ∨ state = .nearLimit then
    match o.dim with
    | .latency => .promoteWarmCapacity
    | .availability => .replicate
    | .throughput => .increaseBatchSize
    | .recoveryTime => .replanRecovery
    | .memoryPressure => .reduceResidency
    | .cost => .manualInterventionRequired
  else .noAction

def severityReason (state : ComplianceState) : String :=
  match state with
  | .violating => "current violation; enforcement required"
  | .recovering => "violation detected; recovery in flight"
  | .atRisk => "predicted violation; preventive action"
  | .nearLimit => "approaching breach threshold"
  | .insufficientEvidence => "insufficient evidence"
  | .revalidationRequired => "evidence requires revalidation"
  | .suspended => "contract suspended"
  | .compliant => "compliant"

def severityRankOf : ComplianceState → Nat
  | .violating => 0
  | .recovering => 1
  | .atRisk => 2
  | .nearLimit => 3
  | .compliant => 4
  | .insufficientEvidence => 5
  | .revalidationRequired => 6
  | .suspended => 7

def severityMagnitude (o : Objective R) (measured : R) : R :=
  let breach := numericLimit o true
  if le breach (ofRat 0) then ofRat 0
  else
    match o.comparison with
    | .atMost => div measured breach
    | .atLeast => div breach (if lt (ofRat 0) measured then measured else ofRat 1)

/-- FNV-1a over the bytes. -/
def stableHash (s : Bytes) : UInt64 :=
  s.foldl (fun h c => (h ^^^ c.toUInt64) * 1099511628211) 14695981039346656037

end SloFabric
