/-
  File:      SloFabric/UnitAgreement.lean
  Subject:   The units of an objective's target, thresholds, evidence and reported value.

  Four places decide about units: `add_contract` checks the target against the dimension, nothing
  checks the thresholds, `ingest` checks the evidence with exceptions of its own, and `evaluate`
  builds the value it reports from the dimension alone.

  * `targetUnit`: the unit `add_contract` demands; `evidence_unit_iff`: when the unit `ingest`
    accepted is that one; `reported_unit`: the unit of the value that is reported;
  * `UnitsAgree`, `UnitsFit`, `units_agree_iff`: everything is in the unit of the target if and only
    if none of the exceptions is met;
  * `units_mix`: one objective for each exception.
-/
import SloFabric.WellFormed
import SloFabric.Accounts

namespace SloFabric

variable {R : Type}

/-! ## 1. The four units -/

/-- The unit `add_contract` demands of a target. -/
def targetUnit (o : Objective R) : UnitKind :=
  if o.dim = .throughput then rateUnit o.rateTag else expectedUnitFor o.dim

theorem targetUnitMatches_iff (o : Objective R) :
    o.targetUnitMatchesDimension = true ↔ unitKindOf o.target = targetUnit o := by
  unfold Objective.targetUnitMatchesDimension targetUnit
  split <;> exact beq_iff_eq

/-- A contract `add_contract` accepts has targets in the units of their dimensions. -/
theorem added_target {s : State R} {c : SloContract R} {o : Objective R}
    (h : (addContract s c).2.isOk = true) (ho : o ∈ c.objectives) :
    unitKindOf o.target = targetUnit o := by
  unfold addContract at h
  split at h
  · cases h
  · split at h
    · rename_i hno
      rw [Bool.not_eq_true', ← Bool.not_eq_true] at hno
      exact absurd h hno
    · rename_i hok
      rw [Bool.not_eq_true', Bool.not_eq_false] at hok
      exact (targetUnitMatches_iff o).mp ((objectivesAdmissible_iff _).mp hok o ho).unit

/-- A threshold that would be accepted as a target is in the unit of the target. -/
theorem threshold_unit_iff {o : Objective R} (htarget : unitKindOf o.target = targetUnit o)
    (t : ObjectiveValue R) : { o with target := t }.targetUnitMatchesDimension = true ↔
      unitKindOf t = unitKindOf o.target := by
  rw [htarget]
  exact targetUnitMatches_iff _

/-- A record accepted for the definition `o'` is in the unit of the target of `o`: the dimensions
    have one unit, and the record is none of the exceptions of `ingest`. -/
structure EvidenceFits (o o' : Objective R) (e : EvidenceRecord R) : Prop where
  dimension : expectedUnitFor o'.dim = expectedUnitFor o.dim
  tag : o'.dim = .throughput → o'.rateTag = o.rateTag
  headroom : ¬(o'.dim = .memoryPressure ∧ o'.kind = .memoryMinHeadroom)
  basisPoints : o'.dim = .availability → unitKindOf e.value = .basisPoints

theorem rateUnit_inj {a b : RateTag} : rateUnit a = rateUnit b ↔ a = b := by
  cases a <;> cases b <;> decide

/-- Only throughput is measured in a rate. -/
theorem expectedUnitFor_rate {d : Dimension} {t : RateTag} (hd : d ≠ .throughput) :
    rateUnit t ≠ expectedUnitFor d := by
  cases d with
  | throughput => exact absurd rfl hd
  | _ => cases t <;> decide

/-- The unit of another dimension is demanded of a target of a dimension with the same unit. -/
theorem targetUnit_iff {o : Objective R} {d : Dimension} (hd : d ≠ .throughput) :
    expectedUnitFor d = targetUnit o ↔ expectedUnitFor d = expectedUnitFor o.dim := by
  unfold targetUnit
  split
  · rename_i ho
    have hrate := expectedUnitFor_rate (t := o.rateTag) hd
    have hrequests := expectedUnitFor_rate (t := .requests) hd
    rw [ho]
    exact ⟨fun h => absurd h.symm hrate, fun h => absurd h.symm hrequests⟩
  · exact Iff.rfl

/-- No target is a byte count or a percentage. -/
theorem targetUnit_ne (o : Objective R) : targetUnit o ≠ .bytes ∧ targetUnit o ≠ .percent := by
  unfold targetUnit
  split
  · cases o.rateTag <;> decide
  · cases o.dim <;> decide

/-- **The units `ingest` accepts**: the rate, the byte count of a headroom objective, the percentage
    of an availability objective, or the unit of the dimension. -/
theorem unitCompatible_cases {o : Objective R} {e : EvidenceRecord R}
    (h : unitCompatible o e = true) :
    (o.dim = .throughput ∧ unitKindOf e.value = rateUnit o.rateTag) ∨
    ((o.dim = .memoryPressure ∧ o.kind = .memoryMinHeadroom) ∧ unitKindOf e.value = .bytes) ∨
    (o.dim = .availability ∧ unitKindOf e.value = .percent) ∨
    (o.dim ≠ .throughput ∧ ¬(o.dim = .memoryPressure ∧ o.kind = .memoryMinHeadroom) ∧
      unitKindOf e.value = expectedUnitFor o.dim) := by
  unfold unitCompatible at h
  simp only at h
  split at h
  · rename_i hd
    exact Or.inl ⟨hd, eq_of_beq h⟩
  · rename_i hd
    split at h
    · rename_i hroom
      exact Or.inr (Or.inl ⟨hroom, eq_of_beq h⟩)
    · rename_i hroom
      split at h
      · rename_i hcost
        refine Or.inr (Or.inr (Or.inr ⟨hd, hroom, ?_⟩))
        rw [eq_of_beq h, hcost]
        rfl
      · split at h
        · rename_i havail
          rcases Bool.or_eq_true_iff.mp h with h | h
          · refine Or.inr (Or.inr (Or.inr ⟨hd, hroom, ?_⟩))
            rw [eq_of_beq h, havail]
            rfl
          · exact Or.inr (Or.inr (Or.inl ⟨havail, eq_of_beq h⟩))
        · exact Or.inr (Or.inr (Or.inr ⟨hd, hroom, eq_of_beq h⟩))

/-- **When accepted evidence is in the unit of a target.** -/
theorem evidence_unit_iff {o o' : Objective R} {e : EvidenceRecord R}
    (h : unitCompatible o' e = true) :
    unitKindOf e.value = targetUnit o ↔ EvidenceFits o o' e := by
  rcases unitCompatible_cases h with ⟨hd, hu⟩ | ⟨hroom, hu⟩ | ⟨hd, hu⟩ | ⟨hd, hroom, hu⟩
  · have hother {d : Dimension} (hne : d ≠ .throughput) : o'.dim ≠ d := fun heq =>
      hne (heq.symm.trans hd)
    rw [hu]
    constructor
    · intro heq
      by_cases ho : o.dim = .throughput
      · rw [targetUnit, if_pos ho, rateUnit_inj] at heq
        exact ⟨by rw [hd, ho], fun _ => heq, fun hroom => hother (by decide) hroom.1,
          fun havail => absurd havail (hother (by decide))⟩
      · rw [targetUnit, if_neg ho] at heq
        exact absurd heq (expectedUnitFor_rate ho)
    · intro hfits
      have hdim := hfits.dimension
      rw [hd] at hdim
      have ho : o.dim = .throughput := by
        by_contra hne
        exact expectedUnitFor_rate (t := .requests) hne hdim
      rw [targetUnit, if_pos ho, hfits.tag hd]
  · rw [hu]
    exact ⟨fun heq => absurd heq.symm (targetUnit_ne o).1, fun hfits => absurd hroom hfits.headroom⟩
  · rw [hu]
    refine ⟨fun heq => absurd heq.symm (targetUnit_ne o).2, fun hfits => ?_⟩
    have hpoints := hfits.basisPoints hd
    rw [hu] at hpoints
    cases hpoints
  · have hpoints (havail : o'.dim = .availability) : unitKindOf e.value = .basisPoints := by
      rw [hu, havail]
      rfl
    rw [hu, targetUnit_iff hd]
    exact ⟨fun heq => ⟨heq, fun hrate => absurd hrate hd, hroom, hpoints⟩, fun h => h.dimension⟩

theorem makeValue_unit [Double R] (d : Dimension) (v : R) :
    unitKindOf (makeValue (expectedUnitFor d) v) = expectedUnitFor d := by
  cases d <;> rfl

/-- The dimension alone gives the unit of the target, but for rates of anything but requests. -/
theorem expectedUnit_iff (o : Objective R) :
    expectedUnitFor o.dim = targetUnit o ↔ (o.dim = .throughput → o.rateTag = .requests) := by
  unfold targetUnit
  split
  · rename_i hd
    rw [hd, show expectedUnitFor .throughput = rateUnit .requests from rfl, rateUnit_inj]
    exact ⟨fun h _ => h.symm, fun h => (h rfl).symm⟩
  · rename_i hd
    exact ⟨fun _ h => absurd h hd, fun _ => rfl⟩

/-- A record `ingest` accepts is compatible with the definition it was offered to. -/
theorem ingested_compatible [Double R] {s : State R} {e : EvidenceRecord R} {o : Objective R}
    {now : Duration} (ho : offeredTo s e = some o) (h : (ingest s e now).2.isOk = true) :
    unitCompatible o e = true := by
  rcases ingest_offered s e now with ⟨hno, _, _⟩ | ⟨o', ho', _, hst⟩
  · rw [ho] at hno
    cases hno
  · rw [ho] at ho'
    cases ho'
    rw [hst] at h
    rcases offer_spec o (acquire s.accumulators o) e with ⟨_, hoffer⟩ | ⟨_, _, hoffer⟩ |
      ⟨_, hunit, _⟩
    · rw [hoffer] at h
      cases h
    · rw [hoffer] at h
      cases h
    · exact hunit

/-- The unit of the value a turn of the loop reports is the one of the dimension. -/
theorem current_unit [Double R] {t : Accumulators R} {o : Objective R} {now : Duration}
    {v : ObjectiveValue R} (h : (evaluateObjective t o now).2.1.st.currentValue = some v) :
    unitKindOf v = expectedUnitFor o.dim := by
  unfold evaluateObjective at h
  simp only at h
  split at h
  · cases h
  · cases h
    exact makeValue_unit o.dim _

/-- The value an evaluation reports for an objective is in the unit of the dimension. -/
theorem reported_unit [Double R] [Platform R] {s s' : State R} {service : ServiceId}
    {workload : WorkloadId}
    {now : Duration} {res : EvaluationResult R} {c : SloContract R} {o : Objective R} {i : Nat}
    {x : ObjectiveState R} {v : ObjectiveValue R}
    (h : evaluate s service workload now = some (s', .ok res))
    (hc : judgedContract s service workload now = some c) (ho : c.objectives[i]? = some o)
    (hx : res.explanation.objectives[i]? = some x) (hv : x.currentValue = some v) :
    unitKindOf v = expectedUnitFor o.dim := by
  have hselected : selectContract s.contracts service workload now = some c :=
    (Option.filter_eq_some_iff.mp hc).1
  rw [evaluate_turn h hselected ho, Option.some.injEq] at hx
  rw [← hx] at hv
  exact current_unit hv

/-! ## 2. Agreement -/

/-- Evidence, thresholds and reported value are in the unit of the target. -/
structure UnitsAgree (o : Objective R) (e : EvidenceRecord R) (v : ObjectiveValue R) : Prop where
  evidence : unitKindOf e.value = unitKindOf o.target
  breach : ∀ t, o.breachThreshold = some t → unitKindOf t = unitKindOf o.target
  recovery : ∀ t, o.recoveryThreshold = some t → unitKindOf t = unitKindOf o.target
  current : unitKindOf v = unitKindOf o.target

/-- What none of the four places excludes does not happen: the thresholds pass the check of the
    target, a rate is one of requests, and evidence is none of the exceptions. -/
structure UnitsFit (o o' : Objective R) (e : EvidenceRecord R) : Prop
    extends EvidenceFits o o' e where
  breach : ∀ t, o.breachThreshold = some t →
    { o with target := t }.targetUnitMatchesDimension = true
  recovery : ∀ t, o.recoveryThreshold = some t →
    { o with target := t }.targetUnitMatchesDimension = true
  requests : o.dim = .throughput → o.rateTag = .requests

/-- **When units agree.** For an objective `o` of a contract that was added, a record that was
    accepted and offered to the definition `o'` (`o` itself, where the newest definitions are
    judged), and a value that was reported for `o`. -/
theorem units_agree_iff [Double R] [Platform R] {s s₁ s₂ s₂' : State R} {c c' : SloContract R}
    {o o' : Objective R} {e : EvidenceRecord R} {now now' : Duration} {service : ServiceId}
    {workload : WorkloadId} {res : EvaluationResult R} {i : Nat} {x : ObjectiveState R}
    {v : ObjectiveValue R} (hadd : (addContract s c).2.isOk = true) (ho : o ∈ c.objectives)
    (hoffered : offeredTo s₁ e = some o') (hingest : (ingest s₁ e now).2.isOk = true)
    (hevaluate : evaluate s₂ service workload now' = some (s₂', .ok res))
    (hjudged : judgedContract s₂ service workload now' = some c')
    (hi : c'.objectives[i]? = some o) (hx : res.explanation.objectives[i]? = some x)
    (hv : x.currentValue = some v) : UnitsAgree o e v ↔ UnitsFit o o' e := by
  have htarget := added_target hadd ho
  have hevidence := evidence_unit_iff (o := o) (ingested_compatible hoffered hingest)
  have hcurrent : unitKindOf v = unitKindOf o.target ↔
      (o.dim = .throughput → o.rateTag = .requests) := by
    rw [reported_unit hevaluate hjudged hi hx hv, htarget, expectedUnit_iff]
  rw [← htarget] at hevidence
  constructor
  · intro h
    exact
      { hevidence.mp h.evidence with
        breach := fun t ht => (threshold_unit_iff htarget t).mpr (h.breach t ht)
        recovery := fun t ht => (threshold_unit_iff htarget t).mpr (h.recovery t ht)
        requests := hcurrent.mp h.current }
  · intro h
    exact
      { evidence := hevidence.mpr h.toEvidenceFits
        breach := fun t ht => (threshold_unit_iff htarget t).mp (h.breach t ht)
        recovery := fun t ht => (threshold_unit_iff htarget t).mp (h.recovery t ht)
        current := hcurrent.mpr h.requests }

/-- A fabric with a latency of 50 ms for its one objective. -/
def latencyReported : List (Op Binary64) :=
  [.setPolicy smallPolicy, .addContract (smallContract 1 1 1 [smallObjective 1 1]),
    .ingest (smallEvidence 1 1 50000000) 0]

/-- The latency is reported in the unit of the target. -/
theorem units_agree_iff_small :
    ∃ (s : State Binary64) (res : EvaluationResult Binary64) (x : ObjectiveState Binary64)
      (v : ObjectiveValue Binary64),
      evaluate (after latencyReported) ⟨1⟩ ⟨1⟩ 0 = some (s, .ok res) ∧
      res.explanation.objectives[0]? = some x ∧ x.currentValue = some v ∧
      UnitsAgree (smallObjective 1 1) (smallEvidence 1 1 50000000) v := by
  have htest : (reported (evaluate (after latencyReported) ⟨1⟩ ⟨1⟩ 0)).any (fun y =>
      y.2.explanation.objectives[0]?.any (·.currentValue.isSome)) = true := by decide +kernel
  obtain ⟨s, res, heval, hres⟩ := of_reported htest
  obtain ⟨x, hx, hsome⟩ := (Option.any_eq_true _ _).mp hres
  obtain ⟨v, hv⟩ := Option.isSome_iff_exists.mp hsome
  have hjudged : judgedContract (after latencyReported) ⟨1⟩ ⟨1⟩ 0 =
      some (smallContract 1 1 1 [smallObjective 1 1]) := by decide +kernel
  have hfit : UnitsFit (smallObjective 1 1) (smallObjective 1 1)
      (smallEvidence 1 1 50000000) :=
    { dimension := rfl
      tag := fun h => by cases h
      headroom := fun h => by cases h.1
      basisPoints := fun h => by cases h
      breach := fun t h => by cases h
      recovery := fun t h => by cases h
      requests := fun h => by cases h }
  have hadd : (addContract (after [.setPolicy smallPolicy])
      (smallContract 1 1 1 [smallObjective 1 1])).2.isOk = true := by decide +kernel
  have hoffered : offeredTo (after (latencyReported.take 2)) (smallEvidence 1 1 50000000) =
      some (smallObjective 1 1) := by decide +kernel
  have hingest : (ingest (after (latencyReported.take 2)) (smallEvidence 1 1 50000000) 0).2.isOk =
      true := by decide +kernel
  exact ⟨s, res, x, v, heval, hx, hv, (units_agree_iff hadd List.mem_cons_self hoffered hingest
    heval hjudged rfl hx hv).mpr hfit⟩

/-! ## 3. One objective for each exception -/

/-- What can come of an objective and a record for it: the units of the target, of the record that
    was accepted, of the value that was reported, and of the breach threshold. -/
def unitsSeen (o : Objective Binary64) (e : EvidenceRecord Binary64) :
    Option (UnitKind × UnitKind × UnitKind × Option UnitKind) :=
  let s := after [.setPolicy smallPolicy]
  let s₁ := (addContract s (smallContract 1 1 1 [o])).1
  let s₂ := (ingest s₁ e 0).1
  if (addContract s (smallContract 1 1 1 [o])).2.isOk && (ingest s₁ e 0).2.isOk then
    (reported (evaluate s₂ ⟨1⟩ ⟨1⟩ 0)).bind fun x =>
      (x.2.explanation.objectives[0]?.bind (·.currentValue)).map fun v =>
        (unitKindOf o.target, unitKindOf e.value, unitKindOf v, o.breachThreshold.map unitKindOf)
  else none

/-- A rate of tokens is reported as one of requests; a percentage counts as basis points; the bytes
    of free memory are compared with a ratio; a count is the threshold of a latency. -/
theorem units_mix :
    unitsSeen
        { smallObjective 1 1 with
          dim := .throughput, kind := .throughputRate, comparison := .atLeast, rateTag := .tokens
          target := .tokensPerSecond (Double.ofRat 5) }
        { smallEvidence 1 1 0 with
          dimension := .throughput, value := .tokensPerSecond (Double.ofRat 7) } =
      some (.tokensPerSecond, .tokensPerSecond, .requestsPerSecond, none) ∧
    unitsSeen
        { smallObjective 1 1 with
          dim := .availability, kind := .availabilityTime, comparison := .atLeast
          target := .basisPoints 9900 }
        { smallEvidence 1 1 0 with
          dimension := .availability, value := .percentage (Double.ofRat 99) } =
      some (.basisPoints, .percent, .basisPoints, none) ∧
    unitsSeen
        { smallObjective 1 1 with
          dim := .memoryPressure, kind := .memoryMinHeadroom, comparison := .atLeast
          target := .pressureRatio (Double.ofRat (1 / 2)) }
        { smallEvidence 1 1 0 with dimension := .memoryPressure, value := .byteCount 4096 } =
      some (.pressureRatio, .bytes, .pressureRatio, none) ∧
    unitsSeen { smallObjective 1 1 with breachThreshold := some (.count 5) }
        (smallEvidence 1 1 50000000) =
      some (.nanoseconds, .nanoseconds, .nanoseconds, some .count) :=
  ⟨by decide +kernel, by decide +kernel, by decide +kernel, by decide +kernel⟩

end SloFabric
