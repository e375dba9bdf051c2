/-
  File:      SloFabric/Evaluate.lean
  Subject:   One evaluation: the verdict on every objective of a contract, the overall
             compliance, the enforcement intent, and the record of the decision.

  * `evaluateObjective`: one turn of the loop over the objectives, with `evaluateObjective_spec`:
    it stores the accumulator `judged` and reports the `verdict`;
  * `evaluateObjectives`: the loop, which hands the accumulators from turn to turn;
  * `Platform`: what the standard leaves open about `std::sort`; `overallOf`: the overall compliance
    and the binding objective;
  * `evaluate`: the whole operation. It is `none` where the source reads the first element of
    an empty vector (a contract without objectives).
-/
import SloFabric.Fabric
import SloFabric.Library.Sorting

namespace SloFabric

variable {R : Type}

open Double Codec

/-! ## 1. What an evaluation reports -/

/-- Per-objective detail of an explanation. -/
structure ObjectiveState (R : Type) where
  id : ObjectiveId
  gen : ObjectiveGen
  name : Bytes
  dim : Dimension
  kind : ObjectiveKind
  state : ComplianceState
  currentValue : Option (ObjectiveValue R)
  target : ObjectiveValue R
  breachThreshold : Option (ObjectiveValue R)
  recoveryThreshold : Option (ObjectiveValue R)
  comparison : Comparison
  hard : HardSoft
  freshness : Freshness
  provenance : Provenance
  sampleCount : Count
  sufficient : Bool
  budgetState : Option BudgetState
  burn : Option BurnRate
  predicted : PredictedRisk
  detail : Bytes

/-- An objective with its verdict. -/
structure ObjEval (R : Type) where
  obj : Objective R
  st : ObjectiveState R
  measured : R
  state : ComplianceState
  risk : PredictedRisk := .none
  severityRank : Nat := 99
  magnitude : R

inductive ChangeReason where
  | latencyBelowRecovery | capacityBecomesAvailable | workloadPriorityChanges | budgetReplenishes
  | deadlineRelaxes | memoryPressureFalls | costBudgetIncreases | warmReplicaBecomesReady
  | recoveryCandidateImproves | throughputRises | evidenceBecomesFresh | policyGenerationChanges
  | configurationChanges
  deriving DecidableEq, Repr

structure RequiredChange where
  reason : ChangeReason
  description : Bytes
  deriving DecidableEq

structure RankedIntent where
  action : EnforcementAction
  selected : Bool
  rationale : Bytes
  deriving DecidableEq

structure Explanation (R : Type) where
  contractId : SloContractId
  contractGen : SloContractGen
  policyId : PolicyId
  policyGen : PolicyGen
  service : ServiceId
  workload : WorkloadId
  epoch : CoordinatorEpoch
  workloadGen : WorkloadGen
  evaluationId : EvaluationId
  evaluationGen : EvaluationGen
  objectives : List (ObjectiveState R)
  compliance : ComplianceState
  bindingDimension : Dimension
  bindingObjective : ObjectiveId
  secondaryConstraints : List ObjectiveId
  predictedRisks : List PredictedRisk
  selectedAction : EnforcementAction
  rankedIntents : List RankedIntent
  policyRationale : Bytes
  requiredChanges : List RequiredChange

structure EvaluationResult (R : Type) where
  explanation : Explanation R
  intent : EnforcementIntent

/-! ## 2. One objective -/

/-- Start a new budget window where the old one has ended. -/
def rollBudget (acc : ObjectiveAccumulator R) (now : Duration) : ObjectiveAccumulator R :=
  if acc.hasBudget && acc.budget.windowRolled now then
    { acc with budget := acc.budget.resetWindow now }
  else acc

/-- Remember the verdict of an evaluation. -/
def ObjectiveAccumulator.setLastState (acc : ObjectiveAccumulator R) (state : ComplianceState)
    (now : Duration) : ObjectiveAccumulator R :=
  { acc with lastState := state, lastStateTime := now }

@[simp] theorem rollBudget_defn (acc : ObjectiveAccumulator R) (now : Duration) :
    (rollBudget acc now).defn = acc.defn := by
  unfold rollBudget
  split <;> rfl

@[simp] theorem rollBudget_lastState (acc : ObjectiveAccumulator R) (now : Duration) :
    (rollBudget acc now).lastState = acc.lastState := by
  unfold rollBudget
  split <;> rfl

@[simp] theorem setLastState_defn (acc : ObjectiveAccumulator R) (state : ComplianceState)
    (now : Duration) : (acc.setLastState state now).defn = acc.defn := rfl

section Objective

variable [Double R]

/-- Is there no measurement a verdict could rest on? -/
def unmeasured (m : Measurement R) (fr : Freshness) : Bool :=
  !m.got || !m.sufficient || fr == .stale || fr == .expired

/-- The verdict where there is no measurement. -/
def unmeasuredState (fr : Freshness) : ComplianceState :=
  if fr = .stale then .revalidationRequired else .insufficientEvidence

/-- The verdict on a measured value: an exhausted budget spoils a Compliant one. -/
def measuredState (obj : Objective R) (acc : ObjectiveAccumulator R) (measured : R) :
    ComplianceState :=
  let state := stepState obj measured acc.lastState
  if acc.hasBudget && acc.budget.state R == .exhausted && state == .compliant then .nearLimit
  else state

/-- One turn of the loop: the accumulators after it, the verdict, and its part of the digest. -/
def evaluateObjective (t : Accumulators R) (obj : Objective R) (now : Duration) :
    Accumulators R × ObjEval R × Bytes :=
  let acc := acquire t obj
  let m := computeMeasured acc now
  let fr := evaluateFreshness acc now
  let acc := rollBudget acc now
  let st : ObjectiveState R :=
    { id := obj.id, gen := obj.gen, name := obj.name, dim := obj.dim, kind := obj.kind
      state := .insufficientEvidence, currentValue := none, target := obj.target
      breachThreshold := obj.breachThreshold, recoveryThreshold := obj.recoveryThreshold
      comparison := obj.comparison, hard := obj.hard, freshness := fr, provenance := .unknown
      sampleCount := m.samples, sufficient := m.sufficient
      budgetState := if acc.hasBudget then some (acc.budget.state R) else none
      burn := if acc.hasBudget then some (acc.budget.classifyBurn R now) else none
      predicted := .none, detail := [] }
  if unmeasured m fr then
    let state := unmeasuredState fr
    let detail :=
      if fr = .stale then ascii "stale evidence requires revalidation"
      else if m.detail.isEmpty then ascii "no current evidence"
      else m.detail
    (t.insert (acc.setLastState state now),
      { obj := obj, st := { st with state := state, detail := detail }, measured := m.value
        state := state, magnitude := ofRat 0 }, [])
  else
    let state := measuredState obj acc m.value
    let risk := predictRisk obj acc now m.value (numericLimit obj true)
    (t.insert (acc.setLastState state now),
      { obj := obj
        st := { st with
          state := state, currentValue := some (makeValue (expectedUnitFor obj.dim) m.value)
          sufficient := true, predicted := risk, detail := ascii (severityReason state)
          provenance := .measured }
        measured := m.value, state := state, risk := risk
        severityRank := severityRankOf state, magnitude := severityMagnitude obj m.value },
      obj.name ++ ascii "=" ++ decimal state.ctorIdx ++ ascii ";" ++ repr m.value ++ ascii ";")

/-- The verdict a turn of the loop reaches. -/
def verdict (t : Accumulators R) (obj : Objective R) (now : Duration) : ComplianceState :=
  let acc := acquire t obj
  let m := computeMeasured acc now
  let fr := evaluateFreshness acc now
  if unmeasured m fr then unmeasuredState fr else measuredState obj (rollBudget acc now) m.value

/-- The accumulator a turn of the loop leaves behind. -/
def judged (t : Accumulators R) (obj : Objective R) (now : Duration) : ObjectiveAccumulator R :=
  (rollBudget (acquire t obj) now).setLastState (verdict t obj now) now

/-- The entry speaks about `obj` and says `state`, in the explanation too. -/
def ObjEval.Reports (ev : ObjEval R) (obj : Objective R) (state : ComplianceState) : Prop :=
  ev.obj = obj ∧ ev.state = state ∧ ev.st.id = obj.id ∧ ev.st.state = state

/-- **What a turn of the loop does**: it stores the judged accumulator and reports its verdict. -/
theorem evaluateObjective_spec (t : Accumulators R) (obj : Objective R) (now : Duration) :
    (evaluateObjective t obj now).1 = t.insert (judged t obj now) ∧
      (evaluateObjective t obj now).2.1.Reports obj (verdict t obj now) := by
  unfold evaluateObjective judged verdict ObjEval.Reports
  by_cases h : unmeasured (computeMeasured (acquire t obj) now)
      (evaluateFreshness (acquire t obj) now) = true
  · simp [h]
  · simp [h]

/-- The loop over the objectives of a contract. -/
def evaluateObjectives (t : Accumulators R) (now : Duration) :
    List (Objective R) → Accumulators R × List (ObjEval R) × Bytes
  | [] => (t, [], [])
  | obj :: objs =>
    let (t, ev, digest) := evaluateObjective t obj now
    let (t, evals, digests) := evaluateObjectives t now objs
    (t, ev :: evals, digest ++ digests)

end Objective

/-! ## 3. The decision -/

section Decision

variable [Double R]

/-- The order of the binding objective: severity, magnitude (larger first), priority, name. -/
def moreSevere (a b : ObjEval R) : Bool :=
  if a.severityRank ≠ b.severityRank then decide (a.severityRank < b.severityRank)
  else if !eq a.magnitude b.magnitude then lt b.magnitude a.magnitude
  else if a.obj.priority ≠ b.obj.priority then decide (a.obj.priority < b.obj.priority)
  else decide (a.obj.name < b.obj.name)

/-- The platform whose `double` is `R` has a `std::sort`. The standard leaves open in which order
    it puts objectives that agree in all four keys, and what it does where a NaN is among the
    magnitudes, which makes the comparison no strict weak order. -/
class Platform (R : Type) where
  sort : ComparisonSort

/-- The runs on fixed inputs sort by insertion. -/
instance : Platform Binary64 := ⟨.stable⟩

instance : Platform ℚ := ⟨.stable⟩

/-- The overall compliance and, when every objective is measured, the binding objective. -/
def overallOf [Platform R] (evals : List (ObjEval R)) :
    Option (ComplianceState × Option (Objective R)) :=
  if evals.any (·.state == .revalidationRequired) then some (.revalidationRequired, none)
  else if evals.any (·.state == .insufficientEvidence) then some (.insufficientEvidence, none)
  else
    let hard := evals.filter (·.state != .compliant)
    let hard := if hard.isEmpty then evals.take 1 else hard
    match (Platform.sort R).sort moreSevere hard with
    | [] => none
    | front :: _ => some (front.state, some front.obj)

/-- Only of nothing there is no overall compliance. -/
theorem overallOf_eq_none [Platform R] {evals : List (ObjEval R)} :
    overallOf evals = none ↔ evals = [] := by
  constructor
  · intro h
    unfold overallOf at h
    split_ifs at h
    dsimp only at h
    split at h
    · rename_i hsort
      have hnil := ComparisonSort.sort_eq_nil.mp hsort
      split at hnil
      · exact (List.take_eq_nil_iff.mp hnil).resolve_left one_ne_zero
      · rename_i hne
        exact absurd (by rw [hnil]; rfl) hne
    · cases h
  · rintro rfl
    simp [overallOf, ComparisonSort.sort_eq_nil.mpr]

end Decision

/-- The reason named for a binding objective of a dimension. -/
def changeReason : Dimension → ChangeReason
  | .latency => .latencyBelowRecovery
  | .memoryPressure => .memoryPressureFalls
  | .cost => .costBudgetIncreases
  | .availability => .warmReplicaBecomesReady
  | .throughput => .throughputRises
  | .recoveryTime => .recoveryCandidateImproves

/-- The end of an objective's cooldown. -/
def cooldownOf (t : Accumulators R) (id : ObjectiveId) : Duration :=
  match t.find id with
  | some acc => acc.cooldownUntil
  | none => 0

/-- The action an evaluation selects for its binding objective. -/
def selectAction (t : Accumulators R) (bobj : Objective R) (overall : ComplianceState)
    (now : Duration) : EnforcementAction :=
  if now < cooldownOf t bobj.id then .noAction
  else if bobj.enforcement = .none then .noAction
  else actionFor bobj overall

/-- The contract `evaluate` picks for a scope: the newest one that can authorize at `now`. -/
def selectContract (cs : Contracts R) (service : ServiceId) (workload : WorkloadId)
    (now : Duration) : Option (SloContract R) :=
  newest (·.gen.value)
    (cs.rows.filter fun c => c.service = service ∧ c.workload = workload ∧ c.canAuthorize now)

/-- `seconds(5)`. -/
def intentCooldown : Duration := 5000000000

/-- The intent of an evaluation, with the binding objective when there is one. -/
def intentOf (s : State R) (t : Accumulators R) (c : SloContract R) (policy : SloPolicy)
    (service : ServiceId) (workload : WorkloadId) (now : Duration) (number : UInt64)
    (overall : ComplianceState) (binding : Option (Objective R)) : EnforcementIntent :=
  let intent : EnforcementIntent :=
    { service := service, workload := workload, epoch := s.epoch, contractGen := c.gen
      policyGen := policy.gen, evaluationId := ⟨number⟩, evaluationGen := ⟨number⟩
      evidenceGen := ⟨number⟩, workloadGen := ⟨1⟩, cooldown := intentCooldown }
  match binding with
  | none => intent
  | some bobj =>
    { intent with
      action := selectAction t bobj overall now, cls := bobj.enforcement, dimension := bobj.dim
      objectiveId := bobj.id, objectiveGen := bobj.gen
      reason := ascii (severityReason overall) ++ ascii "; binding objective: " ++ bobj.name }

/-- The explanation of an evaluation. -/
def explanationOf (c : SloContract R) (policy : SloPolicy) (intent : EnforcementIntent)
    (evals : List (ObjEval R)) (overall : ComplianceState) (binding : Option (Objective R)) :
    Explanation R where
  contractId := c.id
  contractGen := c.gen
  policyId := policy.id
  policyGen := policy.gen
  service := intent.service
  workload := intent.workload
  epoch := intent.epoch
  workloadGen := intent.workloadGen
  evaluationId := intent.evaluationId
  evaluationGen := intent.evaluationGen
  objectives := evals.map (·.st)
  compliance := overall
  bindingDimension := (binding.map (·.dim)).getD .latency
  bindingObjective := (binding.map (·.id)).getD ⟨0⟩
  secondaryConstraints :=
    match binding with
    | none => []
    | some bobj =>
      (evals.filter fun e => e.obj.id ≠ bobj.id ∧ e.state ≠ .compliant).map (·.obj.id)
  predictedRisks := (evals.map (·.risk)).filter (· != .none)
  selectedAction := intent.action
  rankedIntents :=
    match binding with
    | none => []
    | some bobj =>
      (evals.filter fun e => [.violating, .recovering, .atRisk, .nearLimit].contains e.state).map
        fun e =>
          { action := actionFor e.obj e.state, selected := e.obj.id = bobj.id
            rationale := e.obj.name ++ ascii ": " ++ ascii (severityReason e.state) }
  policyRationale := ascii (policyModeName policy.mode) ++ ascii ": " ++ policy.description
  requiredChanges :=
    match binding with
    | none => []
    | some bobj =>
      (evals.filter fun e => e.obj.id = bobj.id).map fun _ =>
        { reason := changeReason bobj.dim
          description := ascii "move " ++ bobj.name ++ ascii " below its recovery threshold" }

/-- The record of an evaluation. -/
def recordOf (ex : Explanation R) (intent : EnforcementIntent) (now : Duration)
    (digest : UInt64) : EvaluationRecord where
  evaluationId := ex.evaluationId
  evaluationGen := ex.evaluationGen
  contractGen := ex.contractGen
  policyGen := ex.policyGen
  evidenceGen := intent.evidenceGen
  epoch := ex.epoch
  time := now
  compliance := ex.compliance
  bindingDimension := ex.bindingDimension
  bindingObjective := ex.bindingObjective
  selectedAction := intent.action
  digest := digest

/-- **`evaluate`**: judge the objectives of the contract in force for a scope. -/
def evaluate [Double R] [Platform R] (s : State R) (service : ServiceId) (workload : WorkloadId)
    (now : Duration) : Option (State R × Except Status (EvaluationResult R)) :=
  match selectContract s.contracts service workload now with
  | none => some (s, .error (contractInactive "no active contract for scope"))
  | some c =>
    match (s.policies.find c.policyId).filter (·.gen = c.policyGen) with
    | none => some (s, .error (policySuperseded "policy generation does not match contract"))
    | some policy =>
      let number := s.evaluationCounter + 1
      let (t, evals, digests) := evaluateObjectives s.accumulators now c.objectives
      match overallOf evals with
      | none => none
      | some (overall, binding) =>
        let intent := intentOf s t c policy service workload now number overall binding
        let ex := explanationOf c policy intent evals overall binding
        let digest := decimal c.gen.value.toNat ++ ascii "|" ++
          decimal policy.gen.value.toNat ++ ascii "|" ++ digests
        let record := recordOf ex intent now (stableHash digest)
        some ({ s with
          evaluationCounter := number
          accumulators := t
          evaluationHistory := pushHistory s.evaluationHistory record
          evaluationById := s.evaluationById.insert record },
          .ok { explanation := ex, intent := intent })

/-- The outcome of an evaluation that succeeds. -/
def reported (x : Option (State R × Except Status (EvaluationResult R))) :
    Option (State R × EvaluationResult R) :=
  match x with
  | some (s, .ok res) => some (s, res)
  | _ => none

theorem of_reported {x : Option (State R × Except Status (EvaluationResult R))}
    {p : State R × EvaluationResult R → Bool} (h : (reported x).any p = true) :
    ∃ s res, x = some (s, .ok res) ∧ p (s, res) = true := by
  unfold reported at h
  split at h
  · exact ⟨_, _, rfl, h⟩
  · cases h

/-! ## 4. What an evaluation can do -/

section Spec

variable [Double R]

/-- The accumulators after the first `i` objectives. -/
def accumulatorsAfter (t : Accumulators R) (now : Duration) (objs : List (Objective R)) :
    Accumulators R :=
  objs.foldl (fun t obj => t.insert (judged t obj now)) t

theorem evaluateObjectives_table (now : Duration) : ∀ (objs : List (Objective R))
    (t : Accumulators R), (evaluateObjectives t now objs).1 = accumulatorsAfter t now objs
  | [], t => rfl
  | obj :: objs, t => by
      have ih := evaluateObjectives_table now objs
      simp only [evaluateObjectives]
      rw [ih, (evaluateObjective_spec t obj now).1]
      rfl

/-- The objectives are judged in order, each on the accumulators the ones before it left. -/
theorem evaluateObjectives_turn (now : Duration) : ∀ (objs : List (Objective R))
    (t : Accumulators R) (i : Nat) (obj : Objective R), objs[i]? = some obj →
    (evaluateObjectives t now objs).2.1[i]? =
      some (evaluateObjective (accumulatorsAfter t now (objs.take i)) obj now).2.1
  | [], _, _, _, h => by simp at h
  | o :: objs, t, 0, obj, h => by
      cases h
      rfl
  | o :: objs, t, i + 1, obj, h => by
      have hrest := evaluateObjectives_turn now objs (t.insert (judged t o now)) i obj h
      simp only [evaluateObjectives, (evaluateObjective_spec t o now).1]
      exact hrest

theorem evaluateObjectives_getElem (now : Duration) (objs : List (Objective R))
    (t : Accumulators R) (i : Nat) (obj : Objective R) (h : objs[i]? = some obj) :
    ∃ ev, (evaluateObjectives t now objs).2.1[i]? = some ev ∧
      ev.Reports obj (verdict (accumulatorsAfter t now (objs.take i)) obj now) :=
  ⟨_, evaluateObjectives_turn now objs t i obj h, (evaluateObjective_spec _ obj now).2⟩

theorem evaluateObjectives_length (now : Duration) : ∀ (objs : List (Objective R))
    (t : Accumulators R), (evaluateObjectives t now objs).2.1.length = objs.length
  | [], _ => rfl
  | obj :: objs, t => by
      simp only [evaluateObjectives, List.length_cons]
      rw [evaluateObjectives_length now objs]

/-- Every verdict an evaluation reports is that of an objective. -/
theorem mem_evaluateObjectives {now : Duration} {objs : List (Objective R)}
    {t : Accumulators R} {ev : ObjEval R} (h : ev ∈ (evaluateObjectives t now objs).2.1) :
    ∃ i, (evaluateObjectives t now objs).2.1[i]? = some ev ∧ objs[i]? = some ev.obj ∧
      ev.Reports ev.obj (verdict (accumulatorsAfter t now (objs.take i)) ev.obj now) := by
  obtain ⟨i, hi, he⟩ := List.mem_iff_getElem.mp h
  have hlt : i < objs.length := by rwa [evaluateObjectives_length] at hi
  obtain ⟨ev', h₁, h₂⟩ := evaluateObjectives_getElem now objs t i objs[i]
    (List.getElem?_eq_getElem hlt)
  have hev := h₁
  rw [List.getElem?_eq_getElem hi, he] at hev
  cases hev
  have hobj : objs[i]? = some ev.obj := by rw [List.getElem?_eq_getElem hlt, h₂.1]
  rw [← h₂.1] at h₂
  exact ⟨i, h₁, hobj, h₂⟩

/-- **What `evaluate` can do**: complain and change nothing, or judge the selected contract
    under its policy, count the evaluation, and keep its record. -/
theorem evaluate_cases [Platform R] {s s' : State R} {service : ServiceId} {workload : WorkloadId}
    {now : Duration} {r : Except Status (EvaluationResult R)}
    (h : evaluate s service workload now = some (s', r)) :
    (∃ st, r = .error st ∧ s' = s) ∨
    ∃ c policy overall binding digest,
      selectContract s.contracts service workload now = some c ∧
      s.policies.find c.policyId = some policy ∧ policy.gen = c.policyGen ∧
      overallOf (evaluateObjectives s.accumulators now c.objectives).2.1 =
        some (overall, binding) ∧
      let t := accumulatorsAfter s.accumulators now c.objectives
      let intent := intentOf s t c policy service workload now (s.evaluationCounter + 1) overall
        binding
      let ex := explanationOf c policy intent
        (evaluateObjectives s.accumulators now c.objectives).2.1 overall binding
      let record := recordOf ex intent now digest
      r = .ok { explanation := ex, intent := intent } ∧
      s' = { s with
        evaluationCounter := s.evaluationCounter + 1
        accumulators := t
        evaluationHistory := pushHistory s.evaluationHistory record
        evaluationById := s.evaluationById.insert record } := by
  unfold evaluate at h
  split at h
  · cases h
    exact Or.inl ⟨_, rfl, rfl⟩
  · rename_i c hc
    split at h
    · cases h
      exact Or.inl ⟨_, rfl, rfl⟩
    · rename_i policy hp
      obtain ⟨hp, hg⟩ := Option.filter_eq_some_iff.mp hp
      simp only [← evaluateObjectives_table]
      simp only at h
      split at h
      · cases h
      · rename_i overall binding ho
        cases h
        exact Or.inr ⟨c, policy, overall, binding, _, hc, hp, of_decide_eq_true hg, ho, rfl, rfl⟩

end Spec

end SloFabric
