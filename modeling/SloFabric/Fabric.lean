/-
  File:      SloFabric/Fabric.lean
  Subject:   The state of the fabric and its operations on policies, contracts, evidence,
             budgets and enforcement receipts (`evaluate` is in Evaluate.lean, `save` and
             `load` in Restart.lean).

  Every operation takes the state and gives the next state with what it answers: the mutex of
  the source makes each call one step. `State` keeps every field some operation reads; the
  injected clock is not among them (`now` is an argument everywhere).
-/
import SloFabric.Enforcement

namespace SloFabric

/-! ## 1. The state -/

abbrev Policies := KeyedTable fun p : SloPolicy => p.id
abbrev Contracts (R : Type) := KeyedTable fun c : SloContract R => c.id
abbrev EvaluationTable := KeyedTable fun r : EvaluationRecord => r.evaluationId

structure State (R : Type) where
  epoch : CoordinatorEpoch
  policies : Policies
  contracts : Contracts R
  accumulators : Accumulators R
  enforcementHistory : List EnforcementReceipt
  evaluationHistory : List EvaluationRecord
  evaluationById : EvaluationTable
  globalEvidence : Finset EvidenceId
  globalEvidenceRing : List EvidenceId
  evaluationCounter : UInt64
  enforcementCounter : UInt64
  dispatchCounter : UInt64

variable {R : Type}

/-- A fabric as it is constructed: epoch `1`, nothing stored. -/
def State.fresh (R : Type) : State R where
  epoch := ⟨1⟩
  policies := .empty _
  contracts := .empty _
  accumulators := .empty _
  enforcementHistory := []
  evaluationHistory := []
  evaluationById := .empty _
  globalEvidence := ∅
  globalEvidenceRing := []
  evaluationCounter := 0
  enforcementCounter := 0
  dispatchCounter := 0

/-! ## 2. Policies and contracts -/

def setPolicy (s : State R) (policy : SloPolicy) : State R × Status :=
  match s.policies.find policy.id with
  | some p =>
    if policy.gen ≤ p.gen then (s, policySuperseded "policy generation must increase")
    else ({ s with policies := s.policies.insert policy }, ok)
  | none => ({ s with policies := s.policies.insert policy }, ok)

/-- The admission check of one objective. -/
def objectiveAdmissible (o : Objective R) : Status :=
  if !o.id.valid then objectiveInvalid "objective id required"
  else if !o.gen.valid then objectiveInvalid "objective generation required"
  else if !o.targetUnitMatchesDimension then
    unitMismatch "objective target unit does not match dimension"
  else ok

/-- The first complaint about a list of objectives, or `ok`. -/
def objectivesAdmissible : List (Objective R) → Status
  | [] => ok
  | o :: os =>
    if (objectiveAdmissible o).isOk then objectivesAdmissible os else objectiveAdmissible o

/-- Store a contract of a higher generation than the one stored under its id. The source first
    marks the stored one superseded and then overwrites it. -/
def replaceContract (s : State R) (contract : SloContract R) : State R × Status :=
  match s.contracts.find contract.id with
  | some c =>
    if contract.gen ≤ c.gen then (s, invalidInput "contract generation must increase")
    else
      let marked := s.contracts.insert { c with lifecycle := .superseded }
      ({ s with contracts := marked.insert contract }, ok)
  | none => ({ s with contracts := s.contracts.insert contract }, ok)

def addContract (s : State R) (contract : SloContract R) : State R × Status :=
  if contract.objectives.isEmpty then (s, objectiveInvalid "contract has no objectives")
  else if !(objectivesAdmissible contract.objectives).isOk then
    (s, objectivesAdmissible contract.objectives)
  else replaceContract s contract

/-- `supersede_contract` makes none of the checks of `add_contract` on the objectives. -/
def supersedeContract (s : State R) (replacement : SloContract R) (_now : Duration) :
    State R × Status :=
  replaceContract s replacement

/-- Change a stored contract in place. -/
def updateContract (s : State R) (id : SloContractId) (f : SloContract R → SloContract R) :
    State R × Status :=
  match s.contracts.find id with
  | none => (s, notFound "unknown contract")
  | some c => ({ s with contracts := s.contracts.insert (f c) }, ok)

def activateContract (s : State R) (id : SloContractId) (now : Duration) : State R × Status :=
  updateContract s id fun c =>
    { c with lifecycle := .active
             effectiveFrom := if now < c.effectiveFrom then now else c.effectiveFrom }

def suspendContract (s : State R) (id : SloContractId) (_now : Duration) : State R × Status :=
  updateContract s id fun c => { c with lifecycle := .suspended }

def expireContract (s : State R) (id : SloContractId) (now : Duration) : State R × Status :=
  updateContract s id fun c =>
    { c with lifecycle := .expired
             expiration := if c.expiration.isSome then c.expiration else some now }

def retireContract (s : State R) (id : SloContractId) (_now : Duration) : State R × Status :=
  updateContract s id fun c => { c with lifecycle := .retired }

def findContract (s : State R) (id : SloContractId) : Option (SloContract R) :=
  s.contracts.find id

/-! ## 3. Evidence -/

/-- The cap of the remembered evidence ids. -/
def evidenceRingCap : Nat := 8192

/-- Note an evidence id, giving up the oldest one when the ring is full. -/
def noteEvidence (s : State R) (id : EvidenceId) : State R × Status :=
  if !id.valid then (s, invalidInput "evidence id required")
  else if id ∈ s.globalEvidence then (s, cancelled "duplicate evidence id")
  else
    let (ring, set) :=
      if evidenceRingCap ≤ s.globalEvidenceRing.length then
        match s.globalEvidenceRing with
        | [] => (s.globalEvidenceRing, s.globalEvidence)
        | old :: rest => (rest, s.globalEvidence.erase old)
      else (s.globalEvidenceRing, s.globalEvidence)
    ({ s with globalEvidenceRing := ring ++ [id], globalEvidence := insert id set }, ok)

/-- The objectives of all contracts, contracts in the order of their ids. -/
def allObjectives (cs : Contracts R) : List (Objective R) := cs.rows.flatMap (·.objectives)

/-- The definition the fabric uses for an objective id: the newest one of all contracts. -/
def definitionOf (cs : Contracts R) (id : ObjectiveId) : Option (Objective R) :=
  newest (·.gen.value) ((allObjectives cs).filter (·.id = id))

theorem definitionOf_some {cs : Contracts R} {id : ObjectiveId} {o : Objective R}
    (h : definitionOf cs id = some o) : o.id = id ∧ ∃ c ∈ cs.rows, o ∈ c.objectives := by
  obtain ⟨hmem, _⟩ := newest_some h
  rw [List.mem_filter, decide_eq_true_eq] at hmem
  exact ⟨hmem.2, List.mem_flatMap.mp hmem.1⟩

def ingest [Double R] (s : State R) (e : EvidenceRecord R) (_now : Duration) : State R × Status :=
  let (s, n) := noteEvidence s e.id
  if !n.isOk then (s, n)
  else if e.epoch.valid && e.epoch != s.epoch then
    (s, staleAuthority "evidence coordinator epoch does not match current")
  else
    match definitionOf s.contracts e.objectiveId with
    | none => (s, objectiveInvalid "unknown objective")
    | some o =>
      if e.objectiveGen.valid && e.objectiveGen != o.gen then
        (s, staleAuthority "objective generation mismatch")
      else
        let r := offer o (acquire s.accumulators o) e
        ({ s with accumulators := s.accumulators.insert r.1 }, r.2)

def recordRecoveryEvent (s : State R) (id : ObjectiveId) (phase : RecoveryEventPhase)
    (time : Duration) : State R × Status :=
  match definitionOf s.contracts id with
  | none => (s, objectiveInvalid "unknown recovery objective")
  | some o =>
    let acc := acquire s.accumulators o
    let acc := { acc with recovery := acc.recovery.record phase time }
    ({ s with accumulators := s.accumulators.insert acc }, ok)

/-- The definitions `ingest_violation_event` visits: of every contract its first objective of
    the id. -/
def violationDefinitions (cs : Contracts R) (id : ObjectiveId) : List (Objective R) :=
  cs.rows.filterMap fun c => c.objectives.find? (·.id = id)

/-- Consume one unit of the objective's budget. Every definition visited on the way goes
    through `get_accumulator`. -/
def ingestViolationEvent (s : State R) (id : ObjectiveId) (_now : Duration) :
    State R × Status :=
  let t := (violationDefinitions s.contracts id).foldl getAccumulator s.accumulators
  let s := { s with accumulators := t }
  match (violationDefinitions s.contracts id).getLast?, t.find id with
  | some _, some acc =>
    if !acc.hasBudget then (s, invalidInput "objective has no budget")
    else ({ s with accumulators := t.insert { acc with budget := acc.budget.consume } }, ok)
  | _, _ => (s, objectiveInvalid "unknown objective")

def setObjectiveBudget (s : State R) (id : ObjectiveId) (total : Count) (window : Duration) :
    State R × Status :=
  match definitionOf s.contracts id with
  | none => (s, objectiveInvalid "unknown objective")
  | some o =>
    let acc := acquire s.accumulators o
    if total < 0 then
      ({ s with accumulators := s.accumulators.insert acc },
        invalidInput "budget total must be non-negative")
    else
      let acc := { acc with hasBudget := true, budget := ErrorBudget.make total window }
      ({ s with accumulators := s.accumulators.insert acc }, ok)

/-! ## 4. Enforcement -/

/-- The contract `authorize` checks an intent against: the last one, in the order of their ids,
    of the intent's service that has an objective of the intent's objective id. -/
def intentContract (cs : Contracts R) (intent : EnforcementIntent) : Option (SloContract R) :=
  cs.rows.foldl (fun c kv =>
    if kv.objectives.any (·.id = intent.objectiveId) && kv.service = intent.service then some kv
    else c) none

/-- The receipt of an authorized intent. -/
def receiptOf (intent : EnforcementIntent) (number : UInt64) : EnforcementReceipt where
  id := ⟨number⟩
  gen := ⟨number⟩
  action := intent.action
  lifecycle := .authorized
  epoch := intent.epoch
  contractGen := intent.contractGen
  policyGen := intent.policyGen
  evaluationId := intent.evaluationId
  evaluationGen := intent.evaluationGen
  workloadGen := intent.workloadGen
  service := intent.service
  workload := intent.workload
  objectiveId := intent.objectiveId
  objectiveGen := intent.objectiveGen
  reason := intent.reason

/-- Set the cooldown of an objective's accumulator, where there is one. -/
def setCooldown (t : Accumulators R) (id : ObjectiveId) (stop : Duration) : Accumulators R :=
  match t.find id with
  | none => t
  | some acc => t.insert { acc with cooldownUntil := stop }

def authorize (s : State R) (intent : EnforcementIntent) (now : Duration) :
    State R × Except Status EnforcementReceipt :=
  if intent.epoch ≠ s.epoch then
    (s, .error (staleAuthority "intent coordinator epoch is stale"))
  else if intent.action = .noAction then
    (s, .error (invalidInput "cannot authorize a no-op intent"))
  else
    match intentContract s.contracts intent with
    | none => (s, .error (contractInactive "target contract not found"))
    | some c =>
      if c.gen ≠ intent.contractGen then
        (s, .error (staleAuthority "contract generation does not match intent"))
      else if !c.canAuthorize now then
        (s, .error (contractInactive "contract cannot authorize at this time"))
      else if (s.policies.find c.policyId).map (·.gen) ≠ some intent.policyGen then
        (s, .error (policySuperseded "policy generation does not match intent"))
      else
        let rc := receiptOf intent (s.enforcementCounter + 1)
        ({ s with
            enforcementCounter := s.enforcementCounter + 1
            accumulators := setCooldown s.accumulators intent.objectiveId (now + intent.cooldown)
            enforcementHistory := pushHistory s.enforcementHistory rc }, .ok rc)

/-- The fabric's part of `dispatch`: it counts the call and hands the intent to the sink. -/
def noteDispatch (s : State R) : State R := { s with dispatchCounter := s.dispatchCounter + 1 }

/-- Change the first receipt of an id: `f` answers its new lifecycle or a complaint. -/
def updateReceipt (f : EnforcementLifecycle → Except Status EnforcementLifecycle)
    (id : EnforcementId) : List EnforcementReceipt → List EnforcementReceipt × Status
  | [] => ([], notFound "enforcement not found")
  | rc :: rest =>
    if rc.id = id then
      match f rc.lifecycle with
      | .ok l => ({ rc with lifecycle := l } :: rest, ok)
      | .error st => (rc :: rest, st)
    else
      let r := updateReceipt f id rest
      (rc :: r.1, r.2)

/-- What `transition` does to a lifecycle. -/
def transitionTo (dst src : EnforcementLifecycle) : Except Status EnforcementLifecycle :=
  if enforcementTransitionLegal src dst then .ok dst
  else .error (cancelled "illegal enforcement lifecycle transition")

/-- What `complete_enforcement` does to a lifecycle. -/
def completed (src : EnforcementLifecycle) : Except Status EnforcementLifecycle :=
  if src = .acknowledged then .ok .effective
  else if src = .effective then .ok .effective
  else .error (cancelled "enforcement not in a state that can complete")

def transition (s : State R) (id : EnforcementId) (dst : EnforcementLifecycle)
    (_now : Duration) : State R × Status :=
  let r := updateReceipt (transitionTo dst) id s.enforcementHistory
  ({ s with enforcementHistory := r.1 }, r.2)

def completeEnforcement (s : State R) (id : EnforcementId) (_now : Duration) :
    State R × Status :=
  let r := updateReceipt completed id s.enforcementHistory
  ({ s with enforcementHistory := r.1 }, r.2)

/-- `get_evaluation`: the record stored under an evaluation id. -/
def getEvaluation (s : State R) (id : EvaluationId) : Except Status EvaluationRecord :=
  match s.evaluationById.find id with
  | none => .error (notFound "evaluation not found")
  | some r => .ok r

end SloFabric
