/-
  File:      SloFabric/Enforcement.lean
  Subject:   Enforcement intents, receipts and their lifecycle; the record of a decision.
-/
import SloFabric.Measure

namespace SloFabric

inductive EnforcementLifecycle where
  | proposed | authorized | dispatched | acknowledged | effective | failed | cancelled
  | superseded | expired | outcomeUnknown
  deriving DecidableEq, Repr

/-- The legal lifecycle transitions. -/
def enforcementTransitionLegal (src dst : EnforcementLifecycle) : Bool :=
  match src with
  | .proposed => [.authorized, .cancelled, .superseded, .expired].contains dst
  | .authorized => [.dispatched, .cancelled, .superseded, .expired].contains dst
  | .dispatched =>
    [.acknowledged, .failed, .cancelled, .superseded, .expired, .outcomeUnknown].contains dst
  | .acknowledged =>
    [.effective, .failed, .cancelled, .superseded, .expired, .outcomeUnknown].contains dst
  | .effective => [.expired, .superseded].contains dst
  | .failed => dst == .expired
  | .cancelled => dst == .expired
  | .superseded => dst == .expired
  | .expired => false
  | .outcomeUnknown => [.expired, .failed].contains dst

/-- A typed enforcement intent, bound to the generations it was decided under. -/
structure EnforcementIntent where
  action : EnforcementAction := .noAction
  cls : EnforcementClass := .none
  dimension : Dimension := .latency
  objectiveId : ObjectiveId := ⟨0⟩
  objectiveGen : ObjectiveGen := ⟨0⟩
  service : ServiceId
  workload : WorkloadId
  epoch : CoordinatorEpoch
  contractGen : SloContractGen
  policyGen : PolicyGen
  evidenceGen : EvidenceGen
  evaluationId : EvaluationId
  evaluationGen : EvaluationGen
  workloadGen : WorkloadGen
  cooldown : Duration
  reason : Bytes := []
  deriving DecidableEq

/-- The lifecycle of an authorized action, with the generations it was bound to. -/
structure EnforcementReceipt where
  id : EnforcementId
  gen : EnforcementGen
  action : EnforcementAction
  lifecycle : EnforcementLifecycle
  epoch : CoordinatorEpoch
  contractGen : SloContractGen
  policyGen : PolicyGen
  evaluationId : EvaluationId
  evaluationGen : EvaluationGen
  workloadGen : WorkloadGen
  service : ServiceId
  workload : WorkloadId
  objectiveId : ObjectiveId
  objectiveGen : ObjectiveGen
  reason : Bytes
  deriving DecidableEq

/-- The record of a decision, for replay and audit. -/
structure EvaluationRecord where
  evaluationId : EvaluationId
  evaluationGen : EvaluationGen
  contractGen : SloContractGen
  policyGen : PolicyGen
  evidenceGen : EvidenceGen
  epoch : CoordinatorEpoch
  time : Duration
  compliance : ComplianceState
  bindingDimension : Dimension
  bindingObjective : ObjectiveId
  selectedAction : EnforcementAction
  digest : UInt64
  deriving DecidableEq

/-- The cap of both histories. -/
def historyCap : Nat := 1024

/-- Append to a history, giving up its oldest entry when it is full. -/
def pushHistory {α : Type} (h : List α) (x : α) : List α :=
  (if historyCap ≤ h.length then h.tail else h) ++ [x]

end SloFabric
