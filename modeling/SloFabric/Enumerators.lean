/-
  File:      SloFabric/Enumerators.lean
  Subject:   The enumerations of a decoded state.

  * `Declares`: how many enumerators the headers declare, type by type;
  * `StateDeclared`: every field of an enumeration, in every record, holds one of them;
  * `stateDeclared_iff`: in a decoded state that fails for the action `23` only;
  * `StateAlike`: states that differ in their enumerations only, with `alike_accepted`: they are
    accepted alike, so no record is refused for an enumerator;
  * `enumerators_iff`: both together.
-/
import SloFabric.Canonical
import Mathlib.Data.List.Forall2

namespace SloFabric

open Codec Double

/-! ## 1. Declared enumerators -/

/-- The number of enumerators a header declares for `E`; their codes are the numbers below. -/
class Declares (E : Type) where
  count : Nat

instance : Declares Dimension := ⟨6⟩
instance : Declares ObjectiveKind := ⟨12⟩
instance : Declares Comparison := ⟨2⟩
instance : Declares HardSoft := ⟨2⟩
instance : Declares EnforcementClass := ⟨4⟩
instance : Declares WindowType := ⟨5⟩
instance : Declares AvailabilityMode := ⟨2⟩
instance : Declares RateTag := ⟨4⟩
instance : Declares ContractLifecycle := ⟨6⟩
instance : Declares PolicyMode := ⟨2⟩
instance : Declares TieBreak := ⟨3⟩
instance : Declares EnforcementAction := ⟨23⟩
instance : Declares EnforcementLifecycle := ⟨10⟩
instance : Declares ComplianceState := ⟨8⟩

/-- The value is a declared enumerator of its type. -/
def Declared {E : Type} [ByteEnum E] [Declares E] (e : E) : Prop :=
  ByteEnum.code e < Declares.count E

instance {E : Type} [ByteEnum E] [Declares E] (e : E) : Decidable (Declared e) :=
  inferInstanceAs (Decidable (_ < _))

def PolicyDeclared (p : SloPolicy) : Prop := Declared p.mode ∧ Declared p.tieBreak

def ObjectiveDeclared (o : Objective Binary64) : Prop :=
  Declared o.dim ∧ Declared o.kind ∧ Declared o.comparison ∧ Declared o.hard ∧
    Declared o.enforcement ∧ Declared o.windowType ∧ Declared o.availabilityMode ∧
    Declared o.rateTag

def ContractDeclared (c : SloContract Binary64) : Prop :=
  Declared c.lifecycle ∧ ∀ o ∈ c.objectives, ObjectiveDeclared o

def ReceiptDeclared (rc : EnforcementReceipt) : Prop := Declared rc.action ∧ Declared rc.lifecycle

def EvalDeclared (e : EvaluationRecord) : Prop :=
  Declared e.compliance ∧ Declared e.bindingDimension ∧ Declared e.selectedAction

/-- Every field of an enumeration holds a declared enumerator. -/
structure StateDeclared (state : DurableState Binary64) : Prop where
  policies : ∀ p ∈ state.policies, PolicyDeclared p
  contracts : ∀ c ∈ state.contracts, ContractDeclared c
  objectiveStates : ∀ s ∈ state.objectiveStates, Declared s.lastState
  receipts : ∀ rc ∈ state.enforcementHistory, ReceiptDeclared rc
  evals : ∀ e ∈ state.evaluationHistory, EvalDeclared e

/-- Where the decoder's bound is below the count, every value is declared. -/
theorem declared_of_last {E : Type} [ByteEnum E] [Declares E]
    (h : ByteEnum.last E < Declares.count E) (e : E) : Declared e :=
  Nat.lt_of_le_of_lt (ByteEnum.code_le e) h

theorem objectiveDeclared (o : Objective Binary64) : ObjectiveDeclared o :=
  ⟨declared_of_last (by decide) _, declared_of_last (by decide) _, declared_of_last (by decide) _,
    declared_of_last (by decide) _, declared_of_last (by decide) _, declared_of_last (by decide) _,
    declared_of_last (by decide) _, declared_of_last (by decide) _⟩

/-- The bound of an action is one above the last enumerator. -/
theorem action_declared_iff (a : EnforcementAction) : Declared a ↔ 23 ∉ writeEnum a := by
  cases a <;> decide

/-- **Only the action `23` is not declared.** -/
theorem stateDeclared_iff (state : DurableState Binary64) :
    StateDeclared state ↔ 23 ∉ stateActions state := by
  rw [stateActions, List.mem_append, List.mem_flatMap, List.mem_flatMap, not_or]
  constructor
  · intro h
    constructor
    · rintro ⟨rc, hrc, hmem⟩
      exact (action_declared_iff _).mp (h.receipts rc hrc).1 hmem
    · rintro ⟨e, he, hmem⟩
      exact (action_declared_iff _).mp (h.evals e he).2.2 hmem
  · rintro ⟨hreceipts, hevals⟩
    constructor
    case policies =>
      exact fun p _ => ⟨declared_of_last (by decide) _, declared_of_last (by decide) _⟩
    case contracts =>
      exact fun c _ => ⟨declared_of_last (by decide) _, fun o _ => objectiveDeclared o⟩
    case objectiveStates => exact fun s _ => declared_of_last (by decide) _
    case receipts =>
      exact fun rc hrc => ⟨(action_declared_iff _).mpr fun hmem => hreceipts ⟨rc, hrc, hmem⟩,
        declared_of_last (by decide) _⟩
    case evals =>
      exact fun e he => ⟨declared_of_last (by decide) _, declared_of_last (by decide) _,
        (action_declared_iff _).mpr fun hmem => hevals ⟨e, he, hmem⟩⟩

/-! ## 2. Enumerators and acceptance -/

/-- The records differ in their enumerations only. -/
def PolicyAlike (p q : SloPolicy) : Prop := q = { p with mode := q.mode, tieBreak := q.tieBreak }

/-- The objectives differ in their enumerations only, and their targets fit them alike. -/
def ObjectiveAlike (o q : Objective Binary64) : Prop :=
  q = { o with
    dim := q.dim, kind := q.kind, comparison := q.comparison, hard := q.hard
    enforcement := q.enforcement, windowType := q.windowType
    availabilityMode := q.availabilityMode, rateTag := q.rateTag } ∧
  q.targetUnitMatchesDimension = o.targetUnitMatchesDimension

def ContractAlike (c d : SloContract Binary64) : Prop :=
  d = { c with lifecycle := d.lifecycle, objectives := d.objectives } ∧
    List.Forall₂ ObjectiveAlike c.objectives d.objectives

def ObjstateAlike (s t : PersistedObjectiveState) : Prop := t = { s with lastState := t.lastState }

def ReceiptAlike (rc rd : EnforcementReceipt) : Prop :=
  rd = { rc with action := rd.action, lifecycle := rd.lifecycle }

def EvalAlike (e f : EvaluationRecord) : Prop :=
  f = { e with
    compliance := f.compliance, bindingDimension := f.bindingDimension
    selectedAction := f.selectedAction }

/-- The states differ in their enumerations only. -/
structure StateAlike (s t : DurableState Binary64) : Prop where
  policies : List.Forall₂ PolicyAlike s.policies t.policies
  contracts : List.Forall₂ ContractAlike s.contracts t.contracts
  objectiveStates : List.Forall₂ ObjstateAlike s.objectiveStates t.objectiveStates
  receipts : List.Forall₂ ReceiptAlike s.enforcementHistory t.enforcementHistory
  evals : List.Forall₂ EvalAlike s.evaluationHistory t.evaluationHistory

theorem length_flatMap_alike {α : Type} {K : α → α → Prop} {w : α → Bytes}
    (hK : ∀ a b, K a b → (w b).length = (w a).length) {l m : List α} (h : List.Forall₂ K l m) :
    (m.flatMap w).length = (l.flatMap w).length := by
  induction h with
  | nil => rfl
  | cons hab _ ih => rw [List.flatMap_cons, List.flatMap_cons, List.length_append,
      List.length_append, hK _ _ hab, ih]

theorem all_alike {α : Type} {K : α → α → Prop} {P : α → Bool} (hK : ∀ a b, K a b → P b = P a)
    {l m : List α} (h : List.Forall₂ K l m) : m.all P = l.all P := by
  induction h with
  | nil => rfl
  | cons hab _ ih => rw [List.all_cons, List.all_cons, hK _ _ hab, ih]

theorem length_policy_alike (p q : SloPolicy) (h : PolicyAlike p q) :
    (encodePolicy q).length = (encodePolicy p).length := by
  rw [h]
  simp only [encodePolicy, List.length_append, writeEnum_length]

theorem length_objective_alike (o q : Objective Binary64) (h : ObjectiveAlike o q) :
    (encodeObjective q).length = (encodeObjective o).length := by
  rw [h.1]
  unfold encodeObjective
  simp only [List.length_append, writeEnum_length]

theorem length_contract_alike (c d : SloContract Binary64) (h : ContractAlike c d) :
    (encodeContract d).length = (encodeContract c).length := by
  have hobjs := length_flatMap_alike length_objective_alike h.2
  have hcount := h.2.length_eq
  rw [h.1]
  simp only [encodeContract, writeList, List.length_append, writeEnum_length, hobjs, hcount]

theorem length_objstate_alike (s t : PersistedObjectiveState) (h : ObjstateAlike s t) :
    (encodeObjstate t).length = (encodeObjstate s).length := by
  rw [h]
  simp only [encodeObjstate, List.length_append, writeEnum_length]

theorem length_receipt_alike (rc rd : EnforcementReceipt) (h : ReceiptAlike rc rd) :
    (encodeReceipt rd).length = (encodeReceipt rc).length := by
  rw [h]
  simp only [encodeReceipt, List.length_append, writeEnum_length]

theorem length_eval_alike (e f : EvaluationRecord) (h : EvalAlike e f) :
    (encodeEval f).length = (encodeEval e).length := by
  rw [h]
  simp only [encodeEval, List.length_append, writeEnum_length]

theorem objectiveStorable_alike (o q : Objective Binary64) (h : ObjectiveAlike o q) :
    objectiveStorable q = objectiveStorable o := by
  unfold objectiveStorable
  rw [h.2, h.1]

theorem contractStorable_alike (c d : SloContract Binary64) (h : ContractAlike c d) :
    contractStorable d = contractStorable c := by
  rw [contractStorable, contractStorable, all_alike objectiveStorable_alike h.2, h.2.length_eq]

theorem objstateStorable_alike (s t : PersistedObjectiveState) (h : ObjstateAlike s t) :
    objstateStorable t = objstateStorable s := by
  rw [h]
  rfl

theorem durableStorable_alike {s t : DurableState Binary64} (h : StateAlike s t) :
    durableStorable t = durableStorable s := by
  simp only [durableStorable, all_alike contractStorable_alike h.contracts,
    all_alike objstateStorable_alike h.objectiveStates, h.policies.length_eq,
    h.contracts.length_eq, h.objectiveStates.length_eq, h.receipts.length_eq, h.evals.length_eq]

theorem length_state_alike {s t : DurableState Binary64} (h : StateAlike s t) :
    (serializeState t).length = (serializeState s).length := by
  simp only [serializeState, writeList, List.length_append, length_writeU32, length_writeGen,
    length_writeU64, length_flatMap_alike length_policy_alike h.policies,
    length_flatMap_alike length_contract_alike h.contracts,
    length_flatMap_alike length_objstate_alike h.objectiveStates,
    length_flatMap_alike length_receipt_alike h.receipts,
    length_flatMap_alike length_eval_alike h.evals]

/-- What `deserialize_state` accepts of what `serialize_state` writes. -/
theorem serialized_accepted (s : DurableState Binary64) :
    (∃ st, deserializeState Binary64 (serializeState s) = .ok st) ↔
      (serializeState s).length ≤ kMaxPersistenceBytes ∧ durableStorable s = true := by
  constructor
  · rintro ⟨st, hst⟩
    have hlen := (deserializeState_ok.mp hst).1
    refine ⟨hlen, ?_⟩
    have hy := deserialize_serialize s hlen
    by_contra hno
    rw [Yields, if_neg hno, hst] at hy
    obtain ⟨m, hm⟩ := hy
    cases hm
  · rintro ⟨hlen, hs⟩
    have hy := deserialize_serialize s hlen
    rw [Yields, if_pos hs] at hy
    exact ⟨_, hy⟩

/-- **No record is refused for an enumerator**: states that differ in their enumerations only
    are accepted alike. -/
theorem alike_accepted {s t : DurableState Binary64} (h : StateAlike s t) :
    (∃ st, deserializeState Binary64 (serializeState t) = .ok st) ↔
      ∃ st, deserializeState Binary64 (serializeState s) = .ok st := by
  rw [serialized_accepted, serialized_accepted, length_state_alike h, durableStorable_alike h]

/-- **Decoded enumerations hold declared enumerators** if and only if no action of the bytes is
    `23`; and enumerators never decide what is accepted. -/
theorem enumerators_iff {b : Bytes} {state : DurableState Binary64}
    (h : deserializeState Binary64 b = .ok state) :
    (StateDeclared state ↔ 23 ∉ actionBytes b) ∧
    ∀ s t : DurableState Binary64, StateAlike s t →
      ((∃ st, deserializeState Binary64 (serializeState t) = .ok st) ↔
        ∃ st, deserializeState Binary64 (serializeState s) = .ok st) := by
  refine ⟨?_, fun s t halike => alike_accepted halike⟩
  rw [(deserializeState_survey h).2.2]
  exact stateDeclared_iff state

/-- A state of one receipt for an action. -/
def receiptState (action : EnforcementAction) : DurableState Binary64 :=
  { epoch := ⟨1⟩, policies := [], contracts := [], objectiveStates := [], evaluationHistory := []
    enforcementHistory := [{ id := ⟨1⟩, gen := ⟨1⟩, action := action, lifecycle := .authorized
                             epoch := ⟨1⟩, contractGen := ⟨1⟩, policyGen := ⟨1⟩
                             evaluationId := ⟨1⟩, evaluationGen := ⟨1⟩, workloadGen := ⟨1⟩
                             service := ⟨1⟩, workload := ⟨1⟩, objectiveId := ⟨1⟩
                             objectiveGen := ⟨1⟩, reason := [] }] }

theorem enumerators_iff_small :
    (StateDeclared (receiptState .drain) ↔
      23 ∉ actionBytes (serializeState (receiptState .drain))) ∧
    ((∃ st, deserializeState Binary64 (serializeState (receiptState .drain)) = .ok st) ↔
      ∃ st, deserializeState Binary64 (serializeState (receiptState .defer)) = .ok st) := by
  have hread : deserializeState Binary64 (serializeState (receiptState .drain)) =
      .ok (receiptState .drain) := by decide +kernel
  obtain ⟨hdeclared, hother⟩ := enumerators_iff hread
  exact ⟨hdeclared, hother (receiptState .defer) (receiptState .drain)
    ⟨.nil, .nil, .nil, .cons rfl .nil, .nil⟩⟩

/-- A receipt is read whose action no header declares. -/
theorem enumerators_fails :
    deserializeState Binary64 (serializeState (receiptState .undeclared)) =
        .ok (receiptState .undeclared) ∧
      23 ∈ actionBytes (serializeState (receiptState .undeclared)) ∧
      ¬StateDeclared (receiptState .undeclared) := by
  refine ⟨by decide +kernel, by decide +kernel, fun h => ?_⟩
  exact absurd (h.receipts _ (List.mem_singleton.mpr rfl)).1 (by decide)

end SloFabric
