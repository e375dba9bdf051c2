/-
  File:      SloFabric/Truncation.lean
  Subject:   The decoder of the durable state finds its own end.

  * `extends_…`: no reader of a record looks at anything behind the record;
  * `readState`: the decoder of the state without its complaints, with `deserializeState_ok`;
  * `cut_rejected`: nothing shorter or longer than an accepted byte string is accepted.
-/
import SloFabric.Persistence

namespace SloFabric

open Codec

/-! ## 1. Records -/

theorem extends_readU8 : Extends readU8 := (Extends.readLE 1).map _
theorem extends_readU32 : Extends readU32 := (Extends.readLE 4).map _
theorem extends_readI32 : Extends readI32 := extends_readU32.map _
theorem extends_readU64 : Extends readU64 := (Extends.readLE 8).map _
theorem extends_readI64 : Extends readI64 := extends_readU64.map _
theorem extends_readId (d : Domain) : Extends (readId d) := extends_readU64.map _
theorem extends_readGen (d : Domain) : Extends (readGen d) := extends_readU64.map _

theorem extends_readString : Extends readString :=
  extends_readU64.bind fun _ => (Extends.check _).bind fun _ => .take _

theorem extends_readI64Of (valid : Int64 → Bool) : Extends (readI64Of valid) :=
  extends_readI64.bind fun _ => (Extends.check _).bind fun _ => .pure _

theorem extends_readCount : Extends readCount :=
  extends_readU64.bind fun _ => (Extends.check _).bind fun _ => .pure _

theorem extends_readOption {α : Type} {r : Reader α} (hr : Extends r) :
    Extends (readOption r) := by
  refine (extends_readU8.map _).bind fun has => ?_
  cases has with
  | true => exact hr.map some
  | false => exact .pure none

theorem extends_policy : Extends decodePolicy := by
  unfold decodePolicy
  refine (extends_readId _).bind fun _ => (extends_readGen _).bind fun _ => ?_
  refine Extends.enum.bind fun _ => Extends.enum.bind fun _ => ?_
  exact extends_readString.bind fun _ => extends_readString.bind fun _ => .pure _

theorem extends_receipt : Extends decodeReceipt := by
  unfold decodeReceipt
  refine (extends_readId _).bind fun _ => (extends_readGen _).bind fun _ => ?_
  refine Extends.enum.bind fun _ => Extends.enum.bind fun _ => ?_
  repeat' first
    | exact .pure _
    | refine (extends_readId _).bind fun _ => ?_
    | refine (extends_readGen _).bind fun _ => ?_
    | refine extends_readString.bind fun _ => ?_

theorem extends_objstate : Extends decodeObjstate := by
  unfold decodeObjstate
  refine (extends_readId _).bind fun _ => (extends_readGen _).bind fun _ => ?_
  refine (extends_readI64Of _).bind fun _ => (extends_readI64Of _).bind fun _ => ?_
  refine extends_readI64.bind fun _ => extends_readI64.bind fun _ => ?_
  refine Extends.enum.bind fun _ => ?_
  exact extends_readI64.bind fun _ => extends_readI64.bind fun _ => .pure _

theorem extends_eval : Extends decodeEval := by
  unfold decodeEval
  repeat' first
    | exact .pure _
    | refine (extends_readId _).bind fun _ => ?_
    | refine (extends_readGen _).bind fun _ => ?_
    | refine extends_readI64.bind fun _ => ?_
    | refine Extends.enum.bind fun _ => ?_
    | refine extends_readU64.bind fun _ => ?_

section Number

variable {R : Type} [Pod R] [Double R]

omit [Double R] in
theorem extends_readPodOf (valid : R → Bool) : Extends (readPodOf R valid) :=
  (extends_readU64.map _).bind fun _ => (Extends.check _).bind fun _ => .pure _

theorem extends_readValue : Extends (readValue R) := by
  refine extends_readU8.bind fun tag => ?_
  split
  · exact extends_readI64.map _
  · exact extends_readI64.map _
  · exact extends_readI64.map _
  · exact extends_readI64.map _
  · exact (extends_readPodOf _).map _
  · exact (extends_readPodOf _).map _
  · exact (extends_readPodOf _).map _
  · exact (extends_readPodOf _).map _
  · exact (extends_readPodOf _).map _
  · exact (extends_readPodOf _).map _
  · exact (extends_readI64Of _).map _
  · exact (extends_readI64Of _).map _
  · exact .failure

theorem extends_objective : Extends (decodeObjective R) := by
  unfold decodeObjective
  refine (extends_readId _).bind fun _ => (extends_readGen _).bind fun _ => ?_
  refine extends_readString.bind fun _ => ?_
  refine Extends.enum.bind fun _ => Extends.enum.bind fun _ => Extends.enum.bind fun _ =>
    Extends.enum.bind fun _ => Extends.enum.bind fun _ => ?_
  refine extends_readValue.bind fun _ => ?_
  refine (extends_readOption extends_readValue).bind fun _ => ?_
  refine (extends_readOption extends_readValue).bind fun _ => ?_
  refine (extends_readI64Of _).bind fun _ => (extends_readPodOf _).bind fun _ => ?_
  refine (extends_readI64Of _).bind fun _ => extends_readI64.bind fun _ => ?_
  refine Extends.enum.bind fun _ => extends_readI64.bind fun _ => ?_
  refine (extends_readI64Of _).bind fun _ => extends_readI32.bind fun _ => ?_
  refine (extends_readPodOf _).bind fun _ => Extends.enum.bind fun _ => ?_
  exact Extends.enum.bind fun _ => (Extends.check _).bind fun _ => .pure _

theorem extends_contract : Extends (decodeContract R) := by
  unfold decodeContract
  refine (extends_readId _).bind fun _ => (extends_readGen _).bind fun _ => ?_
  refine (extends_readId _).bind fun _ => (extends_readId _).bind fun _ => ?_
  refine (extends_readId _).bind fun _ => extends_readCount.bind fun n => ?_
  refine (extends_objective.list n).bind fun _ => ?_
  refine (extends_readId _).bind fun _ => (extends_readGen _).bind fun _ => ?_
  refine extends_readI64.bind fun _ => (extends_readOption extends_readI64).bind fun _ => ?_
  refine (extends_readGen _).bind fun _ => Extends.enum.bind fun _ => ?_
  exact extends_readString.bind fun _ => extends_readString.bind fun _ => .pure _

/-! ## 2. The state -/

/-- `decodeState` without the texts of its complaints. -/
def readState (R : Type) [Pod R] [Double R] : Reader (DurableState R) := do
  let magic ← readU32
  check (magic == kPersistenceMagic)
  let version ← readU32
  check (version == kPersistenceVersion)
  let epoch ← readGen .coordinatorEpoch
  let n ← readCount
  let policies ← readList decodePolicy n
  let n ← readCount
  let contracts ← readList (decodeContract R) n
  let n ← readCount
  let objectiveStates ← readList decodeObjstate n
  let n ← readCount
  let enforcementHistory ← readList decodeReceipt n
  let n ← readCount
  let evaluationHistory ← readList decodeEval n
  pure { epoch, policies, contracts, objectiveStates, enforcementHistory, evaluationHistory }

/-- `x` without the texts of its complaints. -/
def unexplained {α : Type} (x : StateT Bytes (Except Status) α) : Reader α := fun bs =>
  (x.run bs).toOption

omit [Pod R] [Double R] in
theorem unexplained_must_bind {α β : Type} (m : String) (r : Reader α)
    (f : α → StateT Bytes (Except Status) β) :
    unexplained (must m r >>= f) = r >>= fun a => unexplained (f a) := by
  funext bs
  show ((must m r >>= f).run bs).toOption = (r >>= fun a => unexplained (f a)).run bs
  rw [StateT.run_bind, StateT.run_bind, run_must]
  cases r.run bs with
  | none => rfl
  | some x => rfl

theorem unexplained_decodeState : unexplained (decodeState R) = readState R := by
  unfold decodeState readState
  simp only [unexplained_must_bind]
  rfl

/-- **What `deserialize_state` accepts**: what fits the bound and is read to its end. -/
theorem deserializeState_ok {data : Bytes} {st : DurableState R} :
    deserializeState R data = .ok st ↔
      data.length ≤ kMaxPersistenceBytes ∧ (readState R).run data = some (st, []) := by
  have hsame : (readState R).run data = ((decodeState R).run data).toOption := by
    rw [← unexplained_decodeState]
    rfl
  rw [hsame]
  unfold deserializeState
  by_cases hlen : kMaxPersistenceBytes < data.length
  · rw [if_pos hlen]
    constructor
    · intro h
      cases h
    · rintro ⟨h, _⟩
      omega
  · rw [if_neg hlen]
    cases (decodeState R).run data with
    | error e =>
      constructor
      · intro h
        cases h
      · rintro ⟨_, h⟩
        cases h
    | ok x =>
      obtain ⟨a, rest⟩ := x
      cases rest with
      | nil =>
        constructor
        · intro h
          cases h
          exact ⟨by omega, rfl⟩
        · rintro ⟨_, h⟩
          cases h
          rfl
      | cons b rest =>
        constructor
        · intro h
          cases h
        · rintro ⟨_, h⟩
          cases h

theorem extends_readState : Extends (readState R) := by
  unfold readState
  refine extends_readU32.bind fun _ => (Extends.check _).bind fun _ => ?_
  refine extends_readU32.bind fun _ => (Extends.check _).bind fun _ => ?_
  refine (extends_readGen _).bind fun _ => ?_
  refine extends_readCount.bind fun n => (extends_policy.list n).bind fun _ => ?_
  refine extends_readCount.bind fun n => (extends_contract.list n).bind fun _ => ?_
  refine extends_readCount.bind fun n => (extends_objstate.list n).bind fun _ => ?_
  refine extends_readCount.bind fun n => (extends_receipt.list n).bind fun _ => ?_
  exact extends_readCount.bind fun n => (extends_eval.list n).bind fun _ => .pure _

/-- **Truncation and trailing bytes are detected**: of two byte strings of which one goes on
    where the other ends, `deserialize_state` accepts at most one. -/
theorem cut_rejected {b more : Bytes} (hmore : more ≠ []) :
    (∀ st : DurableState R, deserializeState R b = .ok st →
      ∃ e, deserializeState R (b ++ more) = .error e) ∧
    ∀ st : DurableState R, deserializeState R (b ++ more) = .ok st →
      ∃ e, deserializeState R b = .error e := by
  have hnot (st st' : DurableState R) (h : deserializeState R b = .ok st)
      (h' : deserializeState R (b ++ more) = .ok st') : False := by
    have hrun := extends_readState _ _ _ more (deserializeState_ok.mp h).2
    rw [(deserializeState_ok.mp h').2, List.nil_append] at hrun
    cases hrun
    exact hmore rfl
  constructor
  · intro st h
    cases h' : deserializeState R (b ++ more) with
    | error e => exact ⟨e, rfl⟩
    | ok st' => exact (hnot st st' h h').elim
  · intro st h'
    cases h : deserializeState R b with
    | error e => exact ⟨e, rfl⟩
    | ok st' => exact (hnot st' st h h').elim

end Number

/-- A contract with a latency objective, and a receipt for more capacity. -/
def onceEnforced : DurableState Binary64 where
  epoch := ⟨7⟩
  policies := []
  contracts := [{ id := ⟨1⟩, gen := ⟨1⟩, service := ⟨1⟩, workload := ⟨1⟩
                  objectives := [{ id := ⟨1⟩, gen := ⟨1⟩, target := .duration 100000000
                                   allowedUncertainty := Double.ofRat 0
                                   percentileRank := Double.ofRat (99 / 100) }]
                  policyId := ⟨1⟩, policyGen := ⟨1⟩, lifecycle := .active }]
  objectiveStates := []
  enforcementHistory := [{ id := ⟨1⟩, gen := ⟨1⟩, action := .increaseCapacity
                           lifecycle := .authorized, epoch := ⟨7⟩, contractGen := ⟨1⟩
                           policyGen := ⟨1⟩, evaluationId := ⟨1⟩, evaluationGen := ⟨1⟩
                           workloadGen := ⟨1⟩, service := ⟨1⟩, workload := ⟨1⟩
                           objectiveId := ⟨1⟩, objectiveGen := ⟨1⟩, reason := [] }]
  evaluationHistory := []

/-- Its file with a byte more, and cut within the contract. -/
theorem cut_rejected_small :
    (∃ e, deserializeState Binary64 (serializeState onceEnforced ++ [0]) = .error e) ∧
      ∃ e, deserializeState Binary64 ((serializeState onceEnforced).take 100) = .error e := by
  have hfile : deserializeState Binary64 (serializeState onceEnforced) = .ok onceEnforced := by
    decide +kernel
  have hcut : deserializeState Binary64
      ((serializeState onceEnforced).take 100 ++ (serializeState onceEnforced).drop 100) =
        .ok onceEnforced := by
    rw [List.take_append_drop, hfile]
  exact ⟨(cut_rejected (List.cons_ne_nil _ _)).1 onceEnforced hfile,
    (cut_rejected (by decide +kernel)).2 onceEnforced hcut⟩

end SloFabric
