/-
  File:      SloFabric/Persistence.lean
  Subject:   The stored form of the durable state: binary encoding, checksum, file.

  * `encode…`, `decode…`: writer and reader of each record, field by field;
  * `serializeState`, `deserializeState`, `saveState`, `loadState`;
  * `decodes_objective`, `decodes_contract`, …: each reader undoes its writer on exactly the
    records that meet its range checks (`objectiveStorable`, `contractStorable`, …);
  * `deserialize_serialize`: so does `deserializeState`;
  * `loadState_saveState`: what `load_state` answers on a file `save_state` wrote.

  A file is the content of the path, or `none` where there is no file.
-/
import SloFabric.Evaluate
import SloFabric.Library.Codec

namespace SloFabric

open Codec Double

/-! ## 1. Bytes -/

def kPersistenceMagic : UInt32 := 0x534C4F46
def kPersistenceVersion : UInt32 := 2

/-- 256 MiB. -/
def kMaxPersistenceBytes : Nat := 256 * 1024 * 1024

def kMaxCollectionItems : Nat := 2 ^ 20

/-- A number stored as its 64-bit word (`write_pod`, `read_pod`). -/
class Pod (R : Type) where
  toBits : R → UInt64
  ofBits : UInt64 → R
  ofBits_toBits : ∀ x, ofBits (toBits x) = x

instance : Pod Binary64 := ⟨Binary64.bits, Binary64.mk, fun _ => rfl⟩

variable {R : Type}

def writeBool (b : Bool) : Bytes := [if b then 1 else 0]
def writeU32 (v : UInt32) : Bytes := leBytes 4 v.toNat
def writeI32 (v : Int32) : Bytes := writeU32 v.toUInt32
def writeU64 (v : UInt64) : Bytes := leBytes 8 v.toNat
def writeI64 (v : Int64) : Bytes := writeU64 v.toUInt64
def writePod [Pod R] (x : R) : Bytes := writeU64 (Pod.toBits x)
def writeString (s : Bytes) : Bytes := writeU64 (UInt64.ofNat s.length) ++ s
def writeId {d : Domain} (i : Id d) : Bytes := writeU64 i.value
def writeGen {d : Domain} (g : Gen d) : Bytes := writeU64 g.value

def readU8 : Reader UInt8 := UInt8.ofNat <$> readLE 1
def readBool : Reader Bool := (· != 0) <$> readU8
def readU32 : Reader UInt32 := UInt32.ofNat <$> readLE 4
def readI32 : Reader Int32 := UInt32.toInt32 <$> readU32
def readU64 : Reader UInt64 := UInt64.ofNat <$> readLE 8
def readI64 : Reader Int64 := UInt64.toInt64 <$> readU64
def readPod (R : Type) [Pod R] : Reader R := Pod.ofBits <$> readU64
def readId (d : Domain) : Reader (Id d) := Id.mk <$> readU64
def readGen (d : Domain) : Reader (Gen d) := Gen.mk <$> readU64

/-- `read_string`, at the bound `kMaxPersistenceBytes` every caller passes. -/
def readString : Reader Bytes := do
  let len ← readU64
  check (len.toNat ≤ kMaxPersistenceBytes)
  take len.toNat

/-- A 64-bit integer the reader checks. -/
def readI64Of (valid : Int64 → Bool) : Reader Int64 := do
  let i ← readI64
  check (valid i)
  pure i

/-- A double the reader checks. -/
def readPodOf (R : Type) [Pod R] (valid : R → Bool) : Reader R := do
  let x ← readPod R
  check (valid x)
  pure x

@[simp] theorem length_writeBool (b : Bool) : (writeBool b).length = 1 := rfl
@[simp] theorem length_writeU32 (v : UInt32) : (writeU32 v).length = 4 := leBytes_length 4 _
@[simp] theorem length_writeI32 (v : Int32) : (writeI32 v).length = 4 := leBytes_length 4 _
@[simp] theorem length_writeU64 (v : UInt64) : (writeU64 v).length = 8 := leBytes_length 8 _
@[simp] theorem length_writeI64 (v : Int64) : (writeI64 v).length = 8 := leBytes_length 8 _
@[simp] theorem length_writeId {d : Domain} (i : Id d) : (writeId i).length = 8 :=
  leBytes_length 8 _
@[simp] theorem length_writeGen {d : Domain} (g : Gen d) : (writeGen g).length = 8 :=
  leBytes_length 8 _
@[simp] theorem length_writePod [Pod R] (x : R) : (writePod x).length = 8 := leBytes_length 8 _
@[simp] theorem length_writeString (s : Bytes) : (writeString s).length = 8 + s.length := by
  simp [writeString]

@[simp] theorem run_readU8 (v : UInt8) (rest : Bytes) :
    readU8.run (v :: rest) = some (v, rest) := by
  have h : v :: rest = leBytes 1 v.toNat ++ rest := by simp [leBytes]
  have hv := Nat.mod_eq_of_lt v.toNat_lt
  rw [h, readU8, StateT.run_map, run_readLE_append]
  simp [hv]

@[simp] theorem run_readBool (b : Bool) (rest : Bytes) :
    readBool.run (writeBool b ++ rest) = some (b, rest) := by
  cases b <;> rfl

@[simp] theorem run_readU32 (v : UInt32) (rest : Bytes) :
    readU32.run (writeU32 v ++ rest) = some (v, rest) := by
  have h := Nat.mod_eq_of_lt v.toNat_lt
  simp [readU32, writeU32, run_readLE_append, h]

@[simp] theorem run_readU64 (v : UInt64) (rest : Bytes) :
    readU64.run (writeU64 v ++ rest) = some (v, rest) := by
  have h := Nat.mod_eq_of_lt v.toNat_lt
  simp [readU64, writeU64, run_readLE_append, h]

@[simp] theorem run_readI32 (v : Int32) (rest : Bytes) :
    readI32.run (writeI32 v ++ rest) = some (v, rest) := by
  simp [readI32, writeI32]

@[simp] theorem run_readI64 (v : Int64) (rest : Bytes) :
    readI64.run (writeI64 v ++ rest) = some (v, rest) := by
  simp [readI64, writeI64]

@[simp] theorem run_readId {d : Domain} (i : Id d) (rest : Bytes) :
    (readId d).run (writeId i ++ rest) = some (i, rest) := by
  simp [readId, writeId]

@[simp] theorem run_readGen {d : Domain} (g : Gen d) (rest : Bytes) :
    (readGen d).run (writeGen g ++ rest) = some (g, rest) := by
  simp [readGen, writeGen]

@[simp] theorem run_readPod [Pod R] (x : R) (rest : Bytes) :
    (readPod R).run (writePod x ++ rest) = some (x, rest) := by
  simp [readPod, writePod, Pod.ofBits_toBits]

@[simp] theorem run_readI64Of (valid : Int64 → Bool) (i : Int64) (rest : Bytes) :
    (readI64Of valid).run (writeI64 i ++ rest) = if valid i then some (i, rest) else none := by
  cases h : valid i <;> simp [readI64Of, h]

@[simp] theorem run_readPodOf [Pod R] (valid : R → Bool) (x : R) (rest : Bytes) :
    (readPodOf R valid).run (writePod x ++ rest) =
      if valid x then some (x, rest) else none := by
  cases h : valid x <;> simp [readPodOf, h]

/-- A string no longer than the bound is read back. -/
theorem run_readString {s : Bytes} (h : s.length ≤ kMaxPersistenceBytes) (rest : Bytes) :
    readString.run (writeString s ++ rest) = some (s, rest) := by
  have hlt : s.length < 2 ^ 64 := by
    have : kMaxPersistenceBytes < 2 ^ 64 := by decide
    omega
  have hn : (UInt64.ofNat s.length).toNat = s.length := by
    rw [UInt64.toNat_ofNat', Nat.mod_eq_of_lt hlt]
  rw [writeString, List.append_assoc, readString, StateT.run_bind, run_readU64]
  simp [hn, h, run_take_append]

/-! ## 2. Enumerations -/

instance : ByteEnum Dimension where
  code := Dimension.ctorIdx
  ofCode := Dimension.ofNat
  last := 5
  code_le e := by cases e <;> decide
  last_lt := by decide
  ofCode_code := Dimension.ofNat_ctorIdx

instance : ByteEnum ObjectiveKind where
  code := ObjectiveKind.ctorIdx
  ofCode := ObjectiveKind.ofNat
  last := 11
  code_le e := by cases e <;> decide
  last_lt := by decide
  ofCode_code := ObjectiveKind.ofNat_ctorIdx

instance : ByteEnum Comparison where
  code := Comparison.ctorIdx
  ofCode := Comparison.ofNat
  last := 1
  code_le e := by cases e <;> decide
  last_lt := by decide
  ofCode_code := Comparison.ofNat_ctorIdx

instance : ByteEnum HardSoft where
  code := HardSoft.ctorIdx
  ofCode := HardSoft.ofNat
  last := 1
  code_le e := by cases e <;> decide
  last_lt := by decide
  ofCode_code := HardSoft.ofNat_ctorIdx

instance : ByteEnum EnforcementClass where
  code := EnforcementClass.ctorIdx
  ofCode := EnforcementClass.ofNat
  last := 3
  code_le e := by cases e <;> decide
  last_lt := by decide
  ofCode_code := EnforcementClass.ofNat_ctorIdx

instance : ByteEnum WindowType where
  code := WindowType.ctorIdx
  ofCode := WindowType.ofNat
  last := 4
  code_le e := by cases e <;> decide
  last_lt := by decide
  ofCode_code := WindowType.ofNat_ctorIdx

instance : ByteEnum AvailabilityMode where
  code := AvailabilityMode.ctorIdx
  ofCode := AvailabilityMode.ofNat
  last := 1
  code_le e := by cases e <;> decide
  last_lt := by decide
  ofCode_code := AvailabilityMode.ofNat_ctorIdx

instance : ByteEnum RateTag where
  code := RateTag.ctorIdx
  ofCode := RateTag.ofNat
  last := 3
  code_le e := by cases e <;> decide
  last_lt := by decide
  ofCode_code := RateTag.ofNat_ctorIdx

instance : ByteEnum ContractLifecycle where
  code := ContractLifecycle.ctorIdx
  ofCode := ContractLifecycle.ofNat
  last := 5
  code_le e := by cases e <;> decide
  last_lt := by decide
  ofCode_code := ContractLifecycle.ofNat_ctorIdx

instance : ByteEnum PolicyMode where
  code := PolicyMode.ctorIdx
  ofCode := PolicyMode.ofNat
  last := 1
  code_le e := by cases e <;> decide
  last_lt := by decide
  ofCode_code := PolicyMode.ofNat_ctorIdx

instance : ByteEnum TieBreak where
  code := TieBreak.ctorIdx
  ofCode := TieBreak.ofNat
  last := 2
  code_le e := by cases e <;> decide
  last_lt := by decide
  ofCode_code := TieBreak.ofNat_ctorIdx

instance : ByteEnum EnforcementAction where
  code := EnforcementAction.ctorIdx
  ofCode := EnforcementAction.ofNat
  last := 23
  code_le e := by cases e <;> decide
  last_lt := by decide
  ofCode_code := EnforcementAction.ofNat_ctorIdx

instance : ByteEnum EnforcementLifecycle where
  code := EnforcementLifecycle.ctorIdx
  ofCode := EnforcementLifecycle.ofNat
  last := 9
  code_le e := by cases e <;> decide
  last_lt := by decide
  ofCode_code := EnforcementLifecycle.ofNat_ctorIdx

instance : ByteEnum ComplianceState where
  code := ComplianceState.ctorIdx
  ofCode := ComplianceState.ofNat
  last := 7
  code_le e := by cases e <;> decide
  last_lt := by decide
  ofCode_code := ComplianceState.ofNat_ctorIdx


/-! ## 3. Records -/

/-- A record of the collection items of `PersistedObjectiveState`. -/
structure PersistedObjectiveState where
  objectiveId : ObjectiveId
  objectiveGen : ObjectiveGen
  budgetTotal : Count
  budgetConsumed : Count
  budgetWindow : Duration
  budgetWindowStart : Duration
  lastState : ComplianceState
  lastStateTime : Duration
  cooldownUntil : Duration
  deriving DecidableEq

/-- Everything that survives a restart. -/
structure DurableState (R : Type) where
  formatVersion : UInt32 := kPersistenceVersion
  epoch : CoordinatorEpoch
  policies : List SloPolicy
  contracts : List (SloContract R)
  objectiveStates : List PersistedObjectiveState
  enforcementHistory : List EnforcementReceipt
  evaluationHistory : List EvaluationRecord
  deriving DecidableEq

/-- A list behind its length, with the bound on collection items. -/
def writeList {α : Type} (w : α → Bytes) (l : List α) : Bytes :=
  writeU64 (UInt64.ofNat l.length) ++ l.flatMap w

def readCount : Reader Nat := do
  let n ← readU64
  check (n.toNat ≤ kMaxCollectionItems)
  pure n.toNat

def writeOption {α : Type} (w : α → Bytes) : Option α → Bytes
  | none => writeBool false
  | some a => writeBool true ++ w a

def readOption {α : Type} (r : Reader α) : Reader (Option α) := do
  let has ← readBool
  if has then some <$> r else pure none

def nonneg (i : Int64) : Bool := decide (0 ≤ i)

section Number

variable [Pod R] [Double R]

/-- The tag of an objective value and its payload. -/
def writeValue : ObjectiveValue R → Bytes
  | .duration i => [0] ++ writeI64 i
  | .byteCount i => [1] ++ writeI64 i
  | .count i => [2] ++ writeI64 i
  | .basisPoints i => [3] ++ writeI64 i
  | .percentage x => [4] ++ writePod x
  | .pressureRatio x => [5] ++ writePod x
  | .requestsPerSecond x => [6] ++ writePod x
  | .tokensPerSecond x => [7] ++ writePod x
  | .bytesPerSecond x => [8] ++ writePod x
  | .operationsPerSecond x => [9] ++ writePod x
  | .costMicros i => [10] ++ writeI64 i
  | .energyJoules i => [11] ++ writeI64 i

def readValue (R : Type) [Pod R] [Double R] : Reader (ObjectiveValue R) := do
  let tag ← readU8
  match tag.toNat with
  | 0 => .duration <$> readI64
  | 1 => .byteCount <$> readI64
  | 2 => .count <$> readI64
  | 3 => .basisPoints <$> readI64
  | 4 => .percentage <$> readPodOf R percentageValid
  | 5 => .pressureRatio <$> readPodOf R pressureRatioValid
  | 6 => .requestsPerSecond <$> readPodOf R rateValid
  | 7 => .tokensPerSecond <$> readPodOf R rateValid
  | 8 => .bytesPerSecond <$> readPodOf R rateValid
  | 9 => .operationsPerSecond <$> readPodOf R rateValid
  | 10 => .costMicros <$> readI64Of nonneg
  | 11 => .energyJoules <$> readI64Of nonneg
  | _ => failure

/-- The values `read_value` lets through. -/
def valueValid : ObjectiveValue R → Bool
  | .duration _ | .byteCount _ | .count _ | .basisPoints _ => true
  | .percentage x => percentageValid x
  | .pressureRatio x => pressureRatioValid x
  | .requestsPerSecond x | .tokensPerSecond x | .bytesPerSecond x | .operationsPerSecond x =>
    rateValid x
  | .costMicros i | .energyJoules i => nonneg i

theorem run_readValue (v : ObjectiveValue R) (rest : Bytes) :
    (readValue R).run (writeValue v ++ rest) = if valueValid v then some (v, rest) else none := by
  cases v <;> simp [readValue, writeValue, valueValid] <;> rfl

/-- `[0, 1]`, as the decoder tests it. -/
def unitInterval (x : R) : Bool := !lt x (ofRat 0) && !lt (ofRat 1) x

def encodeObjective (o : Objective R) : Bytes :=
  writeId o.id ++ writeGen o.gen ++ writeString o.name ++ writeEnum o.dim ++ writeEnum o.kind ++
  writeEnum o.comparison ++ writeEnum o.hard ++ writeEnum o.enforcement ++
  writeValue o.target ++ writeOption writeValue o.breachThreshold ++
  writeOption writeValue o.recoveryThreshold ++ writeI64 o.minEvidence ++
  writePod o.allowedUncertainty ++ writeI64 o.freshnessTtl ++ writeI64 o.gracePeriod ++
  writeEnum o.windowType ++ writeI64 o.windowDuration ++ writeI64 o.windowCount ++
  writeI32 o.priority ++ writePod o.percentileRank ++ writeEnum o.availabilityMode ++
  writeEnum o.rateTag

def decodeObjective (R : Type) [Pod R] [Double R] : Reader (Objective R) := do
  let id ← readId .objective
  let gen ← readGen .objective
  let name ← readString
  let dim ← readEnum Dimension
  let kind ← readEnum ObjectiveKind
  let comparison ← readEnum Comparison
  let hardSoft ← readEnum HardSoft
  let enforcement ← readEnum EnforcementClass
  let target ← readValue R
  let breachThreshold ← readOption (readValue R)
  let recoveryThreshold ← readOption (readValue R)
  let minEvidence ← readI64Of nonneg
  let allowedUncertainty ← readPodOf R unitInterval
  let freshnessTtl ← readI64Of nonneg
  let gracePeriod ← readI64
  let windowType ← readEnum WindowType
  let windowDuration ← readI64
  let windowCount ← readI64Of fun i => decide (0 < i)
  let priority ← readI32
  let percentileRank ← readPodOf R unitInterval
  let availabilityMode ← readEnum AvailabilityMode
  let rateTag ← readEnum RateTag
  let o : Objective R :=
    { id, gen, name, dim, kind, comparison, hard := hardSoft, enforcement, target,
      breachThreshold, recoveryThreshold, minEvidence, allowedUncertainty, freshnessTtl,
      gracePeriod, windowType, windowDuration, windowCount, priority, percentileRank,
      availabilityMode, rateTag }
  check o.targetUnitMatchesDimension
  pure o

/-- The objectives `decode_objective` lets through. -/
def objectiveStorable (o : Objective R) : Bool :=
  valueValid o.target && o.breachThreshold.all valueValid && o.recoveryThreshold.all valueValid &&
  nonneg o.minEvidence && unitInterval o.allowedUncertainty && nonneg o.freshnessTtl &&
  decide (0 < o.windowCount) && unitInterval o.percentileRank && o.targetUnitMatchesDimension

def encodeContract (c : SloContract R) : Bytes :=
  writeId c.id ++ writeGen c.gen ++ writeId c.service ++ writeId c.workload ++ writeId c.tenant ++
  writeList encodeObjective c.objectives ++ writeId c.policyId ++ writeGen c.policyGen ++
  writeI64 c.effectiveFrom ++ writeOption writeI64 c.expiration ++ writeGen c.epoch ++
  writeEnum c.lifecycle ++ writeString c.name ++ writeString c.provenance

def decodeContract (R : Type) [Pod R] [Double R] : Reader (SloContract R) := do
  let id ← readId .sloContract
  let gen ← readGen .sloContract
  let service ← readId .service
  let workload ← readId .workload
  let tenant ← readId .tenant
  let n ← readCount
  let objectives ← readList (decodeObjective R) n
  let policyId ← readId .policy
  let policyGen ← readGen .policy
  let effectiveFrom ← readI64
  let expiration ← readOption readI64
  let epoch ← readGen .coordinatorEpoch
  let lifecycle ← readEnum ContractLifecycle
  let name ← readString
  let provenance ← readString
  pure { id, gen, service, workload, tenant, objectives, policyId, policyGen, effectiveFrom,
         expiration, epoch, lifecycle, name, provenance }

/-- The contracts `decode_contract` lets through. -/
def contractStorable (c : SloContract R) : Bool :=
  decide (c.objectives.length ≤ kMaxCollectionItems) && c.objectives.all objectiveStorable

end Number

def encodePolicy (p : SloPolicy) : Bytes :=
  writeId p.id ++ writeGen p.gen ++ writeEnum p.mode ++ writeEnum p.tieBreak ++
  writeString p.name ++ writeString p.description

def decodePolicy : Reader SloPolicy := do
  let id ← readId .policy
  let gen ← readGen .policy
  let mode ← readEnum PolicyMode
  let tieBreak ← readEnum TieBreak
  let name ← readString
  let description ← readString
  pure { id, gen, mode, tieBreak, name, description }

def encodeReceipt (rc : EnforcementReceipt) : Bytes :=
  writeId rc.id ++ writeGen rc.gen ++ writeEnum rc.action ++ writeEnum rc.lifecycle ++
  writeGen rc.epoch ++ writeGen rc.contractGen ++ writeGen rc.policyGen ++
  writeId rc.evaluationId ++ writeGen rc.evaluationGen ++ writeGen rc.workloadGen ++
  writeId rc.service ++ writeId rc.workload ++ writeId rc.objectiveId ++
  writeGen rc.objectiveGen ++ writeString rc.reason

def decodeReceipt : Reader EnforcementReceipt := do
  let id ← readId .enforcement
  let gen ← readGen .enforcement
  let action ← readEnum EnforcementAction
  let lifecycle ← readEnum EnforcementLifecycle
  let epoch ← readGen .coordinatorEpoch
  let contractGen ← readGen .sloContract
  let policyGen ← readGen .policy
  let evaluationId ← readId .evaluation
  let evaluationGen ← readGen .evaluation
  let workloadGen ← readGen .workload
  let service ← readId .service
  let workload ← readId .workload
  let objectiveId ← readId .objective
  let objectiveGen ← readGen .objective
  let reason ← readString
  pure { id, gen, action, lifecycle, epoch, contractGen, policyGen, evaluationId, evaluationGen,
         workloadGen, service, workload, objectiveId, objectiveGen, reason }

def encodeObjstate (s : PersistedObjectiveState) : Bytes :=
  writeId s.objectiveId ++ writeGen s.objectiveGen ++ writeI64 s.budgetTotal ++
  writeI64 s.budgetConsumed ++ writeI64 s.budgetWindow ++ writeI64 s.budgetWindowStart ++
  writeEnum s.lastState ++ writeI64 s.lastStateTime ++ writeI64 s.cooldownUntil

def decodeObjstate : Reader PersistedObjectiveState := do
  let objectiveId ← readId .objective
  let objectiveGen ← readGen .objective
  let budgetTotal ← readI64Of nonneg
  let budgetConsumed ← readI64Of nonneg
  let budgetWindow ← readI64
  let budgetWindowStart ← readI64
  let lastState ← readEnum ComplianceState
  let lastStateTime ← readI64
  let cooldownUntil ← readI64
  pure { objectiveId, objectiveGen, budgetTotal, budgetConsumed, budgetWindow, budgetWindowStart,
         lastState, lastStateTime, cooldownUntil }

/-- The objective states `decode_objstate` lets through. -/
def objstateStorable (s : PersistedObjectiveState) : Bool :=
  nonneg s.budgetTotal && nonneg s.budgetConsumed

def encodeEval (e : EvaluationRecord) : Bytes :=
  writeId e.evaluationId ++ writeGen e.evaluationGen ++ writeGen e.contractGen ++
  writeGen e.policyGen ++ writeGen e.evidenceGen ++ writeGen e.epoch ++ writeI64 e.time ++
  writeEnum e.compliance ++ writeEnum e.bindingDimension ++ writeId e.bindingObjective ++
  writeEnum e.selectedAction ++ writeU64 e.digest

def decodeEval : Reader EvaluationRecord := do
  let evaluationId ← readId .evaluation
  let evaluationGen ← readGen .evaluation
  let contractGen ← readGen .sloContract
  let policyGen ← readGen .policy
  let evidenceGen ← readGen .evidence
  let epoch ← readGen .coordinatorEpoch
  let time ← readI64
  let compliance ← readEnum ComplianceState
  let bindingDimension ← readEnum Dimension
  let bindingObjective ← readId .objective
  let selectedAction ← readEnum EnforcementAction
  let digest ← readU64
  pure { evaluationId, evaluationGen, contractGen, policyGen, evidenceGen, epoch, time, compliance,
         bindingDimension, bindingObjective, selectedAction, digest }

/-! ## 4. Readers undo writers

The lemmas `bind_…` run the first reader of a block on the bytes of its writer. -/

theorem run_readOption {α : Type} {r : Reader α} {w : α → Bytes} {P : α → Bool}
    (h : ∀ a rest, r.run (w a ++ rest) = if P a then some (a, rest) else none) (x : Option α)
    (rest : Bytes) :
    (readOption r).run (writeOption w x ++ rest) = if x.all P then some (x, rest) else none := by
  cases x with
  | none => simp [readOption, writeOption]
  | some a => cases hp : P a <;> simp [readOption, writeOption, h, hp]

section Bind

variable {β : Type}

theorem bind_readU64 (v : UInt64) (f : UInt64 → Reader β) (rest : Bytes) :
    (readU64 >>= f).run (writeU64 v ++ rest) = (f v).run rest := run_bind (run_readU64 v rest)

theorem bind_readI32 (v : Int32) (f : Int32 → Reader β) (rest : Bytes) :
    (readI32 >>= f).run (writeI32 v ++ rest) = (f v).run rest := run_bind (run_readI32 v rest)

theorem bind_readI64 (v : Int64) (f : Int64 → Reader β) (rest : Bytes) :
    (readI64 >>= f).run (writeI64 v ++ rest) = (f v).run rest := run_bind (run_readI64 v rest)

theorem bind_readId {d : Domain} (i : Id d) (f : Id d → Reader β) (rest : Bytes) :
    (readId d >>= f).run (writeId i ++ rest) = (f i).run rest := run_bind (run_readId i rest)

theorem bind_readGen {d : Domain} (g : Gen d) (f : Gen d → Reader β) (rest : Bytes) :
    (readGen d >>= f).run (writeGen g ++ rest) = (f g).run rest := run_bind (run_readGen g rest)

theorem bind_readEnum {E : Type} [ByteEnum E] (e : E) (f : E → Reader β) (rest : Bytes) :
    (readEnum E >>= f).run (writeEnum e ++ rest) = (f e).run rest := run_bind (run_readEnum e rest)

theorem bind_readString {s : Bytes} (h : s.length ≤ kMaxPersistenceBytes) (f : Bytes → Reader β)
    (rest : Bytes) : (readString >>= f).run (writeString s ++ rest) = (f s).run rest :=
  run_bind (run_readString h rest)

theorem bind_readI64Of (valid : Int64 → Bool) (i : Int64) (f : Int64 → Reader β) (rest : Bytes) :
    (readI64Of valid >>= f).run (writeI64 i ++ rest) =
      if valid i then (f i).run rest else none := run_bind_ite (run_readI64Of valid i rest)

theorem bind_readOption {α : Type} {r : Reader α} {w : α → Bytes} {P : α → Bool}
    (h : ∀ a rest, r.run (w a ++ rest) = if P a then some (a, rest) else none) (x : Option α)
    (f : Option α → Reader β) (rest : Bytes) :
    (readOption r >>= f).run (writeOption w x ++ rest) =
      if x.all P then (f x).run rest else none := run_bind_ite (run_readOption h x rest)

section Number

variable [Pod R] [Double R]

omit [Double R] in
theorem bind_readPodOf (valid : R → Bool) (x : R) (f : R → Reader β) (rest : Bytes) :
    (readPodOf R valid >>= f).run (writePod x ++ rest) =
      if valid x then (f x).run rest else none := run_bind_ite (run_readPodOf valid x rest)

theorem bind_readValue (v : ObjectiveValue R) (f : ObjectiveValue R → Reader β) (rest : Bytes) :
    (readValue R >>= f).run (writeValue v ++ rest) =
      if valueValid v then (f v).run rest else none := run_bind_ite (run_readValue v rest)

theorem bind_check {b : Bool} {f : Reader β} (bs : Bytes) :
    (do check b; f : Reader β).run bs = if b then f.run bs else none := by
  cases b <;> rfl

end Number

end Bind

theorem decodes_policy : Decodes kMaxPersistenceBytes decodePolicy encodePolicy fun _ => true := by
  intro p rest h
  simp only [encodePolicy, List.length_append, length_writeString] at h
  have h₁ : p.name.length ≤ kMaxPersistenceBytes := by omega
  have h₂ : p.description.length ≤ kMaxPersistenceBytes := by omega
  simp only [encodePolicy, List.append_assoc]
  rw [decodePolicy]
  simp only [↓bind_readId, ↓bind_readGen,
    ↓bind_readEnum, ↓bind_readString h₁, ↓bind_readString h₂, StateT.run_pure, if_true]
  rfl

theorem decodes_receipt :
    Decodes kMaxPersistenceBytes decodeReceipt encodeReceipt fun _ => true := by
  intro rc rest h
  simp only [encodeReceipt, List.length_append, length_writeString] at h
  have h₁ : rc.reason.length ≤ kMaxPersistenceBytes := by omega
  simp only [encodeReceipt, List.append_assoc]
  rw [decodeReceipt]
  simp only [↓bind_readId, ↓bind_readGen,
    ↓bind_readEnum, ↓bind_readString h₁, StateT.run_pure, if_true]
  rfl

theorem decodes_eval : Decodes kMaxPersistenceBytes decodeEval encodeEval fun _ => true := by
  intro e rest _
  simp only [encodeEval, List.append_assoc]
  rw [decodeEval]
  simp only [↓bind_readId, ↓bind_readGen, ↓bind_readI64,
    ↓bind_readEnum, ↓bind_readU64, StateT.run_pure, if_true]
  rfl

theorem decodes_objstate :
    Decodes kMaxPersistenceBytes decodeObjstate encodeObjstate objstateStorable := by
  intro s rest _
  simp only [encodeObjstate, List.append_assoc]
  rw [decodeObjstate]
  simp only [↓bind_readId, ↓bind_readGen,
    ↓bind_readI64, ↓bind_readI64Of, ↓bind_readEnum, StateT.run_pure, objstateStorable,
    Bool.and_eq_true, ite_and]
  rfl

theorem run_readCount {n : Nat} (h : n < 2 ^ 64) (rest : Bytes) :
    readCount.run (writeU64 (UInt64.ofNat n) ++ rest) =
      if decide (n ≤ kMaxCollectionItems) then some (n, rest) else none := by
  have hn : (UInt64.ofNat n).toNat = n := by rw [UInt64.toNat_ofNat', Nat.mod_eq_of_lt h]
  simp only [readCount, ↓bind_readU64, hn, bind_check, StateT.run_pure]
  rfl

/-- The length of a list fits its 64-bit count when its encoding is within the bound. -/
theorem length_lt_of_flatMap {α : Type} {w : α → Bytes} (hw : ∀ a, 0 < (w a).length) {l : List α}
    (h : (l.flatMap w).length ≤ kMaxPersistenceBytes) : l.length < 2 ^ 64 := by
  have h₁ := length_le_length_flatMap hw l
  have h₂ : kMaxPersistenceBytes < 2 ^ 64 := by decide
  omega

section Number

variable [Pod R] [Double R]

theorem decodes_objective :
    Decodes kMaxPersistenceBytes (decodeObjective R) encodeObjective objectiveStorable := by
  intro o rest h
  unfold encodeObjective at h ⊢
  simp only [List.length_append, length_writeString] at h
  have h₁ : o.name.length ≤ kMaxPersistenceBytes := by omega
  simp only [List.append_assoc]
  unfold decodeObjective
  simp only [↓bind_readId, ↓bind_readGen,
    ↓bind_readString h₁, ↓bind_readEnum, ↓bind_readValue, ↓bind_readOption run_readValue,
    ↓bind_readI64, ↓bind_readI64Of, ↓bind_readPodOf, ↓bind_readI32, ↓bind_check, StateT.run_pure,
    objectiveStorable, Bool.and_eq_true, ite_and, decide_eq_true_eq]
  rfl

omit [Double R] in
theorem encodeObjective_pos (o : Objective R) : 0 < (encodeObjective o).length := by
  unfold encodeObjective
  simp only [List.length_append, length_writeId]
  omega

theorem decodes_contract :
    Decodes kMaxPersistenceBytes (decodeContract R) encodeContract contractStorable := by
  intro c rest h
  unfold encodeContract writeList at h ⊢
  simp only [List.length_append, length_writeString] at h
  have h₁ : c.name.length ≤ kMaxPersistenceBytes := by omega
  have h₂ : c.provenance.length ≤ kMaxPersistenceBytes := by omega
  have h₃ : (c.objectives.flatMap encodeObjective).length ≤ kMaxPersistenceBytes := by omega
  have hn := length_lt_of_flatMap encodeObjective_pos h₃
  have hl := fun bs => decodes_objective.list c.objectives bs h₃
  have hx : ∀ (i : Int64) bs, readI64.run (writeI64 i ++ bs) =
      if (fun _ => true) i then some (i, bs) else none := run_readI64
  have he : c.expiration.all (fun _ => true) = true := by cases c.expiration <;> rfl
  simp only [List.append_assoc]
  unfold decodeContract
  simp only [↓bind_readId, ↓bind_readGen, ↓run_bind_ite (run_readCount hn _),
    ↓run_bind_ite (hl _), ↓bind_readI64, ↓bind_readOption hx, ↓bind_readEnum,
    ↓bind_readString h₁, ↓bind_readString h₂, StateT.run_pure, contractStorable,
    Bool.and_eq_true, ite_and, he, if_true]
  rfl

end Number

/-! ## 5. The state -/

section State

variable [Pod R] [Double R]

def serializeState (state : DurableState R) : Bytes :=
  writeU32 kPersistenceMagic ++ writeU32 kPersistenceVersion ++ writeGen state.epoch ++
  writeList encodePolicy state.policies ++ writeList encodeContract state.contracts ++
  writeList encodeObjstate state.objectiveStates ++
  writeList encodeReceipt state.enforcementHistory ++
  writeList encodeEval state.evaluationHistory

/-- A reader over a status: where `r` fails, the answer is `persistence_corrupt(m)`. -/
def must {α : Type} (m : String) (r : Reader α) : StateT Bytes (Except Status) α := fun bs =>
  match r.run bs with
  | some x => .ok x
  | none => .error (persistenceCorrupt m)

def decodeState (R : Type) [Pod R] [Double R] : StateT Bytes (Except Status) (DurableState R) := do
  let magic ← must "short header" readU32
  must "bad magic" (check (magic == kPersistenceMagic))
  let version ← must "short header" readU32
  must "unknown version" (check (version == kPersistenceVersion))
  let epoch ← must "bad epoch" (readGen .coordinatorEpoch)
  let n ← must "bad policy count" readCount
  let policies ← must "bad policy" (readList decodePolicy n)
  let n ← must "bad contract count" readCount
  let contracts ← must "bad contract" (readList (decodeContract R) n)
  let n ← must "bad objective_state count" readCount
  let objectiveStates ← must "bad objective state" (readList decodeObjstate n)
  let n ← must "bad enforcement count" readCount
  let enforcementHistory ← must "bad receipt" (readList decodeReceipt n)
  let n ← must "bad evaluation count" readCount
  let evaluationHistory ← must "bad evaluation" (readList decodeEval n)
  pure { epoch, policies, contracts, objectiveStates, enforcementHistory, evaluationHistory }

/-- `deserialize_state`, on data that is there (its callers never pass a null pointer). -/
def deserializeState (R : Type) [Pod R] [Double R] (data : Bytes) :
    Except Status (DurableState R) :=
  if kMaxPersistenceBytes < data.length then .error (persistenceCorrupt "oversized payload")
  else
    match (decodeState R).run data with
    | .error e => .error e
    | .ok (st, rest) =>
      if rest.isEmpty then .ok st else .error (persistenceCorrupt "trailing garbage")

/-- The states `deserialize_state` lets through. -/
def durableStorable (s : DurableState R) : Bool :=
  decide (s.policies.length ≤ kMaxCollectionItems) &&
  (decide (s.contracts.length ≤ kMaxCollectionItems) && s.contracts.all contractStorable) &&
  (decide (s.objectiveStates.length ≤ kMaxCollectionItems) &&
    s.objectiveStates.all objstateStorable) &&
  decide (s.enforcementHistory.length ≤ kMaxCollectionItems) &&
  decide (s.evaluationHistory.length ≤ kMaxCollectionItems)

theorem run_must {α : Type} (m : String) (r : Reader α) (bs : Bytes) : (must m r).run bs =
    match r.run bs with
    | some x => .ok x
    | none => .error (persistenceCorrupt m) := rfl

theorem bind_must {α β : Type} {m : String} {r : Reader α} {bs rest : Bytes} {a : α}
    {f : α → StateT Bytes (Except Status) β} (h : r.run bs = some (a, rest)) :
    (must m r >>= f).run bs = (f a).run rest := by
  rw [StateT.run_bind, run_must, h]
  rfl

theorem bind_must_ite {α β : Type} {m : String} {r : Reader α} {bs rest : Bytes} {a : α} {b : Bool}
    {f : α → StateT Bytes (Except Status) β}
    (h : r.run bs = if b then some (a, rest) else none) :
    (must m r >>= f).run bs = if b then (f a).run rest else .error (persistenceCorrupt m) := by
  rw [StateT.run_bind, run_must, h]
  cases b <;> rfl

/-- Read a list behind its length. -/
theorem bind_must_list {α β : Type} {m₁ m₂ : String} {r : Reader α} {w : α → Bytes}
    {P : α → Bool} (hr : Decodes kMaxPersistenceBytes r w P) (hw : ∀ a, 0 < (w a).length)
    {l : List α} (hl : (l.flatMap w).length ≤ kMaxPersistenceBytes)
    {f : List α → StateT Bytes (Except Status) β} (rest : Bytes) :
    (do let n ← must m₁ readCount; let x ← must m₂ (readList r n); f x).run
        (writeList w l ++ rest) =
      if decide (l.length ≤ kMaxCollectionItems) then
        if l.all P then (f l).run rest else .error (persistenceCorrupt m₂)
      else .error (persistenceCorrupt m₁) := by
  rw [writeList, List.append_assoc, bind_must_ite (run_readCount (length_lt_of_flatMap hw hl) _),
    bind_must_ite (hr.list l rest hl)]

theorem encodePolicy_pos (p : SloPolicy) : 0 < (encodePolicy p).length := by
  unfold encodePolicy
  simp only [List.length_append, length_writeId]
  omega

omit [Double R] in
theorem encodeContract_pos (c : SloContract R) : 0 < (encodeContract c).length := by
  unfold encodeContract
  simp only [List.length_append, length_writeId]
  omega

theorem encodeObjstate_pos (s : PersistedObjectiveState) : 0 < (encodeObjstate s).length := by
  unfold encodeObjstate
  simp only [List.length_append, length_writeId]
  omega

theorem encodeReceipt_pos (rc : EnforcementReceipt) : 0 < (encodeReceipt rc).length := by
  unfold encodeReceipt
  simp only [List.length_append, length_writeId]
  omega

theorem encodeEval_pos (e : EvaluationRecord) : 0 < (encodeEval e).length := by
  unfold encodeEval
  simp only [List.length_append, length_writeId]
  omega

/-- `x` is `a` where `b` holds, and a report of corruption where it does not. -/
def Yields {α : Type} (x : Except Status α) (b : Bool) (a : α) : Prop :=
  if b then x = .ok a else ∃ m, x = .error (persistenceCorrupt m)

theorem Yields.last {α : Type} {c : Bool} {a : α} {m : String} :
    Yields (if c then .ok a else .error (persistenceCorrupt m)) c a := by
  cases c with
  | true => rfl
  | false => exact ⟨m, rfl⟩

theorem Yields.guard {α : Type} {x : Except Status α} {b c : Bool} {a : α} {m : String}
    (h : Yields x b a) :
    Yields (if c then x else .error (persistenceCorrupt m)) (c && b) a := by
  cases c with
  | true => exact h
  | false => exact ⟨m, rfl⟩

/-- **What reading a serialized state gives**, within the size bound: the state, when it is
    storable, and `persistence_corrupt` when not. -/
theorem decodeState_serializeState (s : DurableState R)
    (h : (serializeState s).length ≤ kMaxPersistenceBytes) :
    Yields ((decodeState R).run (serializeState s)) (durableStorable s)
      ({ s with formatVersion := kPersistenceVersion }, []) := by
  unfold serializeState at h ⊢
  simp only [writeList, List.length_append] at h
  have h₁ : (s.policies.flatMap encodePolicy).length ≤ kMaxPersistenceBytes := by omega
  have h₂ : (s.contracts.flatMap encodeContract).length ≤ kMaxPersistenceBytes := by omega
  have h₃ : (s.objectiveStates.flatMap encodeObjstate).length ≤ kMaxPersistenceBytes := by omega
  have h₄ : (s.enforcementHistory.flatMap encodeReceipt).length ≤ kMaxPersistenceBytes := by omega
  have h₅ : (s.evaluationHistory.flatMap encodeEval).length ≤ kMaxPersistenceBytes := by omega
  have hc (b : Bool) (hb : b = true) (bs : Bytes) : (check b).run bs = some ((), bs) := by
    rw [run_check, if_pos hb]
  have hp : s.policies.all (fun _ => true) = true := by simp
  have hr : s.enforcementHistory.all (fun _ => true) = true := by simp
  have he : s.evaluationHistory.all (fun _ => true) = true := by simp
  rw [← List.append_nil (writeList encodeEval s.evaluationHistory)]
  simp only [List.append_assoc]
  unfold decodeState
  rw [bind_must (run_readU32 _ _), bind_must (hc _ (by decide) _), bind_must (run_readU32 _ _),
    bind_must (hc _ (by decide) _), bind_must (run_readGen _ _),
    bind_must_list decodes_policy encodePolicy_pos h₁,
    bind_must_list decodes_contract encodeContract_pos h₂,
    bind_must_list decodes_objstate encodeObjstate_pos h₃,
    bind_must_list decodes_receipt encodeReceipt_pos h₄,
    bind_must_list decodes_eval encodeEval_pos h₅, hp, hr, he]
  simp only [durableStorable, Bool.and_assoc, if_true]
  refine .guard (.guard (.guard (.guard (.guard (.guard ?_)))))
  exact .last

/-- **What `deserialize_state` answers on a serialized state** within the size bound. -/
theorem deserialize_serialize (s : DurableState R)
    (h : (serializeState s).length ≤ kMaxPersistenceBytes) :
    Yields (deserializeState R (serializeState s)) (durableStorable s)
      { s with formatVersion := kPersistenceVersion } := by
  have hd := decodeState_serializeState s h
  unfold deserializeState
  rw [if_neg (Nat.not_lt.mpr h)]
  unfold Yields at hd ⊢
  split
  · rename_i hs
    rw [if_pos hs] at hd
    rw [hd]
    rfl
  · rename_i hs
    rw [if_neg hs] at hd
    obtain ⟨m, hm⟩ := hd
    exact ⟨m, by rw [hm]⟩

end State

/-! ## 6. The round trip -/

section RoundTrip

variable [Pod R] [Double R]

/-- **The codec round trip**: a state whose lists are within the bound on collection items and
    whose numbers pass the decoder's range checks is read back as it was written. -/
theorem deserializeState_serializeState {s : DurableState R}
    (hv : s.formatVersion = kPersistenceVersion)
    (hpol : s.policies.length ≤ kMaxCollectionItems)
    (hcon : s.contracts.length ≤ kMaxCollectionItems)
    (hobj : ∀ c ∈ s.contracts, c.objectives.length ≤ kMaxCollectionItems)
    (hrange : ∀ c ∈ s.contracts, ∀ o ∈ c.objectives, objectiveStorable o = true)
    (host : s.objectiveStates.length ≤ kMaxCollectionItems)
    (hbud : ∀ x ∈ s.objectiveStates, 0 ≤ x.budgetTotal ∧ 0 ≤ x.budgetConsumed)
    (henf : s.enforcementHistory.length ≤ kMaxCollectionItems)
    (hev : s.evaluationHistory.length ≤ kMaxCollectionItems)
    (hlen : (serializeState s).length ≤ kMaxPersistenceBytes) :
    deserializeState R (serializeState s) = .ok s := by
  have hc : s.contracts.all contractStorable = true := by
    refine List.all_eq_true.mpr fun c hc => ?_
    simp only [contractStorable, Bool.and_eq_true, decide_eq_true_eq, List.all_eq_true]
    exact ⟨hobj c hc, hrange c hc⟩
  have ho : s.objectiveStates.all objstateStorable = true := by
    refine List.all_eq_true.mpr fun x hx => ?_
    simpa only [objstateStorable, nonneg, Bool.and_eq_true, decide_eq_true_eq] using hbud x hx
  have hs : durableStorable s = true := by
    simp only [durableStorable, Bool.and_eq_true, decide_eq_true_eq]
    exact ⟨⟨⟨⟨hpol, hcon, hc⟩, host, ho⟩, henf⟩, hev⟩
  have h := deserialize_serialize s hlen
  rw [hs] at h
  rw [show deserializeState R (serializeState s) = _ from h]
  cases s
  cases hv
  rfl

/-- One record of every kind. -/
theorem deserializeState_serializeState_small :
    let o : Objective Binary64 :=
      { id := ⟨1⟩, gen := ⟨2⟩, name := ascii "cost", dim := .cost, kind := .costWindowBudget
        target := .costMicros 1000, breachThreshold := some (.percentage (ofRat 50))
        allowedUncertainty := ofRat (1 / 10), percentileRank := ofRat (99 / 100), priority := -1 }
    let s : DurableState Binary64 :=
      { epoch := ⟨7⟩
        policies := [{ id := ⟨1⟩, gen := ⟨1⟩, name := ascii "p" }]
        contracts := [{ id := ⟨1⟩, gen := ⟨1⟩, service := ⟨1⟩, workload := ⟨1⟩, objectives := [o]
                        policyId := ⟨1⟩, policyGen := ⟨1⟩, expiration := some (-1) }]
        objectiveStates := [{ objectiveId := ⟨1⟩, objectiveGen := ⟨2⟩, budgetTotal := 10
                              budgetConsumed := 3, budgetWindow := 60, budgetWindowStart := -5
                              lastState := .violating, lastStateTime := 4, cooldownUntil := 9 }]
        enforcementHistory := [{ id := ⟨1⟩, gen := ⟨1⟩, action := .failover
                                 lifecycle := .dispatched
                                 epoch := ⟨7⟩, contractGen := ⟨1⟩, policyGen := ⟨1⟩
                                 evaluationId := ⟨1⟩, evaluationGen := ⟨1⟩, workloadGen := ⟨1⟩
                                 service := ⟨1⟩, workload := ⟨1⟩, objectiveId := ⟨1⟩
                                 objectiveGen := ⟨2⟩, reason := ascii "r" }]
        evaluationHistory := [{ evaluationId := ⟨1⟩, evaluationGen := ⟨1⟩, contractGen := ⟨1⟩
                                policyGen := ⟨1⟩, evidenceGen := ⟨1⟩, epoch := ⟨7⟩, time := 3
                                compliance := .atRisk, bindingDimension := .cost
                                bindingObjective := ⟨1⟩, selectedAction := .drain, digest := 5 }] }
    deserializeState Binary64 (serializeState s) = .ok s := by
  intro o s
  have hrange : s.contracts.all (fun c => c.objectives.all objectiveStorable) = true := by
    decide +kernel
  refine deserializeState_serializeState rfl (by decide) (by decide) (by decide)
    (fun c hc x hx => ?_) (by decide) (by decide) (by decide) (by decide) (by decide +kernel)
  exact List.all_eq_true.mp (List.all_eq_true.mp hrange c hc) x hx

end RoundTrip

/-! ## 7. The file -/

/-- One bit of CRC-32 (IEEE 802.3). -/
def crc32Round (c : UInt32) : UInt32 :=
  if c &&& 1 = 1 then (0xEDB88320 : UInt32) ^^^ (c >>> 1) else c >>> 1

/-- Entry `i` of the table: eight rounds on `i`. -/
def crc32Entry (i : UInt32) : UInt32 := crc32Round^[8] i

def crc32 (data : Bytes) : UInt32 :=
  let c : UInt32 := data.foldl
    (fun c b => crc32Entry ((c ^^^ b.toUInt32) &&& 0xFF) ^^^ (c >>> 8)) 0xFFFFFFFF
  c ^^^ 0xFFFFFFFF

example : crc32 (ascii "123456789") = 0xCBF43926 := by decide +kernel

section File

variable [Pod R] [Double R]

/-- The file `save_state` writes: the encoding and its checksum. -/
def saveState (state : DurableState R) : Bytes :=
  serializeState state ++ writeU32 (crc32 (serializeState state))

/-- `load_state`. A file that is there can be read in full. -/
def loadState (R : Type) [Pod R] [Double R] : Option Bytes → Except Status (DurableState R)
  | none => .error (notFound "persistence file not found")
  | some full =>
    if full.length < 4 then .error (persistenceCorrupt "file too short")
    else if kMaxPersistenceBytes + 4 < full.length then .error (persistenceCorrupt "oversized file")
    else
      let body := full.take (full.length - 4)
      if leNat (full.drop (full.length - 4)) ≠ (crc32 body).toNat then
        .error (persistenceCorrupt "checksum mismatch")
      else deserializeState R body

/-- What fails, fails with a complaint. -/
def Complains {α : Type} (x : StateT Bytes (Except Status) α) : Prop :=
  ∀ bs e, x.run bs = .error e → e.isOk = false

omit [Pod R] [Double R] in
theorem complains_bind {α β : Type} {x : StateT Bytes (Except Status) α}
    {f : α → StateT Bytes (Except Status) β} (hx : Complains x) (hf : ∀ a, Complains (f a)) :
    Complains (x >>= f) := by
  intro bs e h
  rw [StateT.run_bind] at h
  cases hr : x.run bs with
  | error e' =>
    rw [hr] at h
    cases h
    exact hx bs _ hr
  | ok y =>
    rw [hr] at h
    exact hf y.1 y.2 e h

omit [Pod R] [Double R] in
theorem complains_must {α : Type} (m : String) (r : Reader α) : Complains (must m r) := by
  intro bs e h
  rw [run_must] at h
  cases hr : r.run bs with
  | none => rw [hr] at h; cases h; rfl
  | some x => rw [hr] at h; cases h

theorem complains_decodeState : Complains (decodeState R) := by
  unfold decodeState
  repeat' first
    | exact complains_must _ _
    | refine complains_bind (complains_must _ _) fun _ => ?_
  intro bs e h
  cases h

/-- A file that is not accepted is complained about. -/
theorem loadState_error {file : Option Bytes} {e : Status} (h : loadState R file = .error e) :
    e.isOk = false := by
  unfold loadState at h
  split at h
  · cases h; rfl
  · split at h
    · cases h; rfl
    · split at h
      · cases h; rfl
      · simp only at h
        split at h
        · cases h; rfl
        · unfold deserializeState at h
          split at h
          · cases h; rfl
          · split at h
            · rename_i hd
              cases h
              exact complains_decodeState _ _ hd
            · split at h
              · cases h
              · cases h; rfl

/-- **What `load_state` answers on a file `save_state` wrote.** -/
theorem loadState_saveState (s : DurableState R) :
    Yields (loadState R (some (saveState s)))
      (decide ((serializeState s).length ≤ kMaxPersistenceBytes) && durableStorable s)
      { s with formatVersion := kPersistenceVersion } := by
  have hlen : (saveState s).length = (serializeState s).length + 4 := by
    simp [saveState]
  have hn : (saveState s).length - 4 = (serializeState s).length := by omega
  have hb : (saveState s).take ((saveState s).length - 4) = serializeState s := by
    rw [hn, saveState, List.take_left]
  have hd : (saveState s).drop ((saveState s).length - 4) =
      writeU32 (crc32 (serializeState s)) := by
    rw [hn, saveState, List.drop_left]
  have hcrc : leNat (writeU32 (crc32 (serializeState s))) = (crc32 (serializeState s)).toNat := by
    rw [writeU32, leNat_leBytes]
    exact Nat.mod_eq_of_lt (UInt32.toNat_lt _)
  have h4 : ¬ (saveState s).length < 4 := by omega
  simp only [loadState, if_neg h4, hb, hd, hcrc, ne_eq, not_true_eq_false, if_false]
  by_cases h : (serializeState s).length ≤ kMaxPersistenceBytes
  · rw [if_neg (by omega), decide_eq_true h]
    exact deserialize_serialize s h
  · rw [if_pos (by omega), decide_eq_false h]
    exact ⟨_, rfl⟩

end File

end SloFabric
