/-
  File:      SloFabric/Contract.lean
  Subject:   What a service promises: objectives, contracts, policies; and the evidence records
             that speak about them.

  Enumerations list their enumerators in the order of the source, so `ctorIdx` is the stored
  byte. A record keeps the fields some modelled function reads.
-/
import SloFabric.Units

namespace SloFabric

/-! ## 1. Objectives -/

inductive Dimension where
  | latency | availability | throughput | recoveryTime | memoryPressure | cost
  deriving DecidableEq, Repr

/-- `atMost`: lower is better. `atLeast`: higher is better. -/
inductive Comparison where
  | atMost | atLeast
  deriving DecidableEq, Repr

inductive HardSoft where
  | hard | soft
  deriving DecidableEq, Repr

inductive WindowType where
  | instantaneous | sliding | tumbling | fixedInterval | rollingCount
  deriving DecidableEq, Repr

inductive EnforcementClass where
  | none | advisory | authorized | mandatory
  deriving DecidableEq, Repr

inductive ObjectiveKind where
  | latencyMean | latencyPercentile | latencyMaxDeadline | availabilityTime | availabilityRequest
  | throughputRate | recoveryMaxDuration | memoryPressureMax | memoryMinHeadroom | costPerRequest
  | costPerToken | costWindowBudget
  deriving DecidableEq, Repr

inductive RateTag where
  | requests | tokens | bytes | operations
  deriving DecidableEq, Repr

inductive AvailabilityMode where
  | time | requests
  deriving DecidableEq, Repr

/-- The full objective definition, with the defaults of the source (`0.0` for
    `allowedUncertainty` and `0.99` for `percentileRank` are given where one is built). -/
structure Objective (R : Type) where
  id : ObjectiveId
  gen : ObjectiveGen
  name : Bytes := []
  dim : Dimension := .latency
  kind : ObjectiveKind := .latencyMean
  comparison : Comparison := .atMost
  hard : HardSoft := .hard
  enforcement : EnforcementClass := .authorized
  target : ObjectiveValue R
  breachThreshold : Option (ObjectiveValue R) := none
  recoveryThreshold : Option (ObjectiveValue R) := none
  minEvidence : Count := 1
  allowedUncertainty : R
  freshnessTtl : Duration := 0
  gracePeriod : Duration := 0
  windowType : WindowType := .instantaneous
  windowDuration : Duration := 0
  windowCount : Count := 64
  priority : Int32 := 0
  percentileRank : R
  availabilityMode : AvailabilityMode := .time
  rateTag : RateTag := .requests
  deriving DecidableEq

variable {R : Type}

/-- The unit of a dimension's values. -/
def expectedUnitFor : Dimension → UnitKind
  | .latency => .nanoseconds
  | .availability => .basisPoints
  | .throughput => .requestsPerSecond
  | .recoveryTime => .nanoseconds
  | .memoryPressure => .pressureRatio
  | .cost => .currencyMicros

/-- The unit of a throughput rate. -/
def rateUnit : RateTag → UnitKind
  | .requests => .requestsPerSecond
  | .tokens => .tokensPerSecond
  | .bytes => .bytesPerSecond
  | .operations => .operationsPerSecond

/-- Is the target's unit the one of the dimension? -/
def Objective.targetUnitMatchesDimension (o : Objective R) : Bool :=
  if o.dim = .throughput then unitKindOf o.target == rateUnit o.rateTag
  else unitKindOf o.target == expectedUnitFor o.dim

/-! ## 2. Policies and contracts -/

inductive PolicyMode where
  | lexicographic | hardThenSoft
  deriving DecidableEq, Repr

def policyModeName : PolicyMode → String
  | .lexicographic => "lexicographic"
  | .hardThenSoft => "hard_then_soft"

inductive TieBreak where
  | byPriority | byName | byObjectiveId
  deriving DecidableEq, Repr

structure SloPolicy where
  id : PolicyId
  gen : PolicyGen
  mode : PolicyMode := .hardThenSoft
  tieBreak : TieBreak := .byName
  name : Bytes := []
  description : Bytes := []
  deriving DecidableEq

inductive ContractLifecycle where
  | draft | active | superseded | suspended | expired | retired
  deriving DecidableEq, Repr

structure SloContract (R : Type) where
  id : SloContractId
  gen : SloContractGen
  service : ServiceId
  workload : WorkloadId
  tenant : TenantId := ⟨0⟩
  objectives : List (Objective R)
  policyId : PolicyId
  policyGen : PolicyGen
  effectiveFrom : Duration := 0
  expiration : Option Duration := none
  epoch : CoordinatorEpoch := ⟨0⟩
  lifecycle : ContractLifecycle := .draft
  name : Bytes := []
  provenance : Bytes := []
  deriving DecidableEq

def SloContract.isActive (c : SloContract R) : Bool := c.lifecycle == .active

/-- Active, and `now` within the contract's time window. -/
def SloContract.canAuthorize (c : SloContract R) (now : Duration) : Bool :=
  c.isActive && !decide (now < c.effectiveFrom) &&
    match c.expiration with
    | some e => !decide (e ≤ now)
    | none => true

/-! ## 3. Evidence -/

/-- How an evidence value came to exist. -/
inductive Provenance where
  | measured | derived | estimated | reported | synthetic | unknown
  deriving DecidableEq, Repr

/-- One typed evidence record. No operation of the fabric reads its `provenance`. -/
structure EvidenceRecord (R : Type) where
  id : EvidenceId
  dimension : Dimension := .latency
  objectiveId : ObjectiveId
  objectiveGen : ObjectiveGen := ⟨0⟩
  epoch : CoordinatorEpoch := ⟨0⟩
  time : Duration := 0
  provenance : Provenance := .measured
  sampleCount : Count := 1
  value : ObjectiveValue R
  deriving DecidableEq

/-- May a record of this unit feed the objective? -/
def unitCompatible (o : Objective R) (e : EvidenceRecord R) : Bool :=
  let eu := unitKindOf e.value
  if o.dim = .throughput then eu == rateUnit o.rateTag
  else if o.dim = .memoryPressure ∧ o.kind = .memoryMinHeadroom then eu == .bytes
  else if o.dim = .cost then eu == .currencyMicros
  else if o.dim = .availability then eu == .basisPoints || eu == .percent
  else eu == expectedUnitFor o.dim

/-- The recovery boundaries reported for recovery-time objectives. -/
inductive RecoveryEventPhase where
  | observed | authoritative | initiated | restored | verified
  deriving DecidableEq, Repr

/-! ## 4. The newest of several -/

/-- The element of the highest generation, the first one of equals: the loop
    `if (!best || x.gen > best->gen) best = &x`. -/
def newest {α : Type} (gen : α → UInt64) (l : List α) : Option α :=
  l.foldl (fun best x =>
    match best with
    | none => some x
    | some b => if (gen b).toNat < (gen x).toNat then some x else some b) none

theorem newest_fold {α : Type} (gen : α → UInt64) : ∀ (l : List α) (b : Option α) (x : α),
    l.foldl (fun best x =>
      match best with
      | none => some x
      | some b => if (gen b).toNat < (gen x).toNat then some x else some b) b = some x →
    (b = some x ∨ x ∈ l) ∧ (∀ y ∈ l, (gen y).toNat ≤ (gen x).toNat) ∧
      ∀ y, b = some y → (gen y).toNat ≤ (gen x).toNat
  | [], b, x, h => by
      refine ⟨Or.inl h, fun y hy => absurd hy List.not_mem_nil, fun y hy => ?_⟩
      rw [List.foldl_nil, hy] at h
      cases h
      exact Nat.le_refl _
  | z :: l, b, x, h => by
      rw [List.foldl_cons] at h
      obtain ⟨hx, hl, hb⟩ := newest_fold gen l _ x h
      cases b with
      | none =>
        refine ⟨Or.inr ?_, fun y hy => ?_, fun y hy => absurd hy (by simp)⟩
        · rcases hx with hx | hx
          · cases hx; exact List.mem_cons_self
          · exact List.mem_cons_of_mem _ hx
        · rcases List.mem_cons.mp hy with rfl | hy
          · exact hb y rfl
          · exact hl y hy
      | some c =>
        by_cases hc : (gen c).toNat < (gen z).toNat
        · simp only [if_pos hc] at hx hb
          have hz := hb z rfl
          refine ⟨Or.inr ?_, fun y hy => ?_, fun y hy => ?_⟩
          · rcases hx with hx | hx
            · cases hx; exact List.mem_cons_self
            · exact List.mem_cons_of_mem _ hx
          · rcases List.mem_cons.mp hy with rfl | hy
            · exact hz
            · exact hl y hy
          · cases hy; omega
        · simp only [if_neg hc] at hx hb
          have hc' := hb c rfl
          refine ⟨?_, fun y hy => ?_, fun y hy => ?_⟩
          · exact hx.imp id (List.mem_cons_of_mem _)
          · rcases List.mem_cons.mp hy with rfl | hy
            · omega
            · exact hl y hy
          · cases hy; exact hc'

/-- What `newest` finds is in the list, and nothing in the list is newer. -/
theorem newest_some {α : Type} {gen : α → UInt64} {l : List α} {x : α}
    (h : newest gen l = some x) : x ∈ l ∧ ∀ y ∈ l, (gen y).toNat ≤ (gen x).toNat := by
  obtain ⟨hx, hl, _⟩ := newest_fold gen l none x h
  exact ⟨hx.resolve_left (by simp), hl⟩

/-- Changing the elements, but not their generations, changes what is found. -/
theorem newest_map {α : Type} {gen : α → UInt64} {f : α → α} (l : List α)
    (h : ∀ x ∈ l, gen (f x) = gen x) : newest gen (l.map f) = (newest gen l).map f := by
  have go : ∀ (l : List α) (b : Option α), (∀ x ∈ l, gen (f x) = gen x) →
      (∀ x, b = some x → gen (f x) = gen x) →
      (l.map f).foldl (fun best x =>
        match best with
        | none => some x
        | some b => if (gen b).toNat < (gen x).toNat then some x else some b) (b.map f) =
      (l.foldl (fun best x =>
        match best with
        | none => some x
        | some b => if (gen b).toNat < (gen x).toNat then some x else some b) b).map f := by
    intro l
    induction l with
    | nil => exact fun _ _ _ => rfl
    | cons x l ih =>
      intro b hl hb
      have hx := hl x List.mem_cons_self
      rw [List.map_cons, List.foldl_cons, List.foldl_cons,
        ← ih _ (fun y hy => hl y (List.mem_cons_of_mem _ hy)) fun y hy => ?_]
      · congr 1
        cases b with
        | none => rfl
        | some b =>
          simp only [Option.map_some, hx, hb b rfl]
          split <;> rfl
      · cases b with
        | none =>
          cases hy
          exact hx
        | some b =>
          simp only at hy
          split at hy
          · cases hy
            exact hx
          · cases hy
            exact hb _ rfl
  exact go l none h fun _ hy => by cases hy

end SloFabric
