/-
  File:      SloFabric/Accumulator.lean
  Subject:   What the fabric remembers about one objective, and how evidence enters it.

  * `AvailabilityAccount`, `CostWindow`, `RecoveryTracker`, `SampleWindow`: the four stores;
  * `ObjectiveAccumulator`: the stores with the definition they were set up for. The routing
    flags of the source are set from the definition wherever the definition is set, so they are
    functions of it here;
  * `acquire`: the accumulator `get_accumulator` hands out for a definition -- a new one, the
    stored one, or the stored one wiped for a new generation (`acquire_gen`, `acquire_id`);
  * `offer`: what `ingest` does with a record once it has the accumulator.
-/
import SloFabric.Window
import SloFabric.Budget
import SloFabric.Library.KeyedTable
import Mathlib.Data.Finset.Insert
import Mathlib.Data.Finset.Erase

namespace SloFabric

inductive ComplianceState where
  | compliant | nearLimit | atRisk | violating | recovering | insufficientEvidence
  | revalidationRequired | suspended
  deriving DecidableEq, Repr

variable {R : Type}

open Double

/-! ## 1. The stores -/

structure AvailabilityAccount where
  mode : AvailabilityMode := .time
  eligibleTime : Duration := 0
  servingTime : Duration := 0
  eligible : Count := 0
  successful : Count := 0
  deriving DecidableEq

namespace AvailabilityAccount

def hasDenominator (a : AvailabilityAccount) : Bool :=
  match a.mode with
  | .time => decide (0 < a.eligibleTime)
  | .requests => decide (0 < a.eligible)

def ratio [Double R] (a : AvailabilityAccount) : R :=
  match a.mode with
  | .time =>
    if a.eligibleTime ≤ 0 then ofRat 0 else div (ofInt64 a.servingTime) (ofInt64 a.eligibleTime)
  | .requests =>
    if a.eligible ≤ 0 then ofRat 0 else div (ofInt64 a.successful) (ofInt64 a.eligible)

/-- Add `weight` eligible and `serving` serving units to the totals of `mode`. -/
def add (a : AvailabilityAccount) (mode : AvailabilityMode) (weight serving : Int64) :
    AvailabilityAccount :=
  match mode with
  | .time =>
    { a with eligibleTime := a.eligibleTime + weight, servingTime := a.servingTime + serving }
  | .requests =>
    { a with eligible := a.eligible + weight, successful := a.successful + serving }

/-- The eligible total of a mode. -/
def eligibleIn (a : AvailabilityAccount) : AvailabilityMode → Int64
  | .time => a.eligibleTime
  | .requests => a.eligible

/-- The serving total of a mode. -/
def servedIn (a : AvailabilityAccount) : AvailabilityMode → Int64
  | .time => a.servingTime
  | .requests => a.successful

theorem eligibleIn_add (a : AvailabilityAccount) (mode mode' : AvailabilityMode)
    (weight serving : Int64) : (a.add mode weight serving).eligibleIn mode' =
      if mode' = mode then a.eligibleIn mode' + weight else a.eligibleIn mode' := by
  cases mode <;> cases mode' <;> rfl

theorem servedIn_add (a : AvailabilityAccount) (mode mode' : AvailabilityMode)
    (weight serving : Int64) : (a.add mode weight serving).servedIn mode' =
      if mode' = mode then a.servedIn mode' + serving else a.servedIn mode' := by
  cases mode <;> cases mode' <;> rfl

end AvailabilityAccount

/-- The cap of a cost window's items. -/
def costWindowCap : Nat := 4096

structure CostWindow (R : Type) where
  items : List (Duration × R) := []
  capNs : Int64 := 0
  deriving DecidableEq

namespace CostWindow

/-- Drop items from the front while they are older than the window, then while they are too
    many. -/
def evict (w : CostWindow R) (now : Duration) : CostWindow R :=
  let aged := if 0 < w.capNs then w.items.dropWhile fun p => decide (w.capNs < now - p.1)
    else w.items
  { w with items := aged.drop (aged.length - costWindowCap) }

def add (w : CostWindow R) (t : Duration) (cost : R) (windowNs : Int64) : CostWindow R :=
  evict { items := w.items ++ [(t, cost)], capNs := windowNs } t

def sum [Double R] (w : CostWindow R) : R :=
  w.items.foldl (fun s p => Double.add s p.2) (ofRat 0)

end CostWindow

structure RecoveryTracker where
  observed : Bool := false
  authoritative : Bool := false
  initiated : Bool := false
  restored : Bool := false
  verified : Bool := false
  authoritativeAt : Duration := 0
  restoredAt : Duration := 0
  verifiedAt : Duration := 0
  deriving DecidableEq

namespace RecoveryTracker

def currentRecoveryDuration (t : RecoveryTracker) (now : Duration) : Duration :=
  if !t.authoritative then 0
  else
    let stop := if t.verified then t.verifiedAt else if t.restored then t.restoredAt else now
    stop - t.authoritativeAt

/-- Note one recovery boundary. -/
def record (t : RecoveryTracker) (phase : RecoveryEventPhase) (time : Duration) :
    RecoveryTracker :=
  let t := { t with observed := true }
  match phase with
  | .observed => t
  | .authoritative => { t with authoritative := true, authoritativeAt := time }
  | .initiated => { t with initiated := true }
  | .restored => { t with restored := true, restoredAt := time }
  | .verified => { t with verified := true, verifiedAt := time }

end RecoveryTracker

/-! ## 2. The accumulator of an objective -/

/-- The cap of an accumulator's remembered evidence ids. -/
def dedupCap : Nat := 4096

structure ObjectiveAccumulator (R : Type) where
  defn : Objective R
  window : SampleWindow R
  avail : AvailabilityAccount
  cost : CostWindow R := {}
  recovery : RecoveryTracker := {}
  hasBudget : Bool := false
  budget : ErrorBudget := ErrorBudget.make 0 0
  lastState : ComplianceState := .insufficientEvidence
  lastStateTime : Duration := 0
  cooldownUntil : Duration := 0
  recent : List EvidenceId := []
  recentSet : Finset EvidenceId := ∅
  nextSeq : UInt64 := 1

namespace ObjectiveAccumulator

def usesAvailability (a : ObjectiveAccumulator R) : Bool := a.defn.dim == .availability

def usesCost (a : ObjectiveAccumulator R) : Bool := a.defn.dim == .cost

def usesRecovery (a : ObjectiveAccumulator R) : Bool := a.defn.dim == .recoveryTime

/-- `rebuild_window`: every window type is one the window knows. -/
def windowFor (o : Objective R) : SampleWindow R :=
  SampleWindow.make o.windowType o.windowDuration
    (if o.windowCount < 1 then 1 else o.windowCount.toInt.toNat)

/-- The constructor: a definition with empty stores. -/
def make (o : Objective R) : ObjectiveAccumulator R where
  defn := o
  window := windowFor o
  avail := { mode := o.availabilityMode }

/-- `reset_for_new_gen`: only the budget survives. -/
def resetForNewGen (a : ObjectiveAccumulator R) (o : Objective R) : ObjectiveAccumulator R :=
  { make o with hasBudget := a.hasBudget, budget := a.budget }

def seen (a : ObjectiveAccumulator R) (id : EvidenceId) : Bool := decide (id ∈ a.recentSet)

def remember (a : ObjectiveAccumulator R) (id : EvidenceId) : ObjectiveAccumulator R :=
  let (ring, set) :=
    if dedupCap ≤ a.recent.length then
      match a.recent with
      | [] => (a.recent, a.recentSet)
      | old :: rest => (rest, a.recentSet.erase old)
    else (a.recent, a.recentSet)
  { a with recent := ring ++ [id], recentSet := insert id set }

end ObjectiveAccumulator

/-- The accumulators, by the id of their definition. -/
abbrev Accumulators (R : Type) := KeyedTable fun a : ObjectiveAccumulator R => a.defn.id

/-- The accumulator `get_accumulator` hands out for `o`. -/
def acquire (t : Accumulators R) (o : Objective R) : ObjectiveAccumulator R :=
  match t.find o.id with
  | none => .make o
  | some a => if a.defn.gen ≠ o.gen then a.resetForNewGen o else a

/-- The table after `get_accumulator`. -/
def getAccumulator (t : Accumulators R) (o : Objective R) : Accumulators R :=
  t.insert (acquire t o)

/-- **What `get_accumulator` can hand out**: an accumulator with empty stores for `o`, with the
    budget of the stored one if there was one, or the stored one at `o`'s generation. -/
theorem acquire_cases (t : Accumulators R) (o : Objective R) :
    (t.find o.id = none ∧ acquire t o = .make o) ∨
    (∃ a, t.find o.id = some a ∧ a.defn.gen ≠ o.gen ∧ acquire t o = a.resetForNewGen o) ∨
    (∃ a, t.find o.id = some a ∧ a.defn.gen = o.gen ∧ acquire t o = a) := by
  unfold acquire
  cases h : t.find o.id with
  | none => exact Or.inl ⟨rfl, rfl⟩
  | some a =>
    by_cases hg : a.defn.gen = o.gen
    · exact Or.inr (Or.inr ⟨a, rfl, hg, by simp [hg]⟩)
    · exact Or.inr (Or.inl ⟨a, rfl, hg, by simp [hg]⟩)

@[simp] theorem acquire_gen (t : Accumulators R) (o : Objective R) :
    (acquire t o).defn.gen = o.gen := by
  rcases acquire_cases t o with ⟨_, h⟩ | ⟨a, _, _, h⟩ | ⟨a, _, hg, h⟩
  · rw [h]; rfl
  · rw [h]; rfl
  · rw [h, hg]

@[simp] theorem acquire_id (t : Accumulators R) (o : Objective R) :
    (acquire t o).defn.id = o.id := by
  rcases acquire_cases t o with ⟨_, h⟩ | ⟨a, _, _, h⟩ | ⟨a, ha, _, h⟩
  · rw [h]; rfl
  · rw [h]; rfl
  · rw [h, KeyedTable.find_key ha]

/-- What holds of the stored accumulators and of every fresh one holds of the one handed out. -/
theorem acquire_of_id {P : ObjectiveAccumulator R → Prop} {t : Accumulators R} {o : Objective R}
    (ht : ∀ a ∈ t.rows, P a) (hmake : P (.make o))
    (hreset : ∀ a, a.defn.id = o.id → P a → P (a.resetForNewGen o)) : P (acquire t o) := by
  rcases acquire_cases t o with ⟨_, h⟩ | ⟨a, ha, _, h⟩ | ⟨a, ha, _, h⟩
  · rw [h]; exact hmake
  · have hid := KeyedTable.find_key ha
    rw [h]; exact hreset a hid (ht a (KeyedTable.find_mem ha))
  · rw [h]; exact ht a (KeyedTable.find_mem ha)

theorem acquire_of {P : ObjectiveAccumulator R → Prop} {t : Accumulators R} {o : Objective R}
    (ht : ∀ a ∈ t.rows, P a) (hmake : P (.make o))
    (hreset : ∀ a, P a → P (a.resetForNewGen o)) : P (acquire t o) :=
  acquire_of_id ht hmake fun a _ => hreset a

/-! ## 3. Evidence -/

section Evidence

variable [Double R]

/-- `std::max<std::int64_t>(1, sample_count)`. -/
def evidenceWeight (e : EvidenceRecord R) : Int64 :=
  if e.sampleCount < 1 then 1 else e.sampleCount

/-- The serving units an availability record stands for: `bp / 10000` of its weight. -/
def exactUnits (e : EvidenceRecord R) : R :=
  mul (div (numericOf e.value) (ofRat 10000)) (ofInt64 (evidenceWeight e))

/-- They are added as an integer. -/
def servingUnits (e : EvidenceRecord R) : Int64 := toInt64 (exactUnits e)

/-- The status `ingest` answers for what the window said. -/
def windowStatus : IngestStatus → Status
  | .accepted => ok
  | .duplicate => cancelled "duplicate sample"
  | .rollback => staleEvidence "clock rollback / reordered sample rejected"
  | .late => invalidInput "late sample for closed window"
  | .invalid => invalidInput "invalid sample"
  | .closed => invalidInput "window closed"

/-- Offer a sample to the window under the next sequence number. -/
def ObjectiveAccumulator.sample (a : ObjectiveAccumulator R) (e : EvidenceRecord R) :
    ObjectiveAccumulator R × IngestStatus :=
  let r := a.window.ingest e.time (numericOf e.value) a.nextSeq
  ({ a with window := r.1, nextSeq := a.nextSeq + 1 }, r.2)

/-- The switch over the record's dimension that puts it into a store. -/
def storeEvidence (o : Objective R) (a : ObjectiveAccumulator R) (e : EvidenceRecord R) :
    ObjectiveAccumulator R × Status :=
  match e.dimension with
  | .latency | .throughput | .memoryPressure =>
    let r := a.sample e
    (r.1, windowStatus r.2)
  | .availability =>
    ({ a with avail := a.avail.add o.availabilityMode (evidenceWeight e) (servingUnits e) }, ok)
  | .cost =>
    if o.kind = .costWindowBudget then
      ({ a with cost := a.cost.add e.time (numericOf e.value) o.windowDuration }, ok)
    else ((a.sample e).1, ok)
  | .recoveryTime => (a, invalidInput "use record_recovery_event for recovery-time objectives")

/-- What `ingest` does with a record once it has the accumulator of its objective. -/
def offer (o : Objective R) (a : ObjectiveAccumulator R) (e : EvidenceRecord R) :
    ObjectiveAccumulator R × Status :=
  if a.seen e.id then (a, cancelled "duplicate evidence")
  else
    let a := a.remember e.id
    if !unitCompatible o e then (a, unitMismatch "evidence unit does not match objective")
    else storeEvidence o a e

/-- Everything but the stores of evidence and the remembered ids is that of `a`. -/
structure SameConduct (a b : ObjectiveAccumulator R) : Prop where
  defn : b.defn = a.defn
  recovery : b.recovery = a.recovery
  hasBudget : b.hasBudget = a.hasBudget
  budget : b.budget = a.budget
  lastState : b.lastState = a.lastState
  lastStateTime : b.lastStateTime = a.lastStateTime
  cooldownUntil : b.cooldownUntil = a.cooldownUntil

theorem storeEvidence_conduct (o : Objective R) (a : ObjectiveAccumulator R)
    (e : EvidenceRecord R) : SameConduct a (storeEvidence o a e).1 := by
  cases h : e.dimension with
  | cost =>
    by_cases hk : o.kind = .costWindowBudget
    · simp only [storeEvidence, h, if_pos hk]
      exact ⟨rfl, rfl, rfl, rfl, rfl, rfl, rfl⟩
    · simp only [storeEvidence, h, if_neg hk]
      exact ⟨rfl, rfl, rfl, rfl, rfl, rfl, rfl⟩
  | _ =>
    simp only [storeEvidence, h]
    exact ⟨rfl, rfl, rfl, rfl, rfl, rfl, rfl⟩

/-- **What becomes of an offer**: it is a duplicate, or of another unit, or put into a store. -/
theorem offer_spec (o : Objective R) (a : ObjectiveAccumulator R) (e : EvidenceRecord R) :
    (a.seen e.id = true ∧ offer o a e = (a, cancelled "duplicate evidence")) ∨
    (a.seen e.id = false ∧ unitCompatible o e = false ∧
      offer o a e =
        (a.remember e.id, unitMismatch "evidence unit does not match objective")) ∨
    (a.seen e.id = false ∧ unitCompatible o e = true ∧
      offer o a e = storeEvidence o (a.remember e.id) e) := by
  unfold offer
  cases hseen : a.seen e.id with
  | true => exact Or.inl ⟨rfl, rfl⟩
  | false =>
    cases hunit : unitCompatible o e with
    | false => exact Or.inr (Or.inl ⟨rfl, rfl, rfl⟩)
    | true => exact Or.inr (Or.inr ⟨rfl, rfl, rfl⟩)

/-- **Evidence changes nothing but the stores.** -/
theorem offer_conduct (o : Objective R) (a : ObjectiveAccumulator R) (e : EvidenceRecord R) :
    SameConduct a (offer o a e).1 := by
  have hstore := storeEvidence_conduct o (a.remember e.id) e
  rcases offer_spec o a e with ⟨_, hoffer⟩ | ⟨_, _, hoffer⟩ | ⟨_, _, hoffer⟩ <;> rw [hoffer]
  · exact ⟨rfl, rfl, rfl, rfl, rfl, rfl, rfl⟩
  · exact ⟨rfl, rfl, rfl, rfl, rfl, rfl, rfl⟩
  · exact ⟨hstore.defn, hstore.recovery, hstore.hasBudget, hstore.budget, hstore.lastState,
      hstore.lastStateTime, hstore.cooldownUntil⟩

end Evidence

end SloFabric
