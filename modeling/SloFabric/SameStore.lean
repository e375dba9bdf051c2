/-
  File:      SloFabric/SameStore.lean
  Subject:   Whether freshness is asked of the store that is measured.

  * `Overlooked`: the samples of a cost per request are measured, the items of a cost window are
    asked for their freshness, and there are none;
  * `expired_iff`: a sufficient value that is expired is overlooked;
  * `freshRecords`: the fresh records that were accepted; `Heard`: there are fewer of them than
    asked for, or the store that is measured and the one asked for freshness both answer;
  * `same_store_iff`: when both hold;
  * `same_store_fails`: the cost of a request is sufficient, and expired.
-/
import SloFabric.Counting
import SloFabric.UnitAgreement

namespace SloFabric

variable {R : Type}

/-! ## 1. An accumulator -/

section Accumulator

variable [Double R]

/-- **The samples of a cost per request are overlooked**: there are as many as asked for, and
    freshness is asked of items that are not there. -/
def Overlooked (a : ObjectiveAccumulator R) : Prop :=
  a.defn.dim = .cost ∧ a.defn.kind ≠ .costWindowBudget ∧ asked a ≤ a.window.size ∧
    a.cost.items = []

omit [Double R] in
/-- The freshness of samples is that of the last one. -/
theorem freshness_samples {a : ObjectiveAccumulator R}
    (hdim : a.defn.dim = .latency ∨ a.defn.dim = .throughput ∨ a.defn.dim = .memoryPressure)
    {latest : WindowSample R} (hlatest : a.window.samples.getLast? = some latest)
    (now : Duration) : evaluateFreshness a now =
      if now - latest.time < 0 then .stale
      else if a.defn.freshnessTtl ≤ 0 then
        if 0 < a.defn.windowDuration ∧ a.defn.windowDuration ≤ now - latest.time then .stale
        else .current
      else if a.defn.freshnessTtl < now - latest.time then .stale else .current := by
  unfold evaluateFreshness
  rcases hdim with h | h | h <;>
    simp [ObjectiveAccumulator.usesAvailability, ObjectiveAccumulator.usesRecovery,
      ObjectiveAccumulator.usesCost, h, hlatest]

omit [Double R] in
/-- A window that holds samples is current or stale. -/
theorem freshness_window {a : ObjectiveAccumulator R}
    (hdim : a.defn.dim = .latency ∨ a.defn.dim = .throughput ∨ a.defn.dim = .memoryPressure)
    (hsize : 1 ≤ a.window.size) (now : Duration) :
    evaluateFreshness a now = .current ∨ evaluateFreshness a now = .stale := by
  have hne : a.window.samples ≠ [] := List.length_pos_iff.mp hsize
  obtain ⟨latest, hlatest⟩ := Option.ne_none_iff_exists'.mp (mt List.getLast?_eq_none_iff.mp hne)
  rw [freshness_samples hdim hlatest]
  repeat' split
  all_goals simp

/-- The last sample is young enough for the definition held. -/
def LastFresh (a : ObjectiveAccumulator R) (now : Duration) : Prop :=
  ∃ latest, a.window.samples.getLast? = some latest ∧ 0 ≤ now - latest.time ∧
    if 0 < a.defn.freshnessTtl then now - latest.time ≤ a.defn.freshnessTtl
    else 0 < a.defn.windowDuration → now - latest.time < a.defn.windowDuration

omit [Double R] in
/-- Then a window that holds samples is current. -/
theorem lastFresh_iff {a : ObjectiveAccumulator R}
    (hdim : a.defn.dim = .latency ∨ a.defn.dim = .throughput ∨ a.defn.dim = .memoryPressure)
    (hsize : 1 ≤ a.window.size) (now : Duration) :
    LastFresh a now ↔ evaluateFreshness a now = .current := by
  have hne : a.window.samples ≠ [] := List.length_pos_iff.mp hsize
  obtain ⟨latest, hlatest⟩ := Option.ne_none_iff_exists'.mp (mt List.getLast?_eq_none_iff.mp hne)
  rw [freshness_samples hdim hlatest]
  simp only [LastFresh, hlatest, Option.some.injEq, exists_eq_left']
  by_cases hpast : now - latest.time < 0
  · simp [hpast, Int64.not_le.mpr hpast]
  · by_cases httl : 0 < a.defn.freshnessTtl
    · simp [hpast, Int64.not_lt.mp hpast, httl, Int64.not_le.mpr httl]
    · simp [hpast, Int64.not_lt.mp hpast, httl, Int64.not_lt.mp httl]

/-- **What is sufficient is expired only if it is overlooked.** -/
theorem expired_iff {taken : List (Store × EvidenceRecord R)} {a : ObjectiveAccumulator R}
    (h : ComputedFrom taken a) (now : Duration) :
    ((computeMeasured a now).got = true → (computeMeasured a now).sufficient = true →
      contributing taken a ≠ [] → evaluateFreshness a now ≠ .expired) ↔ ¬Overlooked a := by
  cases hd : a.defn.dim with
  | availability =>
    refine iff_of_true (fun hgot _ _ => ?_) (by simp [Overlooked, hd])
    rw [freshness_availability hd]
    simp only [computeMeasured, hd] at hgot
    cases hden : a.avail.hasDenominator with
    | true => simp
    | false => simp [hden] at hgot
  | recoveryTime =>
    refine iff_of_true (fun _ _ _ => ?_) (by simp [Overlooked, hd])
    have hcurrent := ((hasValue_measured a now).mp (measured_of_recoveryTime hd now)).2.2
    rw [hcurrent]
    decide
  | cost =>
    rw [freshness_cost hd]
    by_cases hk : a.defn.kind = .costWindowBudget
    · refine iff_of_true (fun hgot hsuff _ => ?_) fun hover => hover.2.1 hk
      rw [if_neg ((measured_items hd hk now).mp ⟨hgot, hsuff⟩)]
      decide
    · constructor
      · intro hall hover
        obtain ⟨hgot, hsuff⟩ := (measured_perRequest hd hk now).mpr hover.2.2.1
        refine hall hgot hsuff (fun hnone => ?_) (if_pos hover.2.2.2)
        have hpos : 1 ≤ a.window.size := (asked_pos (by rw [hd]; decide)).trans hover.2.2.1
        have hlen := length_contributing h
        simp only [hd, hnone, if_neg hk, List.length_nil] at hlen
        omega
      · intro hover hgot hsuff _ hexpired
        have hsize := (measured_perRequest hd hk now).mp ⟨hgot, hsuff⟩
        refine hover ⟨hd, hk, hsize, ?_⟩
        by_contra hitems
        rw [if_neg hitems] at hexpired
        cases hexpired
  | latency | throughput | memoryPressure =>
    refine iff_of_true (fun hgot _ _ => ?_) (by simp [Overlooked, hd])
    have hdim : a.defn.dim = .latency ∨ a.defn.dim = .throughput ∨
        a.defn.dim = .memoryPressure := by simp [hd]
    have hsize := ((measured_window a now hdim).2.mp hgot).1
    have hone : 1 ≤ a.window.size := (asked_pos (by rw [hd]; decide)).trans hsize
    rcases freshness_window hdim hone now with hfr | hfr <;> rw [hfr] <;> decide

/-- **The stores answer**: the one that is measured and the one that is asked for freshness. -/
def StoresAnswer (a : ObjectiveAccumulator R) (now : Duration) : Prop :=
  match a.defn.dim with
  | .availability => a.avail.hasDenominator = true
  | .recoveryTime => True
  | .cost => a.cost.items ≠ [] ∧ (a.defn.kind ≠ .costWindowBudget → asked a ≤ a.window.size)
  | .latency | .throughput | .memoryPressure =>
    asked a ≤ a.window.size ∧ rankAnswered a = true ∧ LastFresh a now

theorem storesAnswer_iff (a : ObjectiveAccumulator R) (now : Duration) :
    StoresAnswer a now ↔ GivesValue a now := by
  unfold StoresAnswer GivesValue
  cases hd : a.defn.dim with
  | availability | recoveryTime | cost => exact Iff.rfl
  | latency | throughput | memoryPressure =>
    refine and_congr_right fun hasked => and_congr_right fun _ => ?_
    have hpos : 1 ≤ asked a := asked_pos (by rw [hd]; decide)
    exact lastFresh_iff (by simp [hd]) (hpos.trans hasked) now

/-- **Fresh records are heard**: there are fewer of them than `least`, or the stores answer. -/
def Heard (fresh : Nat) (least : Int) (a : ObjectiveAccumulator R) (now : Duration) : Prop :=
  (fresh : Int) < least ∨ StoresAnswer a now

/-- They are when enough of them give a value. -/
theorem heard_iff (fresh : Nat) (least : Int) (a : ObjectiveAccumulator R) (now : Duration) :
    Heard fresh least a now ↔ (least ≤ fresh → GivesValue a now) := by
  unfold Heard
  rw [storesAnswer_iff, ← not_le]
  exact imp_iff_not_or.symm

end Accumulator

/-! ## 2. Runs -/

section Runs

variable [Double R] [Platform R] [Pod R]

/-- Is a record at most as old at `now` as the objective allows? -/
def freshRecord (o : Objective R) (now : Duration) (e : EvidenceRecord R) : Bool :=
  decide (0 ≤ now.toInt - e.time.toInt) &&
    if 0 < o.freshnessTtl then decide (now.toInt - e.time.toInt ≤ o.freshnessTtl.toInt)
    else !decide (0 < o.windowDuration) ||
      decide (now.toInt - e.time.toInt < o.windowDuration.toInt)

/-- **The fresh records accepted** since the accumulator objective `obj` at place `i` of a contract
    is judged on was last wiped. -/
def freshRecords (w : Journaled R) (c : SloContract R) (i : Nat) (obj : Objective R)
    (now : Duration) : List (EvidenceRecord R) :=
  ((keptEntries w c i obj).filterMap (·.accepted)).filter (freshRecord obj now)

/-- What a stored accumulator holds is what it took in. -/
theorem stored_computedFrom {w : Journaled R} {tr : Trace R} {k : ObjectiveId}
    (h : Run (watch apply (noteEntry k)) (fun _ _ => True) ⟨State.fresh R, []⟩ tr w)
    {a : ObjectiveAccumulator R} (ha : w.state.accumulators.find k = some a) :
    ComputedFrom (sinceReset (·.stored) w.seen) a := by
  have hsourced := sourced_rule.run h
  rw [ha] at hsourced
  exact Sourced.computedFrom hsourced

/-- **When freshness is asked of the store that is measured.** In every run: a sufficient value a
    stored accumulator computes from a record is not expired, at any time, if and only if it is not
    overlooked; and an evaluation reports a verdict on an objective of which as many fresh records
    as it wants were accepted, if and only if they are heard. -/
theorem same_store_iff {w : Journaled R} {tr : Trace R} {obj : Objective R}
    (h : Run (watch apply (noteEntry obj.id)) (fun _ _ => True) ⟨State.fresh R, []⟩ tr w) :
    (∀ a now, w.state.accumulators.find obj.id = some a →
      (((computeMeasured a now).got = true → (computeMeasured a now).sufficient = true →
        contributing (sinceReset (·.stored) w.seen) a ≠ [] →
        evaluateFreshness a now ≠ .expired) ↔ ¬Overlooked a)) ∧
    ∀ s' service workload now res c i,
      evaluate w.state service workload now = some (s', .ok res) →
      selectContract w.state.contracts service workload now = some c →
      c.objectives[i]? = some obj →
      ∃ st, res.explanation.objectives[i]? = some st ∧ st.id = obj.id ∧
        ((minimumOf obj ≤ (freshRecords w c i obj now).length → st.state.isVerdict = true) ↔
          Heard (freshRecords w c i obj now).length (minimumOf obj)
            (judgedOn w.state c now i obj) now) := by
  refine ⟨fun a now ha => expired_iff (stored_computedFrom h ha) now,
    fun s' service workload now res c i hev hc hobj => ?_⟩
  have hrun := (Run.watched (noteEntry obj.id) []).mpr ⟨w, h, rfl⟩
  obtain ⟨st, hst, hid, hverdict⟩ := evaluate_verdict hrun hev hc hobj
  refine ⟨st, hst, hid, ?_⟩
  rw [hverdict]
  exact (heard_iff _ _ _ now).symm

end Runs

/-! ## 3. The cost of a request -/

/-- A sufficient value from a record, in what is stored for objective `1`. -/
def sufficientIn (w : Journaled Binary64) (p : ObjectiveAccumulator Binary64 → Bool) : Bool :=
  (w.state.accumulators.find ⟨1⟩).any fun a =>
    (computeMeasured a 10).got && (computeMeasured a 10).sufficient &&
      !(contributing (sinceReset (·.stored) w.seen) a).isEmpty && p a

theorem of_sufficientIn {w : Journaled Binary64} {p : ObjectiveAccumulator Binary64 → Bool}
    (h : sufficientIn w p = true) :
    ∃ a, w.state.accumulators.find ⟨1⟩ = some a ∧ (computeMeasured a 10).got = true ∧
      (computeMeasured a 10).sufficient = true ∧
      contributing (sinceReset (·.stored) w.seen) a ≠ [] ∧ p a = true := by
  obtain ⟨a, ha, h⟩ := (Option.any_eq_true _ _).mp h
  simp only [Bool.and_eq_true, Bool.not_eq_true', List.isEmpty_eq_false_iff] at h
  exact ⟨a, ha, h.1.1.1, h.1.1.2, h.1.2, h.2⟩

/-- **The cost of a request is sufficient, and expired.** -/
theorem same_store_fails :
    ¬∀ (k : ObjectiveId) (w : Journaled Binary64) (tr : Trace Binary64)
      (a : ObjectiveAccumulator Binary64) (now : Duration),
      Run (watch apply (noteEntry k)) (fun _ _ => True) ⟨State.fresh Binary64, []⟩ tr w →
      w.state.accumulators.find k = some a → (computeMeasured a now).got = true →
      (computeMeasured a now).sufficient = true →
      contributing (sinceReset (·.stored) w.seen) a ≠ [] → evaluateFreshness a now ≠ .expired := by
  intro hall
  have htest : (execute (watch apply (noteEntry ⟨1⟩)) (fun _ _ => true)
      ⟨State.fresh Binary64, []⟩ costReported).any (fun x =>
        sufficientIn x.1 fun a => evaluateFreshness a 10 = .expired) = true := by
    decide +kernel
  obtain ⟨w, tr, hrun, hw⟩ := Run.of_test (fun _ _ _ => trivial) htest
  obtain ⟨a, ha, hgot, hsuff, hrecords, hexpired⟩ := of_sufficientIn hw
  exact hall ⟨1⟩ w tr a 10 hrun ha hgot hsuff hrecords (of_decide_eq_true hexpired)

/-- A latency is not. -/
theorem same_store_iff_small :
    ∃ (tr : Trace Binary64) (w : Journaled Binary64) (a : ObjectiveAccumulator Binary64),
      Run (watch apply (noteEntry ⟨1⟩)) (fun _ _ => True) ⟨State.fresh Binary64, []⟩ tr w ∧
      w.state.accumulators.find ⟨1⟩ = some a ∧ evaluateFreshness a 10 ≠ .expired := by
  have htest : (execute (watch apply (noteEntry ⟨1⟩)) (fun _ _ => true)
      ⟨State.fresh Binary64, []⟩ latencyReported).any (fun x =>
        sufficientIn x.1 fun a => a.defn.dim = .latency) = true := by
    decide +kernel
  obtain ⟨w, tr, hrun, hw⟩ := Run.of_test (fun _ _ _ => trivial) htest
  obtain ⟨a, ha, hgot, hsuff, hrecords, hdim⟩ := of_sufficientIn hw
  have hdim := of_decide_eq_true hdim
  have hrun' : Run (watch apply (noteEntry (smallObjective 1 1).id)) (fun _ _ => True)
    ⟨State.fresh Binary64, []⟩ tr w := hrun
  refine ⟨tr, w, a, hrun, ha, ((same_store_iff hrun').1 a 10 ha).mpr (fun hover => ?_) hgot hsuff
    hrecords⟩
  rw [hover.1] at hdim
  cases hdim

end SloFabric
