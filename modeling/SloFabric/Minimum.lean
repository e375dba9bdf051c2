/-
  File:      SloFabric/Minimum.lean
  Subject:   How much evidence a verdict rests on.

  * `GivesValue`, `hasValue_iff`: when there is a value an objective is judged by, store by store;
  * `unitsBehind`: how much evidence a value is computed from -- the weights of the records counted,
    or the number of the samples or costs held;
  * `asked`: the minimum the code asks of the store it reads;
  * `minimum_evidence_iff`: when an objective has no verdict on less than its minimum of evidence;
  * `minimum_evidence_fails`: an availability that wants five samples is Compliant with one.
-/
import SloFabric.Provenance
import SloFabric.Revalidation

namespace SloFabric

variable {R : Type}

/-! ## 1. When there is a value -/

/-- The minimum of evidence the code asks of the store it reads: any at all for an availability and
    for a cost window, that of the definition held for samples. -/
def asked (a : ObjectiveAccumulator R) : Nat :=
  match a.defn.dim with
  | .availability => 1
  | .recoveryTime => 0
  | .cost =>
    if a.defn.kind = .costWindowBudget then 1 else max 1 a.defn.minEvidence.toUInt64.toNat
  | .latency | .throughput | .memoryPressure =>
    if a.defn.minEvidence < 1 then 1 else a.defn.minEvidence.toInt.toNat

section Value

variable [Double R]

/-- Are there enough samples for the percentile, where one is asked for? -/
def rankAnswered (a : ObjectiveAccumulator R) : Bool :=
  !(a.defn.dim == .latency && a.defn.kind == .latencyPercentile &&
    !a.window.quantileSufficient a.defn.percentileRank)

/-- The stores of the accumulator give a value at `now`. -/
def GivesValue (a : ObjectiveAccumulator R) (now : Duration) : Prop :=
  match a.defn.dim with
  | .availability => a.avail.hasDenominator = true
  | .recoveryTime => True
  | .cost => a.cost.items ≠ [] ∧ (a.defn.kind ≠ .costWindowBudget → asked a ≤ a.window.size)
  | .latency | .throughput | .memoryPressure =>
    asked a ≤ a.window.size ∧ rankAnswered a = true ∧ evaluateFreshness a now = .current

theorem hasValue_measured (a : ObjectiveAccumulator R) (now : Duration) :
    HasValue a now ↔ (computeMeasured a now).got = true ∧
      (computeMeasured a now).sufficient = true ∧ evaluateFreshness a now = .current := by
  constructor
  · intro h
    exact measured_of (Bool.not_eq_true _ ▸ h)
  · rintro ⟨hgot, hsuff, hfr⟩
    simp [HasValue, unmeasured, hgot, hsuff, hfr]

omit [Double R] in
theorem isEmpty_iff_size {w : SampleWindow R} : w.isEmpty = true ↔ w.size = 0 := by
  rw [SampleWindow.isEmpty, SampleWindow.size, List.isEmpty_iff, List.length_eq_zero_iff]

omit [Double R] in
/-- Of samples at least one is asked for. -/
theorem asked_pos {a : ObjectiveAccumulator R} (hdim : a.defn.dim ≠ .recoveryTime) :
    1 ≤ asked a := by
  unfold asked
  cases hd : a.defn.dim with
  | availability => exact le_rfl
  | recoveryTime => exact absurd hd hdim
  | cost =>
    simp only
    split
    · exact le_rfl
    · exact Nat.le_max_left _ _
  | latency | throughput | memoryPressure =>
    simp only
    split
    · exact le_rfl
    · rename_i hmin
      have hone := Int64.le_iff_toInt_le.mp (Int64.not_lt.mp hmin)
      have hint := Int64.toInt_one
      omega

/-- What `compute_measured` makes of samples. -/
theorem computeMeasured_samples (a : ObjectiveAccumulator R) (now : Duration)
    (hdim : a.defn.dim = .latency ∨ a.defn.dim = .throughput ∨ a.defn.dim = .memoryPressure) :
    computeMeasured a now =
      if a.window.isEmpty then
        ⟨false, Double.ofRat 0, expectedUnitFor a.defn.dim, false, 0, Codec.ascii "no evidence"⟩
      else if a.window.size < asked a then
        ⟨false, Double.ofRat 0, expectedUnitFor a.defn.dim, false, Int64.ofNat a.window.size,
          Codec.ascii "insufficient samples"⟩
      else if !rankAnswered a then
        ⟨false, Double.ofRat 0, expectedUnitFor a.defn.dim, false, Int64.ofNat a.window.size,
          Codec.ascii "insufficient percentile evidence"⟩
      else
        ⟨true, windowValue a, expectedUnitFor a.defn.dim, true, Int64.ofNat a.window.size, []⟩ := by
  have hasked : asked a =
      if a.defn.minEvidence < 1 then 1 else a.defn.minEvidence.toInt.toNat := by
    rcases hdim with h | h | h <;> simp only [asked, h]
  rw [hasked]
  unfold computeMeasured
  rcases hdim with h | h | h <;> simp [h, rankAnswered]

/-- Samples are measured when there are as many as asked for, and enough for the percentile. -/
theorem measured_window (a : ObjectiveAccumulator R) (now : Duration)
    (hdim : a.defn.dim = .latency ∨ a.defn.dim = .throughput ∨ a.defn.dim = .memoryPressure) :
    (computeMeasured a now).sufficient = (computeMeasured a now).got ∧
      ((computeMeasured a now).got = true ↔
        asked a ≤ a.window.size ∧ rankAnswered a = true) := by
  have hpos : 1 ≤ asked a := asked_pos (by rcases hdim with h | h | h <;> rw [h] <;> decide)
  rw [computeMeasured_samples a now hdim]
  by_cases hempty : a.window.isEmpty = true
  · have hsize := isEmpty_iff_size.mp hempty
    rw [if_pos hempty]
    exact ⟨rfl, ⟨nofun, fun h => absurd h.1 (by omega)⟩⟩
  · rw [if_neg hempty]
    by_cases hfew : a.window.size < asked a
    · rw [if_pos hfew]
      exact ⟨rfl, ⟨nofun, fun h => absurd h.1 (by omega)⟩⟩
    · rw [if_neg hfew]
      cases hrank : rankAnswered a with
      | false => exact ⟨rfl, ⟨nofun, fun h => nomatch h.2⟩⟩
      | true => exact ⟨rfl, ⟨fun _ => ⟨not_lt.mp hfew, rfl⟩, fun _ => rfl⟩⟩

omit [Double R] in
/-- An availability is current when it has a denominator. -/
theorem freshness_availability {a : ObjectiveAccumulator R} (hd : a.defn.dim = .availability)
    (now : Duration) :
    evaluateFreshness a now = if !a.avail.hasDenominator then .expired else .current := by
  simp [evaluateFreshness, ObjectiveAccumulator.usesAvailability, hd]

omit [Double R] in
/-- Costs of any kind are current when there is a cost item. -/
theorem freshness_cost {a : ObjectiveAccumulator R} (hd : a.defn.dim = .cost) (now : Duration) :
    evaluateFreshness a now = if a.cost.items = [] then .expired else .current := by
  simp [evaluateFreshness, ObjectiveAccumulator.usesAvailability,
    ObjectiveAccumulator.usesRecovery, ObjectiveAccumulator.usesCost, hd]

/-- The items of a cost window are measured when there are any. -/
theorem measured_items {a : ObjectiveAccumulator R} (hd : a.defn.dim = .cost)
    (hk : a.defn.kind = .costWindowBudget) (now : Duration) :
    ((computeMeasured a now).got = true ∧ (computeMeasured a now).sufficient = true) ↔
      a.cost.items ≠ [] := by
  simp only [computeMeasured, hd, if_pos hk]
  cases a.cost.items <;> simp

/-- Other costs are measured by the window when it holds as many as asked for. -/
theorem measured_perRequest {a : ObjectiveAccumulator R} (hd : a.defn.dim = .cost)
    (hk : a.defn.kind ≠ .costWindowBudget) (now : Duration) :
    ((computeMeasured a now).got = true ∧ (computeMeasured a now).sufficient = true) ↔
      asked a ≤ a.window.size := by
  have hasked : asked a = max 1 a.defn.minEvidence.toUInt64.toNat := by
    simp only [asked, hd, if_neg hk]
  simp only [computeMeasured, hd, hk, if_false, hasked]
  by_cases hempty : a.window.isEmpty = true
  · have hsize := isEmpty_iff_size.mp hempty
    rw [if_pos hempty]
    exact ⟨fun h => absurd h.1 Bool.false_ne_true, fun h => absurd h (by omega)⟩
  · have hsize : a.window.size ≠ 0 := fun h => hempty (isEmpty_iff_size.mpr h)
    rw [if_neg hempty]
    simp only [decide_eq_true_eq, true_and]
    omega

/-- **When there is a value an objective is judged by.** -/
theorem hasValue_iff (a : ObjectiveAccumulator R) (now : Duration) :
    HasValue a now ↔ GivesValue a now := by
  rw [hasValue_measured]
  cases hd : a.defn.dim with
  | availability =>
    simp only [GivesValue, hd, freshness_availability hd, computeMeasured]
    cases a.avail.hasDenominator <;> simp
  | recoveryTime =>
    have hfr := measured_of_recoveryTime hd now
    simp only [GivesValue, hd, iff_true]
    exact (hasValue_measured a now).mp hfr
  | cost =>
    have hcurrent : evaluateFreshness a now = .current ↔ a.cost.items ≠ [] := by
      rw [freshness_cost hd]
      split <;> simp_all
    rw [hcurrent, ← and_assoc]
    by_cases hk : a.defn.kind = .costWindowBudget
    · rw [measured_items hd hk]
      simp only [GivesValue, hd, hk, ne_eq, not_true_eq_false, false_implies, and_true, and_self]
    · rw [measured_perRequest hd hk]
      simp only [GivesValue, hd, ne_eq, hk, not_false_eq_true, true_implies]
      exact and_comm
  | latency | throughput | memoryPressure =>
    obtain ⟨hsuff, hgot⟩ := measured_window a now (by simp [hd])
    simp only [GivesValue, hd, hsuff, hgot]
    tauto

end Value

/-! ## 2. The evidence behind a value -/

section Units

variable [Double R]

/-- The sum of the accepted sample counts of the records, each at least one. -/
def weightOf (l : List (EvidenceRecord R)) : Int := (l.map fun e => (evidenceWeight e).toInt).sum

/-- The evidence a value is computed from: sample counts for an availability, samples or cost
    records otherwise. -/
def unitsBehind (taken : List (Store × EvidenceRecord R)) (a : ObjectiveAccumulator R) : Int :=
  if a.defn.dim = .availability then weightOf (contributing taken a)
  else (contributing taken a).length

/-- The minimum of evidence an objective asks for. -/
def minimumOf (o : Objective R) : Int := max 1 o.minEvidence.toInt

/-- The contributing records are as many as the samples or the costs held. -/
theorem length_contributing {taken : List (Store × EvidenceRecord R)} {a : ObjectiveAccumulator R}
    (h : ComputedFrom taken a) : (contributing taken a).length =
      match a.defn.dim with
      | .availability => (into (.availability a.avail.mode) taken).length
      | .recoveryTime => 0
      | .cost =>
        if a.defn.kind = .costWindowBudget then a.cost.items.length else a.window.size
      | .latency | .throughput | .memoryPressure => a.window.size := by
  have hsamples : (recent a.window.size (into .window taken)).length = a.window.size := by
    have hlen := congrArg List.length h.samples
    rw [List.length_map, List.length_map] at hlen
    exact hlen.symm
  have hcosts : (recent a.cost.items.length (into .cost taken)).length = a.cost.items.length := by
    have hlen := congrArg List.length h.costs
    rw [List.length_map] at hlen
    exact hlen.symm
  unfold contributing
  cases hd : a.defn.dim with
  | cost =>
    simp only
    split
    · rw [hcosts]
    · rw [hsamples]
  | availability | recoveryTime => rfl
  | latency | throughput | memoryPressure => exact hsamples

theorem unitsBehind_eq {taken : List (Store × EvidenceRecord R)} {a : ObjectiveAccumulator R}
    (h : ComputedFrom taken a) : unitsBehind taken a =
      match a.defn.dim with
      | .availability => weightOf (into (.availability a.avail.mode) taken)
      | .recoveryTime => 0
      | .cost =>
        if a.defn.kind = .costWindowBudget then (a.cost.items.length : Int) else a.window.size
      | .latency | .throughput | .memoryPressure => a.window.size := by
  unfold unitsBehind
  rw [length_contributing h]
  cases hd : a.defn.dim with
  | cost =>
    simp only [reduceCtorEq, if_false]
    split <;> rfl
  | availability => simp [contributing, hd]
  | recoveryTime | latency | throughput | memoryPressure => simp

omit [Double R] in
theorem evidenceWeight_pos (e : EvidenceRecord R) : 1 ≤ (evidenceWeight e).toInt := by
  unfold evidenceWeight
  split
  · exact le_rfl
  · rename_i h
    exact Int64.le_iff_toInt_le.mp (Int64.not_lt.mp h)

omit [Double R] in
theorem weightOf_cons (e : EvidenceRecord R) (l : List (EvidenceRecord R)) :
    weightOf (e :: l) = (evidenceWeight e).toInt + weightOf l := rfl

omit [Double R] in
/-- Every record counts for one at least. -/
theorem length_le_weightOf (l : List (EvidenceRecord R)) : (l.length : Int) ≤ weightOf l := by
  induction l with
  | nil => exact le_rfl
  | cons e l ih =>
    have hone := evidenceWeight_pos e
    rw [weightOf_cons, List.length_cons]
    push_cast
    omega

/-- A record of another mode, or of another store, is not counted. -/
theorem count_hasDenominator {a : AvailabilityAccount} {x : Store × EvidenceRecord R}
    (h : x.1 ≠ .availability a.mode) :
    (a.count x).mode = a.mode ∧ (a.count x).hasDenominator = a.hasDenominator := by
  obtain ⟨st, e⟩ := x
  obtain ⟨mode, eligibleTime, servingTime, eligible, successful⟩ := a
  cases st with
  | window | cost => exact ⟨rfl, rfl⟩
  | availability mode' =>
    cases mode <;> cases mode' <;> first | exact absurd rfl h | exact ⟨rfl, rfl⟩

theorem foldl_count_hasDenominator : ∀ (taken : List (Store × EvidenceRecord R))
    (a : AvailabilityAccount), into (.availability a.mode) taken = [] →
    (taken.foldl .count a).hasDenominator = a.hasDenominator
  | [], _, _ => rfl
  | x :: taken, a, h => by
      have hnone : ∀ y ∈ x :: taken, y.1 ≠ .availability a.mode := by
        intro y hy heq
        have hmem : y.2 ∈ into (.availability a.mode) (x :: taken) :=
          List.mem_map.mpr ⟨y, List.mem_filter.mpr ⟨hy, decide_eq_true heq⟩, rfl⟩
        rw [h] at hmem
        cases hmem
      obtain ⟨hmode, hden⟩ := count_hasDenominator (hnone x List.mem_cons_self)
      rw [List.foldl_cons, foldl_count_hasDenominator taken (a.count x), hden]
      rw [hmode]
      exact List.map_eq_nil_iff.mpr (List.filter_eq_nil_iff.mpr fun y hy heq =>
        hnone y (List.mem_cons_of_mem _ hy) (of_decide_eq_true heq))

/-- A denominator comes from records of the account's mode. -/
theorem hasDenominator_into {taken : List (Store × EvidenceRecord R)} {a : ObjectiveAccumulator R}
    (h : ComputedFrom taken a) (hden : a.avail.hasDenominator = true) :
    into (.availability a.avail.mode) taken ≠ [] := by
  intro hnone
  have hsame := foldl_count_hasDenominator taken { mode := a.avail.mode } hnone
  rw [← h.totals, hden] at hsame
  cases hm : a.avail.mode <;> rw [hm] at hsame <;> cases hsame

/-- **A value rests on as much evidence as the code asks for.** -/
theorem asked_le_unitsBehind {taken : List (Store × EvidenceRecord R)}
    {a : ObjectiveAccumulator R} (h : ComputedFrom taken a) {now : Duration}
    (hvalue : GivesValue a now) : (asked a : Int) ≤ unitsBehind taken a := by
  rw [unitsBehind_eq h]
  unfold GivesValue at hvalue
  unfold asked at hvalue ⊢
  cases hd : a.defn.dim with
  | availability =>
    rw [hd] at hvalue
    have hlen := List.length_pos_iff.mpr (hasDenominator_into h hvalue)
    have hle := length_le_weightOf (into (.availability a.avail.mode) taken)
    simp only
    omega
  | recoveryTime => exact le_rfl
  | cost =>
    simp only [hd] at hvalue ⊢
    obtain ⟨hitems, hsize⟩ := hvalue
    by_cases hk : a.defn.kind = .costWindowBudget
    · have hlen := List.length_pos_iff.mpr hitems
      rw [if_pos hk, if_pos hk]
      omega
    · have hsize := hsize hk
      rw [if_neg hk] at hsize ⊢
      rw [if_neg hk]
      exact Int.ofNat_le.mpr hsize
  | latency | throughput | memoryPressure =>
    simp only [hd] at hvalue ⊢
    exact Int.ofNat_le.mpr hvalue.1

end Units

/-! ## 3. Verdicts -/

section Verdicts

variable [Double R]

/-- **The minimum is kept**, store by store: there is nothing to measure, or no less than `least`.
    An objective that is measured as a recovery time has no evidence at all. -/
def MinimumKept (least : Int) (taken : List (Store × EvidenceRecord R))
    (a : ObjectiveAccumulator R) (now : Duration) : Prop :=
  match a.defn.dim with
  | .availability =>
    a.avail.hasDenominator = false ∨
      least ≤ weightOf (into (.availability a.avail.mode) taken)
  | .recoveryTime => False
  | .cost =>
    a.cost.items = [] ∨
      if a.defn.kind = .costWindowBudget then least ≤ a.cost.items.length
      else a.window.size < asked a ∨ least ≤ a.window.size
  | .latency | .throughput | .memoryPressure =>
    a.window.size < asked a ∨ least ≤ a.window.size ∨ rankAnswered a = false ∨
      evaluateFreshness a now ≠ .current

/-- It is kept when no value rests on less. -/
theorem minimumKept_iff {taken : List (Store × EvidenceRecord R)} {a : ObjectiveAccumulator R}
    (h : ComputedFrom taken a) {least : Int} (hpos : 1 ≤ least) (now : Duration) :
    MinimumKept least taken a now ↔ (GivesValue a now → least ≤ unitsBehind taken a) := by
  rw [unitsBehind_eq h]
  unfold MinimumKept GivesValue
  cases hd : a.defn.dim with
  | availability =>
    simp only
    cases a.avail.hasDenominator <;> simp
  | recoveryTime =>
    simp only [true_implies, false_iff]
    omega
  | cost =>
    simp only
    by_cases hk : a.defn.kind = .costWindowBudget
    · simp only [hk, ne_eq, not_true_eq_false, false_implies, and_true, if_true]
      tauto
    · simp only [hk, ne_eq, not_false_eq_true, true_implies, if_false, ← not_lt]
      tauto
  | latency | throughput | memoryPressure =>
    simp only [← not_lt, ne_eq, ← Bool.not_eq_true]
    tauto

variable [Pod R]

/-- There is a verdict on an objective when its accumulator has a value. -/
theorem judged_isVerdict [Platform R] {s : State R} {tr : Trace R} (h : Runs (State.fresh R) tr s)
    (c : SloContract R) (now : Duration) (i : Nat) (obj : Objective R) :
    (verdict (accumulatorsAfter s.accumulators now (c.objectives.take i)) obj now).isVerdict =
        true ↔ HasValue (judgedOn s c now i obj) now := by
  have hrow : (judgedOn s c now i obj).lastState ≠ .recovering :=
    neverRecovering_rule.acquired
      (neverRecovering_rule.accumulatorsAfter now _ (neverRecovering_run h)) obj
  unfold HasValue judgedOn
  rcases verdict_cases now hrow with ⟨hm, hv⟩ | ⟨hm, hv⟩ <;> simp [hm, hv]

/-- An evaluation reports a verdict on an objective when its accumulator has a value. -/
theorem evaluate_verdict [Platform R] {s s' : State R} {tr : Trace R}
    (h : Runs (State.fresh R) tr s)
    {service : ServiceId} {workload : WorkloadId} {now : Duration} {res : EvaluationResult R}
    {c : SloContract R} (hev : evaluate s service workload now = some (s', .ok res))
    (hc : selectContract s.contracts service workload now = some c) {i : Nat} {obj : Objective R}
    (hobj : c.objectives[i]? = some obj) :
    ∃ st, res.explanation.objectives[i]? = some st ∧ st.id = obj.id ∧
      (st.state.isVerdict = true ↔ GivesValue (judgedOn s c now i obj) now) := by
  obtain ⟨st, hst, hid, hstate⟩ := evaluate_reports hev hc hobj
  refine ⟨st, hst, hid, ?_⟩
  rw [hstate, judged_isVerdict h, hasValue_iff]

/-- **When a verdict rests on the minimum of evidence.** In every run, for every evaluation that
    succeeds and every objective it judges: the objective is reported Compliant, NearLimit or
    Violating only on its minimum of evidence, if and only if the accumulator handed out for it
    keeps the minimum; and so it is where the code asks for no less. -/
theorem minimum_evidence_iff [Platform R] {w : Journaled R} {tr : Trace R} {obj : Objective R}
    (h : Run (watch apply (noteEntry obj.id)) (fun _ _ => True) ⟨State.fresh R, []⟩ tr w)
    {s' : State R} {service : ServiceId} {workload : WorkloadId} {now : Duration}
    {res : EvaluationResult R} {c : SloContract R}
    (hev : evaluate w.state service workload now = some (s', .ok res))
    (hc : selectContract w.state.contracts service workload now = some c) {i : Nat}
    (hobj : c.objectives[i]? = some obj) :
    ∃ st, res.explanation.objectives[i]? = some st ∧ st.id = obj.id ∧
      ((st.state.isVerdict = true →
          minimumOf obj ≤ unitsBehind (takenBy w c i obj) (judgedOn w.state c now i obj)) ↔
        MinimumKept (minimumOf obj) (takenBy w c i obj) (judgedOn w.state c now i obj) now) ∧
      (minimumOf obj ≤ asked (judgedOn w.state c now i obj) → st.state.isVerdict = true →
        minimumOf obj ≤ unitsBehind (takenBy w c i obj) (judgedOn w.state c now i obj)) := by
  have hfrom := judgedOn_computedFrom h c now i
  have hrun := (Run.watched (noteEntry obj.id) []).mpr ⟨w, h, rfl⟩
  obtain ⟨st, hst, hid, hverdict⟩ := evaluate_verdict hrun hev hc hobj
  have hpos : 1 ≤ minimumOf obj := Int.le_max_left _ _
  refine ⟨st, hst, hid, ?_, fun hle hv => ?_⟩
  · rw [hverdict, minimumKept_iff hfrom hpos]
  · exact hle.trans (asked_le_unitsBehind hfrom (hverdict.mp hv))

end Verdicts

/-! ## 4. One sample of five -/

/-- At least 99 % availability, by five samples at least. -/
def fiveSamples : Objective Binary64 :=
  { smallObjective 1 1 with
    dim := .availability, kind := .availabilityTime, target := .basisPoints 9900
    comparison := .atLeast, minEvidence := 5 }

/-- Full availability, by `n` samples. -/
def availableBy (n : Count) : List (Op Binary64) :=
  [.setPolicy smallPolicy, .addContract (smallContract 1 1 1 [fiveSamples]),
    .ingest { id := ⟨1⟩, objectiveId := ⟨1⟩, dimension := .availability, sampleCount := n,
              value := .basisPoints 10000 } 0]

/-- What is reported of the availability, and the evidence it rests on. -/
def reportedOn (w : Journaled Binary64) (n : Int) : Bool :=
  evaluatedOn w.state 0 fiveSamples fun res _ =>
    (selectContract w.state.contracts ⟨1⟩ ⟨1⟩ 0).any fun c =>
      (res.explanation.objectives[0]?).any (·.state.isVerdict) &&
      unitsBehind (takenBy w c 0 fiveSamples) (judgedOn w.state c 0 0 fiveSamples) = n

theorem of_reportedOn {w : Journaled Binary64} {n : Int} (h : reportedOn w n = true) :
    ∃ s' res c st, evaluate w.state ⟨1⟩ ⟨1⟩ 0 = some (s', .ok res) ∧
      selectContract w.state.contracts ⟨1⟩ ⟨1⟩ 0 = some c ∧ c.objectives[0]? = some fiveSamples ∧
      res.explanation.objectives[0]? = some st ∧ st.state.isVerdict = true ∧
      unitsBehind (takenBy w c 0 fiveSamples) (judgedOn w.state c 0 0 fiveSamples) = n := by
  obtain ⟨s', res, c, hev, hc, hobj, h⟩ := of_evaluatedOn h
  rw [hc] at h
  obtain ⟨hst, hunits⟩ := Bool.and_eq_true_iff.mp h
  obtain ⟨st, hst, hv⟩ := (Option.any_eq_true _ _).mp hst
  exact ⟨s', res, c, st, hev, hc, hobj, hst, hv, of_decide_eq_true hunits⟩

/-- **One sample is enough**, of five asked for. -/
theorem minimum_evidence_fails :
    ¬∀ (obj : Objective Binary64) (w : Journaled Binary64) (tr : Trace Binary64)
      (s' : State Binary64) (service : ServiceId) (workload : WorkloadId) (now : Duration)
      (res : EvaluationResult Binary64) (c : SloContract Binary64) (i : Nat)
      (st : ObjectiveState Binary64),
      Run (watch apply (noteEntry obj.id)) (fun _ _ => True) ⟨State.fresh Binary64, []⟩ tr w →
      evaluate w.state service workload now = some (s', .ok res) →
      selectContract w.state.contracts service workload now = some c →
      c.objectives[i]? = some obj → res.explanation.objectives[i]? = some st →
      obj.dim ≠ .recoveryTime → st.state.isVerdict = true →
      minimumOf obj ≤ unitsBehind (takenBy w c i obj) (judgedOn w.state c now i obj) := by
  intro hall
  have htest : (execute (watch apply (noteEntry ⟨1⟩)) (fun _ _ => true)
      ⟨State.fresh Binary64, []⟩ (availableBy 1)).any (fun x => reportedOn x.1 1) = true := by
    decide +kernel
  obtain ⟨w, tr, hrun, hw⟩ := Run.of_test (fun _ _ _ => trivial) htest
  obtain ⟨s', res, c, st, hev, hc, hobj, hst, hv, hunits⟩ := of_reportedOn hw
  have hleast := hall fiveSamples w tr s' _ _ 0 res c 0 st hrun hev hc hobj hst (by decide) hv
  rw [hunits] at hleast
  exact absurd hleast (by decide)

/-- Five samples are. -/
theorem minimum_evidence_iff_small :
    ∃ (tr : Trace Binary64) (w : Journaled Binary64) (c : SloContract Binary64),
      Run (watch apply (noteEntry ⟨1⟩)) (fun _ _ => True) ⟨State.fresh Binary64, []⟩ tr w ∧
      c.objectives[0]? = some fiveSamples ∧
      MinimumKept 5 (takenBy w c 0 fiveSamples) (judgedOn w.state c 0 0 fiveSamples) 0 := by
  have htest : (execute (watch apply (noteEntry ⟨1⟩)) (fun _ _ => true)
      ⟨State.fresh Binary64, []⟩ (availableBy 5)).any (fun x => reportedOn x.1 5) = true := by
    decide +kernel
  obtain ⟨w, tr, hrun, hw⟩ := Run.of_test (fun _ _ _ => trivial) htest
  obtain ⟨s', res, c, st, hev, hc, hobj, hst, hv, hunits⟩ := of_reportedOn hw
  have hrun' : Run (watch apply (noteEntry fiveSamples.id)) (fun _ _ => True)
    ⟨State.fresh Binary64, []⟩ tr w := hrun
  obtain ⟨st', _, _, hiff, _⟩ := minimum_evidence_iff hrun' hev hc hobj
  exact ⟨tr, w, c, hrun, hobj, hiff.mp fun _ => by rw [hunits]; decide⟩

end SloFabric
