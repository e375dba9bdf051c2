/-
  File:      SloFabric/Hysteresis.lean
  Subject:   The verdicts a sequence of measured values leads to.

  * `verdictsOn`: `step_state` fed with one value after the other, each time with the state it
    gave last;
  * `signalOf`, `stepState_violating`: the verdict Violating is a latch that the Violation zone
    sets and the Compliant zone clears;
  * `hysteresis_latch`: so after every value it is Violating exactly where a violation was not
    followed by a Compliant value, and otherwise the zone of the last value decides.

  All of this is for every objective, in every arithmetic; `hysteresis_latch_small` is over the
  exact rationals.
-/
import SloFabric.Exact
import SloFabric.Measure
import SloFabric.Library.Latch

namespace SloFabric

variable {R : Type} [Double R]

/-! ## 1. A sequence of values -/

/-- The states after each of the values, from `last` on. -/
def verdictsOn (o : Objective R) : ComplianceState → List R → List ComplianceState
  | _, [] => []
  | last, measured :: values =>
    let state := stepState o measured last
    state :: verdictsOn o state values

/-- The state after all of the values. -/
def lastVerdict (o : Objective R) (start : ComplianceState) (values : List R) :
    ComplianceState := values.foldl (fun last measured => stepState o measured last) start

theorem lastVerdict_push (o : Objective R) (start : ComplianceState) (values : List R)
    (measured : R) : lastVerdict o start (values ++ [measured]) =
      stepState o measured (lastVerdict o start values) := by
  unfold lastVerdict
  rw [List.foldl_append]
  rfl

/-- The state at a place is the one after the values up to it. -/
theorem verdictsOn_getElem (o : Objective R) : ∀ (values : List R) (start : ComplianceState)
    (k : Nat) (state : ComplianceState), (verdictsOn o start values)[k]? = some state →
    ∃ v, values[k]? = some v ∧ state = lastVerdict o start (values.take k ++ [v])
  | [], _, _, _, h => by simp [verdictsOn] at h
  | v :: values, start, 0, state, h => by
      cases h
      exact ⟨v, rfl, rfl⟩
  | v :: values, start, k + 1, state, h => by
      obtain ⟨w, hw, hstate⟩ := verdictsOn_getElem o values (stepState o v start) k state h
      exact ⟨w, hw, hstate⟩

/-! ## 2. The latch -/

/-- What a value does to a verdict Violating. -/
def signalOf (o : Objective R) (measured : R) : Signal :=
  match classifyZone o measured with
  | .violation => .set
  | .near => .hold
  | .compliant => .clear

theorem signalOf_set {o : Objective R} {measured : R} :
    signalOf o measured = .set ↔ classifyZone o measured = .violation := by
  unfold signalOf
  cases classifyZone o measured <;> simp

theorem signalOf_clear {o : Objective R} {measured : R} :
    signalOf o measured = .clear ↔ classifyZone o measured = .compliant := by
  unfold signalOf
  cases classifyZone o measured <;> simp

/-- **One step**: from a state that is not Recovering, Violating is latched, Compliant is the
    Compliant zone, NearLimit what is left. -/
theorem stepState_latch (o : Objective R) (measured : R) {last : ComplianceState}
    (hr : last ≠ .recovering) :
    decide (stepState o measured last = .violating) =
        latch (decide (last = .violating)) (signalOf o measured) ∧
      (stepState o measured last = .compliant ↔ classifyZone o measured = .compliant) ∧
      (stepState o measured last = .violating ∨ stepState o measured last = .compliant ∨
        stepState o measured last = .nearLimit) := by
  unfold stepState signalOf
  cases classifyZone o measured with
  | violation => simp [latch]
  | compliant => simp [latch]
  | near =>
    by_cases hv : last = .violating
    · simp [latch, hv]
    · simp [latch, hv, hr]

/-- The latch along a sequence of values. -/
theorem lastVerdict_latched (o : Objective R) {start : ComplianceState} (hv : start ≠ .violating)
    (hr : start ≠ .recovering) (values : List R) :
    lastVerdict o start values ≠ .recovering ∧
      decide (lastVerdict o start values = .violating) =
        latched false (values.map (signalOf o)) := by
  induction values using List.reverseRecOn with
  | nil => exact ⟨hr, by simp [lastVerdict, latched, hv]⟩
  | append_singleton values measured ih =>
    obtain ⟨hlatch, _, hthree⟩ := stepState_latch o measured ih.1
    rw [lastVerdict_push, List.map_append, List.map_singleton, latched_push, hlatch, ih.2]
    refine ⟨?_, rfl⟩
    rcases hthree with h | h | h <;> rw [h] <;> decide

/-- **The hysteresis latch.** For every objective, from every state that is neither Violating nor
    Recovering, and whatever the values: the state after value `k` is Violating if and only if
    some value up to `k` is in the Violation zone and none from it to `k` in the Compliant zone;
    it is Compliant exactly if value `k` is in the Compliant zone, NearLimit otherwise, and never
    Recovering. -/
theorem hysteresis_latch (o : Objective R) {start : ComplianceState} (hv : start ≠ .violating)
    (hr : start ≠ .recovering) (values : List R) {k : Nat} {state : ComplianceState}
    (hk : (verdictsOn o start values)[k]? = some state) :
    (state = .violating ↔ ∃ j ≤ k, ∃ v, values[j]? = some v ∧
        classifyZone o v = .violation ∧
        ∀ i, j ≤ i → i ≤ k → ∀ w, values[i]? = some w → classifyZone o w ≠ .compliant) ∧
      (state = .compliant ↔ ∃ v, values[k]? = some v ∧ classifyZone o v = .compliant) ∧
      (state = .nearLimit ↔ state ≠ .violating ∧ state ≠ .compliant) ∧
      state ≠ .recovering := by
  obtain ⟨v, hvk, hstate⟩ := verdictsOn_getElem o values start k state hk
  have hlt : k < values.length := (List.getElem?_eq_some_iff.mp hvk).1
  have hpush : values.take k ++ [v] = values.take (k + 1) := by
    rw [List.take_add_one, hvk]
    rfl
  obtain ⟨hnr, hlatched⟩ := lastVerdict_latched o hv hr (values.take (k + 1))
  obtain ⟨_, hcomp, hthree⟩ := stepState_latch o v (lastVerdict_latched o hv hr (values.take k)).1
  rw [← lastVerdict_push, ← hstate] at hcomp hthree
  rw [← hpush, ← hstate] at hnr
  have hstands {i : Nat} {w : R} : (values.take (k + 1))[i]? = some w ↔
      i ≤ k ∧ values[i]? = some w := by
    rw [List.getElem?_take]
    by_cases hi : i < k + 1
    · simp [hi, Nat.le_of_lt_succ hi]
    · simp only [hi, if_false]
      exact ⟨fun h => (by cases h), fun h => absurd (Nat.lt_succ_of_le h.1) hi⟩
  refine ⟨?_, ?_, ?_, hnr⟩
  · rw [← decide_eq_true_iff (p := state = .violating), hstate, hpush, hlatched, latched_iff]
    constructor
    · rintro ⟨j, hj, hno⟩
      rw [List.getElem?_map, Option.map_eq_some_iff] at hj
      obtain ⟨x, hx, hset⟩ := hj
      obtain ⟨hjk, hx⟩ := hstands.mp hx
      refine ⟨j, hjk, x, hx, signalOf_set.mp hset, fun i hji hik w hw hc => hno i hji ?_⟩
      rw [List.getElem?_map, hstands.mpr ⟨hik, hw⟩, Option.map_some, signalOf_clear.mpr hc]
    · rintro ⟨j, hjk, x, hx, hset, hno⟩
      refine ⟨j, ?_, fun i hji h => ?_⟩
      · rw [List.getElem?_map, hstands.mpr ⟨hjk, hx⟩, Option.map_some, signalOf_set.mpr hset]
      · rw [List.getElem?_map, Option.map_eq_some_iff] at h
        obtain ⟨w, hw, hc⟩ := h
        obtain ⟨hik, hw⟩ := hstands.mp hw
        exact hno i hji hik w hw (signalOf_clear.mp hc)
  · rw [hcomp]
    constructor
    · exact fun h => ⟨v, hvk, h⟩
    · rintro ⟨w, hw, h⟩
      rw [hvk] at hw
      cases hw
      exact h
  · constructor
    · rintro rfl
      exact ⟨by decide, by decide⟩
    · exact fun h => (hthree.resolve_left h.1).resolve_left h.2

/-- A memory pressure of at most 0.90, Compliant again from 0.80 on. -/
def pressureBand : Objective ℚ where
  id := ⟨4⟩
  gen := ⟨1⟩
  dim := .memoryPressure
  kind := .memoryPressureMax
  target := .pressureRatio (90 / 100)
  breachThreshold := some (.pressureRatio (90 / 100))
  recoveryThreshold := some (.pressureRatio (80 / 100))
  allowedUncertainty := 0
  percentileRank := 99 / 100

/-- A violation, then a value between the thresholds: the verdict stays Violating. -/
theorem hysteresis_latch_small :
    verdictsOn pressureBand .insufficientEvidence [95 / 100, 85 / 100, 75 / 100] =
        [.violating, .violating, .compliant] ∧
      ∃ j ≤ 1, ∃ v : ℚ, [95 / 100, 85 / 100, 75 / 100][j]? = some v ∧
        classifyZone pressureBand v = .violation ∧
        ∀ i, j ≤ i → i ≤ 1 → ∀ w : ℚ, [95 / 100, 85 / 100, 75 / 100][i]? = some w →
          classifyZone pressureBand w ≠ .compliant := by
  have hrun : verdictsOn pressureBand .insufficientEvidence [95 / 100, 85 / 100, 75 / 100] =
      [.violating, .violating, .compliant] := by
    decide +kernel
  have hv : ComplianceState.insufficientEvidence ≠ .violating := by decide
  have hr : ComplianceState.insufficientEvidence ≠ .recovering := by decide
  have hk : (verdictsOn pressureBand .insufficientEvidence
      [95 / 100, 85 / 100, 75 / 100])[1]? = some .violating := by
    rw [hrun]
    rfl
  exact ⟨hrun, (hysteresis_latch pressureBand hv hr _ hk).1.mp rfl⟩

end SloFabric
