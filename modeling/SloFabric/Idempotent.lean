/-
  File:      SloFabric/Idempotent.lean
  Subject:   An evaluation that is made again says the same.

  * `stepState_again`, `rollBudget_again`: what an evaluation writes is a fixed point -- the
    latched state, and the window of the budget;
  * `evaluateObjective_again`: so a turn over a judged accumulator says what the turn before said
    and stores what it stored;
  * `evaluate_again`: the whole evaluation, over objectives of distinct ids.
-/
import SloFabric.Turns

namespace SloFabric

variable {R : Type} [Double R]

/-! ## 1. What a turn writes is a fixed point -/

/-- A value judged again, from the state it led to. -/
theorem stepState_again (o : Objective R) (measured : R) (last : ComplianceState) :
    stepState o measured (stepState o measured last) = stepState o measured last := by
  unfold stepState
  cases classifyZone o measured with
  | violation => rfl
  | compliant => rfl
  | near =>
    by_cases h : last = .violating ∨ last = .recovering
    · simp [h]
    · simp [h]

omit [Double R] in
/-- A window that has just been started has not ended. -/
theorem windowRolled_again (b : ErrorBudget) (now : Duration) :
    (b.resetWindow now).windowRolled now = false := by
  unfold ErrorBudget.windowRolled ErrorBudget.resetWindow
  simp only
  split
  · rfl
  · rename_i hw
    simpa using hw

omit [Double R] in
theorem rollBudget_again (acc : ObjectiveAccumulator R) (now : Duration) :
    rollBudget (rollBudget acc now) now = rollBudget acc now := by
  by_cases h : (acc.hasBudget && acc.budget.windowRolled now) = true
  · have hrolled : rollBudget acc now = { acc with budget := acc.budget.resetWindow now } :=
      if_pos h
    rw [hrolled, rollBudget, if_neg (by simp [windowRolled_again])]
  · have hkept : rollBudget acc now = acc := if_neg h
    rw [hkept, hkept]

omit [Double R] in
theorem rollBudget_setLastState (acc : ObjectiveAccumulator R) (state : ComplianceState)
    (now : Duration) :
    rollBudget (acc.setLastState state now) now = (rollBudget acc now).setLastState state now := by
  unfold rollBudget ObjectiveAccumulator.setLastState
  simp only
  split <;> rfl

/-- The verdict on a measured value, from the state it led to: an exhausted budget spoils it the
    same way. -/
theorem measuredState_again (o : Objective R) (acc : ObjectiveAccumulator R) (measured : R)
    (now : Duration) :
    measuredState o (acc.setLastState (measuredState o acc measured) now) measured =
      measuredState o acc measured := by
  unfold measuredState ObjectiveAccumulator.setLastState
  simp only
  split
  · -- Compliant, spoiled: from NearLimit, the value is Compliant and spoiled again
    rename_i h
    simp only [Bool.and_eq_true, beq_iff_eq] at h
    have hzone := stepState_eq_compliant h.2
    have hagain : stepState o measured .nearLimit = .compliant := by
      unfold stepState
      rw [hzone]
    rw [hagain, if_pos (by simp [h.1.1, h.1.2])]
  · rename_i h
    rw [stepState_again, if_neg h]

omit [Double R] in
/-- Rolling the budget and noting the verdict leave the evidence and the recovery alone. -/
theorem judging_measures [Double R] (acc : ObjectiveAccumulator R) (state : ComplianceState)
    (now : Duration) :
    computeMeasured ((rollBudget acc now).setLastState state now) now = computeMeasured acc now ∧
      evaluateFreshness ((rollBudget acc now).setLastState state now) now =
        evaluateFreshness acc now ∧
      ∀ o measured breach, predictRisk o ((rollBudget acc now).setLastState state now) now
        measured breach = predictRisk o acc now measured breach := by
  unfold rollBudget ObjectiveAccumulator.setLastState
  split
  · exact ⟨rfl, rfl, fun _ _ _ => rfl⟩
  · exact ⟨rfl, rfl, fun _ _ _ => rfl⟩

/-! ## 2. A turn made again -/

/-- What a turn says depends on the measurement, the budget of its window, and the verdict and
    the risk on the measured value. -/
theorem evaluateObjective_congr {t t' : Accumulators R} {o : Objective R} {now : Duration}
    {m : Measurement R} {fr : Freshness}
    (hm : computeMeasured (acquire t o) now = m) (hm' : computeMeasured (acquire t' o) now = m)
    (hfr : evaluateFreshness (acquire t o) now = fr)
    (hfr' : evaluateFreshness (acquire t' o) now = fr)
    (hhas : (rollBudget (acquire t' o) now).hasBudget = (rollBudget (acquire t o) now).hasBudget)
    (hbudget : (rollBudget (acquire t' o) now).budget = (rollBudget (acquire t o) now).budget)
    (hstate : ¬unmeasured m fr = true → measuredState o (rollBudget (acquire t' o) now) m.value =
      measuredState o (rollBudget (acquire t o) now) m.value)
    (hrisk : predictRisk o (rollBudget (acquire t' o) now) now m.value (numericLimit o true) =
      predictRisk o (rollBudget (acquire t o) now) now m.value (numericLimit o true)) :
    (evaluateObjective t' o now).2 = (evaluateObjective t o now).2 := by
  unfold evaluateObjective
  simp only [hm, hm', hfr, hfr', hhas, hbudget, hrisk]
  by_cases h : unmeasured m fr = true
  · simp only [h, if_true]
  · simp only [h, hstate h, Bool.false_eq_true, if_false]

/-- **A turn over what the turn before left says the same**, and leaves the same. -/
theorem evaluateObjective_again {t t' : Accumulators R} {o : Objective R} {now : Duration}
    (h : acquire t' o = judged t o now) :
    (evaluateObjective t' o now).2 = (evaluateObjective t o now).2 ∧
      judged t' o now = judged t o now := by
  obtain ⟨hm, hfr, hrisk⟩ := judging_measures (acquire t o) (verdict t o now) now
  have hacq : acquire t' o = (rollBudget (acquire t o) now).setLastState (verdict t o now) now := h
  have hroll : rollBudget (acquire t' o) now = acquire t' o := by
    rw [hacq, rollBudget_setLastState, rollBudget_again]
  rw [← hacq] at hm hfr hrisk
  have hstate : ¬unmeasured (computeMeasured (acquire t o) now)
        (evaluateFreshness (acquire t o) now) = true →
      measuredState o (rollBudget (acquire t' o) now) (computeMeasured (acquire t o) now).value =
        measuredState o (rollBudget (acquire t o) now)
          (computeMeasured (acquire t o) now).value := by
    intro hmeas
    have hverdict : verdict t o now =
        measuredState o (rollBudget (acquire t o) now) (computeMeasured (acquire t o) now).value :=
      if_neg hmeas
    rw [hroll, hacq, hverdict, measuredState_again]
  have hrolled : rollBudget (acquire t' o) now =
      (rollBudget (acquire t o) now).setLastState (verdict t o now) now := hroll.trans hacq
  refine ⟨evaluateObjective_congr rfl hm rfl hfr (by rw [hrolled]; rfl) (by rw [hrolled]; rfl)
    hstate ?_, ?_⟩
  · rw [hroll, hrisk]
    unfold rollBudget
    split <;> rfl
  · have hverdict : verdict t' o now = verdict t o now := by
      unfold verdict
      simp only [hm, hfr]
      split
      · rfl
      · rename_i hmeas
        exact hstate hmeas
    rw [judged, hverdict, hrolled]
    rfl

/-! ## 3. An evaluation made again -/

/-- The second result says what the first one says, under its own number. -/
structure SaysAgain (first second : EvaluationResult R) : Prop where
  explanation : second.explanation = { first.explanation with
    evaluationId := second.explanation.evaluationId
    evaluationGen := second.explanation.evaluationGen }
  intent : second.intent = { first.intent with
    evaluationId := second.intent.evaluationId
    evaluationGen := second.intent.evaluationGen
    evidenceGen := second.intent.evidenceGen }

/-- The second record is the first one, digest and all, under its own number. -/
def RecordedAgain (first second : EvaluationRecord) : Prop :=
  second = { first with
    evaluationId := second.evaluationId
    evaluationGen := second.evaluationGen
    evidenceGen := second.evidenceGen }

/-- The objectives of a contract that was just evaluated are judged the same again. -/
theorem evaluateObjectives_again (t : Accumulators R) (now : Duration) {os : List (Objective R)}
    (hids : (os.map (·.id)).Nodup) :
    (evaluateObjectives (accumulatorsAfter t now os) now os).2 = (evaluateObjectives t now os).2 ∧
      ∀ o ∈ os, cooldownOf (accumulatorsAfter (accumulatorsAfter t now os) now os) o.id =
        cooldownOf (accumulatorsAfter t now os) o.id := by
  have hacq : ∀ o ∈ os, acquire (accumulatorsAfter t now os) o = judged t o now := by
    intro o ho
    have hgen : (judged t o now).defn.gen = o.gen := by simp [judged]
    rw [acquire, accumulatorsAfter_judged now os t hids ho]
    simp [hgen]
  refine ⟨?_, fun o ho => ?_⟩
  · rw [evaluateObjectives_map now os _ hids, evaluateObjectives_map now os _ hids,
      List.flatMap_def, List.flatMap_def]
    have hsame : ∀ o ∈ os, (evaluateObjective (accumulatorsAfter t now os) o now).2 =
        (evaluateObjective t o now).2 := fun o ho => (evaluateObjective_again (hacq o ho)).1
    rw [List.map_congr_left fun o ho => congrArg Prod.fst (hsame o ho),
      List.map_congr_left fun o ho => congrArg Prod.snd (hsame o ho)]
  · rw [cooldownOf, cooldownOf, accumulatorsAfter_judged now os _ hids ho,
      accumulatorsAfter_judged now os _ hids ho, (evaluateObjective_again (hacq o ho)).2]

omit [Double R] in
/-- The intent of the same verdict, where the same action is selected. -/
theorem intentOf_again {s s' : State R} {t t' : Accumulators R} (c : SloContract R)
    (policy : SloPolicy) (service : ServiceId) (workload : WorkloadId) (now : Duration)
    (number number' : UInt64) (overall : ComplianceState) {binding : Option (Objective R)}
    (hepoch : s'.epoch = s.epoch) (hselect : ∀ bobj, binding = some bobj →
      selectAction t' bobj overall now = selectAction t bobj overall now) :
    intentOf s' t' c policy service workload now number' overall binding =
      { intentOf s t c policy service workload now number overall binding with
        evaluationId := ⟨number'⟩, evaluationGen := ⟨number'⟩, evidenceGen := ⟨number'⟩ } := by
  unfold intentOf
  cases binding with
  | none => simp only [hepoch]
  | some bobj => simp only [hepoch, hselect bobj rfl]

/-- **The outcome of an evaluation made again.** -/
theorem outcomeOf_again {s s' : State R} {c : SloContract R} (policy : SloPolicy)
    (service : ServiceId) (workload : WorkloadId) {now : Duration} (overall : ComplianceState)
    {binding : Option (Objective R)} (hids : (c.objectives.map (·.id)).Nodup)
    (hepoch : s'.epoch = s.epoch)
    (htable : s'.accumulators = accumulatorsAfter s.accumulators now c.objectives)
    (hbinding : ∀ bobj, binding = some bobj → bobj ∈ c.objectives) :
    SaysAgain (outcomeOf s c policy service workload now overall binding).1
        (outcomeOf s' c policy service workload now overall binding).1 ∧
      RecordedAgain (outcomeOf s c policy service workload now overall binding).2
        (outcomeOf s' c policy service workload now overall binding).2 := by
  obtain ⟨hevals, hcool⟩ := evaluateObjectives_again s.accumulators now hids
  have hselect : ∀ bobj, binding = some bobj →
      selectAction (accumulatorsAfter s'.accumulators now c.objectives) bobj overall now =
        selectAction (accumulatorsAfter s.accumulators now c.objectives) bobj overall now := by
    intro bobj hb
    rw [selectAction, htable, hcool bobj (hbinding bobj hb)]
    rfl
  have hintent := intentOf_again c policy service workload now (s.evaluationCounter + 1)
    (s'.evaluationCounter + 1) overall hepoch hselect
  unfold outcomeOf
  simp only [htable, hevals] at hintent ⊢
  rw [hintent]
  exact ⟨⟨rfl, rfl⟩, rfl⟩

/-- The second answer is the first one again: the same complaint, or the same result with the
    same record. -/
def AnswersAgain (s₁ s₂ : State R) :
    Except Status (EvaluationResult R) → Except Status (EvaluationResult R) → Prop
  | .error st, .error st' => st' = st
  | .ok res, .ok res' => SaysAgain res res' ∧ ∃ rec rec',
      getEvaluation s₁ res.explanation.evaluationId = .ok rec ∧
      getEvaluation s₂ res'.explanation.evaluationId = .ok rec' ∧ RecordedAgain rec rec'
  | _, _ => False

/-- The record of an evaluation is the one `get_evaluation` finds under its id. -/
theorem getEvaluation_outcome (s : State R) (c : SloContract R) (policy : SloPolicy)
    (service : ServiceId) (workload : WorkloadId) (now : Duration) (overall : ComplianceState)
    (binding : Option (Objective R)) :
    let y := outcomeOf s c policy service workload now overall binding
    getEvaluation (keepRecord s c now y.2) y.1.explanation.evaluationId = .ok y.2 := by
  intro y
  have hfind : (s.evaluationById.insert y.2).find y.1.explanation.evaluationId = some y.2 :=
    s.evaluationById.find_insert_self y.2
  unfold getEvaluation keepRecord
  rw [hfind]

/-- **`evaluate` is idempotent.** In every state and for every scope whose contract has objectives
    of distinct ids: an evaluation made again at the same time, with nothing in between, gives
    the same answer and the same record, digest included, under the next number. -/
theorem evaluate_again [Platform R] {s s₁ : State R} {service : ServiceId} {workload : WorkloadId}
    {now : Duration} {r₁ : Except Status (EvaluationResult R)}
    (h : evaluate s service workload now = some (s₁, r₁))
    (hids : ∀ c, selectContract s.contracts service workload now = some c →
      (c.objectives.map (·.id)).Nodup) :
    ∃ s₂ r₂, evaluate s₁ service workload now = some (s₂, r₂) ∧ AnswersAgain s₁ s₂ r₁ r₂ := by
  have hfirst := h
  cases hc : selectContract s.contracts service workload now with
  | none =>
    simp only [evaluate, hc] at h
    cases h
    exact ⟨_, _, hfirst, rfl⟩
  | some c =>
    cases hp : (s.policies.find c.policyId).filter (·.gen = c.policyGen) with
    | none =>
      simp only [evaluate, hc, hp] at h
      cases h
      exact ⟨_, _, hfirst, rfl⟩
    | some policy =>
      rw [evaluate_eq s hc hp] at h
      obtain ⟨⟨overall, binding⟩, ho, hx⟩ := Option.map_eq_some_iff.mp h
      cases hx
      simp only at *
      set y := outcomeOf s c policy service workload now overall binding
      have hepoch : (keepRecord s c now y.2).epoch = s.epoch := rfl
      have htable : (keepRecord s c now y.2).accumulators =
          accumulatorsAfter s.accumulators now c.objectives := rfl
      have hagain := outcomeOf_again policy service workload overall (hids c hc)
        hepoch htable fun bobj hb =>
          binding_mem s.accumulators now c.objectives overall bobj (hb ▸ ho)
      have ho₁ : overallOf (evaluateObjectives (keepRecord s c now y.2).accumulators now
          c.objectives).2.1 = some (overall, binding) := by
        rw [keepRecord, (evaluateObjectives_again s.accumulators now (hids c hc)).1, ho]
      have hsecond := evaluate_eq (keepRecord s c now y.2) hc hp
      rw [ho₁] at hsecond
      exact ⟨_, _, hsecond, hagain.1, _, _,
        getEvaluation_outcome s c policy service workload now overall binding,
        getEvaluation_outcome (keepRecord s c now y.2) c policy service workload now overall
          binding,
        hagain.2⟩

/-- The objectives of every contract an evaluation could pick have distinct ids, as a test. -/
def distinctTest (s : State R) (service : ServiceId) (workload : WorkloadId) (now : Duration) :
    Bool :=
  (selectContract s.contracts service workload now).all fun c =>
    decide (c.objectives.map (·.id)).Nodup

omit [Double R] in
theorem distinct_of_test {s : State R} {service : ServiceId} {workload : WorkloadId}
    {now : Duration} (h : distinctTest s service workload now = true) :
    ∀ c, selectContract s.contracts service workload now = some c →
      (c.objectives.map (·.id)).Nodup := by
  intro c hc
  unfold distinctTest at h
  rw [hc] at h
  exact of_decide_eq_true h

/-- Two latency objectives, one violated and one near its limit; the first has a budget whose
    window the first evaluation rolls. -/
def twoJudged : List (Op Binary64) :=
  [.setPolicy smallPolicy,
    .addContract (smallContract 1 1 1 [smallObjective 1 1, smallObjective 2 1]),
    .setObjectiveBudget ⟨1⟩ 1 10, .ingest (smallEvidence 1 1 200000000) 0,
    .ingest (smallEvidence 2 2 97000000) 0]

theorem evaluate_again_small :
    ∃ s₁ res, evaluate (after twoJudged) ⟨1⟩ ⟨1⟩ 20 = some (s₁, .ok res) ∧
      res.intent.action = .increaseCapacity ∧
      ∃ s₂ r₂, evaluate s₁ ⟨1⟩ ⟨1⟩ 20 = some (s₂, r₂) ∧ AnswersAgain s₁ s₂ (.ok res) r₂ := by
  have h : (reported (evaluate (after twoJudged) ⟨1⟩ ⟨1⟩ 20)).any
      (fun x => x.2.intent.action = .increaseCapacity) = true := by
    decide +kernel
  obtain ⟨s₁, res, hx, ha⟩ := of_reported h
  have hids : distinctTest (after twoJudged) ⟨1⟩ ⟨1⟩ 20 = true := by
    decide +kernel
  exact ⟨s₁, res, hx, of_decide_eq_true ha, evaluate_again hx (distinct_of_test hids)⟩

end SloFabric
