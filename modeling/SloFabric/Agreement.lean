/-
  File:      SloFabric/Agreement.lean
  Subject:   What the operations of a scope do in two states that agree on it.

  * `Decision`, `decisionOf`: what a scope sees of an evaluation;
  * `evaluate_agree`: the two states decide alike for the scope, and agree afterwards;
  * `setPolicy_agree`, `replaceContract_agree`, `updateContract_agree`, `ingest_agree`,
    `recordRecoveryEvent_agree`, `ingestViolationEvent_agree`, `setObjectiveBudget_agree`,
    `authorize_agree`: the other operations under ids of the scope keep the agreement.
-/
import SloFabric.Scopes

namespace SloFabric

variable {R : Type}

/-! ## 1. Decisions -/

/-- What an evaluation decides for its scope. -/
structure Decision (R : Type) where
  compliance : ComplianceState
  bindingObjective : ObjectiveId
  objectives : List (ObjectiveState R)
  secondaryConstraints : List ObjectiveId
  selectedAction : EnforcementAction

def decisionIn (res : EvaluationResult R) : Decision R where
  compliance := res.explanation.compliance
  bindingObjective := res.explanation.bindingObjective
  objectives := res.explanation.objectives
  secondaryConstraints := res.explanation.secondaryConstraints
  selectedAction := res.explanation.selectedAction

/-- The decision of an evaluation that succeeds, the complaint of one that fails, and `none` where
    the evaluation is not defined. -/
def decisionOf (x : Option (State R × Except Status (EvaluationResult R))) :
    Option (Except Status (Decision R)) := x.map fun y => y.2.map decisionIn

section Judge

variable [Double R] {sc : Scope}

omit [Double R] in
theorem acquire_agree {t t' : Accumulators R} (h : KeyedTable.AgreeOn sc.objectives t t')
    {o : Objective R} (ho : o.id ∈ sc.objectives) : acquire t o = acquire t' o := by
  rw [acquire, acquire, h o.id ho]

/-- One turn of the loop depends on the accumulator of its objective only. -/
theorem evaluateObjective_agree {t t' : Accumulators R} {o : Objective R} (now : Duration)
    (h : acquire t o = acquire t' o) :
    (evaluateObjective t o now).2 = (evaluateObjective t' o now).2 ∧
      judged t o now = judged t' o now := by
  have hverdict : verdict t o now = verdict t' o now := by
    unfold verdict
    rw [h]
  refine ⟨?_, by rw [judged, judged, h, hverdict]⟩
  unfold evaluateObjective
  rw [h]
  simp only
  split <;> rfl

theorem evaluateObjectives_agree (now : Duration) : ∀ (os : List (Objective R))
    (t t' : Accumulators R), KeyedTable.AgreeOn sc.objectives t t' →
    (∀ o ∈ os, o.id ∈ sc.objectives) →
    (evaluateObjectives t now os).2 = (evaluateObjectives t' now os).2 ∧
      KeyedTable.AgreeOn sc.objectives (evaluateObjectives t now os).1
        (evaluateObjectives t' now os).1
  | [], _, _, h, _ => ⟨rfl, h⟩
  | o :: os, t, t', h, hos => by
      obtain ⟨hone, hjudged⟩ := evaluateObjective_agree now
        (acquire_agree h (hos o List.mem_cons_self))
      have hnext : KeyedTable.AgreeOn sc.objectives (evaluateObjective t o now).1
          (evaluateObjective t' o now).1 := by
        rw [(evaluateObjective_spec t o now).1, (evaluateObjective_spec t' o now).1, hjudged]
        exact h.insert _
      obtain ⟨hrest, htable⟩ := evaluateObjectives_agree now os _ _ hnext
        fun o' ho' => hos o' (List.mem_cons_of_mem _ ho')
      refine ⟨?_, htable⟩
      have hcons (t : Accumulators R) : (evaluateObjectives t now (o :: os)).2 =
          ((evaluateObjective t o now).2.1 ::
              (evaluateObjectives (evaluateObjective t o now).1 now os).2.1,
            (evaluateObjective t o now).2.2 ++
              (evaluateObjectives (evaluateObjective t o now).1 now os).2.2) := rfl
      rw [hcons, hcons, hone, hrest]

/-- The binding objective is one of those that were judged. -/
theorem binding_mem [Platform R] (t : Accumulators R) (now : Duration) (os : List (Objective R))
    (overall : ComplianceState) (bobj : Objective R)
    (h : overallOf (evaluateObjectives t now os).2.1 = some (overall, some bobj)) : bobj ∈ os := by
  rcases overallOf_cases h with ⟨hb, _⟩ | ⟨hb, _⟩ | ⟨ev, hev, hb, _⟩
  · cases hb
  · cases hb
  · cases hb
    obtain ⟨i, _, hobj, _⟩ := mem_evaluateObjectives hev
    exact List.mem_of_getElem? hobj

omit [Double R] in
/-- The decision knows of the intent nothing but its action. -/
theorem decisionIn_congr (c : SloContract R) (policy : SloPolicy) (evals : List (ObjEval R))
    (overall : ComplianceState) (binding : Option (Objective R)) {i i' : EnforcementIntent}
    (h : i.action = i'.action) :
    decisionIn ⟨explanationOf c policy i evals overall binding, i⟩ =
      decisionIn ⟨explanationOf c policy i' evals overall binding, i'⟩ := by
  simp only [decisionIn, explanationOf, h]

/-- **States that agree on the scope decide alike for it**, and agree afterwards. -/
theorem evaluate_agree [Platform R] {s t : State R} (h : Agree sc s t) (hs : Owned sc s)
    (ht : Owned sc t) (now : Duration) :
    decisionOf (evaluate s sc.service sc.workload now) =
        decisionOf (evaluate t sc.service sc.workload now) ∧
      ∀ s' r t' r', evaluate s sc.service sc.workload now = some (s', r) →
        evaluate t sc.service sc.workload now = some (t', r') → Agree sc s' t' := by
  have hselect := selectContract_agree h hs ht now
  unfold evaluate
  rw [← hselect]
  cases hc : selectContract s.contracts sc.service sc.workload now with
  | none =>
    refine ⟨rfl, fun s' r t' r' hs' ht' => ?_⟩
    cases hs'
    cases ht'
    exact h
  | some c =>
    obtain ⟨hrow, hscope⟩ := List.mem_filter.mp (newest_some hc).1
    obtain ⟨hsv, hwl, _⟩ := of_decide_eq_true hscope
    have howns := hs c hrow
    have hin : InScope sc c := ⟨hsv, hwl⟩
    have hobjectives : ∀ o ∈ c.objectives, o.id ∈ sc.objectives :=
      fun o ho => (howns.objective o ho).mp hin
    obtain ⟨hevals, htable⟩ := evaluateObjectives_agree now c.objectives _ _ h.accumulators
      hobjectives
    have hbinding := binding_mem s.accumulators now c.objectives
    simp only
    rw [← h.policies _ (howns.policy.mp hin)]
    cases (s.policies.find c.policyId).filter (·.gen = c.policyGen) with
    | none =>
      refine ⟨rfl, fun s' r t' r' hs' ht' => ?_⟩
      cases hs'
      cases ht'
      exact h
    | some policy =>
      simp only
      generalize evaluateObjectives s.accumulators now c.objectives = x at hevals htable hbinding
      generalize evaluateObjectives t.accumulators now c.objectives = y at hevals htable
      obtain ⟨ts, evals, digests⟩ := x
      obtain ⟨tt, evals', digests'⟩ := y
      cases hevals
      simp only at htable hbinding ⊢
      cases ho : overallOf evals with
      | none => exact ⟨rfl, fun _ _ _ _ hs' => absurd hs' (by simp)⟩
      | some x =>
        obtain ⟨overall, binding⟩ := x
        simp only
        constructor
        · refine congrArg (fun d => some (Except.ok d))
            (decisionIn_congr c policy evals overall binding ?_)
          cases binding with
          | none => rfl
          | some bobj =>
            have hid := hobjectives bobj (hbinding overall bobj ho)
            show selectAction ts bobj overall now = selectAction tt bobj overall now
            rw [selectAction, selectAction, cooldownOf, cooldownOf, htable bobj.id hid]
        · intro s' r t' r' hs' ht'
          cases hs'
          cases ht'
          exact ⟨h.epoch, h.policies, h.contracts, htable⟩

end Judge

/-! ## 2. Operations of the scope -/

section Own

variable {sc : Scope} {s t : State R}

theorem setPolicy_agree (h : Agree sc s t) {policy : SloPolicy} (hid : policy.id ∈ sc.policies) :
    Agree sc (setPolicy s policy).1 (setPolicy t policy).1 := by
  have hput : Agree sc { s with policies := s.policies.insert policy }
      { t with policies := t.policies.insert policy } :=
    ⟨h.epoch, h.policies.insert policy, h.contracts, h.accumulators⟩
  unfold setPolicy
  rw [← h.policies _ hid]
  split
  · split
    · exact h
    · exact hput
  · exact hput

theorem replaceContract_agree (h : Agree sc s t) {c : SloContract R} (hid : c.id ∈ sc.contracts) :
    Agree sc (replaceContract s c).1 (replaceContract t c).1 := by
  unfold replaceContract
  rw [← h.contracts _ hid]
  split
  · split
    · exact h
    · exact ⟨h.epoch, h.policies, (h.contracts.insert _).insert c, h.accumulators⟩
  · exact ⟨h.epoch, h.policies, h.contracts.insert c, h.accumulators⟩

theorem addContract_agree (h : Agree sc s t) {c : SloContract R} (hid : c.id ∈ sc.contracts) :
    Agree sc (addContract s c).1 (addContract t c).1 := by
  unfold addContract
  split
  · exact h
  · split
    · exact h
    · exact replaceContract_agree h hid

theorem updateContract_agree (h : Agree sc s t) {id : SloContractId} (hid : id ∈ sc.contracts)
    (f : SloContract R → SloContract R) :
    Agree sc (updateContract s id f).1 (updateContract t id f).1 := by
  unfold updateContract
  rw [← h.contracts _ hid]
  split
  · exact h
  · exact ⟨h.epoch, h.policies, h.contracts.insert _, h.accumulators⟩

/-- The same use of the accumulator of one of the scope's objectives. -/
theorem acquired_agree (h : Agree sc s t) {o : Objective R} (ho : o.id ∈ sc.objectives)
    (f : ObjectiveAccumulator R → ObjectiveAccumulator R) :
    KeyedTable.AgreeOn sc.objectives (s.accumulators.insert (f (acquire s.accumulators o)))
      (t.accumulators.insert (f (acquire t.accumulators o))) := by
  rw [acquire_agree h.accumulators ho]
  exact h.accumulators.insert _

theorem recordRecoveryEvent_agree (h : Agree sc s t) (hs : Owned sc s) (ht : Owned sc t)
    {id : ObjectiveId} (hid : id ∈ sc.objectives) (phase : RecoveryEventPhase) (time : Duration) :
    Agree sc (recordRecoveryEvent s id phase time).1 (recordRecoveryEvent t id phase time).1 := by
  unfold recordRecoveryEvent
  rw [← definitionOf_agree h hs ht hid]
  cases ho : definitionOf s.contracts id with
  | none => exact h
  | some o =>
    have hoid : o.id ∈ sc.objectives := (definitionOf_some ho).1 ▸ hid
    exact ⟨h.epoch, h.policies, h.contracts, acquired_agree h hoid
      fun acc => { acc with recovery := acc.recovery.record phase time }⟩

theorem setObjectiveBudget_agree (h : Agree sc s t) (hs : Owned sc s) (ht : Owned sc t)
    {id : ObjectiveId} (hid : id ∈ sc.objectives) (total : Count) (window : Duration) :
    Agree sc (setObjectiveBudget s id total window).1 (setObjectiveBudget t id total window).1 := by
  unfold setObjectiveBudget
  rw [← definitionOf_agree h hs ht hid]
  cases ho : definitionOf s.contracts id with
  | none => exact h
  | some o =>
    have hoid : o.id ∈ sc.objectives := (definitionOf_some ho).1 ▸ hid
    simp only
    split
    · exact ⟨h.epoch, h.policies, h.contracts, acquired_agree h hoid fun acc => acc⟩
    · exact ⟨h.epoch, h.policies, h.contracts, acquired_agree h hoid fun acc =>
        { acc with hasBudget := true, budget := ErrorBudget.make total window }⟩

theorem getAccumulators_agree : ∀ (os : List (Objective R)) (t t' : Accumulators R),
    KeyedTable.AgreeOn sc.objectives t t' → (∀ o ∈ os, o.id ∈ sc.objectives) →
    KeyedTable.AgreeOn sc.objectives (os.foldl getAccumulator t) (os.foldl getAccumulator t')
  | [], _, _, h, _ => h
  | o :: os, t, t', h, hos => by
      refine getAccumulators_agree os _ _ ?_ fun o' ho' => hos o' (List.mem_cons_of_mem _ ho')
      unfold getAccumulator
      rw [acquire_agree h (hos o List.mem_cons_self)]
      exact h.insert _

theorem ingestViolationEvent_agree (h : Agree sc s t) (hs : Owned sc s) (ht : Owned sc t)
    {id : ObjectiveId} (hid : id ∈ sc.objectives) (now : Duration) :
    Agree sc (ingestViolationEvent s id now).1 (ingestViolationEvent t id now).1 := by
  have hall := getAccumulators_agree (violationDefinitions s.contracts id) s.accumulators
    t.accumulators h.accumulators fun o ho => violationDefinitions_id ho ▸ hid
  unfold ingestViolationEvent
  simp only
  rw [← violationDefinitions_agree h hs ht hid, ← hall id hid]
  have hvisited : Agree sc
      { s with accumulators :=
          (violationDefinitions s.contracts id).foldl getAccumulator s.accumulators }
      { t with accumulators :=
          (violationDefinitions s.contracts id).foldl getAccumulator t.accumulators } :=
    ⟨h.epoch, h.policies, h.contracts, hall⟩
  cases (violationDefinitions s.contracts id).getLast? with
  | none => exact hvisited
  | some o =>
    cases ((violationDefinitions s.contracts id).foldl getAccumulator s.accumulators).find id with
    | none => exact hvisited
    | some acc =>
      simp only
      split
      · exact hvisited
      · exact ⟨h.epoch, h.policies, h.contracts, hall.insert _⟩

/-- The fabric has not seen the evidence id. -/
def Unseen (s : State R) (id : EvidenceId) : Prop := id.valid = true ∧ id ∉ s.globalEvidence

theorem Unseen.noted {id : EvidenceId} (h : Unseen s id) : (noteEvidence s id).2.isOk = true := by
  unfold noteEvidence
  rw [h.1, if_neg (by decide), if_neg h.2]
  rfl

/-- `ingest` leaves alone what is no evidence. -/
theorem ingest_keeps [Double R] (s : State R) (e : EvidenceRecord R) (now : Duration) :
    (ingest s e now).1.epoch = s.epoch ∧ (ingest s e now).1.policies = s.policies ∧
      (ingest s e now).1.contracts = s.contracts := by
  obtain ⟨_, _, ⟨h, _⟩ | ⟨_, _, _, _, h, _⟩⟩ := ingest_cases s e now <;>
    rw [h] <;> exact ⟨rfl, rfl, rfl⟩

theorem ingest_agree [Double R] (h : Agree sc s t) (hs : Owned sc s) (ht : Owned sc t)
    {e : EvidenceRecord R} (hid : e.objectiveId ∈ sc.objectives) (hnew : Unseen s e.id)
    (hnew' : Unseen t e.id) (now : Duration) :
    Agree sc (ingest s e now).1 (ingest t e now).1 := by
  have hoffered : offeredTo s e = offeredTo t e := by
    rw [offeredTo, offeredTo, hnew.noted, hnew'.noted, h.epoch, definitionOf_agree h hs ht hid]
  obtain ⟨hep, hpol, hcon⟩ := ingest_keeps s e now
  obtain ⟨hep', hpol', hcon'⟩ := ingest_keeps t e now
  refine ⟨by rw [hep, hep', h.epoch], by rw [hpol, hpol']; exact h.policies,
    by rw [hcon, hcon']; exact h.contracts, ?_⟩
  rcases ingest_offered s e now with ⟨ho, hacc, _⟩ | ⟨o, ho, hacc, _⟩
  · rcases ingest_offered t e now with ⟨_, hacc', _⟩ | ⟨o', ho', _⟩
    · rw [hacc, hacc']
      exact h.accumulators
    · rw [← hoffered, ho] at ho'
      cases ho'
  · rcases ingest_offered t e now with ⟨ho', _⟩ | ⟨o', ho', hacc', _⟩
    · rw [← hoffered, ho] at ho'
      cases ho'
    · rw [← hoffered, ho] at ho'
      cases ho'
      have hoid : o.id ∈ sc.objectives := (offeredTo_id ho).symm ▸ hid
      rw [hacc, hacc']
      exact acquired_agree h hoid fun acc => (offer o acc e).1

/-- The same intent, numbered by another run. -/
def SameIntent (i i' : EnforcementIntent) : Prop :=
  ∃ evaluationId evaluationGen evidenceGen, i' = { i with
    evaluationId := evaluationId, evaluationGen := evaluationGen, evidenceGen := evidenceGen }

theorem authorize_agree (h : Agree sc s t) (hs : Owned sc s) (ht : Owned sc t)
    {i i' : EnforcementIntent} (hsame : SameIntent i i') (hid : i.objectiveId ∈ sc.objectives)
    (now : Duration) : Agree sc (authorize s i now).1 (authorize t i' now).1 := by
  obtain ⟨evaluationId, evaluationGen, evidenceGen, rfl⟩ := hsame
  have hcontract : intentContract t.contracts { i with
      evaluationId := evaluationId, evaluationGen := evaluationGen, evidenceGen := evidenceGen } =
      intentContract s.contracts i := (intentContract_agree h hs ht hid).symm
  unfold authorize
  rw [hcontract, ← h.epoch]
  simp only
  split
  · exact h
  · split
    · exact h
    · cases hc : intentContract s.contracts i with
      | none => exact h
      | some c =>
        obtain ⟨hrow, _, o, ho, hoid⟩ := intentContract_some hc
        have howns := hs c hrow
        have hin : InScope sc c := (howns.objective o ho).mpr (by rwa [hoid])
        simp only
        rw [← h.policies _ (howns.policy.mp hin)]
        split
        · exact h
        · split
          · exact h
          · split
            · exact h
            · refine ⟨rfl, h.policies, h.contracts, fun k hk => ?_⟩
              show (setCooldown s.accumulators _ _).find k = (setCooldown t.accumulators _ _).find k
              rw [setCooldown_find, setCooldown_find, h.accumulators k hk]

end Own

end SloFabric
