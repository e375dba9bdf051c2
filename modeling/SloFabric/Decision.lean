/-
  File:      SloFabric/Decision.lean
  Subject:   What a decision of `evaluate` rests on.

  * `verdict_compliant`: a Compliant verdict has a sufficient, current measurement in the
    Compliant zone and no exhausted budget;
  * `overallOf_cases`: where the overall compliance comes from;
  * `evaluate_sound`: soundness of the whole decision.
-/
import SloFabric.Machine

namespace SloFabric

variable {R : Type}

/-! ## 1. One verdict -/

theorem evaluateFreshness_cases (acc : ObjectiveAccumulator R) (now : Duration) :
    evaluateFreshness acc now = .current ∨ evaluateFreshness acc now = .stale ∨
      evaluateFreshness acc now = .expired := by
  unfold evaluateFreshness
  simp only
  split
  · split <;> simp
  · split
    · simp
    · split
      · split <;> simp
      · split
        · simp
        · split
          · simp
          · split
            · split <;> simp
            · split <;> simp

variable [Double R]

/-- A measurement a verdict can rest on is sufficient and current. -/
theorem measured_of {acc : ObjectiveAccumulator R} {now : Duration}
    (h : ¬unmeasured (computeMeasured acc now) (evaluateFreshness acc now) = true) :
    (computeMeasured acc now).got = true ∧ (computeMeasured acc now).sufficient = true ∧
      evaluateFreshness acc now = .current := by
  simp only [unmeasured, Bool.or_eq_true, Bool.not_eq_true', beq_iff_eq, not_or,
    Bool.not_eq_false] at h
  obtain ⟨⟨⟨hgot, hsuff⟩, hstale⟩, hexp⟩ := h
  exact ⟨hgot, hsuff, (evaluateFreshness_cases acc now).resolve_right (by simp [hstale, hexp])⟩

/-- **Nothing else makes a verdict Compliant**. -/
theorem verdict_compliant {t : Accumulators R} {obj : Objective R} {now : Duration}
    (h : verdict t obj now = .compliant) :
    (computeMeasured (acquire t obj) now).got = true ∧
      (computeMeasured (acquire t obj) now).sufficient = true ∧
      evaluateFreshness (acquire t obj) now = .current ∧
      classifyZone obj (computeMeasured (acquire t obj) now).value = .compliant ∧
      ((rollBudget (acquire t obj) now).hasBudget = true →
        (rollBudget (acquire t obj) now).budget.state R ≠ .exhausted) := by
  unfold verdict at h
  simp only at h
  split at h
  · unfold unmeasuredState at h
    split at h <;> cases h
  · rename_i hm
    obtain ⟨hgot, hsuff, hfr⟩ := measured_of hm
    simp only [measuredState, rollBudget_lastState] at h
    split at h
    · cases h
    · rename_i hb
      refine ⟨hgot, hsuff, hfr, stepState_eq_compliant h, fun hbud hex => ?_⟩
      exact hb (by simp [hbud, hex, h])

theorem verdict_of_unmeasured {t : Accumulators R} {obj : Objective R} {now : Duration}
    (h : unmeasured (computeMeasured (acquire t obj) now)
      (evaluateFreshness (acquire t obj) now) = true) :
    verdict t obj now = .revalidationRequired ∨ verdict t obj now = .insufficientEvidence := by
  unfold verdict
  simp only [h, if_true]
  unfold unmeasuredState
  split
  · exact Or.inl rfl
  · exact Or.inr rfl

/-- The verdicts that are no verdicts on a measured value. -/
def ComplianceState.isMeasured (s : ComplianceState) : Bool :=
  s != .insufficientEvidence && s != .revalidationRequired

theorem verdict_measured {t : Accumulators R} {obj : Objective R} {now : Duration}
    (h : (verdict t obj now).isMeasured = true) :
    (computeMeasured (acquire t obj) now).got = true ∧
      (computeMeasured (acquire t obj) now).sufficient = true ∧
      evaluateFreshness (acquire t obj) now = .current := by
  refine measured_of fun hm => ?_
  rcases verdict_of_unmeasured hm with h' | h' <;> rw [h'] at h <;> cases h

/-! ## 2. The overall compliance -/

/-- **Where the overall compliance comes from.** -/
theorem overallOf_cases [Platform R] {evals : List (ObjEval R)} {overall : ComplianceState}
    {binding : Option (Objective R)} (h : overallOf evals = some (overall, binding)) :
    (binding = none ∧ overall = .revalidationRequired) ∨
    (binding = none ∧ overall = .insufficientEvidence) ∨
    ∃ e ∈ evals, binding = some e.obj ∧ overall = e.state ∧
      (∀ e' ∈ evals, e'.state.isMeasured = true) ∧
      (overall = .compliant → ∀ e' ∈ evals, e'.state = .compliant) := by
  unfold overallOf at h
  split at h
  · cases h; exact Or.inl ⟨rfl, rfl⟩
  · rename_i hrev
    split at h
    · cases h; exact Or.inr (Or.inl ⟨rfl, rfl⟩)
    · rename_i hins
      simp only at h
      split at h
      · cases h
      · rename_i front rest hsort
        cases h
        have hfront : front ∈ if (evals.filter (·.state != .compliant)).isEmpty then evals.take 1
            else evals.filter (·.state != .compliant) := by
          rw [← @ComparisonSort.mem_sort _ (Platform.sort R) moreSevere, hsort]
          exact List.mem_cons_self
        refine Or.inr (Or.inr ⟨front, ?_, rfl, rfl, fun e he => ?_, fun hc e he => ?_⟩)
        · split at hfront
          · exact List.mem_of_mem_take hfront
          · exact (List.mem_filter.mp hfront).1
        · simp only [List.any_eq_true, beq_iff_eq, not_exists, not_and] at hrev hins
          simp [ComplianceState.isMeasured, hrev e he, hins e he]
        · by_contra hne
          have hmem : e ∈ evals.filter (·.state != .compliant) :=
            List.mem_filter.mpr ⟨he, by simpa using hne⟩
          have hnil : (evals.filter (·.state != .compliant)).isEmpty = false := by
            rw [List.isEmpty_eq_false_iff]
            exact List.ne_nil_of_mem hmem
          rw [hnil] at hfront
          have hb := (List.mem_filter.mp hfront).2
          rw [hc] at hb
          exact absurd hb (by decide)

/-! ## 3. The decision -/

omit [Double R] in
/-- An action is only selected for a state that asks for one, of a class that allows it, after
    the cooldown. -/
theorem selectAction_ne_noAction {t : Accumulators R} {bobj : Objective R}
    {overall : ComplianceState} {now : Duration}
    (h : selectAction t bobj overall now ≠ .noAction) :
    selectAction t bobj overall now = actionFor bobj overall ∧ bobj.enforcement ≠ .none ∧
      overall ≠ .compliant ∧ ¬ now < cooldownOf t bobj.id := by
  unfold selectAction at h ⊢
  split at h
  · exact absurd rfl h
  · rename_i hcd
    split at h
    · exact absurd rfl h
    · rename_i hcls
      rw [if_neg hcd, if_neg hcls]
      refine ⟨rfl, hcls, ?_, hcd⟩
      rintro rfl
      exact h (by simp [actionFor])

/-- The table `accumulatorsAfter` leaves has an accumulator for every objective judged. -/
theorem accumulatorsAfter_find (now : Duration) : ∀ (objs : List (Objective R))
    (t : Accumulators R) (obj : Objective R), obj ∈ objs ∨ (t.find obj.id).isSome →
    ((accumulatorsAfter t now objs).find obj.id).isSome
  | [], _, _, h => h.resolve_left List.not_mem_nil
  | o :: objs, t, obj, h => by
      refine accumulatorsAfter_find now objs _ obj ?_
      rcases h with h | h
      · rcases List.mem_cons.mp h with rfl | h
        · refine Or.inr ?_
          have e : (judged t obj now).defn.id = obj.id := by simp [judged]
          rw [← e, KeyedTable.find_insert_self]
          rfl
        · exact Or.inl h
      · refine Or.inr ?_
        rw [KeyedTable.find_insert]
        split
        · rfl
        · exact h

/-- The accumulator objective `obj` at place `i` of a contract is judged on: the one its
    predecessors left. -/
def judgedOn (s : State R) (c : SloContract R) (now : Duration) (i : Nat) (obj : Objective R) :
    ObjectiveAccumulator R :=
  acquire (accumulatorsAfter s.accumulators now (c.objectives.take i)) obj

/-- The explanation has one entry for every objective, the one its turn of the loop made. -/
theorem evaluate_turn [Platform R] {s s' : State R} {service : ServiceId} {workload : WorkloadId}
    {now : Duration} {res : EvaluationResult R} {c : SloContract R}
    (h : evaluate s service workload now = some (s', .ok res))
    (hc : selectContract s.contracts service workload now = some c) {i : Nat} {obj : Objective R}
    (hobj : c.objectives[i]? = some obj) :
    res.explanation.objectives[i]? = some (evaluateObjective
      (accumulatorsAfter s.accumulators now (c.objectives.take i)) obj now).2.1.st := by
  rcases evaluate_cases h with ⟨_, hst, _⟩ | ⟨c', _, _, _, _, hc', _, _, _, hr, _⟩
  · cases hst
  · rw [hc] at hc'
    cases hc'
    rw [Except.ok.injEq] at hr
    subst hr
    show (List.map _ _)[i]? = _
    rw [List.getElem?_map, evaluateObjectives_turn now c.objectives s.accumulators i obj hobj]
    rfl

/-- It has the value of the objective, if one was measured. -/
theorem evaluate_value [Platform R] {s s' : State R} {service : ServiceId} {workload : WorkloadId}
    {now : Duration} {res : EvaluationResult R} {c : SloContract R}
    (h : evaluate s service workload now = some (s', .ok res))
    (hc : selectContract s.contracts service workload now = some c) {i : Nat} {obj : Objective R}
    (hobj : c.objectives[i]? = some obj) :
    ∃ st, res.explanation.objectives[i]? = some st ∧ st.id = obj.id ∧
      st.currentValue =
        if unmeasured (computeMeasured (judgedOn s c now i obj) now)
          (evaluateFreshness (judgedOn s c now i obj) now) then none
        else some (makeValue (expectedUnitFor obj.dim)
          (computeMeasured (judgedOn s c now i obj) now).value) := by
  refine ⟨_, evaluate_turn h hc hobj, ?_⟩
  unfold judgedOn evaluateObjective
  generalize acquire (accumulatorsAfter s.accumulators now (c.objectives.take i)) obj = a
  cases hm : unmeasured (computeMeasured a now) (evaluateFreshness a now) <;> simp [hm]

/-- It has the verdict on the objective. -/
theorem evaluate_reports [Platform R] {s s' : State R} {service : ServiceId} {workload : WorkloadId}
    {now : Duration} {res : EvaluationResult R} {c : SloContract R}
    (h : evaluate s service workload now = some (s', .ok res))
    (hc : selectContract s.contracts service workload now = some c) {i : Nat} {obj : Objective R}
    (hobj : c.objectives[i]? = some obj) :
    ∃ st, res.explanation.objectives[i]? = some st ∧ st.id = obj.id ∧
      st.state = verdict (accumulatorsAfter s.accumulators now (c.objectives.take i)) obj now := by
  obtain ⟨_, _, hid, hstate⟩ := (evaluateObjective_spec
    (accumulatorsAfter s.accumulators now (c.objectives.take i)) obj now).2
  exact ⟨_, evaluate_turn h hc hobj, hid, hstate⟩

/-- What the result of judging contract `c` in state `s` rests on. -/
structure DecisionSound (s : State R) (c : SloContract R) (now : Duration) (s' : State R)
    (res : EvaluationResult R) : Prop where
  /-- Compliant: every objective was measured with sufficient, current evidence, its value is in
      the Compliant zone and its budget, with the window it is judged in, not exhausted. -/
  compliant : res.explanation.compliance = .compliant → ∀ i obj, c.objectives[i]? = some obj →
    (computeMeasured (judgedOn s c now i obj) now).got = true ∧
    (computeMeasured (judgedOn s c now i obj) now).sufficient = true ∧
    evaluateFreshness (judgedOn s c now i obj) now = .current ∧
    classifyZone obj (computeMeasured (judgedOn s c now i obj) now).value = .compliant ∧
    ((rollBudget (judgedOn s c now i obj) now).hasBudget = true →
      (rollBudget (judgedOn s c now i obj) now).budget.state R ≠ .exhausted)
  /-- One objective without such a measurement: no verdict, and no action. -/
  unmeasured : (∃ i obj, c.objectives[i]? = some obj ∧
      ((computeMeasured (judgedOn s c now i obj) now).got = false ∨
        (computeMeasured (judgedOn s c now i obj) now).sufficient = false ∨
        evaluateFreshness (judgedOn s c now i obj) now = .stale ∨
        evaluateFreshness (judgedOn s c now i obj) now = .expired)) →
    (res.explanation.compliance = .revalidationRequired ∨
      res.explanation.compliance = .insufficientEvidence) ∧ res.intent.action = .noAction
  /-- An action: it is the one for the verdict on the binding objective, a measured and not
      Compliant one, whose class allows it and whose cooldown is over. -/
  action : res.intent.action ≠ .noAction → ∃ i obj st, c.objectives[i]? = some obj ∧
    res.explanation.objectives[i]? = some st ∧ st.id = obj.id ∧
    res.explanation.bindingObjective = obj.id ∧
    res.explanation.compliance = st.state ∧ st.state ≠ .compliant ∧
    (computeMeasured (judgedOn s c now i obj) now).got = true ∧
    (computeMeasured (judgedOn s c now i obj) now).sufficient = true ∧
    evaluateFreshness (judgedOn s c now i obj) now = .current ∧
    (∃ a, s'.accumulators.find obj.id = some a ∧ ¬ now < a.cooldownUntil) ∧
    obj.enforcement ≠ .none ∧ res.intent.action = actionFor obj st.state

/-- **Decision soundness of `evaluate`**, in whatever state. -/
theorem evaluate_sound [Platform R] {s s' : State R} {service : ServiceId} {workload : WorkloadId}
    {now : Duration} {res : EvaluationResult R}
    (h : evaluate s service workload now = some (s', .ok res)) :
    ∃ c, selectContract s.contracts service workload now = some c ∧ c.objectives ≠ [] ∧
      DecisionSound s c now s' res := by
  rcases evaluate_cases h with ⟨st, hst, _⟩ |
    ⟨c, policy, overall, binding, digest, hc, _, _, ho, hr, hs⟩
  · cases hst
  rw [Except.ok.injEq] at hr
  subst hr hs
  have hne : c.objectives ≠ [] := by
    intro hnil
    rw [hnil, evaluateObjectives, overallOf_eq_none.mpr rfl] at ho
    cases ho
  refine ⟨c, hc, hne, fun hcomp i obj hobj => ?_, fun hsome => ?_, fun hact => ?_⟩
  · obtain ⟨ev, hev, hrep⟩ := evaluateObjectives_getElem now c.objectives s.accumulators i obj hobj
    refine verdict_compliant ?_
    rw [← hrep.2.1]
    replace hcomp : overall = .compliant := hcomp
    rcases overallOf_cases ho with ⟨_, hov⟩ | ⟨_, hov⟩ | ⟨_, _, _, _, _, hall⟩
    · rw [hov] at hcomp; cases hcomp
    · rw [hov] at hcomp; cases hcomp
    · exact hall hcomp ev (List.mem_of_getElem? hev)
  · obtain ⟨i, obj, hobj, hbad⟩ := hsome
    obtain ⟨ev, hev, hrep⟩ := evaluateObjectives_getElem now c.objectives s.accumulators i obj hobj
    have hbind : binding = none ∧ (overall = .revalidationRequired ∨
        overall = .insufficientEvidence) := by
      rcases overallOf_cases ho with ⟨hb, hov⟩ | ⟨hb, hov⟩ | ⟨_, _, _, _, hall, _⟩
      · exact ⟨hb, Or.inl hov⟩
      · exact ⟨hb, Or.inr hov⟩
      · have hm := hall ev (List.mem_of_getElem? hev)
        rw [hrep.2.1] at hm
        obtain ⟨hgot, hsuff, hfr⟩ := verdict_measured hm
        rcases hbad with hb | hb | hb | hb
        · exact absurd (hgot.symm.trans hb) (by decide)
        · exact absurd (hsuff.symm.trans hb) (by decide)
        · exact absurd (hfr.symm.trans hb) (by decide)
        · exact absurd (hfr.symm.trans hb) (by decide)
    obtain ⟨rfl, hov⟩ := hbind
    exact ⟨hov, rfl⟩
  · rcases overallOf_cases ho with ⟨rfl, _⟩ | ⟨rfl, _⟩ | ⟨ev, hev, rfl, rfl, hall, _⟩
    · exact absurd rfl hact
    · exact absurd rfl hact
    · obtain ⟨i, hi, hobj, hrep⟩ := mem_evaluateObjectives hev
      obtain ⟨haction, hcls, hst, hcd⟩ := selectAction_ne_noAction hact
      obtain ⟨hgot, hsuff, hfr⟩ := verdict_measured (hrep.2.1 ▸ hall ev hev)
      refine ⟨i, ev.obj, ev.st, hobj, ?_, hrep.2.2.1, rfl, ?_, ?_, hgot, hsuff, hfr, ?_, hcls, ?_⟩
      · show (List.map _ _)[i]? = _
        rw [List.getElem?_map, hi]
        rfl
      · exact hrep.2.1.trans hrep.2.2.2.symm
      · rwa [hrep.2.2.2, ← hrep.2.1]
      · have hsome := accumulatorsAfter_find now c.objectives s.accumulators ev.obj
          (Or.inl (List.mem_of_getElem? hobj))
        obtain ⟨a, ha⟩ := Option.isSome_iff_exists.mp hsome
        refine ⟨a, ha, ?_⟩
        rwa [cooldownOf, ha] at hcd
      · rw [hrep.2.2.2, ← hrep.2.1]
        exact haction

/-- A latency of 200 ms against a target of 100 ms: an action is selected. -/
theorem evaluate_sound_small :
    let s := after [.setPolicy smallPolicy,
      .addContract (smallContract 1 1 1 [smallObjective 1 1]),
      .ingest (smallEvidence 1 1 200000000) 0]
    ∃ s' res, evaluate s ⟨1⟩ ⟨1⟩ 0 = some (s', .ok res) ∧
      res.intent.action = .increaseCapacity ∧
      ∃ c, selectContract s.contracts ⟨1⟩ ⟨1⟩ 0 = some c ∧ c.objectives ≠ [] ∧
        DecisionSound s c 0 s' res := by
  intro s
  have h : (reported (evaluate s ⟨1⟩ ⟨1⟩ 0)).any
      (fun x => x.2.intent.action = .increaseCapacity) = true := by
    decide +kernel
  obtain ⟨s', res, hx, ha⟩ := of_reported h
  exact ⟨s', res, hx, of_decide_eq_true ha, evaluate_sound hx⟩

/-! ## 5. Concrete evaluations -/

/-- Does the evaluation of the small fabric's scope succeed, with `obj` as its first objective, and
    do its result and the accumulator of that objective pass a test? -/
def evaluatedOn (s : State Binary64) (now : Duration) (obj : Objective Binary64)
    (p : EvaluationResult Binary64 → ObjectiveAccumulator Binary64 → Bool) : Bool :=
  (reported (evaluate s ⟨1⟩ ⟨1⟩ now)).any fun x =>
    (selectContract s.contracts ⟨1⟩ ⟨1⟩ now).any fun c =>
      c.objectives[0]? = some obj && p x.2 (judgedOn s c now 0 obj)

theorem of_evaluatedOn {s : State Binary64} {now : Duration} {obj : Objective Binary64}
    {p : EvaluationResult Binary64 → ObjectiveAccumulator Binary64 → Bool}
    (h : evaluatedOn s now obj p = true) :
    ∃ s' res c, evaluate s ⟨1⟩ ⟨1⟩ now = some (s', .ok res) ∧
      selectContract s.contracts ⟨1⟩ ⟨1⟩ now = some c ∧ c.objectives[0]? = some obj ∧
      p res (judgedOn s c now 0 obj) = true := by
  obtain ⟨s', res, hev, h⟩ := of_reported h
  obtain ⟨c, hc, h⟩ := (Option.any_eq_true _ _).mp h
  obtain ⟨hobj, hp⟩ := Bool.and_eq_true_iff.mp h
  exact ⟨s', res, c, hev, hc, of_decide_eq_true hobj, hp⟩

end SloFabric
