/-
  File:      SloFabric/Influence.lean
  Subject:   What enforcement can show in the judgement of a fabric.

  * `AlikeAwake`: accumulators that differ in nothing but the cooldown, which is what enforcement
    leaves behind;
  * `evaluate_peers`, `peers_step`: fabrics of such accumulators answer alike, but for the action an
    evaluation selects, and stay peers;
  * `enforcement_shows`: a run is answered like the run without enforcement, but for the actions;
  * `enforcement_silences`: and the actions can only be missing, where no load brings cooldowns.
-/
import SloFabric.Cooldown
import SloFabric.Peers
import SloFabric.Statuses
import SloFabric.Library.Erasure

namespace SloFabric

variable {R : Type}

/-! ## 1. What differs -/

/-- The accumulator without its cooldown. -/
def ObjectiveAccumulator.awake (a : ObjectiveAccumulator R) : ObjectiveAccumulator R := a.until 0

/-- What is left of the accumulators without their cooldowns is the same. -/
def AlikeAwake (a b : ObjectiveAccumulator R) : Prop := a.awake = b.awake

/-- The same evaluation with another action. -/
def EvaluationResult.withAction (res : EvaluationResult R) (action : EnforcementAction) :
    EvaluationResult R where
  explanation := { res.explanation with selectedAction := action }
  intent := { res.intent with action := action }

/-- The same answer with another action. -/
def Response.withAction (r : Response R) (action : EnforcementAction) : Response R :=
  match r with
  | .evaluated (.ok res) => .evaluated (.ok (res.withAction action))
  | r => r

/-! ## 2. Accumulators -/

/-- Accumulators that are one and the same but for the cooldown. -/
theorem AlikeAwake.until {a b : ObjectiveAccumulator R} (h : AlikeAwake a b) :
    ∃ stop, b = a.until stop := by
  refine ⟨b.cooldownUntil, ?_⟩
  cases a
  cases b
  simp only [AlikeAwake, ObjectiveAccumulator.awake, ObjectiveAccumulator.until,
    ObjectiveAccumulator.mk.injEq] at h ⊢
  simp [h]

theorem awake_kinship : Kinship (AlikeAwake (R := R)) where
  refl _ := rfl
  defn _ _ h := by obtain ⟨_, rfl⟩ := h.until; rfl
  hasBudget _ _ h := by obtain ⟨_, rfl⟩ := h.until; rfl
  budget _ _ h := by obtain ⟨_, rfl⟩ := h.until; rfl
  rest _ _ _ _ h := by obtain ⟨_, rfl⟩ := h.until; rfl
  recover _ _ _ _ h := by obtain ⟨_, rfl⟩ := h.until; rfl
  fund _ _ _ _ h := by obtain ⟨_, rfl⟩ := h.until; rfl

section Judge

variable [Double R]

theorem storeEvidence_until (o : Objective R) (a : ObjectiveAccumulator R) (e : EvidenceRecord R)
    (stop : Duration) : storeEvidence o (a.until stop) e =
      ((storeEvidence o a e).1.until stop, (storeEvidence o a e).2) := by
  unfold storeEvidence
  cases e.dimension with
  | cost =>
    simp only
    split <;> rfl
  | _ => rfl

theorem offer_until (o : Objective R) (e : EvidenceRecord R) (a : ObjectiveAccumulator R)
    (stop : Duration) :
    offer o (a.until stop) e = ((offer o a e).1.until stop, (offer o a e).2) := by
  have hstore := storeEvidence_until o (a.remember e.id) e stop
  unfold offer
  show (if a.seen e.id then _ else _) = _
  split
  · rfl
  · simp only
    split
    · rfl
    · exact hstore

omit [Double R] in
theorem rollBudget_until (a : ObjectiveAccumulator R) (stop now : Duration) :
    rollBudget (a.until stop) now = (rollBudget a now).until stop := by
  unfold rollBudget
  show (if (a.hasBudget && a.budget.windowRolled now) = true then _ else _) = _
  split <;> rfl

/-- **One turn of the loop does not look at the cooldown.** -/
theorem evaluateObjective_alike {t t' : Accumulators R} (h : Kin AlikeAwake t t')
    (o : Objective R) (now : Duration) :
    (evaluateObjective t o now).2 = (evaluateObjective t' o now).2 ∧
      AlikeAwake (judged t o now) (judged t' o now) := by
  obtain ⟨stop, hb⟩ := (h.acquire awake_kinship o).until
  have hmeasured : computeMeasured ((acquire t o).until stop) now =
      computeMeasured (acquire t o) now := rfl
  have hfresh : evaluateFreshness ((acquire t o).until stop) now =
      evaluateFreshness (acquire t o) now := rfl
  unfold evaluateObjective judged verdict
  simp only [hb, hmeasured, hfresh, rollBudget_until]
  split <;> exact ⟨rfl, rfl⟩

theorem evaluateObjectives_alike (now : Duration) : ∀ (os : List (Objective R))
    {t t' : Accumulators R}, Kin AlikeAwake t t' →
    (evaluateObjectives t now os).2 = (evaluateObjectives t' now os).2 ∧
      Kin AlikeAwake (evaluateObjectives t now os).1 (evaluateObjectives t' now os).1
  | [], _, _, h => ⟨rfl, h⟩
  | o :: os, t, t', h => by
      obtain ⟨hone, hjudged⟩ := evaluateObjective_alike h o now
      have hnext : Kin AlikeAwake (evaluateObjective t o now).1 (evaluateObjective t' o now).1 := by
        rw [(evaluateObjective_spec t o now).1, (evaluateObjective_spec t' o now).1]
        exact h.insert awake_kinship hjudged
      obtain ⟨hrest, htable⟩ := evaluateObjectives_alike now os hnext
      refine ⟨?_, htable⟩
      have hcons (t : Accumulators R) : (evaluateObjectives t now (o :: os)).2 =
          ((evaluateObjective t o now).2.1 ::
              (evaluateObjectives (evaluateObjective t o now).1 now os).2.1,
            (evaluateObjective t o now).2.2 ++
              (evaluateObjectives (evaluateObjective t o now).1 now os).2.2) := rfl
      rw [hcons, hcons, hone, hrest]

end Judge

/-! ## 3. Evaluations -/

section Evaluation

variable [Double R] [Platform R] {s t s' : State R}

/-- The answers differ in nothing but the action. -/
def Acted (r r' : Response R) : Prop := ∃ action, r = r'.withAction action

/-- The first answer is the second one, or that without its action. -/
def Silenced (r r' : Response R) : Prop := r = r' ∨ r = r'.withAction .noAction

omit [Double R] [Platform R] in
/-- Where the cooldown of the second table is over, the first one can only forbid the action. -/
theorem selectAction_over {ts tt : Accumulators R} {bobj : Objective R} {now : Duration}
    (h : ¬now < cooldownOf tt bobj.id) (overall : ComplianceState) :
    selectAction ts bobj overall now = selectAction tt bobj overall now ∨
      selectAction ts bobj overall now = .noAction := by
  unfold selectAction
  rw [if_neg h]
  split
  · exact Or.inr rfl
  · exact Or.inl rfl

omit [Double R] [Platform R] in
/-- The intents of peers differ in the action, and that is forbidden by a cooldown. -/
theorem intentOf_peers (h : Peers AlikeAwake s t) (ts tt : Accumulators R) (c : SloContract R)
    (policy : SloPolicy) (service : ServiceId) (workload : WorkloadId) (now : Duration)
    (number : UInt64) (overall : ComplianceState) (binding : Option (Objective R)) :
    ∃ action, intentOf s ts c policy service workload now number overall binding =
        { intentOf t tt c policy service workload now number overall binding with
          action := action } ∧
      ((∀ k, ¬now < cooldownOf tt k) → action = .noAction ∨
        action = (intentOf t tt c policy service workload now number overall binding).action) := by
  unfold intentOf
  rw [h.epoch]
  cases binding with
  | none => exact ⟨_, rfl, fun _ => Or.inr rfl⟩
  | some bobj =>
    exact ⟨_, rfl, fun hover => (selectAction_over (hover bobj.id) overall).symm⟩

/-- **Peers evaluate alike**: they judge the same, and the action is the same where no cooldown
    forbids it. -/
theorem evaluate_peers (h : Peers AlikeAwake s t) {service : ServiceId} {workload : WorkloadId}
    {now : Duration} {r : Except Status (EvaluationResult R)}
    (hx : evaluate s service workload now = some (s', r)) :
    ∃ t' r', evaluate t service workload now = some (t', r') ∧ Peers AlikeAwake s' t' ∧
      Acted (.evaluated r) (.evaluated r') ∧
      ((∀ k, ¬now < cooldownOf t'.accumulators k) →
        Silenced (.evaluated r) (.evaluated r')) := by
  unfold evaluate at hx ⊢
  rw [← h.contracts, ← h.policies]
  cases hc : selectContract s.contracts service workload now with
  | none =>
    rw [hc] at hx
    cases hx
    exact ⟨t, _, rfl, h, ⟨.noAction, rfl⟩, fun _ => Or.inl rfl⟩
  | some c =>
    rw [hc] at hx
    cases hp : (s.policies.find c.policyId).filter (·.gen = c.policyGen) with
    | none =>
      simp only [hp] at hx ⊢
      cases hx
      exact ⟨t, _, rfl, h, ⟨.noAction, rfl⟩, fun _ => Or.inl rfl⟩
    | some policy =>
      obtain ⟨hevals, htable⟩ := evaluateObjectives_alike now c.objectives h.accumulators
      simp only [hp] at hx ⊢
      generalize evaluateObjectives s.accumulators now c.objectives = x at hx hevals htable
      generalize evaluateObjectives t.accumulators now c.objectives = y at hevals htable ⊢
      obtain ⟨ts, evals, digests⟩ := x
      obtain ⟨tt, evals', digests'⟩ := y
      cases hevals
      simp only at hx htable ⊢
      cases ho : overallOf evals with
      | none => rw [ho] at hx; cases hx
      | some b =>
        obtain ⟨overall, binding⟩ := b
        simp only [ho] at hx ⊢
        rw [← h.evaluationCounter]
        obtain ⟨action, hintent, hover⟩ := intentOf_peers h ts tt c policy service workload now
          (s.evaluationCounter + 1) overall binding
        cases hx
        refine ⟨_, _, rfl, ?_, ⟨action, ?_⟩, fun hrested => ?_⟩
        · exact { h with
            policies := rfl, contracts := rfl, evaluationCounter := rfl, accumulators := htable }
        · rw [hintent]
          rfl
        · rw [hintent]
          rcases hover hrested with rfl | rfl
          · exact Or.inr rfl
          · exact Or.inl rfl

end Evaluation

/-! ## 4. Runs -/

section Runs

variable [Pod R] [Double R] [Platform R] {s t s' t' : State R} {op : Op R} {r : Response R}

/-- **The step lemma**: peers take a call that is not of enforcement alike. -/
theorem peers_step (h : Peers AlikeAwake s t) (hop : op.enforces = false)
    (hs : apply s op = some (s', r)) :
    ∃ t' r', apply t op = some (t', r') ∧ Peers AlikeAwake s' t' ∧ Acted r r' ∧
      ((∀ service workload now, op = .evaluate service workload now →
        ∀ k, ¬now < cooldownOf t'.accumulators k) → Silenced r r') := by
  by_cases heval : ∃ service workload now, op = .evaluate service workload now
  · obtain ⟨service, workload, now, rfl⟩ := heval
    obtain ⟨⟨s'', x⟩, hx, hr⟩ := Option.map_eq_some_iff.mp hs
    cases hr
    obtain ⟨t', y, hy, hpeers, hacted, hsilenced⟩ := evaluate_peers h hx
    exact ⟨t', .evaluated y, by rw [apply, hy]; rfl, hpeers, hacted,
      fun hover => hsilenced (hover _ _ _ rfl)⟩
  · have hsame : ∃ t', apply t op = some (t', r) ∧ Peers AlikeAwake s' t' := by
      by_cases hing : ∃ e now, op = .ingest e now
      · obtain ⟨e, now, rfl⟩ := hing
        cases hs
        obtain ⟨hpeers, hst⟩ := h.ingest awake_kinship now (e := e) rfl fun o a b _ _ hab => by
          obtain ⟨stop, rfl⟩ := hab.until
          rw [offer_until]
          exact ⟨rfl, rfl⟩
        exact ⟨_, by rw [apply, answer, ← hst], hpeers⟩
      · exact h.settled awake_kinship hop (fun e now heq => hing ⟨e, now, heq⟩)
          (fun service workload now heq => heval ⟨service, workload, now, heq⟩) hs
    obtain ⟨t', ht, hpeers⟩ := hsame
    have hr : r.withAction .noAction = r := by
      cases frame_cases hs with
      | evaluated => exact absurd ⟨_, _, _, rfl⟩ heval
      | _ => rfl
    exact ⟨t', r, ht, hpeers, ⟨.noAction, hr.symm⟩, fun _ => Or.inl rfl⟩

omit [Pod R] [Platform R] in
/-- Peers say the same of their objectives. -/
theorem Peers.objectiveStatuses (h : Peers AlikeAwake s t) (id : SloContractId) :
    SloFabric.objectiveStatuses s id = SloFabric.objectiveStatuses t id := by
  have hstatus : statusOf s.accumulators = statusOf t.accumulators := by
    funext o
    have hk := h.accumulators o.id
    unfold statusOf
    generalize s.accumulators.find o.id = x at hk
    generalize t.accumulators.find o.id = y at hk
    cases hk with
    | none => rfl
    | some hab =>
      obtain ⟨stop, rfl⟩ := hab.until
      rfl
  unfold SloFabric.objectiveStatuses
  rw [h.contracts, hstatus]

/-- **Enforcement shows in nothing but the actions.** Beside every run, loads included, there is
    the run without its calls of enforcement; the fabric answers every other call the same in
    both, but for the action an evaluation selects, and in the end says the same of its
    objectives. -/
theorem enforcement_shows {tr : Trace R} (h : Runs (State.fresh R) tr s) :
    ∃ t tr', Runs (State.fresh R) tr' t ∧
      Beside (fun _ => Acted) (fun op => !op.enforces) tr tr' ∧
      ∀ id, SloFabric.objectiveStatuses s id = SloFabric.objectiveStatuses t id := by
  obtain ⟨t, tr', hrun, hpeers, hbeside⟩ : ∃ t tr', Runs (State.fresh R) tr' t ∧
      Peers AlikeAwake s t ∧ Beside (fun _ => Acted) (fun op => !op.enforces) tr tr' :=
    h.beside (Peers.refl awake_kinship _)
    (fun s t op s' r hi _ hop hs => by
      obtain ⟨t', r', ht, hpeers, hacted, _⟩ := peers_step hi (by simpa using hop) hs
      exact ⟨t', r', ht, hpeers, hacted⟩)
    fun s t op s' r hi _ hop hs => hi.enforced awake_kinship (by simpa using hop) hs
  exact ⟨t, tr', hrun, hbeside, hpeers.objectiveStatuses⟩

/-- No cooldown was ever set. -/
def Restless (t : Accumulators R) : Prop := ∀ k, cooldownOf t k = 0

/-- Only enforcement and a load set cooldowns. -/
theorem restless_step (h : Restless s.accumulators) (hop : op.enforces = false)
    (hload : op.isLoad = false) (hs : apply s op = some (s', r)) : Restless s'.accumulators := by
  intro k
  have hk := h k
  have hafter := resting_step hs (not_load (by rw [hload]; rfl))
    (fun intent now heq => by subst heq; cases hop) k
  unfold cooldownOf at hk ⊢
  generalize s.accumulators.find k = a at hafter hk
  generalize s'.accumulators.find k = b at hafter ⊢
  cases hafter with
  | idle _ => exact hk
  | kept _ h' => exact h'.cooldown.trans hk
  | fresh _ _ _ h' => exact h'.cooldown

/-- The steps of a run without loads in which nothing is evaluated at a negative time. -/
def Plain (_ : State R) (op : Op R) : Prop :=
  op.isLoad = false ∧ ∀ service workload now, op = .evaluate service workload now → 0 ≤ now

/-- **Enforcement can do nothing but silence the fabric.** In a run without loads, at times that
    are not negative, every evaluation selects the action it would select had nothing ever been
    enforced, or none. -/
theorem enforcement_silences {tr : Trace R} (h : Run apply Plain (State.fresh R) tr s) :
    ∃ t tr', Runs (State.fresh R) tr' t ∧
      Beside (fun _ => Silenced) (fun op => !op.enforces) tr tr' := by
  obtain ⟨t, tr', hrun, _, hbeside⟩ : ∃ t tr', Runs (State.fresh R) tr' t ∧
      (Peers AlikeAwake s t ∧ Restless t.accumulators) ∧
      Beside (fun _ => Silenced) (fun op => !op.enforces) tr tr' :=
    h.beside (I := fun s t => Peers AlikeAwake s t ∧ Restless t.accumulators)
    ⟨.refl awake_kinship _, fun _ => rfl⟩
    (fun s t op s' r hi hc hop hs => by
      have hop : op.enforces = false := by simpa using hop
      obtain ⟨t', r', ht, hpeers, _, hsilenced⟩ := peers_step hi.1 hop hs
      have hrestless := restless_step hi.2 hop hc.1 ht
      refine ⟨t', r', ht, ⟨hpeers, hrestless⟩, hsilenced fun service workload now heq k => ?_⟩
      rw [hrestless k]
      exact Int64.not_lt.mpr (hc.2 service workload now heq))
    fun s t op s' r hi _ hop hs => 
      ⟨hi.1.enforced awake_kinship (by simpa using hop) hs, hi.2⟩
  exact ⟨t, tr', hrun, hbeside⟩

end Runs

/-! ## 5. An authorization that shows -/

/-- The actions the evaluations of a run select. -/
def selected (tr : Trace R) : List EnforcementAction :=
  tr.filterMap fun x => x.2.report.map (·.explanation.selectedAction)

/-- A violated latency is evaluated, the intent authorized, and the latency evaluated again. -/
def answered : List (Op Binary64) :=
  evaluated 1 ++ [.authorize (smallIntent 1) 0, .evaluate ⟨1⟩ ⟨1⟩ 0]

/-- Is the evaluation at a time that is not negative? -/
def plainTest : Op Binary64 → Bool
  | .evaluate _ _ now => decide (0 ≤ now)
  | .load _ => false
  | _ => true

theorem plain_of_test {s : State Binary64} {op : Op Binary64} (h : plainTest op = true) :
    Plain s op := by
  constructor
  · cases op <;> first | rfl | cases h
  · rintro service workload now rfl
    exact of_decide_eq_true h

theorem enforcement_shows_small :
    ∃ tr s, Runs (State.fresh Binary64) tr s ∧ selected tr = [.increaseCapacity, .noAction] ∧
      ∃ t tr', Runs (State.fresh Binary64) tr' t ∧
        Beside (fun _ => Acted) (fun op => !op.enforces) tr tr' ∧
        ∀ id, objectiveStatuses s id = objectiveStatuses t id := by
  have htest : (execute apply (fun _ _ => true) (State.fresh Binary64) answered).any
      (fun x => decide (selected x.2 = [.increaseCapacity, .noAction])) = true := by
    decide +kernel
  obtain ⟨s, tr, hrun, hp⟩ := Run.of_test (fun _ _ _ => trivial) htest
  exact ⟨tr, s, hrun, of_decide_eq_true hp, enforcement_shows hrun⟩

theorem enforcement_silences_small :
    ∃ tr s, Run apply Plain (State.fresh Binary64) tr s ∧
      selected tr = [.increaseCapacity, .noAction] ∧
      ∃ t tr', Runs (State.fresh Binary64) tr' t ∧
        Beside (fun _ => Silenced) (fun op => !op.enforces) tr tr' := by
  have htest : (execute apply (fun _ op => plainTest op) (State.fresh Binary64) answered).any
      (fun x => decide (selected x.2 = [.increaseCapacity, .noAction])) = true := by
    decide +kernel
  obtain ⟨s, tr, hrun, hp⟩ := Run.of_test (fun _ _ => plain_of_test) htest
  exact ⟨tr, s, hrun, of_decide_eq_true hp, enforcement_silences hrun⟩

end SloFabric
