/-
  File:      SloFabric/Machine.lean
  Subject:   The fabric as a state machine over its public operations.

  * `Op`, `Response`, `apply`: an operation, its answer, its step. The mutex makes each public
    call one step; the read-only queries are left out, they change nothing;
  * `Reachable`: the states of runs from a fresh fabric;
  * `RowRule`: a property of accumulators that a fresh one has and that every use but the arrival
    of evidence keeps. Every step but `ingest` keeps such a property of all accumulators
    (`RowRule.step`);
  * `ingest_cases`: what `ingest` can do;
  * `evidence_cases`: what a step does to the evidence; `RowRule.run`: a property that evidence
    keeps, too, holds in every run.
-/
import SloFabric.Restart
import SloFabric.Acceptance
import SloFabric.Library.Runs

namespace SloFabric

variable {R : Type}

/-! ## 1. Operations -/

/-- The public operations. `save` names the order its hash table lists the accumulators in,
    `load` the content of the file at its path. -/
inductive Op (R : Type) where
  | setPolicy (policy : SloPolicy)
  | addContract (contract : SloContract R)
  | supersedeContract (replacement : SloContract R) (now : Duration)
  | activateContract (id : SloContractId) (now : Duration)
  | suspendContract (id : SloContractId) (now : Duration)
  | expireContract (id : SloContractId) (now : Duration)
  | retireContract (id : SloContractId) (now : Duration)
  | ingest (e : EvidenceRecord R) (now : Duration)
  | recordRecoveryEvent (id : ObjectiveId) (phase : RecoveryEventPhase) (time : Duration)
  | ingestViolationEvent (id : ObjectiveId) (now : Duration)
  | setObjectiveBudget (id : ObjectiveId) (total : Count) (window : Duration)
  | evaluate (service : ServiceId) (workload : WorkloadId) (now : Duration)
  | authorize (intent : EnforcementIntent) (now : Duration)
  | dispatch
  | transition (id : EnforcementId) (dst : EnforcementLifecycle) (now : Duration)
  | completeEnforcement (id : EnforcementId) (now : Duration)
  | save (order : List ObjectiveId)
  | load (file : Option Bytes)

inductive Response (R : Type) where
  | status (st : Status)
  | evaluated (r : Except Status (EvaluationResult R))
  | authorized (r : Except Status EnforcementReceipt)
  | dispatched
  | saved (file : Bytes)

/-- The state and status an operation gives, as a step. -/
def answer (x : State R × Status) : Option (State R × Response R) := some (x.1, .status x.2)

section Step

variable [Pod R] [Double R] [Platform R]

/-- **One step of the fabric.** It is `none` where `evaluate` is, and where `save` is given an
    order that is none of its accumulators. -/
def apply (s : State R) : Op R → Option (State R × Response R)
  | .setPolicy policy => answer (setPolicy s policy)
  | .addContract contract => answer (addContract s contract)
  | .supersedeContract replacement now => answer (supersedeContract s replacement now)
  | .activateContract id now => answer (activateContract s id now)
  | .suspendContract id now => answer (suspendContract s id now)
  | .expireContract id now => answer (expireContract s id now)
  | .retireContract id now => answer (retireContract s id now)
  | .ingest e now => answer (ingest s e now)
  | .recordRecoveryEvent id phase time => answer (recordRecoveryEvent s id phase time)
  | .ingestViolationEvent id now => answer (ingestViolationEvent s id now)
  | .setObjectiveBudget id total window => answer (setObjectiveBudget s id total window)
  | .evaluate service workload now =>
    (evaluate s service workload now).map fun x => (x.1, .evaluated x.2)
  | .authorize intent now =>
    some ((authorize s intent now).1, .authorized (authorize s intent now).2)
  | .dispatch => some (noteDispatch s, .dispatched)
  | .transition id dst now => answer (transition s id dst now)
  | .completeEnforcement id now => answer (completeEnforcement s id now)
  | .save order => if isOrder s.accumulators order then some (s, .saved (save s order)) else none
  | .load file => answer (load s file)

/-- The steps and answers of a run, in order. -/
abbrev Trace (R : Type) := List (Op R × Response R)

/-- A run of the fabric from `s₀`. -/
abbrev Runs (s₀ : State R) (tr : Trace R) (s : State R) : Prop :=
  Run apply (fun _ _ => True) s₀ tr s

/-- The states a fabric can be in. -/
def Reachable (s : State R) : Prop := ∃ tr, Runs (State.fresh R) tr s

end Step

/-! ## 2. What a step leaves alone -/

/-- The stores evidence enters, and the definition they belong to, are those of `a`. -/
structure SameEvidence (a b : ObjectiveAccumulator R) : Prop where
  defn : b.defn = a.defn
  window : b.window = a.window
  avail : b.avail = a.avail
  cost : b.cost = a.cost

/-- At most recovery, budget and cooldown are not those of `a`, and a budget of a new total is
    not one of a negative total. -/
structure Touched (a b : ObjectiveAccumulator R) : Prop extends SameEvidence a b where
  lastState : b.lastState = a.lastState
  budget : b.budget.total = a.budget.total ∨ 0 ≤ b.budget.total

/-- A property of accumulators that a fresh one has and that every use of an accumulator but the
    arrival of evidence keeps. -/
structure RowRule [Double R] (P : ObjectiveAccumulator R → Prop) : Prop where
  make : ∀ o, P (.make o)
  reset : ∀ a o, P a → P (a.resetForNewGen o)
  touch : ∀ a b, Touched a b → P a → P b
  judge : ∀ t o now, P (acquire t o) → P (judged t o now)
  restore : ∀ a ps, objstateStorable ps = true → P a → P (restore a ps)

namespace RowRule

variable [Double R] {P : ObjectiveAccumulator R → Prop} {t : Accumulators R}

/-- A property of the evidence alone. -/
theorem ofEvidence (hmake : ∀ o, P (.make o)) (hreset : ∀ a o, P a → P (a.resetForNewGen o))
    (hsame : ∀ a b, SameEvidence a b → P a → P b) : RowRule P where
  make := hmake
  reset := hreset
  touch a b h := hsame a b h.toSameEvidence
  judge t o now := by
    refine hsame _ _ ?_
    unfold SloFabric.judged rollBudget
    split <;> exact ⟨rfl, rfl, rfl, rfl⟩
  restore a ps _ := by
    refine hsame _ _ ?_
    unfold SloFabric.restore
    simp only
    split <;> exact ⟨rfl, rfl, rfl, rfl⟩

theorem acquired (hP : RowRule P) (ht : ∀ a ∈ t.rows, P a) (o : Objective R) : P (acquire t o) :=
  acquire_of ht (hP.make o) fun a => hP.reset a o

theorem insert (hP : RowRule P) (ht : ∀ a ∈ t.rows, P a) {a b : ObjectiveAccumulator R}
    (ha : P a) (hab : Touched a b) : ∀ c ∈ (t.insert b).rows, P c :=
  KeyedTable.forall_insert ht (hP.touch a b hab ha)

theorem accumulatorsAfter (hP : RowRule P) (now : Duration) :
    ∀ (objs : List (Objective R)) {t : Accumulators R}, (∀ a ∈ t.rows, P a) →
    ∀ a ∈ (accumulatorsAfter t now objs).rows, P a
  | [], _, ht => ht
  | o :: objs, _, ht =>
      accumulatorsAfter hP now objs
        (KeyedTable.forall_insert ht (hP.judge _ o now (hP.acquired ht o)))

theorem foldl_getAccumulator (hP : RowRule P) : ∀ (objs : List (Objective R))
    {t : Accumulators R}, (∀ a ∈ t.rows, P a) → ∀ a ∈ (objs.foldl getAccumulator t).rows, P a
  | [], _, ht => ht
  | o :: objs, _, ht =>
      foldl_getAccumulator hP objs (KeyedTable.forall_insert ht (hP.acquired ht o))

theorem setCooldown (hP : RowRule P) (ht : ∀ a ∈ t.rows, P a) (id : ObjectiveId)
    (stop : Duration) : ∀ a ∈ (setCooldown t id stop).rows, P a := by
  unfold SloFabric.setCooldown
  cases h : t.find id with
  | none => exact ht
  | some acc =>
    exact hP.insert ht (ht acc (KeyedTable.find_mem h))
      ⟨⟨rfl, rfl, rfl, rfl⟩, rfl, Or.inl rfl⟩

/-- Every accumulator a load rebuilds is as good as a fresh one. -/
theorem restoreStates (hP : RowRule P) (cs : Contracts R) {l : List PersistedObjectiveState}
    (hl : l.all objstateStorable = true) : ∀ a ∈ (restoreStates cs l).rows, P a :=
  restoreStates_of (fun o _ => hP.make o) (fun a o _ => hP.reset a o)
    fun a ps hps => hP.restore a ps (List.all_eq_true.mp hl ps hps)

end RowRule

/-! ## 3. Frames -/

theorem replaceContract_frame (s : State R) (c : SloContract R) :
    (replaceContract s c).1 = { s with contracts := (replaceContract s c).1.contracts } := by
  unfold replaceContract
  split
  · split <;> rfl
  · rfl

theorem addContract_frame (s : State R) (c : SloContract R) :
    (addContract s c).1 = { s with contracts := (addContract s c).1.contracts } := by
  unfold addContract
  split
  · rfl
  · split
    · rfl
    · exact replaceContract_frame s c

theorem updateContract_frame (s : State R) (id : SloContractId)
    (f : SloContract R → SloContract R) :
    (updateContract s id f).1 = { s with contracts := (updateContract s id f).1.contracts } := by
  unfold updateContract
  split <;> rfl

theorem setPolicy_frame (s : State R) (p : SloPolicy) :
    (setPolicy s p).1 = { s with policies := (setPolicy s p).1.policies } := by
  unfold setPolicy
  split
  · split <;> rfl
  · rfl

theorem noteEvidence_frame (s : State R) (id : EvidenceId) :
    (noteEvidence s id).1 =
      { s with globalEvidence := (noteEvidence s id).1.globalEvidence
               globalEvidenceRing := (noteEvidence s id).1.globalEvidenceRing } := by
  unfold noteEvidence
  split
  · rfl
  · split
    · rfl
    · rfl

/-- What `record_recovery_event` can do. -/
theorem recordRecoveryEvent_cases (s : State R) (id : ObjectiveId) (phase : RecoveryEventPhase)
    (time : Duration) :
    (definitionOf s.contracts id = none ∧ (recordRecoveryEvent s id phase time).1 = s) ∨
    ∃ o, definitionOf s.contracts id = some o ∧ (recordRecoveryEvent s id phase time).1 =
      { s with
        accumulators := s.accumulators.insert
          { acquire s.accumulators o with
            recovery := (acquire s.accumulators o).recovery.record phase time } } := by
  unfold recordRecoveryEvent
  cases definitionOf s.contracts id with
  | none => exact Or.inl ⟨rfl, rfl⟩
  | some o => exact Or.inr ⟨o, rfl, rfl⟩

/-- What `ingest_violation_event` can do: it gets the accumulators of all definitions it visits,
    and consumes from the budget of the objective if there is one. -/
theorem ingestViolationEvent_cases (s : State R) (id : ObjectiveId) (now : Duration) :
    (∃ st, st.isOk = false ∧ ingestViolationEvent s id now =
      ({ s with accumulators :=
          (violationDefinitions s.contracts id).foldl getAccumulator s.accumulators }, st)) ∨
    ∃ o acc, o ∈ violationDefinitions s.contracts id ∧
      ((violationDefinitions s.contracts id).foldl getAccumulator s.accumulators).find id =
        some acc ∧ acc.hasBudget = true ∧ ingestViolationEvent s id now =
      ({ s with
          accumulators :=
            ((violationDefinitions s.contracts id).foldl getAccumulator s.accumulators).insert
              { acc with budget := acc.budget.consume } }, ok) := by
  unfold ingestViolationEvent
  simp only
  split
  · rename_i o acc hlast hacc
    split
    · exact Or.inl ⟨_, rfl, rfl⟩
    · rename_i has
      exact Or.inr ⟨o, acc, List.mem_of_getLast? hlast, hacc, by simpa using has, rfl⟩
  · exact Or.inl ⟨_, rfl, rfl⟩

/-- What `set_objective_budget` can do. -/
theorem setObjectiveBudget_cases (s : State R) (id : ObjectiveId) (total : Count)
    (window : Duration) :
    (definitionOf s.contracts id = none ∧ (setObjectiveBudget s id total window).1 = s ∧
      (setObjectiveBudget s id total window).2.isOk = false) ∨
    ∃ o, definitionOf s.contracts id = some o ∧
      ((setObjectiveBudget s id total window).1 =
          { s with accumulators := getAccumulator s.accumulators o } ∧
        (setObjectiveBudget s id total window).2.isOk = false ∨
      0 ≤ total ∧ (setObjectiveBudget s id total window).1 =
          { s with
            accumulators := s.accumulators.insert
              { acquire s.accumulators o with
                hasBudget := true, budget := ErrorBudget.make total window } } ∧
        (setObjectiveBudget s id total window).2.isOk = true) := by
  unfold setObjectiveBudget
  cases definitionOf s.contracts id with
  | none => exact Or.inl ⟨rfl, rfl, rfl⟩
  | some o =>
    refine Or.inr ⟨o, rfl, ?_⟩
    simp only
    split
    · exact Or.inl ⟨rfl, rfl⟩
    · rename_i htotal
      exact Or.inr ⟨Int64.not_lt.mp htotal, rfl, rfl⟩

theorem recordRecoveryEvent_frame (s : State R) (id : ObjectiveId) (phase : RecoveryEventPhase)
    (time : Duration) : (recordRecoveryEvent s id phase time).1 =
      { s with accumulators := (recordRecoveryEvent s id phase time).1.accumulators } := by
  rcases recordRecoveryEvent_cases s id phase time with ⟨_, h⟩ | ⟨_, _, h⟩ <;> rw [h]

theorem ingestViolationEvent_frame (s : State R) (id : ObjectiveId) (now : Duration) :
    (ingestViolationEvent s id now).1 =
      { s with accumulators := (ingestViolationEvent s id now).1.accumulators } := by
  rcases ingestViolationEvent_cases s id now with ⟨_, _, h⟩ | ⟨_, _, _, _, _, h⟩ <;> rw [h]

theorem setObjectiveBudget_frame (s : State R) (id : ObjectiveId) (total : Count)
    (window : Duration) : (setObjectiveBudget s id total window).1 =
      { s with accumulators := (setObjectiveBudget s id total window).1.accumulators } := by
  rcases setObjectiveBudget_cases s id total window with
    ⟨_, h, _⟩ | ⟨_, _, ⟨h, _⟩ | ⟨_, h, _⟩⟩ <;> rw [h]

/-- **What `ingest` can do**: complain and keep every accumulator, or offer the record to the
    accumulator of the newest definition, whose generation and epoch it carries or leaves
    unset. -/
theorem ingest_cases [Double R] (s : State R) (e : EvidenceRecord R) (now : Duration) :
    ∃ ids ring, ((ingest s e now).1 =
        { s with globalEvidence := ids, globalEvidenceRing := ring } ∧
      (ingest s e now).2.isOk = false) ∨
    ∃ o, definitionOf s.contracts e.objectiveId = some o ∧
      (e.objectiveGen = ⟨0⟩ ∨ e.objectiveGen = o.gen) ∧ (e.epoch = ⟨0⟩ ∨ e.epoch = s.epoch) ∧
      (ingest s e now).1 =
        { s with
          globalEvidence := ids
          globalEvidenceRing := ring
          accumulators := s.accumulators.insert (offer o (acquire s.accumulators o) e).1 } ∧
      (ingest s e now).2 = (offer o (acquire s.accumulators o) e).2 := by
  have hframe := noteEvidence_frame s e.id
  refine ⟨(noteEvidence s e.id).1.globalEvidence, (noteEvidence s e.id).1.globalEvidenceRing, ?_⟩
  unfold ingest
  generalize noteEvidence s e.id = n at hframe
  obtain ⟨s₁, st⟩ := n
  simp only at hframe ⊢
  generalize s₁.globalEvidence = ids at hframe
  generalize s₁.globalEvidenceRing = ring at hframe
  subst hframe
  split
  · rename_i h
    exact Or.inl ⟨rfl, by simpa using h⟩
  · split
    · exact Or.inl ⟨rfl, rfl⟩
    · rename_i hep
      simp only
      cases hd : definitionOf s.contracts e.objectiveId with
      | none => exact Or.inl ⟨rfl, rfl⟩
      | some o =>
        simp only
        split
        · exact Or.inl ⟨rfl, rfl⟩
        · rename_i hgen
          exact Or.inr ⟨o, rfl, Gen.agrees hgen, Gen.agrees hep, rfl, rfl⟩

theorem authorize_cases (s : State R) (intent : EnforcementIntent) (now : Duration) :
    (∃ st, authorize s intent now = (s, .error st)) ∨
    ∃ c policy, intentContract s.contracts intent = some c ∧ intent.epoch = s.epoch ∧
      intent.action ≠ .noAction ∧ c.gen = intent.contractGen ∧ c.canAuthorize now = true ∧
      s.policies.find c.policyId = some policy ∧ policy.gen = intent.policyGen ∧
      authorize s intent now =
        ({ s with
            enforcementCounter := s.enforcementCounter + 1
            accumulators := setCooldown s.accumulators intent.objectiveId (now + intent.cooldown)
            enforcementHistory := pushHistory s.enforcementHistory
              (receiptOf intent (s.enforcementCounter + 1)) },
          .ok (receiptOf intent (s.enforcementCounter + 1))) := by
  unfold authorize
  split
  · exact Or.inl ⟨_, rfl⟩
  · rename_i hepoch
    split
    · exact Or.inl ⟨_, rfl⟩
    · rename_i haction
      cases hc : intentContract s.contracts intent with
      | none => exact Or.inl ⟨_, rfl⟩
      | some c =>
        simp only
        split
        · exact Or.inl ⟨_, rfl⟩
        · rename_i hgen
          split
          · exact Or.inl ⟨_, rfl⟩
          · rename_i hcan
            split
            · exact Or.inl ⟨_, rfl⟩
            · rename_i hpol
              simp only [ne_eq, not_not, Bool.not_eq_true', Bool.not_eq_false]
                at hepoch hgen hcan hpol
              obtain ⟨policy, hp, hpg⟩ := Option.map_eq_some_iff.mp hpol
              exact Or.inr ⟨c, policy, rfl, hepoch, haction, hgen, hcan, hp, hpg, rfl⟩

/-- The calls that store a contract or change its lifecycle. -/
def Op.onContract : Op R → Bool
  | .addContract _ | .supersedeContract _ _ | .activateContract _ _ | .suspendContract _ _ |
    .expireContract _ _ | .retireContract _ _ => true
  | _ => false

/-- The calls, but `ingest`, on the accumulator of an objective. -/
def Op.onObjective : Op R → Bool
  | .recordRecoveryEvent _ _ _ | .ingestViolationEvent _ _ | .setObjectiveBudget _ _ _ => true
  | _ => false

/-- **What a step can change**, by the kind of its call: the rest of the state is left alone. -/
inductive StepFrame [Pod R] [Double R] [Platform R] (s s' : State R)
    : Op R → Response R → Prop where
  | policies {policy : SloPolicy} {st : Status} (hs : s' = { s with policies := s'.policies }) :
      StepFrame s s' (.setPolicy policy) (.status st)
  | contracts {op : Op R} {st : Status} (hop : op.onContract = true)
      (hs : s' = { s with contracts := s'.contracts }) : StepFrame s s' op (.status st)
  | objectives {op : Op R} {st : Status} (hop : op.onObjective = true)
      (hs : s' = { s with accumulators := s'.accumulators }) : StepFrame s s' op (.status st)
  | ingested {e : EvidenceRecord R} {now : Duration} {st : Status}
      (hs : s' = { s with
        accumulators := s'.accumulators
        globalEvidence := s'.globalEvidence
        globalEvidenceRing := s'.globalEvidenceRing }) :
      StepFrame s s' (.ingest e now) (.status st)
  | evaluated {service : ServiceId} {workload : WorkloadId} {now : Duration}
      {x : Except Status (EvaluationResult R)}
      (hx : evaluate s service workload now = some (s', x))
      (hs : s' = { s with
        evaluationCounter := s'.evaluationCounter
        accumulators := s'.accumulators
        evaluationHistory := s'.evaluationHistory
        evaluationById := s'.evaluationById }) :
      StepFrame s s' (.evaluate service workload now) (.evaluated x)
  | authorized {intent : EnforcementIntent} {now : Duration} {x : Except Status EnforcementReceipt}
      (hx : authorize s intent now = (s', x))
      (hs : s' = { s with
        enforcementCounter := s'.enforcementCounter
        accumulators := s'.accumulators
        enforcementHistory := s'.enforcementHistory }) :
      StepFrame s s' (.authorize intent now) (.authorized x)
  | dispatched (hs : s' = noteDispatch s) : StepFrame s s' .dispatch .dispatched
  | transition {id : EnforcementId} {dst : EnforcementLifecycle} {now : Duration} {st : Status}
      (hx : transition s id dst now = (s', st)) :
      StepFrame s s' (.transition id dst now) (.status st)
  | completed {id : EnforcementId} {now : Duration} {st : Status}
      (hx : completeEnforcement s id now = (s', st)) :
      StepFrame s s' (.completeEnforcement id now) (.status st)
  | saved {order : List ObjectiveId} {file : Bytes} (hs : s' = s) :
      StepFrame s s' (.save order) (.saved file)
  | failed {file : Option Bytes} {st : Status} (hst : loadState R file = .error st)
      (hs : s' = s) : StepFrame s s' (.load file) (.status st)
  | loaded {file : Option Bytes} {st : DurableState R} (hst : loadState R file = .ok st)
      (hs : s' = restart s st) : StepFrame s s' (.load file) (.status ok)

theorem frame_cases [Pod R] [Double R] [Platform R] {s s' : State R} {op : Op R} {r : Response R}
    (h : apply s op = some (s', r)) : StepFrame s s' op r := by
  cases op with
  | setPolicy policy => cases h; exact .policies (setPolicy_frame s policy)
  | addContract contract => cases h; exact .contracts rfl (addContract_frame s contract)
  | supersedeContract replacement now =>
    cases h; exact .contracts rfl (replaceContract_frame s replacement)
  | activateContract id now => cases h; exact .contracts rfl (updateContract_frame s id _)
  | suspendContract id now => cases h; exact .contracts rfl (updateContract_frame s id _)
  | expireContract id now => cases h; exact .contracts rfl (updateContract_frame s id _)
  | retireContract id now => cases h; exact .contracts rfl (updateContract_frame s id _)
  | ingest e now =>
    cases h
    obtain ⟨_, _, ⟨h', _⟩ | ⟨_, _, _, _, h', _⟩⟩ := ingest_cases s e now <;>
      exact .ingested (by rw [h'])
  | recordRecoveryEvent id phase time =>
    cases h; exact .objectives rfl (recordRecoveryEvent_frame s id phase time)
  | ingestViolationEvent id now =>
    cases h; exact .objectives rfl (ingestViolationEvent_frame s id now)
  | setObjectiveBudget id total window =>
    cases h; exact .objectives rfl (setObjectiveBudget_frame s id total window)
  | evaluate service workload now =>
    obtain ⟨x, hx, hr⟩ := Option.map_eq_some_iff.mp h
    cases hr
    refine .evaluated hx ?_
    rcases evaluate_cases hx with ⟨_, _, h'⟩ | ⟨_, _, _, _, _, _, _, _, _, _, h'⟩ <;> rw [h']
  | authorize intent now =>
    cases h
    refine .authorized rfl ?_
    rcases authorize_cases s intent now with ⟨_, h'⟩ | ⟨_, _, _, _, _, _, _, _, _, h'⟩ <;> rw [h']
  | dispatch => cases h; exact .dispatched rfl
  | transition id dst now => cases h; exact .transition rfl
  | completeEnforcement id now => cases h; exact .completed rfl
  | save order =>
    simp only [apply, Option.ite_none_right_eq_some] at h
    cases h.2
    exact .saved rfl
  | load file =>
    cases h
    rcases load_cases s file with ⟨e, he, h'⟩ | ⟨st, hst, h'⟩
    · rw [h']
      exact .failed he rfl
    · rw [h']
      exact .loaded hst rfl

/-- **Every step but `ingest` keeps the property**: a load starts it anew. -/
theorem RowRule.step [Pod R] [Double R] [Platform R] {P : ObjectiveAccumulator R → Prop}
    (hP : RowRule P) {s s' : State R} {op : Op R} {r : Response R} (h : apply s op = some (s', r))
    (hs : ∀ a ∈ s.accumulators.rows, P a) (hop : ∀ e now, op ≠ .ingest e now) :
    ∀ a ∈ s'.accumulators.rows, P a := by
  cases frame_cases h with
  | policies h' | contracts _ h' | dispatched h' | saved h' | failed _ h' => rw [h']; exact hs
  | ingested => exact absurd rfl (hop _ _)
  | objectives hobj =>
    cases op with
    | recordRecoveryEvent id phase time =>
      cases h
      rcases recordRecoveryEvent_cases s id phase time with ⟨_, h'⟩ | ⟨o, _, h'⟩
      · rw [h']; exact hs
      · rw [h']
        exact hP.insert hs (hP.acquired hs o) ⟨⟨rfl, rfl, rfl, rfl⟩, rfl, Or.inl rfl⟩
    | ingestViolationEvent id now =>
      cases h
      have ht := hP.foldl_getAccumulator (violationDefinitions s.contracts id) hs
      rcases ingestViolationEvent_cases s id now with ⟨_, _, h'⟩ | ⟨_, acc, _, hacc, _, h'⟩
      · rw [h']; exact ht
      · rw [h']
        exact hP.insert ht (ht acc (KeyedTable.find_mem hacc))
          ⟨⟨rfl, rfl, rfl, rfl⟩, rfl, Or.inl rfl⟩
    | setObjectiveBudget id total window =>
      cases h
      rcases setObjectiveBudget_cases s id total window with
        ⟨_, h', _⟩ | ⟨o, _, ⟨h', _⟩ | ⟨htotal, h', _⟩⟩
      · rw [h']; exact hs
      · rw [h']
        exact hP.insert hs (hP.acquired hs o) ⟨⟨rfl, rfl, rfl, rfl⟩, rfl, Or.inl rfl⟩
      · rw [h']
        exact hP.insert hs (hP.acquired hs o) ⟨⟨rfl, rfl, rfl, rfl⟩, rfl, Or.inr htotal⟩
    | _ => cases hobj
  | @evaluated _ _ now _ hx =>
    rcases evaluate_cases hx with ⟨_, _, h'⟩ | ⟨c, _, _, _, _, _, _, _, _, _, h'⟩
    · rw [h']; exact hs
    · rw [h']; exact hP.accumulatorsAfter now c.objectives hs
  | authorized hx =>
    rcases authorize_cases s _ _ with ⟨_, h'⟩ | ⟨_, _, _, _, _, _, _, _, _, h'⟩
    · cases hx.symm.trans h'; exact hs
    · cases hx.symm.trans h'; exact hP.setCooldown hs _ _
  | transition hx | completed hx => cases hx; exact hs
  | loaded hst h' => rw [h']; exact hP.restoreStates _ (loadState_objstates hst)

/-- **Only a load changes the epoch.** -/
theorem epoch_step [Pod R] [Double R] [Platform R] {s s' : State R} {op : Op R} {r : Response R}
    (h : apply s op = some (s', r)) (hop : ∀ file, op ≠ .load file) : s'.epoch = s.epoch := by
  cases frame_cases h with
  | policies h' | contracts _ h' | objectives _ h' | ingested h' | evaluated _ h'
  | authorized _ h' | saved h' | failed _ h' => rw [h']
  | dispatched h' => rw [h']; rfl
  | transition hx | completed hx => cases hx; rfl
  | loaded => exact absurd rfl (hop _)

/-! ## 4. Evidence -/

/-- **What a step does to the evidence**: a record is offered to an accumulator or refused, a
    file is loaded or not, and every other step keeps epoch and evidence. -/
inductive EvidenceStep [Pod R] [Double R] (s s' : State R) : Op R → Response R → Prop where
  | offered {e : EvidenceRecord R} {now : Duration} {o : Objective R}
      (ho : definitionOf s.contracts e.objectiveId = some o)
      (hgen : e.objectiveGen = ⟨0⟩ ∨ e.objectiveGen = o.gen)
      (hep : e.epoch = ⟨0⟩ ∨ e.epoch = s.epoch) (hepoch : s'.epoch = s.epoch)
      (hrows : s'.accumulators =
        s.accumulators.insert (offer o (acquire s.accumulators o) e).1) :
      EvidenceStep s s' (.ingest e now) (.status (offer o (acquire s.accumulators o) e).2)
  | refused {e : EvidenceRecord R} {now : Duration} {st : Status} (hst : st.isOk = false)
      (hepoch : s'.epoch = s.epoch) (hrows : s'.accumulators = s.accumulators) :
      EvidenceStep s s' (.ingest e now) (.status st)
  | loaded {file : Option Bytes} {st : DurableState R} (hst : loadState R file = .ok st)
      (hs : s' = restart s st) : EvidenceStep s s' (.load file) (.status ok)
  | failed {file : Option Bytes} {st : Status} (hst : st.isOk = false) (hs : s' = s) :
      EvidenceStep s s' (.load file) (.status st)
  | other {op : Op R} {r : Response R} (hing : ∀ e now, op ≠ .ingest e now)
      (hload : ∀ file, op ≠ .load file) (hepoch : s'.epoch = s.epoch)
      (hrule : ∀ P, RowRule P → (∀ a ∈ s.accumulators.rows, P a) →
        ∀ a ∈ s'.accumulators.rows, P a) : EvidenceStep s s' op r

theorem evidence_cases [Pod R] [Double R] [Platform R] {s s' : State R} {op : Op R} {r : Response R}
    (h : apply s op = some (s', r)) : EvidenceStep s s' op r := by
  by_cases hing : ∃ e now, op = .ingest e now
  · obtain ⟨e, now, rfl⟩ := hing
    cases h
    obtain ⟨ids, ring, ⟨h', hst⟩ | ⟨o, ho, hgen, hep, h', hst⟩⟩ := ingest_cases s e now
    · exact .refused hst (by rw [h']) (by rw [h'])
    · rw [hst]
      exact .offered ho hgen hep (by rw [h']) (by rw [h'])
  · have hing' : ∀ e now, op ≠ .ingest e now := fun e now heq => hing ⟨e, now, heq⟩
    by_cases hload : ∃ file, op = .load file
    · obtain ⟨file, rfl⟩ := hload
      cases h
      rcases load_cases s file with ⟨e, he, h'⟩ | ⟨st, hst, h'⟩
      · rw [h']
        exact .failed (loadState_error he) rfl
      · rw [h']
        exact .loaded hst rfl
    · have hload' : ∀ file, op ≠ .load file := fun file heq => hload ⟨file, heq⟩
      exact .other hing' hload' (epoch_step h hload') fun P hP hs => hP.step h hs hing'

/-- **What evidence keeps, too, holds of every accumulator in every run.** -/
theorem RowRule.run [Pod R] [Double R] [Platform R] {P : ObjectiveAccumulator R → Prop}
    (hP : RowRule P) (hoffer : ∀ o a e, P a → P (offer o a e).1) {s : State R} {tr : Trace R}
    (h : Runs (State.fresh R) tr s) : ∀ a ∈ s.accumulators.rows, P a := by
  refine h.invariant (I := fun s => ∀ a ∈ s.accumulators.rows, P a) (by simp [State.fresh])
    fun s op s' r hs _ hstep => ?_
  cases evidence_cases hstep with
  | @offered e now o _ _ _ _ hrows =>
    rw [hrows]
    exact KeyedTable.forall_insert hs (hoffer o _ e (hP.acquired hs o))
  | refused _ _ hrows => rw [hrows]; exact hs
  | loaded hst hs' => rw [hs']; exact hP.restoreStates _ (loadState_objstates hst)
  | failed _ hs' => rw [hs']; exact hs
  | other _ _ _ hrule => exact hrule P hP hs

/-! ## 5. A small fabric

The values concrete runs are built from: policy `1`, contracts of service `1` under it, objectives
of at most 100 ms latency, all with the defaults of the source. -/

def smallPolicy : SloPolicy := { id := ⟨1⟩, gen := ⟨1⟩ }

def smallObjective (id gen : UInt64) : Objective Binary64 :=
  { id := ⟨id⟩, gen := ⟨gen⟩, target := .duration 100000000, freshnessTtl := 1000000000
    allowedUncertainty := Double.ofRat 0, percentileRank := Double.ofRat (99 / 100) }

def smallContract (id gen workload : UInt64) (objectives : List (Objective Binary64)) :
    SloContract Binary64 :=
  { id := ⟨id⟩, gen := ⟨gen⟩, service := ⟨1⟩, workload := ⟨workload⟩, objectives := objectives
    policyId := ⟨1⟩, policyGen := ⟨1⟩, lifecycle := .active }

/-- A latency of `ns` nanoseconds measured for an objective at time `0`. -/
def smallEvidence (id objective : UInt64) (ns : Int64) : EvidenceRecord Binary64 :=
  { id := ⟨id⟩, objectiveId := ⟨objective⟩, value := .duration ns }

/-- The intent to add capacity for objective `1` that an evaluation of contract `1` produces. -/
def smallIntent (evaluation : UInt64) : EnforcementIntent :=
  { action := .increaseCapacity, cls := .authorized, objectiveId := ⟨1⟩, objectiveGen := ⟨1⟩
    service := ⟨1⟩, workload := ⟨1⟩, epoch := ⟨1⟩, contractGen := ⟨1⟩, policyGen := ⟨1⟩
    evidenceGen := ⟨evaluation⟩, evaluationId := ⟨evaluation⟩, evaluationGen := ⟨evaluation⟩
    workloadGen := ⟨1⟩, cooldown := intentCooldown
    reason := Codec.ascii "current violation; enforcement required; binding objective: " }

/-- Is the operation a load? -/
def Op.isLoad : Op R → Bool
  | .load _ => true
  | _ => false

theorem not_load {op : Op R} (h : (!op.isLoad) = true) : ∀ file, op ≠ .load file := by
  rintro file rfl
  cases h

/-- The state a fresh fabric is in after some operations that each meet a condition. -/
def afterIf (c : State Binary64 → Op Binary64 → Bool) (ops : List (Op Binary64)) :
    State Binary64 :=
  ((execute apply c (State.fresh Binary64) ops).map (·.1)).getD (State.fresh Binary64)

/-- The state a fresh fabric is in after some operations. -/
def after (ops : List (Op Binary64)) : State Binary64 := afterIf (fun _ _ => true) ops

theorem run_afterIf {c : State Binary64 → Op Binary64 → Bool}
    {C : State Binary64 → Op Binary64 → Prop} (hc : ∀ s o, c s o = true → C s o)
    (ops : List (Op Binary64)) :
    ∃ tr, Run apply C (State.fresh Binary64) tr (afterIf c ops) :=
  Run.executed hc _ ops

theorem reachable_after (ops : List (Op Binary64)) : Reachable (after ops) :=
  run_afterIf (fun _ _ _ => trivial) ops

/-- The trace that leads there. -/
def traceAfter (ops : List (Op Binary64)) : Trace Binary64 :=
  ((execute apply (fun _ _ => true) (State.fresh Binary64) ops).map (·.2)).getD []

theorem run_after (ops : List (Op Binary64)) :
    Runs (State.fresh Binary64) (traceAfter ops) (after ops) := by
  unfold after afterIf traceAfter
  cases h : execute apply (fun _ _ => true) (State.fresh Binary64) ops with
  | none => exact .start
  | some x => exact .of_execute (fun _ _ _ => trivial) h

/-- A fresh fabric that has taken over what another one saved. -/
def takenOver (saved : State Binary64) (order : List ObjectiveId) : State Binary64 :=
  restart (State.fresh Binary64) (durableOf saved order)

/-- The trace of that load. -/
def takeover (saved : State Binary64) (order : List ObjectiveId) : Trace Binary64 :=
  [(.load (some (save saved order)), .status ok)]

theorem run_takeover {saved : State Binary64} {order : List ObjectiveId}
    (h : reloadable saved order = true) :
    Runs (State.fresh Binary64) (takeover saved order) (takenOver saved order) := by
  refine Run.next .start trivial ?_
  show answer (load _ _) = _
  rw [load_save h]
  rfl

end SloFabric
