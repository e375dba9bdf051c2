/-
  File:      SloFabric/Dispatch.lean
  Subject:   What reaches a runtime through `dispatch`.

  * `ReferenceEnforcementSink`: the sink of the source, which records every intent it is handed;
    `sink_dispatch`: it answers and records `ok` exactly when it does not refuse the intent;
  * `Admissible`: an earlier `authorize` accepted the intent, and epoch, contract and policy are
    still those it was accepted under; `admissible_issued`: at first they are;
  * `dispatch_iff`: what is not admissible is kept from the runtime exactly when the sink
    refuses it by itself;
  * `dispatch_fails`: an intent nobody authorized is executed.
-/
import SloFabric.Receipts

namespace SloFabric

variable {R : Type}

/-! ## 1. The sink -/

structure DispatchRecord where
  action : EnforcementAction
  intent : EnforcementIntent
  status : Status
  seq : UInt64
  deriving DecidableEq

structure ReferenceEnforcementSink where
  records : List DispatchRecord := []
  seq : UInt64 := 0
  fence : Bool := false
  failAll : Bool := false
  epoch : CoordinatorEpoch := ⟨0⟩
  contractGen : SloContractGen := ⟨0⟩
  policyGen : PolicyGen := ⟨0⟩
  evalGen : EvaluationGen := ⟨0⟩

/-- Are all generations present? -/
def validateIntentGenerations (i : EnforcementIntent) : Status :=
  if !i.contractGen.valid then invalidInput "intent missing contract generation"
  else if !i.policyGen.valid then invalidInput "intent missing policy generation"
  else if !i.evaluationGen.valid then invalidInput "intent missing evaluation generation"
  else if !i.epoch.valid then invalidInput "intent missing coordinator epoch"
  else ok

namespace ReferenceEnforcementSink

def setAuthorizedGenerations (sink : ReferenceEnforcementSink) (epoch : CoordinatorEpoch)
    (contractGen : SloContractGen) (policyGen : PolicyGen) (evalGen : EvaluationGen) :
    ReferenceEnforcementSink :=
  { sink with
    fence := true, epoch := epoch, contractGen := contractGen, policyGen := policyGen
    evalGen := evalGen }

def disableGenerationFence (sink : ReferenceEnforcementSink) : ReferenceEnforcementSink :=
  { sink with fence := false }

/-- Record a dispatch with what is answered. -/
def answer (sink : ReferenceEnforcementSink) (action : EnforcementAction)
    (i : EnforcementIntent) (st : Status) : ReferenceEnforcementSink × Status :=
  ({ sink with records := sink.records ++ [⟨action, i, st, sink.seq + 1⟩], seq := sink.seq + 1 },
    st)

/-- Are the intent's generations others than those the fence was set to? -/
def mismatch (sink : ReferenceEnforcementSink) (i : EnforcementIntent) : Bool :=
  i.epoch != sink.epoch || i.contractGen != sink.contractGen || i.policyGen != sink.policyGen ||
    i.evaluationGen != sink.evalGen

def dispatch (sink : ReferenceEnforcementSink) (action : EnforcementAction)
    (i : EnforcementIntent) : ReferenceEnforcementSink × Status :=
  let v := validateIntentGenerations i
  if !v.isOk then sink.answer action i v
  else if sink.fence && sink.mismatch i then
    sink.answer action i (staleAuthority "intent generation does not match current authority")
  else if sink.failAll then
    sink.answer action i (enforcementFailed "simulated adapter failure")
  else sink.answer action i ok

/-- The sink refuses the intent by itself: a generation is missing, the fence is set to other
    ones, or it simulates a failure. -/
def Refuses (sink : ReferenceEnforcementSink) (i : EnforcementIntent) : Prop :=
  (i.contractGen.valid && i.policyGen.valid && i.evaluationGen.valid && i.epoch.valid) = false ∨
    (sink.fence && sink.mismatch i) = true ∨ sink.failAll = true

end ReferenceEnforcementSink

theorem validateIntentGenerations_isOk (i : EnforcementIntent) :
    (validateIntentGenerations i).isOk =
      (i.contractGen.valid && i.policyGen.valid && i.evaluationGen.valid && i.epoch.valid) := by
  unfold validateIntentGenerations
  cases i.contractGen.valid <;> cases i.policyGen.valid <;> cases i.evaluationGen.valid <;>
    cases i.epoch.valid <;> rfl

/-- **The sink records what it answers**, and answers `ok` exactly when it does not refuse. -/
theorem sink_dispatch (sink : ReferenceEnforcementSink) (action : EnforcementAction)
    (i : EnforcementIntent) :
    ∃ st, sink.dispatch action i = sink.answer action i st ∧
      (st.isOk = true ↔ ¬sink.Refuses i) := by
  have hvalid := validateIntentGenerations_isOk i
  unfold ReferenceEnforcementSink.dispatch ReferenceEnforcementSink.Refuses
  rw [← hvalid]
  simp only
  split
  · rename_i hv
    have hno : (validateIntentGenerations i).isOk = false := by simpa using hv
    exact ⟨_, rfl, by simp [hno]⟩
  · rename_i hv
    split
    · rename_i hf
      exact ⟨_, rfl, by simp [hf, staleAuthority, Status.isOk]⟩
    · rename_i hf
      split
      · rename_i hfail
        exact ⟨_, rfl, by simp [hfail, enforcementFailed, Status.isOk]⟩
      · rename_i hfail
        exact ⟨ok, rfl, by simpa [hf, hfail] using hv⟩

/-- **What the fence of a sink fences**: generations other than those it was set to. -/
theorem fence_matches {sink : ReferenceEnforcementSink} {action : EnforcementAction}
    {i : EnforcementIntent} {epoch : CoordinatorEpoch} {contractGen : SloContractGen}
    {policyGen : PolicyGen} {evalGen : EvaluationGen}
    (h : ((sink.setAuthorizedGenerations epoch contractGen policyGen evalGen).dispatch action
      i).2.isOk = true) :
    i.epoch = epoch ∧ i.contractGen = contractGen ∧ i.policyGen = policyGen ∧
      i.evaluationGen = evalGen := by
  obtain ⟨st, hst, hok⟩ := sink_dispatch
    (sink.setAuthorizedGenerations epoch contractGen policyGen evalGen) action i
  rw [hst] at h
  have hfence := hok.mp h
  simp only [ReferenceEnforcementSink.Refuses, ReferenceEnforcementSink.mismatch,
    ReferenceEnforcementSink.setAuthorizedGenerations, Bool.true_and, not_or,
    Bool.not_eq_true, Bool.or_eq_false_iff, bne_eq_false_iff_eq] at hfence
  obtain ⟨_, ⟨⟨⟨hepoch, hcontract⟩, hpolicy⟩, heval⟩, _⟩ := hfence
  exact ⟨hepoch, hcontract, hpolicy, heval⟩

/-- `dispatch` of the fabric: it counts the call and hands the intent to the sink. -/
def dispatch (s : State R) (intent : EnforcementIntent) (sink : ReferenceEnforcementSink) :
    State R × ReferenceEnforcementSink × Status :=
  (noteDispatch s, sink.dispatch intent.action intent)

/-! ## 2. Admissible intents -/

variable [Pod R] [Double R] [Platform R]

/-- An earlier `authorize` of the run accepted the intent against contract `c`. -/
def AcceptedUnder (tr : Trace R) (intent : EnforcementIntent) (c : SloContract R) : Prop :=
  ∃ tr₁ tr₂ s now rc, tr = tr₁ ++ (.authorize intent now, .authorized (.ok rc)) :: tr₂ ∧
    Runs (State.fresh R) tr₁ s ∧ Checked s intent now c

/-- **Authorized and current**: the intent was accepted, and it still has the current epoch and
    the stored generations of its contract and that contract's policy. -/
def Admissible (tr : Trace R) (s : State R) (intent : EnforcementIntent) : Prop :=
  ∃ c, AcceptedUnder tr intent c ∧ intent.epoch = s.epoch ∧
    (∃ c', s.contracts.find c.id = some c' ∧ c'.gen = intent.contractGen) ∧
    ∃ p, s.policies.find c.policyId = some p ∧ p.gen = intent.policyGen

/-- **An intent that was just accepted is admissible.** -/
theorem admissible_issued {tr : Trace R} {s s' : State R} {intent : EnforcementIntent}
    {now : Duration} {rc : EnforcementReceipt} (h : Runs (State.fresh R) tr s)
    (hs : apply s (.authorize intent now) = some (s', .authorized (.ok rc))) :
    Admissible (tr ++ [(.authorize intent now, .authorized (.ok rc))]) s' intent := by
  cases receipts_cases hs with
  | same _ _ _ hauth => cases hauth
  | @issued _ _ c hc hs' =>
    have hrow := KeyedTable.mem_rows.mp (intentContract_some hc.found).1
    rw [hs']
    exact ⟨c, ⟨tr, [], s, now, _, rfl, h, hc⟩, hc.epoch, ⟨c, hrow, hc.gen⟩, hc.policy⟩

/-! ## 3. The fence -/

/-- **Only admissible intents reach the runtime**: `dispatch` answers `ok`, and the sink records
    a dispatch that is `ok`, only for such an intent. -/
structure DispatchFenced (tr : Trace R) (s : State R) (sink : ReferenceEnforcementSink)
    (intent : EnforcementIntent) : Prop where
  answered : (dispatch s intent sink).2.2.isOk = true → Admissible tr s intent
  recorded : ∀ record ∈ (dispatch s intent sink).2.1.records.drop sink.records.length,
    record.status.isOk = true → Admissible tr s intent

/-- **When dispatches are fenced.** In whatever state, whatever run led there, and whatever
    intent is dispatched to whatever sink: the dispatch is fenced if and only if the sink refuses
    the intent by itself or the intent is admissible. -/
theorem dispatch_iff (tr : Trace R) (s : State R) (sink : ReferenceEnforcementSink)
    (intent : EnforcementIntent) :
    DispatchFenced tr s sink intent ↔ sink.Refuses intent ∨ Admissible tr s intent := by
  obtain ⟨st, hst, hok⟩ := sink_dispatch sink intent.action intent
  have hanswer : (dispatch s intent sink).2.2 = st := by
    rw [dispatch, hst]
    rfl
  have hrecords : (dispatch s intent sink).2.1.records.drop sink.records.length =
      [⟨intent.action, intent, st, sink.seq + 1⟩] := by
    rw [dispatch, hst]
    exact List.drop_left
  constructor
  · intro h
    by_cases hr : sink.Refuses intent
    · exact Or.inl hr
    · exact Or.inr (h.answered (by rw [hanswer]; exact hok.mpr hr))
  · intro h
    have hadm : st.isOk = true → Admissible tr s intent := fun hs => h.resolve_left (hok.mp hs)
    refine ⟨fun hs => hadm (hanswer ▸ hs), fun record hrecord hs => ?_⟩
    rw [hrecords, List.mem_singleton] at hrecord
    rw [hrecord] at hs
    exact hadm hs

/-! ## 4. An intent nobody authorized -/

/-- **An intent nobody authorized is executed** where the sink's fence is disabled. -/
theorem dispatch_fails :
    ¬∀ (tr : Trace Binary64) (s : State Binary64) (sink : ReferenceEnforcementSink)
      (intent : EnforcementIntent), Runs (State.fresh Binary64) tr s →
      DispatchFenced tr s sink.disableGenerationFence intent := by
  intro hall
  have hfence := hall [] (State.fresh Binary64) {} (smallIntent 1) .start
  obtain ⟨c, ⟨tr₁, tr₂, _, _, _, htr, _⟩, _⟩ := hfence.answered (by decide)
  simp at htr

end SloFabric
