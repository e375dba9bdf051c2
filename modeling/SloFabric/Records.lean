/-
  File:      SloFabric/Records.lean
  Subject:   What a step does to the histories and to the counters their ids come from.

  * `records_cases`: a step leaves them alone, appends one numbered entry, changes the lifecycle
    of one receipt, or takes over those of a file;
  * `historiesBounded_run`: no history outgrows what a decoder takes.
-/
import SloFabric.Machine

namespace SloFabric

variable {R : Type}

/-! ## 1. One step -/

/-- Histories and counters are those of `s`. -/
structure SameRecords (s s' : State R) : Prop where
  enforcement : s'.enforcementHistory = s.enforcementHistory
  evaluation : s'.evaluationHistory = s.evaluationHistory
  byId : s'.evaluationById = s.evaluationById
  enforcementCounter : s'.enforcementCounter = s.enforcementCounter
  evaluationCounter : s'.evaluationCounter = s.evaluationCounter

/-- The evaluations are those of `s`. -/
structure SameEvaluations (s s' : State R) : Prop where
  evaluation : s'.evaluationHistory = s.evaluationHistory
  byId : s'.evaluationById = s.evaluationById
  evaluationCounter : s'.evaluationCounter = s.evaluationCounter

/-- An evaluation was counted and recorded. -/
structure Evaluated (s s' : State R) (record : EvaluationRecord) : Prop where
  id : record.evaluationId = ⟨s.evaluationCounter + 1⟩
  counter : s'.evaluationCounter = s.evaluationCounter + 1
  history : s'.evaluationHistory = pushHistory s.evaluationHistory record
  byId : s'.evaluationById = s.evaluationById.insert record
  enforcement : s'.enforcementHistory = s.enforcementHistory
  enforcementCounter : s'.enforcementCounter = s.enforcementCounter

/-- A receipt was numbered and recorded. -/
structure Issued (s s' : State R) (rc : EnforcementReceipt) : Prop extends
    SameEvaluations s s' where
  id : rc.id = ⟨s.enforcementCounter + 1⟩
  counter : s'.enforcementCounter = s.enforcementCounter + 1
  history : s'.enforcementHistory = pushHistory s.enforcementHistory rc

/-- A receipt was looked up by its id and may have a new lifecycle. -/
structure Updated (s s' : State R) (id : EnforcementId)
    (f : EnforcementLifecycle → Except Status EnforcementLifecycle) : Prop extends
    SameEvaluations s s' where
  history : s'.enforcementHistory = (updateReceipt f id s.enforcementHistory).1
  counter : s'.enforcementCounter = s.enforcementCounter

/-- The receipt an answer hands out. -/
def Response.receipt : Response R → Option EnforcementReceipt
  | .authorized (.ok rc) => some rc
  | _ => none

/-- Did a load succeed? -/
def loaded : Op R → Response R → Bool
  | .load _, .status st => st.isOk
  | _, _ => false

variable [Pod R] [Double R] [Platform R]

/-- **What a step does to the records.** -/
inductive RecordStep (s s' : State R) : Op R → Response R → Prop where
  | same {op : Op R} {r : Response R} (hs : SameRecords s s') (hload : loaded op r = false)
      (hauth : r.receipt = none) : RecordStep s s' op r
  | evaluated {op : Op R} {r : Response R} {record : EvaluationRecord}
      (hs : Evaluated s s' record) (hload : loaded op r = false) (hauth : r.receipt = none) :
      RecordStep s s' op r
  | issued {op : Op R} {rc : EnforcementReceipt} (hs : Issued s s' rc) :
      RecordStep s s' op (.authorized (.ok rc))
  | updated {op : Op R} {r : Response R} {id : EnforcementId}
      {f : EnforcementLifecycle → Except Status EnforcementLifecycle} (hs : Updated s s' id f)
      (hload : loaded op r = false) (hauth : r.receipt = none) : RecordStep s s' op r
  | loaded {file : Option Bytes} {st : DurableState R} (hst : loadState R file = .ok st)
      (hs : s' = restart s st) : RecordStep s s' (.load file) (.status ok)

theorem records_cases {s s' : State R} {op : Op R} {r : Response R}
    (h : apply s op = some (s', r)) : RecordStep s s' op r := by
  cases frame_cases h with
  | policies h' | ingested h' | dispatched h' | saved h' =>
    rw [h']
    exact .same ⟨rfl, rfl, rfl, rfl, rfl⟩ rfl rfl
  | contracts hop h' | objectives hop h' =>
    rw [h']
    refine .same ⟨rfl, rfl, rfl, rfl, rfl⟩ ?_ rfl
    cases op with
    | load file => cases hop
    | _ => rfl
  | evaluated hx =>
    rcases evaluate_cases hx with ⟨_, _, h'⟩ | ⟨_, _, _, _, _, _, _, _, _, _, h'⟩
    · rw [h']
      exact .same ⟨rfl, rfl, rfl, rfl, rfl⟩ rfl rfl
    · rw [h']
      refine .evaluated ⟨?_, rfl, rfl, rfl, rfl, rfl⟩ rfl rfl
      unfold intentOf
      split <;> rfl
  | @authorized intent now _ hx =>
    rcases authorize_cases s intent now with ⟨_, h'⟩ | ⟨_, _, _, _, _, _, _, _, _, h'⟩
    · cases hx.symm.trans h'
      exact .same ⟨rfl, rfl, rfl, rfl, rfl⟩ rfl rfl
    · cases hx.symm.trans h'
      exact .issued ⟨⟨rfl, rfl, rfl⟩, rfl, rfl, rfl⟩
  | @transition id dst now _ hx =>
    cases hx
    have hup : Updated s (transition s id dst now).1 id (transitionTo dst) :=
      ⟨⟨rfl, rfl, rfl⟩, rfl, rfl⟩
    exact .updated hup rfl rfl
  | @completed id now _ hx =>
    cases hx
    have hup : Updated s (completeEnforcement s id now).1 id completed :=
      ⟨⟨rfl, rfl, rfl⟩, rfl, rfl⟩
    exact .updated hup rfl rfl
  | failed he h' =>
    rw [h']
    exact .same ⟨rfl, rfl, rfl, rfl, rfl⟩ (loadState_error he) rfl
  | loaded hst h' => exact .loaded hst h'

/-! ## 2. The length of the histories -/

omit [Pod R] [Double R] in
theorem length_pushHistory {α : Type} (l : List α) (x : α) :
    (pushHistory l x).length = if historyCap ≤ l.length then l.length else l.length + 1 := by
  unfold pushHistory
  split
  · rename_i h
    have hcap : historyCap = 1024 := rfl
    rw [List.length_append, List.length_tail, List.length_singleton]
    omega
  · rw [List.length_append, List.length_singleton]

omit [Pod R] [Double R] in
theorem length_pushHistory_le {α : Type} {l : List α} {x : α}
    (h : l.length ≤ kMaxCollectionItems) : (pushHistory l x).length ≤ kMaxCollectionItems := by
  have hcap : historyCap ≤ kMaxCollectionItems := by decide
  rw [length_pushHistory]
  split <;> omega

omit [Pod R] [Double R] in
@[simp] theorem length_updateReceipt
    (f : EnforcementLifecycle → Except Status EnforcementLifecycle) (id : EnforcementId) :
    ∀ l : List EnforcementReceipt, (updateReceipt f id l).1.length = l.length
  | [] => rfl
  | rc :: rest => by
      unfold updateReceipt
      split
      · split <;> rfl
      · rw [List.length_cons, length_updateReceipt f id rest, List.length_cons]

/-- Both histories are no longer than a decoder allows. -/
structure HistoriesBounded (s : State R) : Prop where
  enforcement : s.enforcementHistory.length ≤ kMaxCollectionItems
  evaluation : s.evaluationHistory.length ≤ kMaxCollectionItems

theorem historiesBounded_step {s s' : State R} {op : Op R} {r : Response R}
    (hs : HistoriesBounded s) (h : apply s op = some (s', r)) : HistoriesBounded s' := by
  cases records_cases h with
  | same h' => exact ⟨h'.enforcement ▸ hs.enforcement, h'.evaluation ▸ hs.evaluation⟩
  | evaluated h' =>
    exact ⟨h'.enforcement ▸ hs.enforcement, h'.history ▸ length_pushHistory_le hs.evaluation⟩
  | issued h' =>
    exact ⟨h'.history ▸ length_pushHistory_le hs.enforcement, h'.evaluation ▸ hs.evaluation⟩
  | updated h' =>
    refine ⟨?_, h'.evaluation ▸ hs.evaluation⟩
    rw [h'.history, length_updateReceipt]
    exact hs.enforcement
  | loaded hst h' =>
    have hstore := loadState_storable hst
    simp only [durableStorable, Bool.and_eq_true, decide_eq_true_eq] at hstore
    rw [h']
    exact ⟨hstore.1.2, hstore.2⟩

end SloFabric
