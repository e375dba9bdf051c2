/-
  File:      SloFabric/Identity.lean
  Subject:   The ids of receipts and of evaluation records.

  * `Ledger`, `noteIssued`: the fabric with the last receipt `authorize` handed out under each id;
  * `Disjoint`: a file whose ids are distinct, are not handed out again while their entries are
    held, and stand for no other receipts than those handed out under them;
  * `IdentityInv`, `identity_step`: what every step keeps whose load reads such a file;
  * `identity_run`: ids stay unique, `get_evaluation` answers every record of the history, and
    `transition` and `complete_enforcement` act on the receipt `authorize` handed out;
  * `identity_fails`: after a restart the numbers start again.
-/
import SloFabric.Authority
import SloFabric.Records
import SloFabric.Library.Numbering

namespace SloFabric

variable {R : Type}

/-! ## 1. Receipts -/

/-- The receipt is `rc`, at some point of its lifecycle. -/
def IsReceipt (x rc : EnforcementReceipt) : Prop := { x with lifecycle := rc.lifecycle } = rc

/-- **What an update does to the receipts**: there is none of the id, or the first one of the id
    gets the lifecycle `f` answers, if it answers one. -/
theorem updateReceipt_cases (f : EnforcementLifecycle → Except Status EnforcementLifecycle)
    (id : EnforcementId) : ∀ l : List EnforcementReceipt,
    ((∀ x ∈ l, x.id ≠ id) ∧ updateReceipt f id l = (l, notFound "enforcement not found")) ∨
    ∃ before x after lc st, l = before ++ x :: after ∧ x.id = id ∧ (∀ y ∈ before, y.id ≠ id) ∧
      updateReceipt f id l = (before ++ { x with lifecycle := lc } :: after, st) ∧
      (f x.lifecycle = .ok lc ∧ st = ok ∨ f x.lifecycle = .error st ∧ lc = x.lifecycle)
  | [] => Or.inl ⟨by simp, rfl⟩
  | rc :: rest => by
      by_cases hid : rc.id = id
      · refine Or.inr ⟨[], rc, rest, ?_⟩
        unfold updateReceipt
        rw [if_pos hid]
        cases hf : f rc.lifecycle with
        | ok lc => exact ⟨lc, ok, rfl, hid, by simp, rfl, Or.inl ⟨rfl, rfl⟩⟩
        | error st => exact ⟨rc.lifecycle, st, rfl, hid, by simp, rfl, Or.inr ⟨rfl, rfl⟩⟩
      · have hhead : updateReceipt f id (rc :: rest) =
            (rc :: (updateReceipt f id rest).1, (updateReceipt f id rest).2) := by
          rw [updateReceipt, if_neg hid]
        rw [hhead]
        rcases updateReceipt_cases f id rest with
          ⟨hno, h⟩ | ⟨before, x, after, lc, st, rfl, hx, hb, h, hf⟩
        · refine Or.inl ⟨fun y hy => ?_, by rw [h]⟩
          rcases List.mem_cons.mp hy with rfl | hy
          · exact hid
          · exact hno y hy
        · refine Or.inr ⟨rc :: before, x, after, lc, st, rfl, hx, fun y hy => ?_, ?_, hf⟩
          · rcases List.mem_cons.mp hy with rfl | hy
            · exact hid
            · exact hb y hy
          · rw [h]
            rfl

/-- An update changes lifecycles only. -/
theorem mem_updateReceipt {f : EnforcementLifecycle → Except Status EnforcementLifecycle}
    {id : EnforcementId} {l : List EnforcementReceipt} {y : EnforcementReceipt}
    (hy : y ∈ (updateReceipt f id l).1) :
    ∃ x ∈ l, y = { x with lifecycle := y.lifecycle } := by
  rcases updateReceipt_cases f id l with ⟨_, h⟩ | ⟨before, x, after, lc, _, rfl, _, _, h, _⟩
  · rw [h] at hy
    exact ⟨y, hy, rfl⟩
  · rw [h] at hy
    rcases List.mem_append.mp hy with hy | hy
    · exact ⟨y, List.mem_append_left _ hy, rfl⟩
    · rcases List.mem_cons.mp hy with rfl | hy
      · exact ⟨x, by simp, rfl⟩
      · exact ⟨y, by simp [hy], rfl⟩

theorem ids_updateReceipt (f : EnforcementLifecycle → Except Status EnforcementLifecycle)
    (id : EnforcementId) (l : List EnforcementReceipt) :
    (updateReceipt f id l).1.map (·.id) = l.map (·.id) := by
  rcases updateReceipt_cases f id l with ⟨_, h⟩ | ⟨before, x, after, lc, _, rfl, _, _, h, _⟩
  · rw [h]
  · rw [h]
    simp

/-! ## 2. Numbers -/

/-- 64-bit numbers, as the counters of the fabric hand them out. -/
instance : Counter UInt64 where
  next k := k + 1
  ahead k x := (x - (k + 1)).toNat
  period := 2 ^ 64
  ahead_next k := by rw [UInt64.sub_self]; rfl
  ahead_succ k x h := by
    have hsub : x - (k + 1 + 1) = x - (k + 1) - 1 := by grind
    have h1 : (1 : UInt64).toNat = 1 := rfl
    have hle : 1 ≤ x - (k + 1) := UInt64.le_iff_toNat_le.mpr (by rw [h1]; exact h)
    rw [hsub, UInt64.toNat_sub_of_le _ _ hle]
    omega
  ahead_self k := by
    have hsub : k + 1 - (k + 1 + 1) = -1 := by grind
    rw [hsub]
    rfl

instance {d : Domain} : Counter (Id d) where
  next k := ⟨k.value + 1⟩
  ahead k x := Counter.ahead k.value x.value
  period := 2 ^ 64
  ahead_next k := Counter.ahead_next k.value
  ahead_succ k x := Counter.ahead_succ k.value x.value
  ahead_self k := Counter.ahead_self k.value

/-- No receipt's id is another's or comes again while the receipt is held. -/
def ReceiptsClear (counter : UInt64) (l : List EnforcementReceipt) : Prop :=
  Clear historyCap ⟨counter⟩ (l.map (·.id))

/-- No record's id is another's or comes again while the record is held. -/
def RecordsClear (counter : UInt64) (l : List EvaluationRecord) : Prop :=
  Clear historyCap ⟨counter⟩ (l.map (·.evaluationId))

/-- The next entry of a history keeps it clear. -/
theorem clear_pushHistory {α : Type} {d : Domain} {f : α → Id d} {counter : UInt64} {l : List α}
    {x : α} (h : Clear historyCap ⟨counter⟩ (l.map f)) (hl : l.length ≤ kMaxCollectionItems)
    (hx : f x = ⟨counter + 1⟩) :
    Clear historyCap ⟨counter + 1⟩ ((pushHistory l x).map f) := by
  have hperiod : Counter.period (Id d) = 2 ^ 64 := rfl
  have hcap : historyCap ≤ 2 ^ 64 := by decide
  have hmax : kMaxCollectionItems ≤ 2 ^ 64 := by decide
  have hpush := h.push (by decide) (hperiod ▸ hcap) (by
    rw [List.length_map, hperiod]
    exact hl.trans hmax)
  show Clear historyCap _ ((slide historyCap l x).map f)
  rw [map_slide, hx]
  exact hpush

/-- Where the ids of a history with its newest entry are distinct, no entry it keeps has the id
    of the newest one. -/
theorem ne_of_kept {α : Type} {d : Domain} {f : α → Id d} {l : List α} {x y : α}
    (hn : ((pushHistory l x).map f).Nodup)
    (hy : y ∈ if historyCap ≤ l.length then l.tail else l) : f y ≠ f x := by
  rw [pushHistory, List.map_append] at hn
  have hdis := (List.nodup_append.mp hn).2.2
  exact hdis (f y) (List.mem_map_of_mem hy) (f x) (by simp)

/-! ## 3. The receipts handed out -/

/-- The last receipt `authorize` handed out under each id. -/
abbrev Ledger := EnforcementId → Option EnforcementReceipt

def noteIssued (_ : State R) (ledger : Ledger) (x : Op R × Response R) : Ledger :=
  match x.2.receipt with
  | some rc => fun id => if id = rc.id then some rc else ledger id
  | none => ledger

/-- What the ledger holds under an id has it. -/
def Filed (ledger : Ledger) : Prop := ∀ id rc, ledger id = some rc → rc.id = id

/-- The receipts are those the ledger has under their ids, where it has any. -/
def Matches (ledger : Ledger) (l : List EnforcementReceipt) : Prop :=
  ∀ x ∈ l, ∀ rc, ledger x.id = some rc → IsReceipt x rc

section Ledger

variable [Pod R] [Double R] [Platform R]

/-- The fabric with the ledger of its run. -/
abbrev Issuing (R : Type) := Watched (State R) Ledger

def issuingStep (w : Issuing R) (op : Op R) : Option (Issuing R × Response R) :=
  watch apply noteIssued w op

/-- The histories of the file are clear of the numbers the fabric hands out next, and its
    receipts match the ledger. -/
structure Disjoint (w : Issuing R) (st : DurableState R) : Prop where
  receipts : ReceiptsClear w.state.enforcementCounter st.enforcementHistory
  records : RecordsClear w.state.evaluationCounter st.evaluationHistory
  ledger : Matches w.seen st.enforcementHistory

/-- The condition on runs: every load that reads a file reads such a one. -/
def Disjointly (w : Issuing R) : Op R → Prop
  | .load file => ∀ st, loadState R file = .ok st → Disjoint w st
  | _ => True

/-! ## 4. The invariant -/

structure IdentityInv (w : Issuing R) : Prop where
  receipts : ReceiptsClear w.state.enforcementCounter w.state.enforcementHistory
  records : RecordsClear w.state.evaluationCounter w.state.evaluationHistory
  byId : ∀ record ∈ w.state.evaluationHistory,
    w.state.evaluationById.find record.evaluationId = some record
  filed : Filed w.seen
  ledger : Matches w.seen w.state.enforcementHistory
  bounded : HistoriesBounded w.state

omit [Pod R] [Double R] [Platform R] in
/-- A new record is found, and the ones the history keeps are still found. -/
theorem byId_evaluated {s s' : State R} {record : EvaluationRecord} (h : Evaluated s s' record)
    (hn : (s'.evaluationHistory.map (·.evaluationId)).Nodup)
    (hs : ∀ r ∈ s.evaluationHistory, s.evaluationById.find r.evaluationId = some r) :
    ∀ r ∈ s'.evaluationHistory, s'.evaluationById.find r.evaluationId = some r := by
  intro r hr
  rw [h.history] at hr hn
  rw [h.byId]
  rcases mem_slide hr with rfl | hkept
  · exact KeyedTable.find_insert_self _ _
  · rw [KeyedTable.find_insert_ne _ (ne_of_kept hn hkept)]
    exact hs r (mem_of_mem_kept hkept)

omit [Pod R] [Double R] [Platform R] in
/-- A new receipt is the one in the ledger, and the ones the history keeps still match it. -/
theorem matches_issued {s s' : State R} {rc : EnforcementReceipt} {ledger : Ledger}
    (h : Issued s s' rc) (hn : (s'.enforcementHistory.map (·.id)).Nodup)
    (hs : Matches ledger s.enforcementHistory) (op : Op R) :
    Matches (noteIssued s ledger (op, .authorized (.ok rc))) s'.enforcementHistory := by
  intro x hx rc' hrc
  rw [h.history] at hx hn
  simp only [noteIssued, Response.receipt] at hrc
  rcases mem_slide hx with rfl | hkept
  · rw [if_pos rfl] at hrc
    cases hrc
    rfl
  · rw [if_neg (ne_of_kept hn hkept)] at hrc
    exact hs x (mem_of_mem_kept hkept) rc' hrc

omit [Pod R] [Double R] in
/-- Updated receipts are the receipts they were. -/
theorem matches_updated {ledger : Ledger} {l : List EnforcementReceipt} (hs : Matches ledger l)
    (f : EnforcementLifecycle → Except Status EnforcementLifecycle) (id : EnforcementId) :
    Matches ledger (updateReceipt f id l).1 := by
  intro y hy rc hrc
  obtain ⟨x, hx, he⟩ := mem_updateReceipt hy
  rw [he] at hrc ⊢
  exact hs x hx rc hrc

/-- The receipts stay clear, if those of a file that is loaded are. -/
theorem receiptsClear_step {s s' : State R} {op : Op R} {r : Response R}
    (hs : ReceiptsClear s.enforcementCounter s.enforcementHistory) (hb : HistoriesBounded s)
    (hop : ∀ file st, op = .load file → loadState R file = .ok st →
      ReceiptsClear s.enforcementCounter st.enforcementHistory)
    (h : apply s op = some (s', r)) :
    ReceiptsClear s'.enforcementCounter s'.enforcementHistory := by
  cases records_cases h with
  | same hsame _ _ => rwa [ReceiptsClear, hsame.enforcement, hsame.enforcementCounter]
  | evaluated heval _ _ => rwa [ReceiptsClear, heval.enforcement, heval.enforcementCounter]
  | issued hiss =>
    rw [ReceiptsClear, hiss.history, hiss.counter]
    exact clear_pushHistory hs hb.enforcement hiss.id
  | updated hup _ _ => rwa [ReceiptsClear, hup.history, hup.counter, ids_updateReceipt]
  | loaded hst h' => rw [h']; exact hop _ _ rfl hst

/-- So do the evaluation records. -/
theorem recordsClear_step {s s' : State R} {op : Op R} {r : Response R}
    (hs : RecordsClear s.evaluationCounter s.evaluationHistory) (hb : HistoriesBounded s)
    (hop : ∀ file st, op = .load file → loadState R file = .ok st →
      RecordsClear s.evaluationCounter st.evaluationHistory)
    (h : apply s op = some (s', r)) :
    RecordsClear s'.evaluationCounter s'.evaluationHistory := by
  cases records_cases h with
  | same hsame _ _ => rwa [RecordsClear, hsame.evaluation, hsame.evaluationCounter]
  | evaluated heval _ _ =>
    rw [RecordsClear, heval.history, heval.counter]
    exact clear_pushHistory hs hb.evaluation heval.id
  | issued hiss => rwa [RecordsClear, hiss.evaluation, hiss.evaluationCounter]
  | updated hup _ _ => rwa [RecordsClear, hup.evaluation, hup.evaluationCounter]
  | loaded hst h' => rw [h']; exact hop _ _ rfl hst

/-- **The step lemma.** -/
theorem identity_step {w w' : Issuing R} {op : Op R} {r : Response R} (hw : IdentityInv w)
    (hc : Disjointly w op) (h : issuingStep w op = some (w', r)) : IdentityInv w' := by
  obtain ⟨hs, hseen⟩ := watch_cases h
  have hbounded := historiesBounded_step hw.bounded hs
  have hdisjoint : ∀ file st, op = .load file → loadState R file = .ok st → Disjoint w st := by
    rintro file st rfl hst
    exact hc st hst
  have hreceipts := receiptsClear_step hw.receipts hw.bounded
    (fun file st hop hst => (hdisjoint file st hop hst).receipts) hs
  have hrecords := recordsClear_step hw.records hw.bounded
    (fun file st hop hst => (hdisjoint file st hop hst).records) hs
  have hkeep : r.receipt = none → w'.seen = w.seen := by
    intro hr
    rw [hseen, noteIssued]
    simp only [hr]
  refine ⟨hreceipts, hrecords, ?_, ?_, ?_, hbounded⟩
  · cases records_cases hs with
    | same hsame _ _ => rw [hsame.evaluation, hsame.byId]; exact hw.byId
    | evaluated heval _ _ => exact byId_evaluated heval hrecords.nodup hw.byId
    | issued hiss => rw [hiss.evaluation, hiss.byId]; exact hw.byId
    | updated hup _ _ => rw [hup.evaluation, hup.byId]; exact hw.byId
    | @loaded _ st hst hload =>
      rw [hload] at hrecords ⊢
      exact fun record hrecord => KeyedTable.find_ofList hrecords.nodup hrecord
  · cases hr : r.receipt with
    | none => rw [hkeep hr]; exact hw.filed
    | some rc =>
      intro id rc' hrc
      rw [hseen] at hrc
      simp only [noteIssued, hr] at hrc
      split at hrc
      · rename_i hid
        cases hrc
        exact hid.symm
      · exact hw.filed id rc' hrc
  · cases records_cases hs with
    | same hsame _ hauth => rw [hkeep hauth, hsame.enforcement]; exact hw.ledger
    | evaluated heval _ hauth => rw [hkeep hauth, heval.enforcement]; exact hw.ledger
    | issued hiss =>
      rw [hseen]
      exact matches_issued hiss hreceipts.nodup hw.ledger _
    | updated hup _ hauth =>
      rw [hkeep hauth, hup.history]
      exact matches_updated hw.ledger _ _
    | loaded hst hload =>
      rw [hkeep rfl, hload]
      exact (hdisjoint _ _ rfl hst).ledger

theorem identityInv_run {w : Issuing R} {tr : Trace R}
    (h : Run issuingStep Disjointly ⟨State.fresh R, fun _ => none⟩ tr w) : IdentityInv w := by
  refine h.invariant ?_ fun _ _ _ _ => identity_step
  refine ⟨Clear.nil _ _, Clear.nil _ _, by simp [State.fresh], fun id rc hrc => ?_,
    fun x hx => ?_, ⟨Nat.zero_le _, Nat.zero_le _⟩⟩
  · cases hrc
  · cases hx

/-! ## 5. Identity -/

/-- An operation on id `id` acts on receipt `rc`: it finds no receipt of the id and changes
    nothing, or it finds `rc`, the only one of the id, and changes at most its lifecycle. -/
def ActsOn (s : State R) (id : EnforcementId) (rc : EnforcementReceipt) (y : State R × Status) :
    Prop :=
  ((∀ x ∈ s.enforcementHistory, x.id ≠ id) ∧ y = (s, notFound "enforcement not found")) ∨
  ∃ before x after lc, s.enforcementHistory = before ++ x :: after ∧ IsReceipt x rc ∧
    (∀ z ∈ before ++ after, z.id ≠ id) ∧
    y.1 = { s with enforcementHistory := before ++ { x with lifecycle := lc } :: after }

omit [Pod R] [Double R] [Platform R] in
theorem actsOn_updateReceipt {s : State R} {ledger : Ledger} {id : EnforcementId}
    {rc : EnforcementReceipt} (hn : (s.enforcementHistory.map (·.id)).Nodup)
    (hm : Matches ledger s.enforcementHistory) (hrc : ledger id = some rc)
    (f : EnforcementLifecycle → Except Status EnforcementLifecycle) :
    ActsOn s id rc
      ({ s with enforcementHistory := (updateReceipt f id s.enforcementHistory).1 },
        (updateReceipt f id s.enforcementHistory).2) := by
  rcases updateReceipt_cases f id s.enforcementHistory with
    ⟨hno, h⟩ | ⟨before, x, after, lc, st, hl, hx, _, h, _⟩
  · refine Or.inl ⟨hno, ?_⟩
    rw [h]
  · refine Or.inr ⟨before, x, after, lc, hl, ?_, fun z hz hid => ?_, by rw [h]⟩
    · exact hm x (by rw [hl]; simp) rc (hx ▸ hrc)
    · -- `z` would be a second receipt of the id
      rw [hl, List.map_append, List.map_cons] at hn
      have hmem : x.id ∈ before.map (·.id) ++ after.map (·.id) := by
        rw [← List.map_append, hx, ← hid]
        exact List.mem_map_of_mem hz
      exact (List.nodup_cons.mp (List.nodup_middle.mp hn)).1 hmem

/-- **Identifiers stay unique.** In every run whose loads read files of other numbers than the
    fabric hands out: no two receipts and no two records of the histories have the same id,
    `get_evaluation` answers every record of the history, and whatever receipt `authorize`
    handed out last under an id is the one `transition` and `complete_enforcement` act on. -/
theorem identity_run {w : Issuing R} {tr : Trace R}
    (h : Run issuingStep Disjointly ⟨State.fresh R, fun _ => none⟩ tr w) :
    (w.state.enforcementHistory.map (·.id)).Nodup ∧
    (w.state.evaluationHistory.map (·.evaluationId)).Nodup ∧
    (∀ record ∈ w.state.evaluationHistory,
      getEvaluation w.state record.evaluationId = .ok record) ∧
    ∀ id rc, w.seen id = some rc → rc.id = id ∧
      (∀ dst now, ActsOn w.state id rc (transition w.state id dst now)) ∧
      ∀ now, ActsOn w.state id rc (completeEnforcement w.state id now) := by
  have hinv := identityInv_run h
  refine ⟨hinv.receipts.nodup, hinv.records.nodup, fun record hrecord => ?_, fun id rc hrc => ?_⟩
  · unfold getEvaluation
    rw [hinv.byId record hrecord]
  · have hn := hinv.receipts.nodup
    exact ⟨hinv.filed id rc hrc, fun dst _ => actsOn_updateReceipt hn hinv.ledger hrc _,
      fun _ => actsOn_updateReceipt hn hinv.ledger hrc _⟩

omit [Pod R] [Double R] [Platform R] in
/-- What a fabric has saved last it can always load. -/
theorem disjoint_own {w : Issuing R} (hw : IdentityInv w) (order : List ObjectiveId) :
    Disjoint w (durableOf w.state order) := ⟨hw.receipts, hw.records, hw.ledger⟩

/-- Loading what it has just saved is a step of such a run. -/
theorem run_reload {w : Issuing R} {tr : Trace R} {order : List ObjectiveId}
    (h : Run issuingStep Disjointly ⟨State.fresh R, fun _ => none⟩ tr w)
    (hre : reloadable w.state order = true) :
    Run issuingStep Disjointly ⟨State.fresh R, fun _ => none⟩
      (tr ++ [(.load (some (save w.state order)), .status ok)])
      ⟨restart w.state (durableOf w.state order), w.seen⟩ := by
  refine h.next (fun st hst => ?_) ?_
  · rw [loadState_save hre] at hst
    cases hst
    exact disjoint_own (identityInv_run h) order
  · have hstep : apply w.state (.load (some (save w.state order))) =
        some (restart w.state (durableOf w.state order), .status ok) := by
      show answer (load _ _) = _
      rw [load_save hre]
      rfl
    rw [issuingStep, watch, hstep]
    rfl

end Ledger

/-! ## 6. The numbers after a restart -/

/-- **After a restart the numbers start again**: the first evaluation of the fabric that takes
    over has the id of the first one of the fabric that saved. -/
theorem identity_fails :
    ¬∀ s : State Binary64, Reachable s →
      (s.enforcementHistory.map (·.id)).Nodup ∧
      (s.evaluationHistory.map (·.evaluationId)).Nodup ∧
      ∀ record ∈ s.evaluationHistory, getEvaluation s record.evaluationId = .ok record := by
  intro hall
  have hre : reloadable (after (evaluated 1)) [⟨1⟩] = true := by decide +kernel
  have hev : (reported (evaluate (takenOver (after (evaluated 1)) [⟨1⟩]) ⟨1⟩ ⟨1⟩ 0)).any
      (fun x => x.1.evaluationHistory.map (·.evaluationId) = [⟨1⟩, ⟨1⟩]) = true := by
    decide +kernel
  obtain ⟨s', res, he, hids⟩ := of_reported hev
  have hstep : apply (takenOver (after (evaluated 1)) [⟨1⟩]) (.evaluate ⟨1⟩ ⟨1⟩ 0) =
      some (s', .evaluated (.ok res)) := by
    rw [apply, he]
    rfl
  have hnodup := (hall s' ⟨_, (run_takeover hre).next trivial hstep⟩).2.1
  rw [of_decide_eq_true hids] at hnodup
  exact absurd hnodup (by decide)

/-- Is the operation none that reads a file? -/
def readsNone : Op Binary64 → Bool
  | .load _ => false
  | _ => true

/-- A fabric that has authorized the intent of its first evaluation. -/
def issuing : Issuing Binary64 :=
  ((execute issuingStep (fun _ op => readsNone op) ⟨State.fresh Binary64, fun _ => none⟩
    (evaluated 1 ++ (nextIntent 0).toList.map (.authorize · 0))).map (·.1)).getD
      ⟨State.fresh Binary64, fun _ => none⟩

theorem run_issuing :
    ∃ tr, Run issuingStep Disjointly ⟨State.fresh Binary64, fun _ => none⟩ tr issuing := by
  refine Run.executed (fun w op hop => ?_) _ _
  cases op with
  | load file => cases hop
  | _ => trivial

/-- It reloads its own file, and `transition` still finds the receipt it handed out. -/
theorem identity_run_small :
    ∃ rc, issuing.seen ⟨1⟩ = some rc ∧ rc.id = ⟨1⟩ ∧ ∀ dst now,
      ActsOn (restart issuing.state (durableOf issuing.state [⟨1⟩])) ⟨1⟩ rc
        (transition (restart issuing.state (durableOf issuing.state [⟨1⟩])) ⟨1⟩ dst now) := by
  have hre : reloadable issuing.state [⟨1⟩] = true := by decide +kernel
  have hseen : (issuing.seen ⟨1⟩).isSome = true := by decide +kernel
  obtain ⟨rc, hrc⟩ := Option.isSome_iff_exists.mp hseen
  obtain ⟨tr, hrun⟩ := run_issuing
  have hledger := (identity_run (run_reload hrun hre)).2.2.2
  dsimp only at hledger
  obtain ⟨hid, hact, _⟩ := hledger ⟨1⟩ rc hrc
  exact ⟨rc, hrc, hid, hact⟩

end SloFabric
