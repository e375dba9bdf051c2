/-
  File:      SloFabric/Revalidation.lean
  Subject:   What an evaluation can say about an objective that has had no evidence since the
             last load.

  * `quiet`: no record and no recovery event was accepted for the objective since the load;
  * `unmeasured_of_fenced_nil`: an accumulator nothing has entered has no measurement, except
    where its definition is one of recovery time;
  * `neverRecovering_run`: no verdict is Recovering;
  * `revalidated_iff`: an evaluation keeps quiet objectives from a verdict exactly when it
    measures none of them as a recovery time;
  * `revalidated_fails`: a failure in progress at the save is reported Compliant after the load.
-/
import SloFabric.EvidenceFence

namespace SloFabric

variable {R : Type}

open Double

/-! ## 1. Quiet objectives -/

/-- Note one step for one objective: a load makes it quiet, a record or a recovery event that is
    accepted for it ends that. -/
def quietStep (id : ObjectiveId) (q : Bool) : Op R × Response R → Bool
  | (.load _, .status st) => st.isOk || q
  | (.ingest e _, .status st) => q && !(st.isOk && e.objectiveId = id)
  | (.recordRecoveryEvent k _ _, .status st) => q && !(st.isOk && k = id)
  | _ => q

/-- Was there a load, and nothing accepted for the objective since? -/
def quiet (id : ObjectiveId) (tr : Trace R) : Bool := tr.foldl (quietStep id) false

theorem quiet_append (id : ObjectiveId) (tr : Trace R) (x : Op R × Response R) :
    quiet id (tr ++ [x]) = quietStep id (quiet id tr) x := by
  simp [quiet]

/-- A quiet objective has no record among those accepted since the load. -/
theorem quiet_evidence {id : ObjectiveId} {tr : Trace R} (h : quiet id tr = true) :
    ∀ e ∈ evidenceSinceLoad tr, e.objectiveId ≠ id := by
  induction tr using List.reverseRecOn with
  | nil => cases h
  | append_singleton tr x ih =>
    rw [quiet_append] at h
    rw [evidenceSinceLoad_append]
    unfold quietStep at h
    split at h
    · rename_i file st
      cases hok : st.isOk with
      | true => simp [noteStep, hok]
      | false =>
        rw [hok, Bool.false_or] at h
        simpa [noteStep, hok] using ih h
    · rename_i e now st
      obtain ⟨hq, hne⟩ := Bool.and_eq_true_iff.mp h
      cases hok : st.isOk with
      | true =>
        have hid : e.objectiveId ≠ id := by simpa [hok] using hne
        intro e' he'
        simp only [noteStep, hok, if_true, List.mem_append, List.mem_singleton] at he'
        rcases he' with he' | rfl
        · exact ih hq e' he'
        · exact hid
      | false => simpa [noteStep, hok] using ih hq
    · obtain ⟨hq, _⟩ := Bool.and_eq_true_iff.mp h
      simpa [noteStep] using ih hq
    · rename_i hload hing _
      intro e he
      unfold noteStep at he
      split at he
      · exact absurd rfl (hing _ _ _)
      · exact absurd rfl (hload _ _)
      · exact ih h e he

section Verdicts

variable [Double R]

/-- What is fenced for a quiet objective has had no contribution. -/
theorem fenced_nil_of_quiet {epoch : CoordinatorEpoch} {tr : Trace R}
    {a : ObjectiveAccumulator R} {l : List (AvailabilityMode × EvidenceRecord R)}
    (h : Fenced epoch (evidenceSinceLoad tr) a l) (hq : quiet a.defn.id tr = true) :
    Fenced epoch (evidenceSinceLoad tr) a [] := by
  cases l with
  | nil => exact h
  | cons c l =>
    have hmem : c.2 ∈ evidenceSinceLoad tr := h.history.subset (by simp)
    have hid : c.2.objectiveId = a.defn.id := (h.admitted c List.mem_cons_self).objective
    exact absurd hid (quiet_evidence hq c.2 hmem)

/-! ## 2. Measurements without evidence -/

/-- **Without a contribution there is no measurement**, unless one of recovery time is asked
    for. -/
theorem unmeasured_of_fenced_nil {epoch : CoordinatorEpoch} {history : List (EvidenceRecord R)}
    {a : ObjectiveAccumulator R} (h : Fenced epoch history a [])
    (hdim : a.defn.dim ≠ .recoveryTime) (now : Duration) :
    (computeMeasured a now).got = false := by
  have hwin : a.window.samples = [] := by
    have he : a.window.entries = [] := List.sublist_nil.mp h.samples
    exact List.map_eq_nil_iff.mp he
  have hcost : a.cost.items = [] := List.sublist_nil.mp h.items
  have havail : a.avail.hasDenominator = false := by
    rw [h.totals]
    cases a.defn.availabilityMode <;> rfl
  have hempty : a.window.isEmpty = true := by simp [SampleWindow.isEmpty, hwin]
  unfold computeMeasured
  cases hd : a.defn.dim with
  | recoveryTime => exact absurd hd hdim
  | availability => simp [hd, havail]
  | cost =>
    by_cases hk : a.defn.kind = .costWindowBudget
    · simp [hd, hk, hcost]
    · simp [hd, hk, hempty]
  | latency | throughput | memoryPressure => simp [hd, hempty]

/-- Recovery time is always measured, and always current. -/
theorem measured_of_recoveryTime {a : ObjectiveAccumulator R} (hdim : a.defn.dim = .recoveryTime)
    (now : Duration) :
    unmeasured (computeMeasured a now) (evaluateFreshness a now) = false := by
  have hfr : evaluateFreshness a now = .current := by
    simp [evaluateFreshness, ObjectiveAccumulator.usesAvailability,
      ObjectiveAccumulator.usesRecovery, hdim]
  have hm : (computeMeasured a now).got = true ∧ (computeMeasured a now).sufficient = true := by
    unfold computeMeasured
    simp only [hdim]
    split <;> exact ⟨rfl, rfl⟩
  simp [unmeasured, hfr, hm.1, hm.2]

/-! ## 3. No verdict is Recovering -/

/-- The verdicts the law is about. -/
def ComplianceState.isVerdict (s : ComplianceState) : Bool :=
  s == .compliant || s == .nearLimit || s == .violating

/-- A measured verdict is Compliant, NearLimit or Violating, when the last one was not
    Recovering. -/
theorem measuredState_isVerdict (obj : Objective R) {a : ObjectiveAccumulator R}
    (h : a.lastState ≠ .recovering) (measured : R) :
    (measuredState obj a measured).isVerdict = true := by
  have hstep : (stepState obj measured a.lastState).isVerdict = true := by
    unfold stepState
    cases classifyZone obj measured with
    | violation => rfl
    | compliant => rfl
    | near =>
      simp only
      split
      · rename_i hl
        rw [hl.resolve_right h]
        rfl
      · rfl
  unfold measuredState
  simp only
  split
  · rfl
  · exact hstep

theorem verdict_cases {t : Accumulators R} {obj : Objective R} (now : Duration)
    (h : (acquire t obj).lastState ≠ .recovering) :
    (unmeasured (computeMeasured (acquire t obj) now) (evaluateFreshness (acquire t obj) now) =
        true ∧ (verdict t obj now).isVerdict = false) ∨
    (unmeasured (computeMeasured (acquire t obj) now) (evaluateFreshness (acquire t obj) now) =
        false ∧ (verdict t obj now).isVerdict = true) := by
  cases hm : unmeasured (computeMeasured (acquire t obj) now)
      (evaluateFreshness (acquire t obj) now) with
  | true =>
    refine Or.inl ⟨rfl, ?_⟩
    rcases verdict_of_unmeasured hm with hv | hv <;> rw [hv] <;> rfl
  | false =>
    refine Or.inr ⟨rfl, ?_⟩
    unfold verdict
    simp only [hm]
    exact measuredState_isVerdict obj (by rwa [rollBudget_lastState]) _

/-- The state an accumulator remembers is not Recovering. -/
theorem neverRecovering_rule :
    RowRule fun a : ObjectiveAccumulator R => a.lastState ≠ .recovering where
  make o := by simp [ObjectiveAccumulator.make]
  reset a o _ := by simp [ObjectiveAccumulator.resetForNewGen, ObjectiveAccumulator.make]
  touch a b hab ha := by rwa [hab.lastState]
  judge t o now ha := by
    show verdict t o now ≠ .recovering
    intro hv
    rcases verdict_cases now ha with ⟨hm, _⟩ | ⟨_, h⟩
    · rcases verdict_of_unmeasured hm with h | h <;> rw [hv] at h <;> cases h
    · rw [hv] at h
      cases h
  restore a ps _ _ := by simp [restore]

variable [Pod R]

/-- **No accumulator of a run remembers Recovering.** -/
theorem neverRecovering_run [Platform R] {s : State R} {tr : Trace R}
    (h : Runs (State.fresh R) tr s) : ∀ a ∈ s.accumulators.rows, a.lastState ≠ .recovering := by
  refine neverRecovering_rule.run (fun o a e ha => ?_) h
  rw [(offer_conduct o a e).lastState]
  exact ha

/-! ## 4. Evaluations of quiet objectives -/

/-- **Restart revalidation** of one evaluation: no quiet objective gets a verdict, and where all
    objectives are quiet the evaluation is not Compliant and takes no action. -/
structure Revalidated (c : SloContract R) (tr : Trace R) (res : EvaluationResult R) : Prop where
  objectives : ∀ (i : Nat) (obj : Objective R) (st : ObjectiveState R),
    c.objectives[i]? = some obj → res.explanation.objectives[i]? = some st →
    quiet obj.id tr = true → st.state.isVerdict = false
  overall : (∀ obj ∈ c.objectives, quiet obj.id tr = true) →
    res.explanation.compliance ≠ .compliant ∧ res.intent.action = .noAction

/-- What a quiet objective is judged on: there is no measurement exactly when it is not one of
    recovery time. -/
theorem quiet_unmeasured [Platform R] {s : State R} {tr : Trace R} (h : Runs (State.fresh R) tr s)
    (c : SloContract R) (now : Duration) (i : Nat) {obj : Objective R}
    (hq : quiet obj.id tr = true) :
    unmeasured (computeMeasured (judgedOn s c now i obj) now)
        (evaluateFreshness (judgedOn s c now i obj) now) = true ↔
      (judgedOn s c now i obj).defn.dim ≠ .recoveryTime := by
  constructor
  · intro hm hdim
    rw [measured_of_recoveryTime hdim] at hm
    cases hm
  · intro hdim
    obtain ⟨l, hl⟩ := allFenced_judgedOn (allFenced_run h) (c.objectives.take i) now obj
    have hnil := fenced_nil_of_quiet hl (by rw [acquire_id]; exact hq)
    have hgot : (computeMeasured (judgedOn s c now i obj) now).got = false :=
      unmeasured_of_fenced_nil hnil hdim now
    simp [unmeasured, hgot]

/-- **When an evaluation revalidates.** In every run, whatever evaluation comes next: it keeps
    the objectives quiet since the last load from a verdict if and only if none of them is
    measured under a definition of recovery time. -/
theorem revalidated_iff [Platform R] {s s' : State R} {tr : Trace R} {service : ServiceId}
    {workload : WorkloadId} {now : Duration} {res : EvaluationResult R}
    (h : Runs (State.fresh R) tr s)
    (he : evaluate s service workload now = some (s', .ok res)) :
    ∃ c, selectContract s.contracts service workload now = some c ∧
      (Revalidated c tr res ↔ ∀ (i : Nat) (obj : Objective R), c.objectives[i]? = some obj →
        quiet obj.id tr = true → (judgedOn s c now i obj).defn.dim ≠ .recoveryTime) := by
  obtain ⟨c, hc, hne, hsound⟩ := evaluate_sound he
  have hrow (i : Nat) (obj : Objective R) : (judgedOn s c now i obj).lastState ≠ .recovering :=
    neverRecovering_rule.acquired
      (neverRecovering_rule.accumulatorsAfter now _ (neverRecovering_run h)) obj
  refine ⟨c, hc, fun hrev i obj hobj hq hdim => ?_, fun hdim => ⟨?_, fun hall => ?_⟩⟩
  · obtain ⟨st, hst, _, hstate⟩ := evaluate_reports he hc hobj
    have hno := hrev.objectives i obj st hobj hst hq
    rw [hstate] at hno
    rcases verdict_cases now (hrow i obj) with ⟨hm, _⟩ | ⟨_, hyes⟩
    · exact (quiet_unmeasured h c now i hq).mp hm hdim
    · rw [hno] at hyes
      cases hyes
  · intro i obj st hobj hst hq
    obtain ⟨st', hst', _, hstate⟩ := evaluate_reports he hc hobj
    rw [hst] at hst'
    cases hst'
    have hm := (quiet_unmeasured h c now i hq).mpr (hdim i obj hobj hq)
    rw [hstate]
    rcases verdict_of_unmeasured hm with hv | hv <;> rw [hv] <;> rfl
  · obtain ⟨obj, objs, hobjs⟩ := List.exists_cons_of_ne_nil hne
    have hobj : c.objectives[0]? = some obj := by rw [hobjs]; rfl
    have hq := hall obj (List.mem_of_getElem? hobj)
    have hm := (quiet_unmeasured h c now 0 hq).mpr (hdim 0 obj hobj hq)
    have hbad : (computeMeasured (judgedOn s c now 0 obj) now).got = false ∨
        (computeMeasured (judgedOn s c now 0 obj) now).sufficient = false ∨
        evaluateFreshness (judgedOn s c now 0 obj) now = .stale ∨
        evaluateFreshness (judgedOn s c now 0 obj) now = .expired := by
      simpa [unmeasured, or_assoc] using hm
    obtain ⟨hov, hact⟩ := hsound.unmeasured ⟨0, obj, hobj, hbad⟩
    refine ⟨fun hcomp => ?_, hact⟩
    rcases hov with hov | hov <;> rw [hcomp] at hov <;> cases hov

end Verdicts

/-! ## 5. A failure in progress -/

/-- Only the file that was saved is loaded. -/
theorem load_takeover {saved : State Binary64} {order : List ObjectiveId}
    {x : Op Binary64 × Response Binary64} (hx : x ∈ takeover saved order) {file : Option Bytes}
    (hfile : x.1 = .load file) : file = some (save saved order) := by
  rw [List.mem_singleton.mp hx] at hfile
  cases hfile
  rfl

/-- To recover within 100 ms. -/
def recoveryObjective : Objective Binary64 :=
  { smallObjective 1 1 with dim := .recoveryTime, kind := .recoveryMaxDuration }

/-- A fabric with a failure in progress since time `0`. -/
def failing : State Binary64 :=
  after [.setPolicy smallPolicy, .addContract (smallContract 1 1 1 [recoveryObjective]),
    .recordRecoveryEvent ⟨1⟩ .authoritative 0]

/-- **The failure is forgotten**: 200 ms into it the fabric that loads the file calls the
    objective Compliant. -/
theorem revalidated_fails :
    ¬∀ (saved s s' : State Binary64) (order : List ObjectiveId) (tr : Trace Binary64)
      (service : ServiceId) (workload : WorkloadId) (now : Duration) (c : SloContract Binary64)
      (res : EvaluationResult Binary64),
      Reachable saved → isOrder saved.accumulators order = true →
      Runs (State.fresh Binary64) tr s →
      (∀ x ∈ tr, ∀ file, x.1 = .load file → file = some (save saved order)) →
      selectContract s.contracts service workload now = some c →
      evaluate s service workload now = some (s', .ok res) → Revalidated c tr res := by
  intro hall
  have hev : (reported (evaluate (takenOver failing [⟨1⟩]) ⟨1⟩ ⟨1⟩ 200000000)).any
      (fun x => x.2.explanation.compliance = .compliant) = true := by
    decide +kernel
  obtain ⟨s', res, he, hcomp⟩ := of_reported hev
  have hsel : (selectContract (takenOver failing [⟨1⟩]).contracts ⟨1⟩ ⟨1⟩ 200000000).any
      (fun c => c.objectives.all fun o => o.id = ⟨1⟩) = true := by
    decide +kernel
  obtain ⟨c, hc, hids⟩ := (Option.any_eq_true _ _).mp hsel
  have hrev := hall failing (takenOver failing [⟨1⟩]) s' [⟨1⟩] (takeover failing [⟨1⟩]) ⟨1⟩ ⟨1⟩
    200000000 c res (reachable_after _) (by decide +kernel) (run_takeover (by decide +kernel))
    (fun x hx file => load_takeover hx) hc he
  refine (hrev.overall fun o ho => ?_).1 (of_decide_eq_true hcomp)
  rw [of_decide_eq_true (List.all_eq_true.mp hids o ho)]
  rfl

/-- A latency that was measured before the save is no verdict after the load. -/
theorem revalidated_iff_small :
    let saved := after [.setPolicy smallPolicy,
      .addContract (smallContract 1 1 1 [smallObjective 1 1]),
      .ingest (smallEvidence 1 1 50000000) 0]
    ∃ s' res c, evaluate (takenOver saved [⟨1⟩]) ⟨1⟩ ⟨1⟩ 0 = some (s', .ok res) ∧
      res.explanation.compliance = .insufficientEvidence ∧
      selectContract (takenOver saved [⟨1⟩]).contracts ⟨1⟩ ⟨1⟩ 0 = some c ∧
      (Revalidated c (takeover saved [⟨1⟩]) res ↔ ∀ (i : Nat) (obj : Objective Binary64),
        c.objectives[i]? = some obj → quiet obj.id (takeover saved [⟨1⟩]) = true →
        (judgedOn (takenOver saved [⟨1⟩]) c 0 i obj).defn.dim ≠ .recoveryTime) := by
  intro saved
  have hev : (reported (evaluate (takenOver saved [⟨1⟩]) ⟨1⟩ ⟨1⟩ 0)).any
      (fun x => x.2.explanation.compliance = .insufficientEvidence) = true := by
    decide +kernel
  obtain ⟨s', res, he, hcomp⟩ := of_reported hev
  have hre : reloadable saved [⟨1⟩] = true := by decide +kernel
  obtain ⟨c, hc, hiff⟩ := revalidated_iff (run_takeover hre) he
  exact ⟨s', res, c, he, of_decide_eq_true hcomp, hc, hiff⟩

end SloFabric
