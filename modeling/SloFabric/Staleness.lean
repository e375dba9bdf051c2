/-
  File:      SloFabric/Staleness.lean
  Subject:   What an evaluation can say about an objective whose newest evidence is too old.

  * `noteLog`, `loggedStep`: the fabric with a log of the evidence it accepted, each record
    under the generation its objective had then;
  * `Logged`: every sample of a window is one of the log, of the window's own generation;
  * `HeedsAge`: the store an objective is measured from is one whose age is looked at, or it is
    empty;
  * `stale_unmeasured`: outdated evidence gives no verdict where the age is looked at;
  * `stale_measured`: an availability of an hour ago is Compliant now.
-/
import SloFabric.EvidenceFence

namespace SloFabric

variable {R : Type}

open Double

/-! ## 1. The log of the evidence -/

/-- One accepted record: its objective, the generation that had then, its time. -/
structure LogEntry where
  objective : ObjectiveId
  gen : ObjectiveGen
  time : Duration
  deriving DecidableEq

/-- What the log notes of a step taken in state `s`. -/
def noteLog (s : State R) (log : List LogEntry) : Op R × Response R → List LogEntry
  | (.ingest e _, .status st) =>
    match definitionOf s.contracts e.objectiveId with
    | some o => if st.isOk then log ++ [⟨o.id, o.gen, e.time⟩] else log
    | none => log
  | (.load _, .status st) => if st.isOk then [] else log
  | _ => log

/-- The times of the evidence accepted for an objective at a generation. -/
def timesOf (log : List LogEntry) (id : ObjectiveId) (gen : ObjectiveGen) : List Duration :=
  (log.filter fun x => x.objective = id ∧ x.gen = gen).map (·.time)

/-- Is the newest evidence for the objective, at its generation, older than its ttl allows? -/
def Outdated (log : List LogEntry) (obj : Objective R) (now : Duration) : Prop :=
  ∃ newest ∈ timesOf log obj.id obj.gen, (∀ t ∈ timesOf log obj.id obj.gen, t ≤ newest) ∧
    newest.toInt < now.toInt - obj.freshnessTtl.toInt

/-- The only evidence there is is the newest. -/
theorem outdated_of_only {log : List LogEntry} {obj : Objective R} {t now : Duration}
    (h : timesOf log obj.id obj.gen = [t])
    (hlt : t.toInt < now.toInt - obj.freshnessTtl.toInt) : Outdated log obj now := by
  refine ⟨t, ?_, fun t' ht' => ?_, hlt⟩
  · rw [h]
    exact List.mem_singleton.mpr rfl
  · rw [h] at ht'
    rw [List.mem_singleton.mp ht']
    exact Int64.le_refl t

section Watch

variable [Pod R] [Double R] [Platform R]

/-- The fabric and the log of the evidence accepted since its last load. -/
abbrev Logging (R : Type) := Watched (State R) (List LogEntry)

def loggedStep (w : Logging R) (op : Op R) : Option (Logging R × Response R) :=
  watch apply noteLog w op

/-- The runs of the fabric with its log; by `Run.watched` they are the runs of the fabric. -/
abbrev LoggedRuns (tr : Trace R) (w : Logging R) : Prop :=
  Run loggedStep (fun _ _ => True) ⟨State.fresh R, []⟩ tr w

/-! ## 2. Samples come from the log -/

/-- Every sample of the accumulator's window is a record of the log, accepted for its objective
    at its generation. -/
def Logged (log : List LogEntry) (a : ObjectiveAccumulator R) : Prop :=
  ∀ x ∈ a.window.entries, (⟨a.defn.id, a.defn.gen, x.1⟩ : LogEntry) ∈ log

omit [Pod R] [Platform R] in
theorem logged_rule (log : List LogEntry) : RowRule (Logged (R := R) log) := by
  refine .ofEvidence (fun o x hx => ?_) (fun a o _ x hx => ?_) fun a b hab ha x hx => ?_
  · cases hx
  · cases hx
  · rw [hab.defn]
    exact ha x (hab.window ▸ hx)

/-- **The step lemma.** -/
theorem logged_step {w w' : Logging R} {op : Op R} {r : Response R}
    (hw : ∀ a ∈ w.state.accumulators.rows, Logged w.seen a)
    (h : loggedStep w op = some (w', r)) :
    ∀ a ∈ w'.state.accumulators.rows, Logged w'.seen a := by
  obtain ⟨hs, hlog⟩ := watch_cases h
  rw [hlog]
  cases evidence_cases hs with
  | @offered e now o ho _ _ _ hrows =>
    have hacq := (logged_rule w.seen).acquired hw o
    have hd := (offer_conduct o (acquire w.state.accumulators o) e).defn
    rw [hrows]
    simp only [noteLog, ho]
    rcases offer_cases o (acquire w.state.accumulators o) e with ⟨hok, ht⟩ | ⟨hok, ht⟩
    · rw [hok, if_pos rfl]
      refine KeyedTable.forall_insert (fun a ha x hx => ?_) fun x hx => ?_
      · exact List.mem_append_left _ (hw a ha x hx)
      · rw [hd]
        rcases List.mem_append.mp (ht.samples.subset hx) with hx | hx
        · exact List.mem_append_left _ (hacq x hx)
        · rw [List.mem_singleton.mp hx, acquire_id, acquire_gen]
          exact List.mem_append_right _ (List.mem_singleton.mpr rfl)
    · rw [hok, if_neg Bool.false_ne_true]
      refine KeyedTable.forall_insert hw fun x hx => ?_
      rw [hd]
      exact hacq x (ht.samples ▸ hx)
  | @refused e now st hst _ hrows =>
    have hnote : noteLog w.state w.seen (.ingest e now, .status st) = w.seen := by
      unfold noteLog
      simp only [hst]
      split <;> rfl
    rw [hrows, hnote]
    exact hw
  | loaded hst hs' =>
    rw [hs']
    exact (logged_rule _).restoreStates _ (loadState_objstates hst)
  | failed hst hs' =>
    rw [hs']
    simpa [noteLog, hst] using hw
  | other hing hload _ hrule =>
    have hnote : noteLog w.state w.seen (op, r) = w.seen := by
      cases op with
      | ingest e now => exact absurd rfl (hing e now)
      | load file => exact absurd rfl (hload file)
      | _ => rfl
    rw [hnote]
    exact hrule _ (logged_rule w.seen) hw

theorem logged_run {w : Logging R} {tr : Trace R} (h : LoggedRuns tr w) :
    ∀ a ∈ w.state.accumulators.rows, Logged w.seen a := by
  refine h.invariant (I := fun w => ∀ a ∈ w.state.accumulators.rows, Logged w.seen a)
    ?_ fun w op w' r hw _ => logged_step hw
  intro a ha
  cases ha

end Watch

/-! ## 3. Age -/

/-- A sample older than the ttl: the 64-bit difference to now is past the ttl, or negative. -/
theorem age_of_old {t ttl now : Int64} (h0 : 0 ≤ ttl) (h : t.toInt < now.toInt - ttl.toInt) :
    now - t < 0 ∨ ttl < now - t := by
  have h1 := Int64.le_toInt t
  have h2 := Int64.toInt_lt now
  rw [Int64.le_iff_toInt_le, Int64.toInt_zero] at h0
  rw [Int64.lt_iff_toInt_lt, Int64.lt_iff_toInt_lt, Int64.toInt_sub, Int64.toInt_zero,
    Int.bmod_def]
  omega

/-- The store the accumulator's objective is measured from is one whose age is looked at, with a
    ttl of at most `ttl`, or nothing is in it. -/
def HeedsAge (a : ObjectiveAccumulator R) (ttl : Duration) : Prop :=
  match a.defn.dim with
  | .availability => a.avail.hasDenominator = false
  | .recoveryTime => False
  | .cost => a.cost.items = []
  | .latency | .throughput | .memoryPressure =>
    0 < a.defn.freshnessTtl ∧ a.defn.freshnessTtl ≤ ttl

/-- **Outdated evidence is not current** where the age is looked at. -/
theorem evaluateFreshness_of_old {a : ObjectiveAccumulator R} {ttl now : Duration}
    (ha : HeedsAge a ttl)
    (hold : ∀ x ∈ a.window.entries, x.1.toInt < now.toInt - ttl.toInt) :
    evaluateFreshness a now = .stale ∨ evaluateFreshness a now = .expired := by
  unfold HeedsAge at ha
  split at ha
  · rename_i hd
    simp [evaluateFreshness, ObjectiveAccumulator.usesAvailability, hd, ha]
  · exact ha.elim
  · rename_i hd
    simp [evaluateFreshness, ObjectiveAccumulator.usesAvailability,
      ObjectiveAccumulator.usesRecovery, ObjectiveAccumulator.usesCost, hd, ha]
  all_goals
    rename_i hd
    obtain ⟨hpos, hle⟩ := ha
    have hroute : a.usesAvailability = false ∧ a.usesRecovery = false ∧ a.usesCost = false := by
      simp [ObjectiveAccumulator.usesAvailability, ObjectiveAccumulator.usesRecovery,
        ObjectiveAccumulator.usesCost, hd]
    unfold evaluateFreshness
    simp only [hroute.1, hroute.2.1, hroute.2.2, Bool.false_eq_true, if_false]
    cases hl : a.window.samples.getLast? with
    | none => exact Or.inr rfl
    | some latest =>
      have hmem : (latest.time, latest.value) ∈ a.window.entries :=
        List.mem_map.mpr ⟨latest, List.mem_of_getLast? hl, rfl⟩
      have hlt := hold _ hmem
      have hle' := Int64.le_iff_toInt_le.mp hle
      have hage : now - latest.time < 0 ∨ a.defn.freshnessTtl < now - latest.time :=
        age_of_old (Int64.le_of_lt hpos) (by simp only at hlt; omega)
      have hnot : ¬ a.defn.freshnessTtl ≤ 0 := Int64.not_le.mpr hpos
      simp only [if_neg hnot]
      rcases hage with hneg | hpast
      · rw [if_pos hneg]; exact Or.inl rfl
      · rw [if_pos hpast]
        split <;> exact Or.inl rfl

/-! ## 4. Evaluations on outdated evidence -/

section Evaluation

variable [Pod R] [Double R] [Platform R]

/-- **Stale evidence never yields a current verdict**, where its age is looked at: after every
    run, whatever evaluation comes next, an objective with a ttl whose newest evidence is older
    than that gets no verdict if the store it is measured from heeds the age. -/
theorem stale_unmeasured {w : Logging R} {s' : State R} {tr : Trace R} {service : ServiceId}
    {workload : WorkloadId} {now : Duration} {res : EvaluationResult R} {c : SloContract R}
    (h : LoggedRuns tr w)
    (hc : selectContract w.state.contracts service workload now = some c)
    (he : evaluate w.state service workload now = some (s', .ok res)) {i : Nat}
    {obj : Objective R} (hobj : c.objectives[i]? = some obj)
    (hheeds : HeedsAge (judgedOn w.state c now i obj) obj.freshnessTtl)
    (hold : Outdated w.seen obj now) :
    ∃ st, res.explanation.objectives[i]? = some st ∧ st.id = obj.id ∧
      (st.state = .revalidationRequired ∨ st.state = .insufficientEvidence) := by
  obtain ⟨newest, _, hmax, hlt⟩ := hold
  have hlog : Logged w.seen (judgedOn w.state c now i obj) :=
    (logged_rule _).acquired ((logged_rule _).accumulatorsAfter now _ (logged_run h)) obj
  have hall : ∀ x ∈ (judgedOn w.state c now i obj).window.entries,
      x.1.toInt < now.toInt - obj.freshnessTtl.toInt := by
    intro x hx
    have hmem := hlog x hx
    rw [judgedOn, acquire_id, acquire_gen] at hmem
    have htime : x.1 ∈ timesOf w.seen obj.id obj.gen :=
      List.mem_map.mpr ⟨_, List.mem_filter.mpr ⟨hmem, by simp⟩, rfl⟩
    have hle := Int64.le_iff_toInt_le.mp (hmax x.1 htime)
    omega
  have hfr := evaluateFreshness_of_old hheeds hall
  have hm : unmeasured (computeMeasured (judgedOn w.state c now i obj) now)
      (evaluateFreshness (judgedOn w.state c now i obj) now) = true := by
    rcases hfr with hfr | hfr <;> simp [unmeasured, hfr]
  obtain ⟨st, hst, hid, hstate⟩ := evaluate_reports he hc hobj
  refine ⟨st, hst, hid, ?_⟩
  rw [hstate]
  exact verdict_of_unmeasured hm

end Evaluation

/-! ## 5. An hour later -/

/-- Where a fabric with its log is after some operations. -/
def loggedAfter (ops : List (Op Binary64)) : Logging Binary64 :=
  ((execute loggedStep (fun _ _ => true) ⟨State.fresh Binary64, []⟩ ops).map (·.1)).getD
    ⟨State.fresh Binary64, []⟩

theorem run_loggedAfter (ops : List (Op Binary64)) : ∃ tr, LoggedRuns tr (loggedAfter ops) :=
  Run.executed (fun _ _ _ => trivial) _ ops

/-- At least 99 % availability, by evidence of at most a second ago. -/
def availabilityObjective : Objective Binary64 :=
  { smallObjective 1 1 with
    dim := .availability, kind := .availabilityTime, target := .basisPoints 9900
    comparison := .atLeast }

/-- A fabric that was told of full availability at time `0`. -/
def available : Logging Binary64 :=
  loggedAfter [.setPolicy smallPolicy,
    .addContract (smallContract 1 1 1 [availabilityObjective]),
    .ingest { id := ⟨1⟩, objectiveId := ⟨1⟩, dimension := .availability,
              value := .basisPoints 10000 } 0]

/-- **An availability does not age**: an hour after the only record the evaluation is
    Compliant. -/
theorem stale_measured :
    ¬∀ (tr : Trace Binary64) (w : Logging Binary64) (s' : State Binary64) (service : ServiceId)
      (workload : WorkloadId) (now : Duration) (res : EvaluationResult Binary64)
      (c : SloContract Binary64) (i : Nat) (obj : Objective Binary64),
      LoggedRuns tr w →
      selectContract w.state.contracts service workload now = some c →
      evaluate w.state service workload now = some (s', .ok res) →
      c.objectives[i]? = some obj → 0 < obj.freshnessTtl → Outdated w.seen obj now →
      ∃ st, res.explanation.objectives[i]? = some st ∧ st.id = obj.id ∧
        (st.state = .revalidationRequired ∨ st.state = .insufficientEvidence) := by
  intro hall
  obtain ⟨tr, hrun⟩ : ∃ tr, LoggedRuns tr available := run_loggedAfter _
  have hev : (reported (evaluate available.state ⟨1⟩ ⟨1⟩ 3600000000000)).any
      (fun x => x.2.explanation.objectives.all fun st => st.state = .compliant) = true := by
    decide +kernel
  obtain ⟨s', res, he, hstates⟩ := of_reported hev
  have hsel : selectContract available.state.contracts ⟨1⟩ ⟨1⟩ 3600000000000 =
      some (smallContract 1 1 1 [availabilityObjective]) := by
    decide +kernel
  have htimes : timesOf available.seen ⟨1⟩ ⟨1⟩ = [0] := by decide +kernel
  have hold : Outdated available.seen availabilityObjective 3600000000000 :=
    outdated_of_only htimes (by decide)
  obtain ⟨st, hst, _, hstate⟩ := hall tr available s' ⟨1⟩ ⟨1⟩ 3600000000000 res _ 0
    availabilityObjective hrun hsel he rfl (by decide) hold
  have hcomp := List.all_eq_true.mp hstates st (List.mem_of_getElem? hst)
  rcases hstate with hstate | hstate <;> rw [hstate] at hcomp <;> cases of_decide_eq_true hcomp

/-- A latency does: after an hour it is to be measured again. -/
theorem stale_unmeasured_small :
    let w := loggedAfter [.setPolicy smallPolicy,
      .addContract (smallContract 1 1 1 [smallObjective 1 1]),
      .ingest (smallEvidence 1 1 50000000) 0]
    ∃ s' res, evaluate w.state ⟨1⟩ ⟨1⟩ 3600000000000 = some (s', .ok res) ∧
      Outdated w.seen (smallObjective 1 1) 3600000000000 ∧
      ∃ st, res.explanation.objectives[0]? = some st ∧ st.id = ⟨1⟩ ∧
        (st.state = .revalidationRequired ∨ st.state = .insufficientEvidence) := by
  intro w
  obtain ⟨tr, hrun⟩ : ∃ tr, LoggedRuns tr w := run_loggedAfter _
  have hev : (reported (evaluate w.state ⟨1⟩ ⟨1⟩ 3600000000000)).any (fun _ => true) = true := by
    decide +kernel
  obtain ⟨s', res, he, _⟩ := of_reported hev
  have hsel : selectContract w.state.contracts ⟨1⟩ ⟨1⟩ 3600000000000 =
      some (smallContract 1 1 1 [smallObjective 1 1]) := by
    decide +kernel
  have htimes : timesOf w.seen ⟨1⟩ ⟨1⟩ = [0] := by decide +kernel
  have hold : Outdated w.seen (smallObjective 1 1) 3600000000000 :=
    outdated_of_only htimes (by decide)
  have hdefn : (judgedOn w.state (smallContract 1 1 1 [smallObjective 1 1]) 3600000000000 0
      (smallObjective 1 1)).defn = smallObjective 1 1 := by
    decide +kernel
  have hheeds : HeedsAge (judgedOn w.state (smallContract 1 1 1 [smallObjective 1 1])
      3600000000000 0 (smallObjective 1 1)) (smallObjective 1 1).freshnessTtl := by
    unfold HeedsAge
    rw [hdefn]
    exact ⟨by decide, by decide⟩
  exact ⟨s', res, he, hold, stale_unmeasured hrun hsel he rfl hheeds hold⟩

end SloFabric
