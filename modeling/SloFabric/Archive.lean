/-
  File:      SloFabric/Archive.lean
  Subject:   What the fabric answers about evaluations of the past.

  * `evaluationCount`: how many records the history holds; `getEvaluation` is in Fabric.lean;
  * `Archived`: the evaluations a run reports, as the records they are due, and how many of them
    the history keeps. A load that succeeds starts the list anew with the history of its file;
  * `ArchiveExact`, `archive_step`: the history and the lookup table are those of that list;
  * `archive_exact`: in every run.
-/
import SloFabric.Records
import SloFabric.Library.Recency

namespace SloFabric

variable {R : Type}

/-! ## 1. The queries -/

def evaluationCount (s : State R) : Nat := s.evaluationHistory.length

/-- The result a step reports. -/
def Response.report : Response R → Option (EvaluationResult R)
  | .evaluated (.ok res) => some res
  | _ => none

/-! ## 2. What is to be archived -/

section

variable [Pod R] [Double R]

/-- After the run, the history keeps `cap` of the records `log`. Each evaluation that succeeds is
    due one, which says what its explanation and its intent say; the digest is its own. -/
inductive Archived : Trace R → Nat → List EvaluationRecord → Prop where
  | fresh : Archived [] historyCap []
  | evaluated {tr : Trace R} {cap : Nat} {log : List EvaluationRecord} {service : ServiceId}
      {workload : WorkloadId} {now : Duration} {res : EvaluationResult R} {digest : UInt64}
      (h : Archived tr cap log) :
      Archived (tr ++ [(.evaluate service workload now, .evaluated (.ok res))]) cap
        (log ++ [recordOf res.explanation res.intent now digest])
  | loaded {tr : Trace R} {cap : Nat} {log : List EvaluationRecord} {file : Option Bytes}
      {st : DurableState R} (h : Archived tr cap log) (hst : loadState R file = .ok st) :
      Archived (tr ++ [(.load file, .status ok)]) (max historyCap st.evaluationHistory.length)
        st.evaluationHistory
  | other {tr : Trace R} {cap : Nat} {log : List EvaluationRecord} {op : Op R} {r : Response R}
      (h : Archived tr cap log) (hload : loaded op r = false) (hreport : r.report = none) :
      Archived (tr ++ [(op, r)]) cap log

end

/-- The last record of an id in the list. -/
def lastRecord (log : List EvaluationRecord) (id : EvaluationId) : Except Status EvaluationRecord :=
  match log.reverse.find? (·.evaluationId = id) with
  | some record => .ok record
  | none => .error (notFound "evaluation not found")

/-- The state archives `log`, of which the history keeps `cap`. -/
structure ArchiveExact (cap : Nat) (log : List EvaluationRecord) (s : State R) : Prop where
  history : s.evaluationHistory = recent cap log
  count : evaluationCount s = min log.length cap
  lookup : ∀ id, getEvaluation s id = lastRecord log id

/-! ## 3. The lookup table and the history -/

theorem getEvaluation_of_find {s : State R} {log : List EvaluationRecord}
    (h : ∀ id, s.evaluationById.find id = log.reverse.find? (·.evaluationId = id))
    (id : EvaluationId) : getEvaluation s id = lastRecord log id := by
  unfold getEvaluation lastRecord
  rw [h id]
  cases log.reverse.find? (·.evaluationId = id) <;> rfl

/-- The tables of a state are those of the list; a history longer than the cap came from a file. -/
structure Archives (cap : Nat) (log : List EvaluationRecord) (s : State R) : Prop where
  history : s.evaluationHistory = recent cap log
  lookup : ∀ id, s.evaluationById.find id = log.reverse.find? (·.evaluationId = id)
  enough : historyCap ≤ cap
  full : historyCap = cap ∨ cap ≤ log.length

namespace Archives

variable {cap : Nat} {log : List EvaluationRecord} {s s' : State R}

theorem exact (h : Archives cap log s) : ArchiveExact cap log s where
  history := h.history
  count := by rw [evaluationCount, h.history, length_recent]
  lookup := getEvaluation_of_find h.lookup

theorem same (h : Archives cap log s) (hhistory : s'.evaluationHistory = s.evaluationHistory)
    (hbyId : s'.evaluationById = s.evaluationById) : Archives cap log s' where
  history := hhistory.trans h.history
  lookup := hbyId ▸ h.lookup
  enough := h.enough
  full := h.full

/-- **One more record.** -/
theorem push (h : Archives cap log s) {record : EvaluationRecord}
    (hhistory : s'.evaluationHistory = pushHistory s.evaluationHistory record)
    (hbyId : s'.evaluationById = s.evaluationById.insert record) :
    Archives cap (log ++ [record]) s' where
  history := by
    have hslide : pushHistory (recent cap log) record = slide historyCap (recent cap log) record :=
      rfl
    rw [hhistory, h.history, hslide]
    exact slide_recent_long (by decide) h.enough h.full record
  lookup id := by
    rw [hbyId, KeyedTable.find_insert, h.lookup id, List.reverse_append]
    by_cases hid : record.evaluationId = id
    · simp [hid]
    · simp [hid, Ne.symm hid]
  enough := h.enough
  full := h.full.imp_right fun hfull => by
    rw [List.length_append]
    omega

/-- The tables of a file. -/
theorem restart (s : State R) (st : DurableState R) :
    Archives (max historyCap st.evaluationHistory.length) st.evaluationHistory
      (restart s st) where
  history := by
    have hnone : st.evaluationHistory.length - max historyCap st.evaluationHistory.length = 0 := by
      omega
    rw [recent, hnone]
    rfl
  lookup id := by
    convert KeyedTable.find_ofList_last st.evaluationHistory id
    rfl
  enough := Nat.le_max_left _ _
  full := by
    rcases Nat.le_total st.evaluationHistory.length historyCap with hle | hle
    · exact Or.inl (Nat.max_eq_left hle).symm
    · exact Or.inr (Nat.max_eq_right hle).le

end Archives

/-! ## 4. Runs -/

section Runs

variable [Pod R] [Double R] [Platform R]

/-- **The step lemma.** -/
theorem archive_step {tr : Trace R} {s s' : State R} {op : Op R} {r : Response R}
    (hi : ∃ cap log, Archived tr cap log ∧ Archives cap log s)
    (h : apply s op = some (s', r)) :
    ∃ cap log, Archived (tr ++ [(op, r)]) cap log ∧ Archives cap log s' := by
  obtain ⟨cap, log, htr, hs⟩ := hi
  cases frame_cases h with
  | evaluated hx =>
    rcases evaluate_cases hx with ⟨st, rfl, rfl⟩ | ⟨_, _, _, _, _, _, _, _, _, rfl, rfl⟩
    · exact ⟨cap, log, .other htr rfl rfl, hs⟩
    · exact ⟨cap, _, .evaluated htr, hs.push rfl rfl⟩
  | loaded hst h' => exact ⟨_, _, .loaded htr hst, h' ▸ .restart s _⟩
  | failed hst h' =>
    exact ⟨cap, log, .other htr (loadState_error hst) rfl, h' ▸ hs⟩
  | contracts hop h' | objectives hop h' =>
    refine ⟨cap, log, .other htr ?_ rfl, hs.same (by rw [h']) (by rw [h'])⟩
    cases op with
    | load file => cases hop
    | _ => rfl
  | policies h' | ingested h' | authorized _ h' | saved h' =>
    exact ⟨cap, log, .other htr rfl rfl, hs.same (by rw [h']) (by rw [h'])⟩
  | dispatched h' =>
    cases h'
    exact ⟨cap, log, .other htr rfl rfl, hs.same rfl rfl⟩
  | transition hx | completed hx =>
    cases hx
    exact ⟨cap, log, .other htr rfl rfl, hs.same rfl rfl⟩

/-- **The archive is exact.** In every run, loads included: the history is the last of the
    evaluations reported since the last load, after those of its file, as many as are kept;
    `get_evaluation` answers the last record of an id, also when the history has given it up, and
    it says what that evaluation said; nothing else is ever answered. -/
theorem archive_exact {tr : Trace R} {s : State R} (h : Runs (State.fresh R) tr s) :
    ∃ cap log, Archived tr cap log ∧ ArchiveExact cap log s := by
  have hall := h.history (I := fun tr s => ∃ cap log, Archived tr cap log ∧ Archives cap log s)
    ⟨historyCap, [], .fresh, rfl, fun _ => rfl, Nat.le_refl _, Or.inl rfl⟩
    fun _ _ _ _ _ hi _ hs => archive_step hi hs
  obtain ⟨cap, log, htr, hs⟩ := hall
  exact ⟨cap, log, htr, hs.exact⟩

end Runs

/-- Two evaluations. -/
def evaluatedTwice : List (Op Binary64) :=
  [.setPolicy smallPolicy, .addContract (smallContract 1 1 1 [smallObjective 1 1]),
    .evaluate ⟨1⟩ ⟨1⟩ 0, .evaluate ⟨1⟩ ⟨1⟩ 1]

/-- They are saved and loaded, and a third one follows. -/
theorem archive_exact_small :
    let saved := after evaluatedTwice
    ∃ r s cap log, Runs (State.fresh Binary64)
        (takeover saved [⟨1⟩] ++ [(.evaluate ⟨1⟩ ⟨1⟩ 2, r)]) s ∧
      evaluationCount s = 3 ∧
      Archived (takeover saved [⟨1⟩] ++ [(.evaluate ⟨1⟩ ⟨1⟩ 2, r)]) cap log ∧
      ArchiveExact cap log s := by
  intro saved
  have hload : reloadable saved [⟨1⟩] = true := by decide +kernel
  have htest : (apply (takenOver saved [⟨1⟩]) (.evaluate ⟨1⟩ ⟨1⟩ 2)).any
      (fun x => decide (evaluationCount x.1 = 3)) = true := by
    decide +kernel
  obtain ⟨⟨s, r⟩, hs, hcount⟩ := (Option.any_eq_true _ _).mp htest
  have hrun := (run_takeover hload).next trivial hs
  obtain ⟨cap, log, harchived, hexact⟩ := archive_exact hrun
  exact ⟨r, s, cap, log, hrun, of_decide_eq_true hcount, harchived, hexact⟩

end SloFabric
