/-
  File:      SloFabric/Restarts.lean
  Subject:   Restarting over and over: saves, loads and crashes with no call in between.

  * `Resumable`: an accumulator that its own persisted row gives back; `resumable_restored`:
    whatever a saved row gives back is one;
  * `SameContents`: a fabric that has what another one has, under whatever epoch;
  * `holds_restart`: what holds of the fabric of a load holds of that of the next one;
  * `reloadable_again`: and the file in between can be read;
  * `Idle`, `idle_restarts`: however often it is saved, crashes and is loaded, in whatever order,
    the fabric is the one of the first load.
-/
import SloFabric.Durable
import SloFabric.Lineage

namespace SloFabric

variable {R : Type}

/-! ## 1. Accumulators that have been through a restart -/

/-- The accumulator's own row gives it back. -/
def Resumable (cs : Contracts R) (a : ObjectiveAccumulator R) : Prop :=
  restored cs (persistedState a) = some a

/-- A row is put back under the definitions of its id and generation, whatever else it says. -/
theorem matching_congr (cs : Contracts R) {p q : PersistedObjectiveState}
    (hid : p.objectiveId = q.objectiveId) (hgen : p.objectiveGen = q.objectiveGen) :
    matching cs p = matching cs q := by
  rw [matching, matching, hid, hgen]

/-- The budget a row gives back, where it has a total, is the one it was written from. -/
theorem budget_restored (b : ErrorBudget) :
    ((ErrorBudget.make b.total b.window).setWindowStart b.windowStart).consumeCount b.consumed =
      b := by
  have hwindow : ¬b.window < 0 := Int64.not_lt.mpr b.window_nonneg
  have hconsumed := ErrorBudget.charge_zero b.consumed_nonneg
  ext <;> simp [ErrorBudget.make, ErrorBudget.setWindowStart, ErrorBudget.consumeCount, hwindow,
    hconsumed]

/-- What is put back onto a fresh accumulator: a budget that has a total, and three more fields. -/
theorem restore_saved (o : Objective R) (a : ObjectiveAccumulator R) :
    restore (.make o) (persistedState a) =
      { ObjectiveAccumulator.make o with
        hasBudget := a.hasBudget && decide (a.budget.total ≠ 0)
        budget := if a.hasBudget = true ∧ a.budget.total ≠ 0 then a.budget
          else ErrorBudget.make 0 0
        lastState := .revalidationRequired
        lastStateTime := a.lastStateTime
        cooldownUntil := a.cooldownUntil } := by
  unfold restore persistedState
  cases hb : a.hasBudget with
  | false => simp [ObjectiveAccumulator.make]
  | true =>
    by_cases htotal : a.budget.total = 0
    · simp [htotal, ObjectiveAccumulator.make]
    · simp [htotal, budget_restored, ObjectiveAccumulator.make]

/-- **What a saved row gives back gives back itself**: a budget of total `0` is lost at the first
    restart, and nothing at the second. -/
theorem resumable_restored {cs : Contracts R} {a b : ObjectiveAccumulator R}
    (h : restored cs (persistedState a) = some b) : Resumable cs b := by
  obtain ⟨o, ho, rfl⟩ := Option.map_eq_some_iff.mp h
  obtain ⟨hid, hgen⟩ := matching_id (List.mem_of_mem_head? ho)
  have hdefn : (restore (.make o) (persistedState a)).defn = o := restore_defn _ _
  have hsame : matching cs (persistedState (restore (.make o) (persistedState a))) =
      matching cs (persistedState a) :=
    matching_congr cs ((congrArg (·.id) hdefn).trans hid) ((congrArg (·.gen) hdefn).trans hgen)
  have hagain : restore (.make o) (persistedState (restore (.make o) (persistedState a))) =
      restore (.make o) (persistedState a) := by
    rw [restore_saved o a, restore_saved]
    by_cases hbudget : a.hasBudget = true ∧ a.budget.total ≠ 0
    · simp [hbudget]
    · have hnone : (a.hasBudget && decide (a.budget.total ≠ 0)) = false := by simpa using hbudget
      simp only [if_neg hbudget, hnone, Bool.false_and, ite_self]
  rw [Resumable, restored, hsame, ho, Option.map_some, hagain]

/-! ## 2. The same fabric, under another epoch -/

/-- The fabric has what `t` has: everything a file holds but the epoch. -/
structure SameContents (t s : State R) : Prop where
  policies : s.policies = t.policies
  contracts : s.contracts = t.contracts
  accumulators : s.accumulators = t.accumulators
  enforcementHistory : s.enforcementHistory = t.enforcementHistory
  evaluationHistory : s.evaluationHistory = t.evaluationHistory
  evaluationById : s.evaluationById = t.evaluationById

/-- A fabric all of whose accumulators are resumable, with its last evaluations under their ids. -/
structure Rebuilt (s : State R) : Prop where
  resumable : ∀ a ∈ s.accumulators.rows, Resumable s.contracts a
  evaluationById : s.evaluationById = .ofList _ s.evaluationHistory

/-- **What a restart has for an objective**: what the row of its accumulator gives back, if there
    was an accumulator. -/
theorem restart_find_bind {s : State R} (s₀ : State R) {order : List ObjectiveId}
    (ho : isOrder s.accumulators order = true) (k : ObjectiveId) :
    (restart s₀ (durableOf s order)).accumulators.find k =
      (s.accumulators.find k).bind fun a => restored s.contracts (persistedState a) := by
  cases hk : s.accumulators.find k with
  | some a =>
    have hfind : (restart s₀ (durableOf s order)).accumulators.find a.defn.id =
        restored s.contracts (persistedState a) := restart_find ho (KeyedTable.find_mem hk)
    rwa [KeyedTable.find_key hk] at hfind
  | none =>
    have hids : (durableOf s order).objectiveStates.map (·.objectiveId) =
        (order.filterMap s.accumulators.find).map (·.defn.id) := by
      rw [durableOf, List.map_map]
      rfl
    have hperm := savedRows_perm ho
    have hnodup : ((durableOf s order).objectiveStates.map (·.objectiveId)).Nodup := by
      rw [hids]
      exact (hperm.map _).nodup_iff.mpr s.accumulators.keys_nodup
    have hno : (durableOf s order).objectiveStates.find? (·.objectiveId = k) = none := by
      refine List.find?_eq_none.mpr fun ps hps hid => ?_
      obtain ⟨a, ha, rfl⟩ := List.mem_map.mp hps
      have hrow := KeyedTable.mem_rows.mp (hperm.subset ha)
      rw [show a.defn.id = k from of_decide_eq_true hid, hk] at hrow
      cases hrow
    show (restoreStates _ _).find k = _
    rw [restoreStates_find _ hnodup, hno]
    rfl

/-- A fabric that has been through a restart is rebuilt. -/
theorem rebuilt_restart {s : State R} (s₀ : State R) {order : List ObjectiveId}
    (ho : isOrder s.accumulators order = true) : Rebuilt (restart s₀ (durableOf s order)) := by
  have hcontracts : (restart s₀ (durableOf s order)).contracts = s.contracts :=
    KeyedTable.ofList_rows _
  refine ⟨fun b hb => ?_, rfl⟩
  have hfind := KeyedTable.mem_rows.mp hb
  rw [restart_find_bind s₀ ho] at hfind
  obtain ⟨a, _, ha⟩ := Option.bind_eq_some_iff.mp hfind
  rw [hcontracts]
  exact resumable_restored ha

/-- **What a fabric that has been through a restart saves gives it back.** -/
theorem holds_restart {t s : State R} (hr : Rebuilt t) (hs : SameContents t s) (s₀ : State R)
    {order : List ObjectiveId} (ho : isOrder s.accumulators order = true) :
    SameContents t (restart s₀ (durableOf s order)) := by
  refine ⟨?_, ?_, KeyedTable.ext_find fun k => ?_, hs.enforcementHistory, hs.evaluationHistory, ?_⟩
  · exact (KeyedTable.ofList_rows _).trans hs.policies
  · exact (KeyedTable.ofList_rows _).trans hs.contracts
  · rw [restart_find_bind s₀ ho, hs.accumulators, hs.contracts]
    cases hk : t.accumulators.find k with
    | none => rfl
    | some a => exact hr.resumable a (KeyedTable.find_mem hk)
  · show KeyedTable.ofList _ s.evaluationHistory = _
    rw [hs.evaluationHistory, hr.evaluationById]

/-! ## 3. Files that can be read again -/

/-- The rows of objective states are all of one length. -/
theorem length_encodeObjstates (l : List PersistedObjectiveState) :
    (l.flatMap encodeObjstate).length = 65 * l.length := by
  induction l with
  | nil => rfl
  | cons ps l ih =>
    have hone : (encodeObjstate ps).length = 65 := by simp [encodeObjstate]
    rw [List.flatMap_cons, List.length_append, ih, hone, List.length_cons]
    omega

/-- A restart makes no accumulator that was not there. -/
theorem restart_rows_length {s : State R} (s₀ : State R) {order : List ObjectiveId}
    (ho : isOrder s.accumulators order = true) :
    (restart s₀ (durableOf s order)).accumulators.rows.length ≤ s.accumulators.rows.length := by
  set t := (restart s₀ (durableOf s order)).accumulators with ht
  have hsub : t.rows.map (·.defn.id) ⊆ s.accumulators.rows.map (·.defn.id) := by
    intro k hk
    obtain ⟨b, hb, rfl⟩ := List.mem_map.mp hk
    have hfind := KeyedTable.mem_rows.mp hb
    rw [ht, restart_find_bind s₀ ho] at hfind
    obtain ⟨a, ha, _⟩ := Option.bind_eq_some_iff.mp hfind
    have hkey := KeyedTable.find_key ha
    exact List.mem_map.mpr ⟨a, KeyedTable.find_mem ha, hkey⟩
  have hle := (t.keys_nodup.subperm hsub).length_le
  rwa [List.length_map, List.length_map] at hle

/-- Budgets that could be read stay so. -/
theorem restart_rows_total {s : State R} (s₀ : State R) {order : List ObjectiveId}
    (ho : isOrder s.accumulators order = true)
    (hstates : (durableOf s order).objectiveStates.all objstateStorable = true) :
    ∀ b ∈ (restart s₀ (durableOf s order)).accumulators.rows, 0 ≤ b.budget.total := by
  intro b hb
  have hfind := KeyedTable.mem_rows.mp hb
  rw [restart_find_bind s₀ ho] at hfind
  obtain ⟨a, ha, hrestored⟩ := Option.bind_eq_some_iff.mp hfind
  obtain ⟨o, _, rfl⟩ := Option.map_eq_some_iff.mp hrestored
  have hrow : persistedState a ∈ (durableOf s order).objectiveStates :=
    List.mem_map_of_mem ((savedRows_perm ho).symm.subset (KeyedTable.find_mem ha))
  have hstorable := List.all_eq_true.mp hstates _ hrow
  obtain ⟨htotal, _⟩ := Bool.and_eq_true_iff.mp hstorable
  rw [restore_saved]
  simp only
  split
  · rename_i hbudget
    rw [persistedState, hbudget.1] at htotal
    exact of_decide_eq_true htotal
  · exact Int64.le_refl 0

section Files

variable [Pod R] [Double R]

omit [Double R] in
theorem length_serializeState (st : DurableState R) :
    (serializeState st).length =
      56 + (st.policies.flatMap encodePolicy).length +
        (st.contracts.flatMap encodeContract).length + 65 * st.objectiveStates.length +
        (st.enforcementHistory.flatMap encodeReceipt).length +
        (st.evaluationHistory.flatMap encodeEval).length := by
  have hrows := length_encodeObjstates st.objectiveStates
  simp only [serializeState, writeList, List.length_append, length_writeU32, length_writeGen,
    length_writeU64, hrows]
  omega

/-- **What a fabric that has been through a restart saves can be read.** -/
theorem reloadable_again {s s₀ t : State R} {order order' : List ObjectiveId}
    (ho : isOrder s.accumulators order = true) (hs : reloadable s order = true)
    (ht : SameContents (restart s₀ (durableOf s order)) t)
    (ho' : isOrder t.accumulators order' = true) : reloadable t order' = true := by
  have hpolicies : t.policies = s.policies := ht.policies.trans (KeyedTable.ofList_rows _)
  have hcontracts : t.contracts = s.contracts := ht.contracts.trans (KeyedTable.ofList_rows _)
  have hlength (s : State R) {order : List ObjectiveId}
      (ho : isOrder s.accumulators order = true) :
      (durableOf s order).objectiveStates.length = s.accumulators.rows.length := by
    rw [durableOf, List.length_map, (savedRows_perm ho).length_eq]
  have hrows : t.accumulators.rows.length ≤ s.accumulators.rows.length := by
    rw [ht.accumulators]
    exact restart_rows_length s₀ ho
  have hcount := hlength s ho
  have hcount' := hlength t ho'
  have henforced : t.enforcementHistory = s.enforcementHistory := ht.enforcementHistory
  have hevaluated : t.evaluationHistory = s.evaluationHistory := ht.evaluationHistory
  simp only [reloadable, durableStorable, Bool.and_eq_true, decide_eq_true_eq,
    length_serializeState] at hs ⊢
  rw [hcount] at hs
  rw [hcount']
  simp only [durableOf, hpolicies, hcontracts, henforced, hevaluated] at hs ⊢
  obtain ⟨hbytes, ⟨⟨⟨hp, hc⟩, hitems, hstates⟩, henf⟩, heval⟩ := hs
  refine ⟨by omega, ⟨⟨⟨hp, hc⟩, by omega, ?_⟩, henf⟩, heval⟩
  refine List.all_eq_true.mpr fun ps hps => ?_
  obtain ⟨b, hb, rfl⟩ := List.mem_map.mp hps
  have hrow := (savedRows_perm ho').subset hb
  rw [ht.accumulators] at hrow
  exact persistedState_storable (restart_rows_total s₀ ho hstates b hrow)

end Files

/-! ## 4. Runs without calls -/

section Idle

variable [Pod R] [Double R] [Platform R] {t : State R} {w w' : Lineage R} {ev : Event R}
  {a : Option (Response R)}

/-- The steps of an idle lineage: no call, and only an incarnation that made the last load
    saves. -/
def Idle (w : Lineage R) : Event R → Prop
  | .call _ => False
  | .save _ => w.newest = true ∧ w.everLoaded = true
  | .load | .crash => True

/-- The file was saved, can be read, and gives back what `t` has. -/
def GivesBack (t : State R) (file : Option Bytes) : Prop :=
  ∃ s order, file = some (save s order) ∧ reloadable s order = true ∧
    ∀ s₀, SameContents t (restart s₀ (durableOf s order))

/-- The file gives back what `t` has, and the incarnation that loaded it last has it. -/
structure IdleInv (t : State R) (w : Lineage R) : Prop where
  file : GivesBack t w.file
  running : w.newest = true → w.everLoaded = true → SameContents t w.fabric

omit [Platform R] in
/-- A load of the file succeeds. -/
theorem GivesBack.load {file : Option Bytes} (h : GivesBack t file) (s₀ : State R) :
    (SloFabric.load s₀ file).2 = ok ∧ SameContents t (SloFabric.load s₀ file).1 := by
  obtain ⟨s, order, rfl, hre, hholds⟩ := h
  rw [load_save hre]
  exact ⟨rfl, hholds s₀⟩

/-- **The step lemma**, for a fabric `t` that is rebuilt and whose files can be read. -/
theorem idle_step (hr : Rebuilt t)
    (hagain : ∀ u order, SameContents t u → isOrder u.accumulators order = true →
      reloadable u order = true)
    (hi : IdleInv t w) (hc : Idle w ev) (hs : lineageStep w ev = some (w', a)) :
    IdleInv t w' ∧ (ev = .load → a = some (.status ok)) := by
  cases ev with
  | call op => exact absurd hc not_false
  | save order =>
    simp only [lineageStep, Option.ite_none_right_eq_some] at hs
    obtain ⟨ho, hs⟩ := hs
    have hholds := hi.running hc.1 hc.2
    cases hs
    exact ⟨⟨⟨w.fabric, order, rfl, hagain _ _ hholds ho, fun s₀ => holds_restart hr hholds s₀ ho⟩,
      hi.running⟩, fun heq => by cases heq⟩
  | load =>
    obtain ⟨hok, hholds⟩ := hi.file.load w.fabric
    have hsucc : (SloFabric.load w.fabric w.file).2.isOk = true := by rw [hok]; rfl
    simp only [lineageStep, if_pos hsucc] at hs
    cases hs
    exact ⟨⟨hi.file, fun _ _ => hholds⟩, fun _ => by rw [hok]⟩
  | crash =>
    cases hs
    refine ⟨⟨hi.file, fun hnew hloaded => ?_⟩, fun heq => by cases heq⟩
    replace hloaded : w.everLoaded = true := hloaded
    simp [hloaded] at hnew

/-- **Restarting over and over changes nothing but the epoch.** Take any state file that a fabric
    saved and that can be read, and any incarnation that has not loaded it. However often the file
    is loaded, by whatever incarnation, saved by the incarnation that loaded it last, with its
    accumulators in whatever order, and incarnations crash: every load succeeds, and what an
    incarnation has loaded is what the first load gave. -/
theorem idle_restarts {w₀ : Lineage R} {s : State R} {order : List ObjectiveId}
    {tr : List (Event R × Option (Response R))} (hfile : w₀.file = some (save s order))
    (ho : isOrder s.accumulators order = true) (hre : reloadable s order = true)
    (hnew : w₀.newest = false ∨ w₀.everLoaded = false) (h : Run lineageStep Idle w₀ tr w) :
    (w.newest = true → w.everLoaded = true →
      SameContents (restart (State.fresh R) (durableOf s order)) w.fabric) ∧
    ∀ a, (.load, a) ∈ tr → a = some (.status ok) := by
  set t := restart (State.fresh R) (durableOf s order)
  have hsame (s₀ : State R) : SameContents t (restart s₀ (durableOf s order)) :=
    ⟨rfl, rfl, rfl, rfl, rfl, rfl⟩
  have hagain (u : State R) (order' : List ObjectiveId) (hu : SameContents t u)
      (ho' : isOrder u.accumulators order' = true) : reloadable u order' = true :=
    reloadable_again ho hre hu ho'
  have hinv := h.history
    (I := fun tr w => IdleInv t w ∧ ∀ a, (.load, a) ∈ tr → a = some (.status ok))
    ⟨⟨⟨s, order, hfile, hre, hsame⟩, fun hn hl => ?_⟩, fun _ ha => absurd ha List.not_mem_nil⟩
    fun tr w ev w' a hi hc hs => ?_
  · exact ⟨hinv.1.running, hinv.2⟩
  · rcases hnew with hnew | hnew
    · rw [hn] at hnew; cases hnew
    · rw [hl] at hnew; cases hnew
  · obtain ⟨hnext, hload⟩ := idle_step (rebuilt_restart _ ho) hagain hi.1 hc hs
    refine ⟨hnext, fun b hb => ?_⟩
    rcases List.mem_append.mp hb with hold | hlast
    · exact hi.2 b hold
    · cases List.mem_singleton.mp hlast
      exact hload rfl

end Idle

/-- A load of a file that was saved and can be read. -/
theorem lineageStep_load [Pod R] [Double R] [Platform R] {w : Lineage R} {s : State R}
    {order : List ObjectiveId} (hre : reloadable s order = true)
    (hfile : w.file = some (save s order)) :
    lineageStep w .load =
      some ({ w with
          fabric := restart w.fabric (durableOf s order), past := w.fabric.epoch :: w.past
          everLoaded := true, newest := true, saved := false }, some (.status ok)) := by
  rw [lineageStep, hfile, load_save hre]
  rfl

/-- The fabric after the first load of the file of a fabric with a budget of nothing. -/
def reopened : State Binary64 := restart (State.fresh Binary64) (durableOf (budgeted 0) [⟨1⟩])

/-- A load, a save, a crash and another load. -/
theorem idle_restarts_small :
    ∃ tr w, Run lineageStep Idle
        { fabric := State.fresh Binary64, file := some (save (budgeted 0) [⟨1⟩]) } tr w ∧
      w.newest = true ∧ w.everLoaded = true ∧ w.fabric.epoch = ⟨3⟩ ∧
      SameContents reopened w.fabric ∧ ∀ a, (.load, a) ∈ tr → a = some (.status ok) := by
  have ho : isOrder (budgeted 0).accumulators [⟨1⟩] = true := by decide +kernel
  have hre : reloadable (budgeted 0) [⟨1⟩] = true := by decide +kernel
  have ho' : isOrder reopened.accumulators [⟨1⟩] = true := by decide +kernel
  have hre' : reloadable reopened [⟨1⟩] = true := by decide +kernel
  have hsave (w : Lineage Binary64) (hw : w.fabric = reopened) :
      lineageStep w (.save [⟨1⟩]) =
        some ({ w with file := some (save reopened [⟨1⟩]), saved := w.newest },
          some (.saved (save reopened [⟨1⟩]))) := by
    rw [lineageStep, hw, if_pos ho']
  let w₀ : Lineage Binary64 :=
    { fabric := State.fresh Binary64, file := some (save (budgeted 0) [⟨1⟩]) }
  have hstart : Run lineageStep Idle w₀ [] w₀ := .start
  have hloaded := hstart.next (show Idle w₀ .load from trivial) (lineageStep_load hre rfl)
  have hsaved := hloaded.next (show Idle _ (.save [⟨1⟩]) from ⟨rfl, rfl⟩) (hsave _ rfl)
  have hcrashed := hsaved.next (show Idle _ .crash from trivial) rfl
  have hrun := hcrashed.next (show Idle _ .load from trivial) (lineageStep_load hre' rfl)
  obtain ⟨hholds, hloads⟩ := idle_restarts rfl ho hre (Or.inr rfl) hrun
  exact ⟨_, _, hrun, rfl, rfl, by decide +kernel, hholds rfl rfl, hloads⟩

end SloFabric
