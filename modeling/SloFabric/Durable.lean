/-
  File:      SloFabric/Durable.lean
  Subject:   What a restart keeps.

  * `restart_find`: the accumulator a restart has for an objective that had one;
  * `kept_iff`: it has budget and cooldown of the old one exactly when a stored contract defines
    the objective at the accumulator's generation and a budget there is has a total;
  * `preserves_iff`: so the restart preserves the durable state exactly when this holds of every
    accumulator;
  * `preserves_fails`: a budget of total `0` is lost.
-/
import SloFabric.Reload

namespace SloFabric

variable {R : Type}

open Double

/-! ## 1. Accumulators -/

/-- What the restart keeps of an accumulator: budget and cooldown. -/
structure Keeps (a b : ObjectiveAccumulator R) : Prop where
  hasBudget : b.hasBudget = a.hasBudget
  budget : a.hasBudget = true → b.budget.total = a.budget.total ∧
    b.budget.consumed = a.budget.consumed ∧ b.budget.window = a.budget.window ∧
    b.budget.windowStart = a.budget.windowStart
  cooldown : b.cooldownUntil = a.cooldownUntil

/-- The fabric has an accumulator with budget and cooldown of `a`. -/
def Kept (s : State R) (a : ObjectiveAccumulator R) : Prop :=
  ∃ b, s.accumulators.find a.defn.id = some b ∧ Keeps a b

/-- Some stored contract defines the accumulator's objective at its generation. -/
def Defined (cs : Contracts R) (a : ObjectiveAccumulator R) : Prop :=
  ∃ o ∈ allObjectives cs, o.id = a.defn.id ∧ o.gen = a.defn.gen

/-- Where no two elements agree in `f`, an element is found by its `f`. -/
theorem find?_of_nodup {α β : Type} [DecidableEq β] {f : α → β} {l : List α} {x : α}
    (hn : (l.map f).Nodup) (hx : x ∈ l) : l.find? (f · = f x) = some x := by
  cases h : l.find? (f · = f x) with
  | none => simpa using List.find?_eq_none.mp h x hx
  | some y =>
    have hy : f y = f x := by simpa using List.find?_some h
    rw [List.inj_on_of_nodup_map hn (List.mem_of_find?_eq_some h) hx hy]

/-- **What a restart has for an objective that had an accumulator**: what its persisted row
    gives. -/
theorem restart_find {s s₀ : State R} {order : List ObjectiveId}
    (ho : isOrder s.accumulators order = true) {a : ObjectiveAccumulator R}
    (ha : a ∈ s.accumulators.rows) :
    (restart s₀ (durableOf s order)).accumulators.find a.defn.id =
      restored s.contracts (persistedState a) := by
  have hperm := savedRows_perm ho
  have hids : ((durableOf s order).objectiveStates.map (·.objectiveId)).Nodup := by
    have hmap : (durableOf s order).objectiveStates.map (·.objectiveId) =
        (order.filterMap s.accumulators.find).map (·.defn.id) := by
      rw [durableOf, List.map_map]
      rfl
    rw [hmap]
    exact (hperm.map _).nodup_iff.mpr s.accumulators.keys_nodup
  have hrow : persistedState a ∈ (durableOf s order).objectiveStates :=
    List.mem_map_of_mem (hperm.symm.subset ha)
  show (restoreStates (.ofList _ s.contracts.rows) _).find a.defn.id = _
  rw [KeyedTable.ofList_rows, restoreStates_find _ hids,
    show a.defn.id = (persistedState a).objectiveId from rfl, find?_of_nodup hids hrow]
  rfl

/-- The budget a row brings back is the one it was written from. -/
theorem keeps_restore {a : ObjectiveAccumulator R} (o : Objective R)
    (h : a.hasBudget = true → a.budget.total ≠ 0) :
    Keeps a (restore (.make o) (persistedState a)) := by
  cases hb : a.hasBudget with
  | false =>
    have hps : (persistedState a).budgetTotal = 0 := by simp [persistedState, hb]
    refine ⟨?_, by simp [hb], rfl⟩
    simp [restore, hps, hb, ObjectiveAccumulator.make]
  | true =>
    have hps : (persistedState a).budgetTotal ≠ 0 := by simpa [persistedState, hb] using h hb
    have hwindow : ¬ a.budget.window < 0 := Int64.not_lt.mpr a.budget.window_nonneg
    refine ⟨?_, fun _ => ?_, rfl⟩
    · simp [restore, hps, hb]
    · have htotal := h hb
      simp [restore, htotal, hb, persistedState, ErrorBudget.make, ErrorBudget.setWindowStart,
        ErrorBudget.consumeCount, ErrorBudget.charge_zero a.budget.consumed_nonneg, hwindow]

/-- A budget of total `0` is not brought back. -/
theorem not_keeps_restore {a : ObjectiveAccumulator R} (o : Objective R)
    (hb : a.hasBudget = true) (h0 : a.budget.total = 0) :
    ¬Keeps a (restore (.make o) (persistedState a)) := by
  intro hk
  have hps : (persistedState a).budgetTotal = 0 := by simp [persistedState, hb, h0]
  have hno : (restore (.make o) (persistedState a)).hasBudget = false := by
    simp [restore, hps, ObjectiveAccumulator.make]
  rw [hk.hasBudget, hb] at hno
  cases hno

/-- **When an accumulator is kept.** -/
theorem kept_iff {s s₀ : State R} {order : List ObjectiveId}
    (ho : isOrder s.accumulators order = true) {a : ObjectiveAccumulator R}
    (ha : a ∈ s.accumulators.rows) :
    Kept (restart s₀ (durableOf s order)) a ↔
      Defined s.contracts a ∧ (a.hasBudget = true → a.budget.total ≠ 0) := by
  unfold Kept
  rw [restart_find ho ha, restored]
  cases hm : matching s.contracts (persistedState a) with
  | nil =>
    have hnone : ¬Defined s.contracts a := by
      rintro ⟨o, hmem, hid, hgen⟩
      have hin : o ∈ matching s.contracts (persistedState a) :=
        List.mem_filter.mpr ⟨hmem, decide_eq_true ⟨hid, hgen⟩⟩
      rw [hm] at hin
      exact List.not_mem_nil hin
    constructor
    · rintro ⟨b, hb, _⟩
      cases hb
    · rintro ⟨hdef, _⟩
      exact absurd hdef hnone
  | cons o os =>
    have hmem : o ∈ matching s.contracts (persistedState a) := by rw [hm]; exact List.mem_cons_self
    have hdef : Defined s.contracts a :=
      ⟨o, (List.mem_filter.mp hmem).1, (matching_id hmem).1, (matching_id hmem).2⟩
    constructor
    · rintro ⟨b, hb, hkeeps⟩
      cases hb
      exact ⟨hdef, fun hbud h0 => not_keeps_restore o hbud h0 hkeeps⟩
    · rintro ⟨_, hbud⟩
      exact ⟨_, rfl, keeps_restore o hbud⟩

/-! ## 2. The whole state -/

/-- **Restart preserves durable state**: policies, contracts and histories are the saved ones,
    the epoch is the next one, and every accumulator is kept. -/
structure RestartPreserves (s s' : State R) : Prop where
  policies : s'.policies = s.policies
  contracts : s'.contracts = s.contracts
  enforcementHistory : s'.enforcementHistory = s.enforcementHistory
  evaluationHistory : s'.evaluationHistory = s.evaluationHistory
  epoch : s'.epoch = ⟨s.epoch.value + 1⟩
  accumulators : ∀ a ∈ s.accumulators.rows, Kept s' a

variable [Pod R] [Double R]

/-- **When a restart preserves the durable state.** For every state, reachable or not, saved with
    its accumulators in whatever order and then loaded into a fresh fabric: the durable state is
    the saved one if and only if every accumulator's objective is defined at its generation by
    some stored contract and every budget has a total. -/
theorem preserves_iff {s s' : State R} {order : List ObjectiveId} {st : Status}
    (ho : isOrder s.accumulators order = true)
    (hl : load (State.fresh R) (some (save s order)) = (s', st)) (hok : st.isOk = true) :
    RestartPreserves s s' ↔ ∀ a ∈ s.accumulators.rows,
      Defined s.contracts a ∧ (a.hasBudget = true → a.budget.total ≠ 0) := by
  have hre : reloadable s order = true := by
    by_contra hno
    have hbad := load_save_refused (Bool.not_eq_true _ ▸ hno) (State.fresh R)
    rw [hl] at hbad
    rw [hok] at hbad
    cases hbad
  have hs' : s' = restart (State.fresh R) (durableOf s order) := by
    rw [load_save hre] at hl
    exact (congrArg Prod.fst hl).symm
  subst hs'
  constructor
  · intro h a ha
    exact (kept_iff ho ha).mp (h.accumulators a ha)
  · intro h
    exact ⟨KeyedTable.ofList_rows _, KeyedTable.ofList_rows _, rfl, rfl, rfl,
      fun a ha => (kept_iff ho ha).mpr (h a ha)⟩

/-! ## 3. A budget of nothing -/

/-- A fabric whose objective has a budget. -/
def budgeted (total : Count) : State Binary64 :=
  after [.addContract (smallContract 1 1 1 [smallObjective 1 1]),
    .setObjectiveBudget ⟨1⟩ total 60000000000]

/-- **A budget of total `0` is lost**: it is exhausted before the restart and absent after. -/
theorem preserves_fails :
    ¬∀ (s s' : State Binary64) (order : List ObjectiveId) (st : Status), Reachable s →
      isOrder s.accumulators order = true →
      load (State.fresh Binary64) (some (save s order)) = (s', st) → st.isOk = true →
      RestartPreserves s s' := by
  intro hall
  have hre : reloadable (budgeted 0) [⟨1⟩] = true := by decide +kernel
  have hpres := hall (budgeted 0) _ [⟨1⟩] ok (reachable_after _) (by decide +kernel)
    (load_save hre _) rfl
  have hrow : (budgeted 0).accumulators.rows.any (fun a => a.hasBudget && a.budget.total = 0) =
      true := by
    decide +kernel
  obtain ⟨a, ha, hzero⟩ := List.any_eq_true.mp hrow
  obtain ⟨hb, h0⟩ := Bool.and_eq_true_iff.mp hzero
  have hkept := (kept_iff (by decide +kernel) ha).mp (hpres.accumulators a ha)
  exact hkept.2 hb (of_decide_eq_true h0)

/-- A budget of three units is kept. -/
theorem preserves_iff_small :
    RestartPreserves (budgeted 3)
      (restart (State.fresh Binary64) (durableOf (budgeted 3) [⟨1⟩])) := by
  have hre : reloadable (budgeted 3) [⟨1⟩] = true := by decide +kernel
  have ho : isOrder (budgeted 3).accumulators [⟨1⟩] = true := by decide +kernel
  refine (preserves_iff ho (load_save hre _) rfl).mpr fun a ha => ?_
  have hall : (budgeted 3).accumulators.rows.all (fun a =>
      (allObjectives (budgeted 3).contracts).any
        (fun o => o.id = a.defn.id && o.gen = a.defn.gen) &&
      (a.budget.total ≠ 0)) = true := by
    decide +kernel
  obtain ⟨hdef, htotal⟩ := Bool.and_eq_true_iff.mp (List.all_eq_true.mp hall a ha)
  obtain ⟨o, hmem, hog⟩ := List.any_eq_true.mp hdef
  obtain ⟨hid, hgen⟩ := Bool.and_eq_true_iff.mp hog
  exact ⟨⟨o, hmem, of_decide_eq_true hid, of_decide_eq_true hgen⟩,
    fun _ => of_decide_eq_true htotal⟩

end SloFabric
