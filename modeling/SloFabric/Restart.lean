/-
  File:      SloFabric/Restart.lean
  Subject:   `save` and `load`: the durable state of a fabric, and a fabric rebuilt from one.

  * `persistedState`, `restore`: an accumulator as it is written, and read back onto a fresh one;
  * `durableOf`: the state `save` writes. It lists the accumulators in the order of a hash table,
    which the model leaves open: `order` is any order of the objective ids;
  * `restoreStates_find`: what `load` finds for an objective when no two persisted rows speak
    about it;
  * `load_cases`: what `load` can do.
-/
import SloFabric.Persistence

namespace SloFabric

variable {R : Type}

/-! ## 1. Saving -/

/-- The persisted row of an accumulator. "No budget" is written as zeros. -/
def persistedState (a : ObjectiveAccumulator R) : PersistedObjectiveState where
  objectiveId := a.defn.id
  objectiveGen := a.defn.gen
  budgetTotal := if a.hasBudget then a.budget.total else 0
  budgetConsumed := if a.hasBudget then a.budget.consumed else 0
  budgetWindow := if a.hasBudget then a.budget.window else 0
  budgetWindowStart := if a.hasBudget then a.budget.windowStart else 0
  lastState := a.lastState
  lastStateTime := a.lastStateTime
  cooldownUntil := a.cooldownUntil

/-- Is `order` an order of the ids of all accumulators? -/
def isOrder (t : Accumulators R) (order : List ObjectiveId) : Bool :=
  order.isPerm (t.rows.map (·.defn.id))

/-- The state `save` writes, with the accumulators in the given order. -/
def durableOf (s : State R) (order : List ObjectiveId) : DurableState R where
  epoch := s.epoch
  policies := s.policies.rows
  contracts := s.contracts.rows
  objectiveStates := (order.filterMap s.accumulators.find).map persistedState
  enforcementHistory := s.enforcementHistory
  evaluationHistory := s.evaluationHistory

/-- `save`: the file it leaves at its path. -/
def save [Pod R] [Double R] (s : State R) (order : List ObjectiveId) : Bytes :=
  saveState (durableOf s order)

/-! ## 2. Loading -/

/-- Put a persisted row back onto an accumulator. -/
def restore (acc : ObjectiveAccumulator R) (ps : PersistedObjectiveState) :
    ObjectiveAccumulator R :=
  let acc :=
    if ps.budgetTotal ≠ 0 then
      { acc with
        hasBudget := true
        budget := ((ErrorBudget.make ps.budgetTotal ps.budgetWindow).setWindowStart
          ps.budgetWindowStart).consumeCount ps.budgetConsumed }
    else acc
  { acc with
    lastState := .revalidationRequired
    lastStateTime := ps.lastStateTime
    cooldownUntil := ps.cooldownUntil }

/-- The definitions a persisted row is put back under: the objectives of all contracts with its
    id and generation. -/
def matching (cs : Contracts R) (ps : PersistedObjectiveState) : List (Objective R) :=
  (allObjectives cs).filter fun o => o.id = ps.objectiveId ∧ o.gen = ps.objectiveGen

/-- One turn of the loop over the persisted rows. -/
def restoreState (cs : Contracts R) (t : Accumulators R) (ps : PersistedObjectiveState) :
    Accumulators R :=
  (matching cs ps).foldl (fun t o => t.insert (restore (acquire t o) ps)) t

/-- The loop over the persisted rows. -/
def restoreStates (cs : Contracts R) (l : List PersistedObjectiveState) : Accumulators R :=
  l.foldl (restoreState cs) (.empty _)

/-- A fabric that takes over a durable state: the epoch advances, the counters and the
    remembered evidence ids stay its own. -/
def restart (s : State R) (st : DurableState R) : State R :=
  let contracts := KeyedTable.ofList (fun c : SloContract R => c.id) st.contracts
  { s with
    epoch := st.epoch.next
    policies := .ofList _ st.policies
    contracts := contracts
    accumulators := restoreStates contracts st.objectiveStates
    enforcementHistory := st.enforcementHistory
    evaluationHistory := st.evaluationHistory
    evaluationById := .ofList _ st.evaluationHistory }

/-- **`load`**, from the content of the file at its path. -/
def load [Pod R] [Double R] (s : State R) (file : Option Bytes) : State R × Status :=
  match loadState R file with
  | .error e => (s, e)
  | .ok st => (restart s st, ok)

/-- **What `load` can do**: complain and change nothing, or take over a durable state. -/
theorem load_cases [Pod R] [Double R] (s : State R) (file : Option Bytes) :
    (∃ e, loadState R file = .error e ∧ load s file = (s, e)) ∨
      ∃ st, loadState R file = .ok st ∧ load s file = (restart s st, ok) := by
  unfold load
  cases loadState R file with
  | error e => exact Or.inl ⟨e, rfl, rfl⟩
  | ok st => exact Or.inr ⟨st, rfl, rfl⟩

/-- Can the file a save writes be read back? -/
def reloadable [Pod R] [Double R] (s : State R) (order : List ObjectiveId) : Bool :=
  decide ((serializeState (durableOf s order)).length ≤ kMaxPersistenceBytes) &&
    durableStorable (durableOf s order)

/-- A file that can be read back holds what was saved. -/
theorem loadState_save [Pod R] [Double R] {s : State R} {order : List ObjectiveId}
    (h : reloadable s order = true) :
    loadState R (some (save s order)) = .ok (durableOf s order) := by
  have hy := loadState_saveState (durableOf s order)
  rw [reloadable] at h
  rw [h] at hy
  exact hy

theorem load_save [Pod R] [Double R] {s : State R} {order : List ObjectiveId}
    (h : reloadable s order = true) (s₀ : State R) :
    load s₀ (some (save s order)) = (restart s₀ (durableOf s order), ok) := by
  unfold load
  rw [loadState_save h]

/-- A file that cannot be read back is refused. -/
theorem load_save_refused [Pod R] [Double R] {s : State R} {order : List ObjectiveId}
    (h : reloadable s order = false) (s₀ : State R) :
    (load s₀ (some (save s order))).2.isOk = false := by
  have hy := loadState_saveState (durableOf s order)
  rw [reloadable] at h
  rw [h] at hy
  obtain ⟨m, hm⟩ : ∃ m, loadState R (some (save s order)) = .error (persistenceCorrupt m) := hy
  unfold load
  rw [hm]
  rfl

/-! ## 3. The accumulators a load rebuilds -/

@[simp] theorem restore_defn (acc : ObjectiveAccumulator R) (ps : PersistedObjectiveState) :
    (restore acc ps).defn = acc.defn := by
  unfold restore
  simp only
  split <;> rfl

/-- Putting the same row back twice is putting it back once. -/
theorem restore_restore (acc : ObjectiveAccumulator R) (ps : PersistedObjectiveState) :
    restore (restore acc ps) ps = restore acc ps := by
  unfold restore
  by_cases h : ps.budgetTotal ≠ 0
  · simp only [if_pos h]
  · simp only [if_neg h]

/-- What holds of a fresh accumulator and survives a wipe and a restored row holds of every
    accumulator a load rebuilds. -/
theorem restoreStates_of_id {P : ObjectiveAccumulator R → Prop} {cs : Contracts R}
    (hmake : ∀ o ∈ allObjectives cs, P (.make o))
    (hreset : ∀ a, ∀ o ∈ allObjectives cs, a.defn.id = o.id → P a → P (a.resetForNewGen o))
    {l : List PersistedObjectiveState}
    (hrestore : ∀ a, ∀ ps ∈ l, a.defn.id = ps.objectiveId → P a → P (restore a ps)) :
    ∀ a ∈ (restoreStates cs l).rows, P a := by
  have inner : ∀ (ps : PersistedObjectiveState), ps ∈ l → ∀ (os : List (Objective R))
      (t : Accumulators R), (∀ o ∈ os, o ∈ matching cs ps) → (∀ a ∈ t.rows, P a) →
      ∀ a ∈ (os.foldl (fun t o => t.insert (restore (acquire t o) ps)) t).rows, P a := by
    intro ps hps os
    induction os with
    | nil => intro t _ ht; exact ht
    | cons o os ih =>
      intro t hos ht
      obtain ⟨ho, hid⟩ := List.mem_filter.mp (hos o List.mem_cons_self)
      have hid := (of_decide_eq_true hid).1
      exact ih _ (fun o' h => hos o' (List.mem_cons_of_mem _ h))
        (KeyedTable.forall_insert ht (hrestore _ ps hps ((acquire_id t o).trans hid)
          (acquire_of_id ht (hmake o ho) fun a => hreset a o ho)))
  have outer : ∀ (l' : List PersistedObjectiveState) (t : Accumulators R), (∀ ps ∈ l', ps ∈ l) →
      (∀ a ∈ t.rows, P a) → ∀ a ∈ (l'.foldl (restoreState cs) t).rows, P a := by
    intro l'
    induction l' with
    | nil => intro t _ ht; exact ht
    | cons ps l' ih =>
      intro t hl ht
      exact ih _ (fun q hq => hl q (List.mem_cons_of_mem _ hq))
        (inner ps (hl ps List.mem_cons_self) _ t (fun _ ho => ho) ht)
  exact outer l (.empty _) (fun _ h => h) (by simp)

theorem restoreStates_of {P : ObjectiveAccumulator R → Prop} {cs : Contracts R}
    (hmake : ∀ o ∈ allObjectives cs, P (.make o))
    (hreset : ∀ a, ∀ o ∈ allObjectives cs, P a → P (a.resetForNewGen o))
    {l : List PersistedObjectiveState} (hrestore : ∀ a, ∀ ps ∈ l, P a → P (restore a ps)) :
    ∀ a ∈ (restoreStates cs l).rows, P a :=
  restoreStates_of_id hmake (fun a o ho _ => hreset a o ho) fun a ps hps _ => hrestore a ps hps

/-- The accumulator one persisted row gives, where the table has none for its objective. -/
def restored (cs : Contracts R) (ps : PersistedObjectiveState) : Option (ObjectiveAccumulator R) :=
  (matching cs ps).head?.map fun o => restore (.make o) ps

theorem matching_id {cs : Contracts R} {ps : PersistedObjectiveState} {o : Objective R}
    (h : o ∈ matching cs ps) : o.id = ps.objectiveId ∧ o.gen = ps.objectiveGen :=
  of_decide_eq_true (List.mem_filter.mp h).2

/-- Where the row has been put back, more definitions of its id and generation change nothing. -/
theorem restoreFold_find_some (ps : PersistedObjectiveState) :
    ∀ (os : List (Objective R)) (t : Accumulators R) (a : ObjectiveAccumulator R) (k : ObjectiveId),
    (∀ o ∈ os, o.id = ps.objectiveId ∧ o.gen = ps.objectiveGen) →
    t.find ps.objectiveId = some (restore a ps) → a.defn.gen = ps.objectiveGen →
    (os.foldl (fun t o => t.insert (restore (acquire t o) ps)) t).find k = t.find k
  | [], _, _, _, _, _, _ => rfl
  | o :: os, t, a, k, hos, ht, hg => by
      obtain ⟨hid, hgen⟩ := hos o List.mem_cons_self
      have hacq : acquire t o = restore a ps := by
        unfold acquire
        rw [hid, ht]
        simp [hg, hgen]
      have hfind (k : ObjectiveId) : (t.insert (restore (acquire t o) ps)).find k = t.find k := by
        rw [hacq, restore_restore, KeyedTable.find_insert]
        split
        · rename_i hk
          rw [hk, KeyedTable.find_key ht, ht]
        · rfl
      rw [List.foldl_cons, restoreFold_find_some ps os _ a k
        (fun o' h => hos o' (List.mem_cons_of_mem _ h)) (by rw [hfind, ht]) hg, hfind]

theorem restoreState_find (cs : Contracts R) (t : Accumulators R) (ps : PersistedObjectiveState)
    (h : t.find ps.objectiveId = none) (k : ObjectiveId) :
    (restoreState cs t ps).find k =
      if k = ps.objectiveId then restored cs ps else t.find k := by
  have hm := fun o (ho : o ∈ matching cs ps) => matching_id ho
  unfold restoreState restored
  cases hos : matching cs ps with
  | nil =>
    rw [List.foldl_nil]
    split
    · rename_i hk; rw [hk, h]; rfl
    · rfl
  | cons o os =>
    rw [hos] at hm
    obtain ⟨hid, hgen⟩ := hm o List.mem_cons_self
    have hacq : acquire t o = .make o := by
      unfold acquire
      rw [hid, h]
    have hkey : (restore (acquire t o) ps).defn.id = ps.objectiveId := by
      rw [restore_defn, acquire_id, hid]
    rw [List.foldl_cons, restoreFold_find_some ps os _ (.make o) k
      (fun o' h => hm o' (List.mem_cons_of_mem _ h)) _ hgen, KeyedTable.find_insert, hkey, hacq]
    · split <;> rfl
    · rw [← hkey, KeyedTable.find_insert_self, hacq]

/-- **What a load finds for an objective**: the accumulator its persisted row gives, when no two
    rows speak about one objective. -/
theorem restoreStates_find (cs : Contracts R) {l : List PersistedObjectiveState}
    (hl : (l.map (·.objectiveId)).Nodup) (k : ObjectiveId) :
    (restoreStates cs l).find k = (l.find? (·.objectiveId = k)).bind (restored cs) := by
  have go : ∀ (l : List PersistedObjectiveState) (t : Accumulators R),
      (l.map (·.objectiveId)).Nodup → (∀ ps ∈ l, t.find ps.objectiveId = none) →
      (l.foldl (restoreState cs) t).find k =
        match l.find? (·.objectiveId = k) with
        | some ps => restored cs ps
        | none => t.find k := by
    intro l
    induction l with
    | nil => intro t _ _; rfl
    | cons ps l ih =>
      intro t hn ht
      obtain ⟨hps, hn⟩ := List.nodup_cons.mp hn
      have hfind := restoreState_find cs t ps (ht ps List.mem_cons_self)
      rw [List.foldl_cons, ih _ hn]
      · by_cases hk : ps.objectiveId = k
        · have hnone : l.find? (·.objectiveId = k) = none := by
            refine List.find?_eq_none.mpr fun q hq hqk => hps ?_
            exact List.mem_map.mpr ⟨q, hq, (of_decide_eq_true hqk).trans hk.symm⟩
          rw [hnone, List.find?_cons_of_pos (by simpa using hk)]
          simp only
          rw [hfind, if_pos hk.symm]
        · rw [List.find?_cons_of_neg (by simpa using hk), hfind, if_neg (Ne.symm hk)]
      · intro q hq
        have hne : q.objectiveId ≠ ps.objectiveId := fun e =>
          hps (List.mem_map.mpr ⟨q, hq, e⟩)
        rw [hfind, if_neg hne, ht q (List.mem_cons_of_mem _ hq)]
  unfold restoreStates
  rw [go l _ hl (by simp)]
  cases l.find? (·.objectiveId = k) <;> rfl

end SloFabric
