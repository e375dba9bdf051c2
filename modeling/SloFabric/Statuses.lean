/-
  File:      SloFabric/Statuses.lean
  Subject:   What the fabric answers when it is asked how its objectives are.

  * `ObjectiveStatus`, `objectiveStatuses`: the query;
  * `said`: what was last said about an objective in a run -- by an evaluation, or by a load;
  * `lastStateOf`: the state an accumulator remembers, with what each kind of step does to it;
  * `statuses_said`: where the objective keeps its generation, the query answers what was last
    said.
-/
import SloFabric.Accounts
import SloFabric.Archive
import SloFabric.Turns

namespace SloFabric

variable {R : Type}

/-! ## 1. The query -/

structure ObjectiveStatus (R : Type) where
  objective : Objective R
  state : ComplianceState
  currentValue : Option (ObjectiveValue R) := none
  freshness : Freshness
  sampleCount : Count
  budgetState : Option BudgetState := none
  budgetConsumed : Option Count := none

variable [Double R]

def statusOf (t : Accumulators R) (o : Objective R) : ObjectiveStatus R :=
  match t.find o.id with
  | some acc =>
    { objective := o, state := acc.lastState, freshness := .unknown
      sampleCount := Int64.ofNat acc.window.size
      budgetState := if acc.hasBudget then some (acc.budget.state R) else none
      budgetConsumed := if acc.hasBudget then some acc.budget.consumed else none }
  | none =>
    { objective := o, state := .insufficientEvidence, freshness := .unknown, sampleCount := 0 }

def objectiveStatuses (s : State R) (id : SloContractId) : List (ObjectiveStatus R) :=
  match s.contracts.find id with
  | none => []
  | some c => c.objectives.map (statusOf s.accumulators)

/-! ## 2. What was last said -/

/-- Does a load of this state find a definition for a row of the objective? -/
def restores (st : DurableState R) (k : ObjectiveId) : Bool :=
  st.objectiveStates.any fun ps =>
    (matching (.ofList (fun c : SloContract R => c.id) st.contracts) ps).any (·.id = k)

/-- What is said about the objective after one more step: the verdict, if an evaluation reports
    one, or that it is to be measured again, if a load finds it. -/
def sayNext [Pod R] (k : ObjectiveId) (v : ComplianceState) : Op R × Response R → ComplianceState
  | (.load file, _) =>
    match loadState R file with
    | .ok st => if restores st k then .revalidationRequired else .insufficientEvidence
    | .error _ => v
  | (_, r) =>
    match r.report with
    | some res => ((res.explanation.objectives.filter (·.id = k)).getLast?.map (·.state)).getD v
    | none => v

/-- What was last said about the objective. -/
def said [Pod R] (k : ObjectiveId) (tr : Trace R) : ComplianceState :=
  tr.foldl (sayNext k) .insufficientEvidence

/-! ## 3. What an accumulator remembers -/

omit [Double R] in
/-- The state that is remembered of an objective. -/
def lastStateOf (t : Accumulators R) (k : ObjectiveId) : ComplianceState :=
  ((t.find k).map (·.lastState)).getD .insufficientEvidence

theorem statusOf_state (t : Accumulators R) (o : Objective R) :
    (statusOf t o).objective = o ∧ (statusOf t o).state = lastStateOf t o.id := by
  unfold statusOf lastStateOf
  cases t.find o.id <;> exact ⟨rfl, rfl⟩

section Tables

omit [Double R]

variable {t : Accumulators R} {k : ObjectiveId} {g : ObjectiveGen}

theorem lastStateOf_insert (t : Accumulators R) (b : ObjectiveAccumulator R) (k : ObjectiveId) :
    lastStateOf (t.insert b) k = if k = b.defn.id then b.lastState else lastStateOf t k := by
  unfold lastStateOf
  rw [KeyedTable.find_insert]
  split <;> rfl

/-- The accumulator of the objective, if there is one, is of generation `g`. -/
def AtGen (t : Accumulators R) (k : ObjectiveId) (g : ObjectiveGen) : Prop :=
  ∀ a, t.find k = some a → a.defn.gen = g

/-- A new accumulator remembers what none does. -/
theorem acquire_lastState {o : Objective R} (ht : AtGen t o.id o.gen) :
    (acquire t o).lastState = lastStateOf t o.id := by
  unfold lastStateOf
  rcases acquire_cases t o with ⟨hn, h⟩ | ⟨a, hn, hg, _⟩ | ⟨a, hn, _, h⟩
  · rw [h, hn]; rfl
  · exact absurd (ht a hn) hg
  · rw [h, hn]; rfl

/-- The accumulators of the objective go on at its generation and remember the same. -/
structure Remembering (t t' : Accumulators R) (k : ObjectiveId) (g : ObjectiveGen) : Prop where
  state : lastStateOf t' k = lastStateOf t k
  gen : AtGen t' k g

theorem Remembering.refl (ht : AtGen t k g) : Remembering t t k g := ⟨rfl, ht⟩

theorem AtGen.insert (ht : AtGen t k g) {o : Objective R} (ho : o.id = k → o.gen = g)
    {b : ObjectiveAccumulator R} (hid : b.defn.id = o.id) (hgen : b.defn.gen = o.gen) :
    AtGen (t.insert b) k g := by
  intro a ha
  rw [KeyedTable.find_insert] at ha
  split at ha
  · rename_i hk
    cases ha
    rw [hgen]
    exact ho (hid.symm.trans hk.symm)
  · exact ht a ha

/-- An accumulator that was handed out is put back and remembers what it did. -/
theorem remembering_insert (ht : AtGen t k g) {o : Objective R} (ho : o.id = k → o.gen = g)
    {b : ObjectiveAccumulator R} (hid : b.defn.id = o.id) (hgen : b.defn.gen = o.gen)
    (hstate : b.lastState = (acquire t o).lastState) : Remembering t (t.insert b) k g := by
  refine ⟨?_, ht.insert ho hid hgen⟩
  rw [lastStateOf_insert, hid]
  split
  · rename_i hk
    subst hk
    rw [hstate, acquire_lastState (ho rfl ▸ ht)]
  · rfl

theorem remembering_foldl : ∀ (os : List (Objective R)) {t : Accumulators R}, AtGen t k g →
    (∀ o ∈ os, o.id = k → o.gen = g) → Remembering t (os.foldl getAccumulator t) k g
  | [], _, ht, _ => .refl ht
  | o :: os, t, ht, hos => by
      have hone : Remembering t (getAccumulator t o) k g :=
        remembering_insert ht (hos o List.mem_cons_self) (acquire_id t o) (acquire_gen t o) rfl
      have hrest := remembering_foldl os hone.gen fun o' ho' => hos o' (List.mem_cons_of_mem _ ho')
      exact ⟨hrest.state.trans hone.state, hrest.gen⟩

/-- A stored accumulator is replaced by one that remembers the same. -/
theorem remembering_replace (ht : AtGen t k g) {id : ObjectiveId} {a b : ObjectiveAccumulator R}
    (ha : t.find id = some a) (hdefn : b.defn = a.defn) (hstate : b.lastState = a.lastState) :
    Remembering t (t.insert b) k g := by
  have hid : b.defn.id = id := by rw [hdefn, KeyedTable.find_key ha]
  by_cases hk : k = id
  · refine ⟨?_, fun x hx => ?_⟩
    · rw [lastStateOf_insert, if_pos (hk.trans hid.symm), hstate, hk, lastStateOf, ha]
      rfl
    · rw [KeyedTable.find_insert, if_pos (hk.trans hid.symm)] at hx
      cases hx
      rw [hdefn]
      exact ht a (hk ▸ ha)
  · have hne : k ≠ b.defn.id := fun e => hk (e.trans hid)
    refine ⟨?_, fun x hx => ?_⟩
    · rw [lastStateOf_insert, if_neg hne]
    · rw [KeyedTable.find_insert, if_neg hne] at hx
      exact ht x hx

theorem remembering_cooldown (ht : AtGen t k g) (id : ObjectiveId) (stop : Duration) :
    Remembering t (setCooldown t id stop) k g := by
  unfold setCooldown
  cases ha : t.find id with
  | none => exact .refl ht
  | some a => exact remembering_replace ht ha rfl rfl

/-- **What a load remembers**: that what it found is to be measured again. -/
theorem lastStateOf_restoreStates (cs : Contracts R) (l : List PersistedObjectiveState)
    (k : ObjectiveId) :
    lastStateOf (restoreStates cs l) k =
      if l.any fun ps => (matching cs ps).any (·.id = k) then .revalidationRequired
      else .insufficientEvidence := by
  have inner (ps : PersistedObjectiveState) : ∀ (os : List (Objective R)) (t : Accumulators R),
      lastStateOf (os.foldl (fun t o => t.insert (restore (acquire t o) ps)) t) k =
        if os.any (·.id = k) then .revalidationRequired else lastStateOf t k := by
    intro os
    induction os with
    | nil => intro t; rfl
    | cons o os ih =>
      intro t
      rw [List.foldl_cons, ih, lastStateOf_insert, restore_defn, acquire_id, List.any_cons]
      by_cases hk : o.id = k
      · rw [if_pos hk.symm, decide_eq_true hk, Bool.true_or, if_pos rfl]
        exact ite_self _
      · rw [if_neg (Ne.symm hk), decide_eq_false hk, Bool.false_or]
  have outer : ∀ (l : List PersistedObjectiveState) (t : Accumulators R),
      lastStateOf (l.foldl (restoreState cs) t) k =
        if l.any fun ps => (matching cs ps).any (·.id = k) then .revalidationRequired
        else lastStateOf t k := by
    intro l
    induction l with
    | nil => intro t; rfl
    | cons ps l ih =>
      intro t
      rw [List.foldl_cons, ih, restoreState, inner, List.any_cons]
      by_cases hk : (matching cs ps).any (·.id = k) = true
      · rw [hk, Bool.true_or, if_pos rfl]
        exact ite_self _
      · rw [Bool.eq_false_iff.mpr hk, Bool.false_or, if_neg Bool.false_ne_true]
  exact outer l (.empty _)

end Tables

/-- **What an evaluation leaves remembered**: the verdict it reports for the objective last. -/
theorem lastStateOf_evaluate (now : Duration) (k : ObjectiveId) : ∀ (objs : List (Objective R))
    (t : Accumulators R), lastStateOf (accumulatorsAfter t now objs) k =
      (((evaluateObjectives t now objs).2.1.filter (·.st.id = k)).getLast?.map
        (·.st.state)).getD (lastStateOf t k)
  | [], _ => rfl
  | o :: objs, t => by
      obtain ⟨htable, hobj, _, hid, hstate⟩ := evaluateObjective_spec t o now
      have hrest := lastStateOf_evaluate now k objs (t.insert (judged t o now))
      simp only [evaluateObjectives, htable]
      rw [accumulatorsAfter, List.foldl_cons]
      refine hrest.trans ?_
      rw [lastStateOf_insert, judged_id, List.filter_cons]
      by_cases hk : o.id = k
      · rw [if_pos hk.symm, if_pos (by simpa [hid] using hk), List.getLast?_cons]
        cases ((evaluateObjectives (t.insert (judged t o now)) now objs).2.1.filter
          (·.st.id = k)).getLast? with
        | none => exact hstate.symm
        | some ev => rfl
      · rw [if_neg (Ne.symm hk), if_neg (by simpa [hid] using hk)]

theorem atGen_evaluate {k : ObjectiveId} {g : ObjectiveGen} (now : Duration) :
    ∀ (objs : List (Objective R)) {t : Accumulators R}, AtGen t k g →
    (∀ o ∈ objs, o.id = k → o.gen = g) → AtGen (accumulatorsAfter t now objs) k g
  | [], _, ht, _ => ht
  | o :: objs, t, ht, hobjs => by
      have hone : AtGen (t.insert (judged t o now)) k g :=
        ht.insert (hobjs o List.mem_cons_self) (judged_id t o now) (by simp [judged])
      exact atGen_evaluate now objs hone fun o' ho' => hobjs o' (List.mem_cons_of_mem _ ho')

/-! ## 4. One step -/

/-- All stored definitions of the objective are of one generation. -/
def OneGeneration (k : ObjectiveId) (g : ObjectiveGen) (s : State R) (_op : Op R) : Prop :=
  ∀ o ∈ allObjectives s.contracts, o.id = k → o.gen = g

section Steps

variable [Pod R] {k : ObjectiveId} {g : ObjectiveGen} {s s' : State R}

/-- **A step that neither judges nor loads.** -/
theorem remembering_step [Platform R] {op : Op R} {r : Response R} (h : apply s op = some (s', r))
    (hgen : OneGeneration k g s op) (ht : AtGen s.accumulators k g)
    (heval : ∀ service workload now, op ≠ .evaluate service workload now)
    (hload : ∀ file, op ≠ .load file) : Remembering s.accumulators s'.accumulators k g := by
  have hdef {id : ObjectiveId} {o : Objective R} (hd : definitionOf s.contracts id = some o) :
      o.id = k → o.gen = g := by
    obtain ⟨_, c, hc, ho⟩ := definitionOf_some hd
    exact hgen o (List.mem_flatMap.mpr ⟨c, hc, ho⟩)
  cases frame_cases h with
  | policies h' | dispatched h' | saved h' => rw [h']; exact .refl ht
  | contracts _ h' => rw [h']; exact .refl ht
  | transition hx | completed hx => cases hx; exact .refl ht
  | evaluated => exact absurd rfl (heval _ _ _)
  | failed | loaded => exact absurd rfl (hload _)
  | @ingested e now =>
    cases h
    rcases ingest_offered s e now with ⟨_, h', _⟩ | ⟨o, ho, h', _⟩
    · rw [h']; exact .refl ht
    · have hconduct := offer_conduct o (acquire s.accumulators o) e
      rw [h']
      refine remembering_insert ht (hdef (offeredTo_definition ho)) ?_ ?_ hconduct.lastState
      · rw [hconduct.defn, acquire_id]
      · rw [hconduct.defn, acquire_gen]
  | @authorized intent now _ hx =>
    cases h
    rcases authorize_cases s intent now with ⟨_, h'⟩ | ⟨_, _, _, _, _, _, _, _, _, h'⟩
    · rw [h']; exact .refl ht
    · rw [h']
      exact remembering_cooldown ht _ _
  | objectives hop =>
    cases op with
    | recordRecoveryEvent id phase time =>
      cases h
      rcases recordRecoveryEvent_cases s id phase time with ⟨_, h'⟩ | ⟨o, hd, h'⟩
      · rw [h']; exact .refl ht
      · rw [h']
        exact remembering_insert ht (hdef hd) (acquire_id _ o) (acquire_gen _ o) rfl
    | ingestViolationEvent id now =>
      cases h
      have hstored {o : Objective R} (ho : o ∈ acquires s (.ingestViolationEvent id now)) :
          o.id = k → o.gen = g := hgen o (acquires_stored ho)
      have hfold :=
        remembering_foldl (violationDefinitions s.contracts id) ht fun _ ho => hstored ho
      rcases ingestViolationEvent_cases s id now with ⟨_, _, h'⟩ | ⟨_, acc, _, hacc, _, h'⟩
      · rw [h']; exact hfold
      · rw [h']
        have hone := remembering_replace (b := { acc with budget := acc.budget.consume }) hfold.gen
          hacc rfl rfl
        exact ⟨hone.state.trans hfold.state, hone.gen⟩
    | setObjectiveBudget id total window =>
      cases h
      rcases setObjectiveBudget_cases s id total window with
        ⟨_, h', _⟩ | ⟨o, hd, ⟨h', _⟩ | ⟨_, h', _⟩⟩
      · rw [h']; exact .refl ht
      · rw [h']
        exact remembering_insert ht (hdef hd) (acquire_id _ o) (acquire_gen _ o) rfl
      · rw [h']
        exact remembering_insert ht (hdef hd) (acquire_id _ o) (acquire_gen _ o) rfl
    | _ => cases hop

/-! ## 5. Runs -/

/-- The accumulator remembers what was last said, and is of the generation or was just restored
    at that of a stored definition. -/
structure Recalls (k : ObjectiveId) (g : ObjectiveGen) (tr : Trace R) (s : State R) : Prop where
  state : lastStateOf s.accumulators k = said k tr
  gen : ∀ a, s.accumulators.find k = some a → a.defn.gen = g ∨
    ∃ o ∈ allObjectives s.contracts, o.id = k ∧ o.gen = a.defn.gen

theorem Recalls.atGen {tr : Trace R} {op : Op R} (hi : Recalls k g tr s)
    (hgen : OneGeneration k g s op) : AtGen s.accumulators k g := by
  intro a ha
  rcases hi.gen a ha with h | ⟨o, ho, hid, h⟩
  · exact h
  · exact h.symm.trans (hgen o ho hid)

theorem said_append (k : ObjectiveId) (tr : Trace R) (x : Op R × Response R) :
    said k (tr ++ [x]) = sayNext k (said k tr) x := by
  rw [said, List.foldl_append]
  rfl

/-- A step that says nothing. -/
theorem sayNext_other {op : Op R} {r : Response R} (v : ComplianceState)
    (hload : ∀ file, op ≠ .load file) (hreport : r.report = none) :
    sayNext k v (op, r) = v := by
  unfold sayNext
  split
  · rename_i file _ heq
    cases heq
    exact absurd rfl (hload file)
  · rename_i heq
    cases heq
    rw [hreport]

omit [Double R] [Pod R] in
/-- Every restored accumulator is of the generation of a stored definition. -/
theorem restoreStates_gen (cs : Contracts R) (l : List PersistedObjectiveState) :
    ∀ a ∈ (restoreStates cs l).rows,
      ∃ o ∈ allObjectives cs, o.id = a.defn.id ∧ o.gen = a.defn.gen := by
  refine restoreStates_of_id (fun o ho => ⟨o, ho, rfl, rfl⟩) (fun a o ho _ _ => ⟨o, ho, rfl, rfl⟩)
    fun a ps _ _ h => ?_
  rwa [restore_defn]

/-- **The step lemma.** -/
theorem recalls_step [Platform R] {tr : Trace R} {op : Op R} {r : Response R}
    (hi : Recalls k g tr s) (hgen : OneGeneration k g s op) (h : apply s op = some (s', r)) :
    Recalls k g (tr ++ [(op, r)]) s' := by
  have ht := hi.atGen hgen
  by_cases heval : ∃ service workload now, op = .evaluate service workload now
  · obtain ⟨service, workload, now, rfl⟩ := heval
    obtain ⟨⟨s₁, x⟩, hx, he⟩ := Option.map_eq_some_iff.mp h
    cases he
    rcases evaluate_cases hx with ⟨st, rfl, rfl⟩ | ⟨c, _, _, _, _, hc, _, _, _, rfl, rfl⟩
    · exact ⟨by rw [said_append, ← hi.state]; rfl, hi.gen⟩
    · have hrow := (List.mem_filter.mp (newest_some hc).1).1
      have hobjs : ∀ o ∈ c.objectives, o.id = k → o.gen = g := fun o ho =>
        hgen o (List.mem_flatMap.mpr ⟨c, hrow, ho⟩)
      refine ⟨?_, fun a ha => Or.inl (atGen_evaluate now c.objectives ht hobjs a ha)⟩
      rw [said_append, ← hi.state]
      refine (lastStateOf_evaluate now k c.objectives s.accumulators).trans ?_
      show _ = ((((evaluateObjectives s.accumulators now c.objectives).2.1.map (·.st)).filter
        (·.id = k)).getLast?.map (·.state)).getD _
      rw [List.filter_map, List.getLast?_map, Option.map_map]
      rfl
  · by_cases hload : ∃ file, op = .load file
    · obtain ⟨file, rfl⟩ := hload
      cases h
      rcases load_cases s file with ⟨e, he, h'⟩ | ⟨st, hst, h'⟩
      · rw [h']
        refine ⟨?_, hi.gen⟩
        rw [said_append, sayNext, he, hi.state]
      · rw [h']
        refine ⟨?_, fun a ha => Or.inr ?_⟩
        · rw [said_append, sayNext, hst]
          exact lastStateOf_restoreStates _ _ k
        · have hkey : a.defn.id = k := (KeyedTable.find_eq_some.mp ha).2
          obtain ⟨o, ho, hid, hog⟩ := restoreStates_gen _ _ a (KeyedTable.find_mem ha)
          exact ⟨o, ho, hid.trans hkey, hog⟩
    · have hnoeval : ∀ service workload now, op ≠ .evaluate service workload now :=
        fun service workload now e => heval ⟨service, workload, now, e⟩
      have hnoload : ∀ file, op ≠ .load file := fun file e => hload ⟨file, e⟩
      have hstep := remembering_step h hgen ht hnoeval hnoload
      have hreport : r.report = none := by
        cases frame_cases h with
        | evaluated => exact absurd rfl (hnoeval _ _ _)
        | _ => rfl
      refine ⟨?_, fun a ha => Or.inl (hstep.gen a ha)⟩
      rw [said_append, sayNext_other _ hnoload hreport, hstep.state, hi.state]

/-- **The query answers what was last said.** In every run, loads included, in which the stored
    definitions of an objective are of one generation: whatever else happened to its evidence,
    budget, recovery or cooldown, under whatever contract it is asked for, the state is the
    verdict the last evaluation reported for the objective; after a load, that it needs to be
    measured again; before any of these, that there is no evidence. -/
theorem statuses_said [Platform R] {tr : Trace R}
    (h : Run apply (OneGeneration k g) (State.fresh R) tr s) :
    ∀ id, ∀ status ∈ objectiveStatuses s id, status.objective.id = k →
      status.state = said k tr := by
  have hrecalls := h.history (I := Recalls k g) ⟨rfl, fun a ha => by cases ha⟩
    fun _ _ _ _ _ hi hc hs => recalls_step hi hc hs
  intro id status hstatus hk
  unfold objectiveStatuses at hstatus
  split at hstatus
  · exact absurd hstatus List.not_mem_nil
  · rename_i c hc
    obtain ⟨o, _, rfl⟩ := List.mem_map.mp hstatus
    obtain ⟨hobj, hstate⟩ := statusOf_state s.accumulators o
    rw [hobj] at hk
    rw [hstate, hk]
    exact hrecalls.state

end Steps

/-- A violated latency, with a budget that was set since. -/
theorem statuses_said_small :
    ∃ s tr, Run apply (OneGeneration ⟨1⟩ ⟨1⟩) (State.fresh Binary64) tr s ∧
      said ⟨1⟩ tr = .violating ∧
      ∃ status ∈ objectiveStatuses s ⟨1⟩, status.state = said ⟨1⟩ tr := by
  let ops : List (Op Binary64) := [.setPolicy smallPolicy,
    .addContract (smallContract 1 1 1 [smallObjective 1 1]),
    .ingest (smallEvidence 1 1 200000000) 0, .evaluate ⟨1⟩ ⟨1⟩ 0, .setObjectiveBudget ⟨1⟩ 5 0]
  have htest : (execute apply
      (fun s _ => (allObjectives s.contracts).all fun o => o.id ≠ ⟨1⟩ || o.gen = ⟨1⟩)
      (State.fresh Binary64) ops).any (fun x => decide (said ⟨1⟩ x.2 = .violating ∧
        (objectiveStatuses x.1 ⟨1⟩).map (·.objective.id) = [⟨1⟩])) = true := by
    decide +kernel
  obtain ⟨s, tr, hrun, hp⟩ := Run.of_test (C := OneGeneration ⟨1⟩ ⟨1⟩) (fun s op h o ho hid => by
    simpa [hid] using List.all_eq_true.mp h o ho) htest
  obtain ⟨hsaid, hids⟩ := of_decide_eq_true hp
  obtain ⟨status, hstatus, hid⟩ := List.mem_map.mp (hids ▸ List.mem_singleton_self _)
  exact ⟨s, tr, hrun, hsaid, status, hstatus, statuses_said hrun _ status hstatus hid⟩

end SloFabric
