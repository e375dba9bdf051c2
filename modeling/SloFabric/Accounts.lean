/-
  File:      SloFabric/Accounts.lean
  Subject:   What one step of the fabric does to the accumulator of one objective.

  * `offeredTo`: the definition `ingest` offers a record to, with `ingest_offered`;
  * `acquires`: the definitions a step hands to `get_accumulator`, in order;
  * `Carried`: a relation between accumulators that every use of one respects, but the arrival
    of evidence and an authorization;
  * `After`: the accumulator of an objective is left alone, or it is used at its generation, or
    it is new or wiped and then used, at the generation asked for last;
  * `account_step`: these are all the cases there are.
-/
import SloFabric.Machine

namespace SloFabric

variable {R : Type}

/-! ## 1. Definitions handed to `get_accumulator` -/

/-- The definition `ingest` offers a record to, when the record gets past the global checks. -/
def offeredTo (s : State R) (e : EvidenceRecord R) : Option (Objective R) :=
  if !(noteEvidence s e.id).2.isOk then none
  else if e.epoch.valid && e.epoch != s.epoch then none
  else
    (definitionOf s.contracts e.objectiveId).filter fun o =>
      !(e.objectiveGen.valid && e.objectiveGen != o.gen)

/-- The contract an evaluation judges: the one in force for the scope, when its policy is. -/
def judgedContract (s : State R) (service : ServiceId) (workload : WorkloadId) (now : Duration) :
    Option (SloContract R) :=
  (selectContract s.contracts service workload now).filter fun c =>
    (s.policies.find c.policyId).any (·.gen = c.policyGen)

/-- The definitions a step hands to `get_accumulator`, in order. -/
def acquires (s : State R) : Op R → List (Objective R)
  | .ingest e _ => (offeredTo s e).toList
  | .recordRecoveryEvent id _ _ => (definitionOf s.contracts id).toList
  | .ingestViolationEvent id _ => violationDefinitions s.contracts id
  | .setObjectiveBudget id _ _ => (definitionOf s.contracts id).toList
  | .evaluate service workload now =>
    ((judgedContract s service workload now).map (·.objectives)).getD []
  | _ => []

theorem offeredTo_definition {s : State R} {e : EvidenceRecord R} {o : Objective R}
    (h : offeredTo s e = some o) : definitionOf s.contracts e.objectiveId = some o := by
  unfold offeredTo at h
  split at h
  · cases h
  · split at h
    · cases h
    · exact (Option.filter_eq_some_iff.mp h).1

theorem offeredTo_id {s : State R} {e : EvidenceRecord R} {o : Objective R}
    (h : offeredTo s e = some o) : o.id = e.objectiveId :=
  (definitionOf_some (offeredTo_definition h)).1

/-- **What `ingest` does with a record**: it offers it to the accumulator of its definition, or
    complains and leaves the accumulators alone. -/
theorem ingest_offered [Double R] (s : State R) (e : EvidenceRecord R) (now : Duration) :
    (offeredTo s e = none ∧ (ingest s e now).1.accumulators = s.accumulators ∧
      (ingest s e now).2.isOk = false) ∨
    ∃ o, offeredTo s e = some o ∧
      (ingest s e now).1.accumulators =
        s.accumulators.insert (offer o (acquire s.accumulators o) e).1 ∧
      (ingest s e now).2 = (offer o (acquire s.accumulators o) e).2 := by
  have hframe := noteEvidence_frame s e.id
  unfold ingest offeredTo
  generalize noteEvidence s e.id = n at hframe
  obtain ⟨s₁, st⟩ := n
  simp only at hframe ⊢
  generalize s₁.globalEvidence = ids at hframe
  generalize s₁.globalEvidenceRing = ring at hframe
  subst hframe
  split
  · rename_i h
    exact Or.inl ⟨rfl, rfl, by simpa using h⟩
  · split
    · exact Or.inl ⟨rfl, rfl, rfl⟩
    · simp only
      cases hd : definitionOf s.contracts e.objectiveId with
      | none => exact Or.inl ⟨rfl, rfl, rfl⟩
      | some o =>
        simp only
        split
        · rename_i hgen
          exact Or.inl ⟨by rw [Option.filter_some, hgen]; rfl, rfl, rfl⟩
        · rename_i hgen
          have hno := Bool.eq_false_iff.mpr hgen
          exact Or.inr ⟨o, by rw [Option.filter_some, hno]; rfl, rfl, rfl⟩

theorem violationDefinitions_id {cs : Contracts R} {id : ObjectiveId} {o : Objective R}
    (h : o ∈ violationDefinitions cs id) : o.id = id := by
  obtain ⟨c, _, hc⟩ := List.mem_filterMap.mp h
  simpa using List.find?_some hc

/-- An evaluation that complains changes nothing and judges no contract. -/
theorem evaluate_refused [Double R] [Platform R] {s s' : State R} {service : ServiceId}
    {workload : WorkloadId} {now : Duration} {st : Status}
    (h : evaluate s service workload now = some (s', .error st)) :
    judgedContract s service workload now = none ∧ s' = s := by
  unfold evaluate at h
  unfold judgedContract
  split at h
  · rename_i hc
    cases h
    rw [hc]
    exact ⟨rfl, rfl⟩
  · rename_i c hc
    rw [hc, Option.filter_some]
    split at h
    · rename_i hp
      cases h
      refine ⟨if_neg fun hany => ?_, rfl⟩
      obtain ⟨p, hp', hg⟩ := (Option.any_eq_true _ _).mp hany
      rw [hp', Option.filter_some, if_pos (by simpa using hg)] at hp
      cases hp
    · simp only at h
      split at h
      · cases h
      · cases (Prod.mk.inj (Option.some.inj h)).2

/-- An evaluation judges the contract `judgedContract` names, or it complains and changes
    nothing. -/
theorem evaluate_judged [Double R] [Platform R] {s s' : State R} {service : ServiceId}
    {workload : WorkloadId} {now : Duration} {r : Except Status (EvaluationResult R)}
    (h : evaluate s service workload now = some (s', r)) :
    (judgedContract s service workload now = none ∧ s' = s) ∨
    ∃ c, judgedContract s service workload now = some c ∧
      s'.accumulators = accumulatorsAfter s.accumulators now c.objectives := by
  rcases evaluate_cases h with ⟨st, rfl, rfl⟩ | ⟨c, policy, _, _, _, hc, hp, hg, _, _, h'⟩
  · exact Or.inl (evaluate_refused h)
  · refine Or.inr ⟨c, ?_, by rw [h']⟩
    rw [judgedContract, hc, Option.filter_some, hp]
    exact if_pos (by simp [hg])

/-- Every definition a step hands to `get_accumulator` is a stored one. -/
theorem acquires_stored {s : State R} {op : Op R} {o : Objective R} (h : o ∈ acquires s op) :
    o ∈ allObjectives s.contracts := by
  have hdef {id : ObjectiveId} (ho : o ∈ (definitionOf s.contracts id).toList) :
      o ∈ allObjectives s.contracts := by
    obtain ⟨_, c, hc, hmem⟩ := definitionOf_some (Option.mem_toList.mp ho)
    exact List.mem_flatMap.mpr ⟨c, hc, hmem⟩
  cases op with
  | ingest e now =>
    have ho := offeredTo_definition (Option.mem_toList.mp h)
    exact hdef (Option.mem_toList.mpr ho)
  | recordRecoveryEvent id phase time => exact hdef h
  | ingestViolationEvent id now =>
    obtain ⟨c, hc, ho⟩ := List.mem_filterMap.mp h
    exact List.mem_flatMap.mpr ⟨c, hc, List.mem_of_find?_eq_some ho⟩
  | setObjectiveBudget id total window => exact hdef h
  | evaluate service workload now =>
    simp only [acquires] at h
    cases hc : judgedContract s service workload now with
    | none => rw [hc] at h; cases h
    | some c =>
      rw [hc] at h
      have hsel := (Option.filter_eq_some_iff.mp hc).1
      have hrow := (List.mem_filter.mp (newest_some hsel).1).1
      exact List.mem_flatMap.mpr ⟨c, hrow, h⟩
  | _ => cases h

/-! ## 2. Uses of an accumulator -/

/-- A relation between accumulators that every use of one respects, but the arrival of evidence
    and an authorization. -/
structure Carried (K : ObjectiveAccumulator R → ObjectiveAccumulator R → Prop) : Prop where
  refl : ∀ a, K a a
  trans : ∀ a b c, K a b → K b c → K a c
  defn : ∀ a b, K a b → b.defn = a.defn
  recover : ∀ a phase time, K a { a with recovery := a.recovery.record phase time }
  fund : ∀ a h b, K a { a with hasBudget := h, budget := b }
  judge : ∀ a state now, K a (a.setLastState state now)

/-- What `a`, the accumulator of an objective, can have become after the definitions `os` of the
    objective were handed to `get_accumulator` and the answers were used. -/
inductive After (K : ObjectiveAccumulator R → ObjectiveAccumulator R → Prop)
    (os : List (Objective R)) :
    Option (ObjectiveAccumulator R) → Option (ObjectiveAccumulator R) → Prop where
  /-- It was not asked for. -/
  | idle {a : Option (ObjectiveAccumulator R)} (h : os = []) : After K os a a
  /-- It was used at its own generation. -/
  | kept {a b : ObjectiveAccumulator R} (hgen : ∀ o ∈ os, o.gen = a.defn.gen) (hk : K a b) :
      After K os (some a) (some b)
  /-- There was none, or it was wiped for another generation; a new one was used, at the generation
      asked for last. -/
  | fresh {a : Option (ObjectiveAccumulator R)} {b : ObjectiveAccumulator R} {o : Objective R}
      (ho : o ∈ os) (hlast : ∀ x ∈ os.getLast?, x.gen = o.gen)
      (hstale : ∀ x, a = some x → ∃ o' ∈ os, o'.gen ≠ x.defn.gen)
      (hk : K (.make o) b) : After K os a (some b)

namespace After

variable {K : ObjectiveAccumulator R → ObjectiveAccumulator R → Prop}
  {os os' : List (Objective R)} {a b c : Option (ObjectiveAccumulator R)}

/-- Uses one after the other. -/
theorem append (hK : Carried K) (h : After K os a b) (h' : After K os' b c) :
    After K (os ++ os') a c := by
  cases h with
  | idle hos => rw [hos, List.nil_append]; exact h'
  | @kept x y hgen hk =>
    cases h' with
    | idle hos => rw [hos, List.append_nil]; exact .kept hgen hk
    | kept hgen' hk' =>
      refine .kept (fun o ho => ?_) (hK.trans _ _ _ hk hk')
      rcases List.mem_append.mp ho with ho | ho
      · exact hgen o ho
      · rw [hgen' o ho, hK.defn _ _ hk]
    | fresh ho hlast hstale hk' =>
      refine .fresh (List.mem_append_right _ ho) ?_ (fun z hz => ?_) hk'
      · rwa [List.getLast?_append_of_ne_nil _ (List.ne_nil_of_mem ho)]
      · cases hz
        obtain ⟨o', ho', hne⟩ := hstale y rfl
        exact ⟨o', List.mem_append_right _ ho', by rwa [hK.defn _ _ hk] at hne⟩
  | @fresh _ y o ho hlast hstale hk =>
    have hstale' : ∀ z, a = some z → ∃ o' ∈ os ++ os', o'.gen ≠ z.defn.gen := fun z hz =>
      let ⟨o', ho', hne⟩ := hstale z hz
      ⟨o', List.mem_append_left _ ho', hne⟩
    cases h' with
    | idle hos => rw [hos, List.append_nil]; exact .fresh ho hlast hstale hk
    | kept hgen' hk' =>
      refine .fresh (List.mem_append_left _ ho) (fun x hx => ?_) hstale' (hK.trans _ _ _ hk hk')
      rw [List.getLast?_append] at hx
      rcases Option.or_eq_some_iff.mp hx with hx | ⟨_, hx⟩
      · rw [hgen' x (List.mem_of_getLast? hx), hK.defn _ _ hk]
        rfl
      · exact hlast x hx
    | fresh ho' hlast' _ hk' =>
      refine .fresh (List.mem_append_right _ ho') ?_ hstale' hk'
      rwa [List.getLast?_append_of_ne_nil _ (List.ne_nil_of_mem ho')]

/-- One more use of an accumulator that was asked for. -/
theorem used (hK : Carried K) {x y : ObjectiveAccumulator R} (h : After K os a (some x))
    (hos : os ≠ []) (hk : K x y) : After K os a (some y) := by
  cases h with
  | idle h => exact absurd h hos
  | kept hgen hk' => exact .kept hgen (hK.trans _ _ _ hk' hk)
  | fresh ho hlast hstale hk' => exact .fresh ho hlast hstale (hK.trans _ _ _ hk' hk)

end After

section Uses

variable {K : ObjectiveAccumulator R → ObjectiveAccumulator R → Prop} (hK : Carried K)

include hK

/-- What `get_accumulator` hands out for `o`, used once. -/
theorem after_acquire (t : Accumulators R) (o : Objective R) {b : ObjectiveAccumulator R}
    (hb : K (acquire t o) b) : After K [o] (t.find o.id) (some b) := by
  have hlast : ∀ x ∈ [o].getLast?, x.gen = o.gen := fun x hx => by
    rw [List.mem_singleton.mp (List.mem_of_getLast? hx)]
  rcases acquire_cases t o with ⟨hn, ha⟩ | ⟨a, hn, hg, ha⟩ | ⟨a, hn, hg, ha⟩
  · rw [ha] at hb
    rw [hn]
    refine .fresh List.mem_cons_self hlast (fun x hx => ?_) hb
    cases hx
  · rw [ha] at hb
    have hfund : K (.make o) (a.resetForNewGen o) := hK.fund (.make o) a.hasBudget a.budget
    rw [hn]
    refine .fresh List.mem_cons_self hlast (fun x hx => ⟨o, List.mem_cons_self, ?_⟩)
      (hK.trans _ _ _ hfund hb)
    rw [← Option.some.inj hx]
    exact fun e => hg e.symm
  · rw [ha] at hb
    rw [hn]
    refine .kept (fun o' ho' => ?_) hb
    rw [List.mem_singleton.mp ho', hg]

/-- One definition is handed to `get_accumulator`, and the answer is used. -/
theorem after_insert (t : Accumulators R) (o : Objective R) {b : ObjectiveAccumulator R}
    (hb : K (acquire t o) b) (k : ObjectiveId) :
    After K ([o].filter (·.id = k)) (t.find k) ((t.insert b).find k) := by
  have hid : b.defn.id = o.id := by rw [hK.defn _ _ hb, acquire_id]
  by_cases hk : o.id = k
  · rw [t.find_insert_key (hid.trans hk), List.filter_cons_of_pos (by simpa using hk),
      List.filter_nil, ← hk]
    exact after_acquire hK t o hb
  · rw [List.filter_cons_of_neg (by simpa using hk), List.filter_nil,
      t.find_insert_key_ne hid (Ne.symm hk)]
    exact .idle rfl

theorem after_foldl (k : ObjectiveId) : ∀ (os : List (Objective R)) (t : Accumulators R),
    After K (os.filter (·.id = k)) (t.find k) ((os.foldl getAccumulator t).find k)
  | [], t => .idle rfl
  | o :: os, t => by
      have hone := after_insert hK t o (hK.refl _) k
      have hrest := after_foldl k os (getAccumulator t o)
      have h := hone.append hK hrest
      rwa [← List.filter_append] at h

theorem after_evaluate [Double R] (now : Duration) (k : ObjectiveId) :
    ∀ (os : List (Objective R)) (t : Accumulators R),
    After K (os.filter (·.id = k)) (t.find k) ((accumulatorsAfter t now os).find k)
  | [], t => .idle rfl
  | o :: os, t => by
      have hroll : K (acquire t o) (rollBudget (acquire t o) now) := by
        unfold rollBudget
        split
        · exact hK.fund _ _ _
        · exact hK.refl _
      have hone := after_insert hK t o (hK.trans _ _ _ hroll (hK.judge _ (verdict t o now) now)) k
      have hrest := after_evaluate now k os (t.insert (judged t o now))
      have h := hone.append hK hrest
      rwa [← List.filter_append] at h

theorem after_violation (s : State R) (id : ObjectiveId) (now : Duration) (k : ObjectiveId) :
    After K ((violationDefinitions s.contracts id).filter (·.id = k)) (s.accumulators.find k)
      ((ingestViolationEvent s id now).1.accumulators.find k) := by
  have hall := after_foldl hK k (violationDefinitions s.contracts id) s.accumulators
  rcases ingestViolationEvent_cases s id now with ⟨_, _, h⟩ | ⟨o, acc, ho, hacc, _, h⟩
  · rw [h]
    exact hall
  · have hkey := KeyedTable.find_key hacc
    rw [h]
    by_cases hk : k = id
    · have hmem : o ∈ (violationDefinitions s.contracts id).filter (·.id = k) := by
        refine List.mem_filter.mpr ⟨ho, decide_eq_true ?_⟩
        rw [violationDefinitions_id ho, hk]
      rw [hk] at hall hmem ⊢
      rw [hacc] at hall
      rw [KeyedTable.find_insert, if_pos hkey.symm]
      exact hall.used hK (List.ne_nil_of_mem hmem) (hK.fund acc acc.hasBudget _)
    · rw [KeyedTable.find_insert_ne _ (by rw [hkey]; exact hk)]
      exact hall

/-- **What a step does to the accumulator of an objective**: it is handed the definitions
    `acquires` lists, and nothing else happens to it. -/
theorem account_step [Pod R] [Double R] [Platform R] {s s' : State R} {op : Op R} {r : Response R}
    (h : apply s op = some (s', r)) (hing : ∀ e now, op ≠ .ingest e now)
    (hload : ∀ file, op ≠ .load file) (hauth : ∀ intent now, op ≠ .authorize intent now)
    (k : ObjectiveId) :
    After K ((acquires s op).filter (·.id = k)) (s.accumulators.find k)
      (s'.accumulators.find k) := by
  cases frame_cases h with
  | policies h' | dispatched h' | saved h' => rw [h']; exact .idle rfl
  | contracts hop h' =>
    have hnone : acquires s op = [] := by
      cases op with
      | addContract | supersedeContract | activateContract | suspendContract | expireContract
      | retireContract => rfl
      | _ => cases hop
    rw [h', hnone]
    exact .idle rfl
  | ingested => exact absurd rfl (hing _ _)
  | objectives hop =>
    cases op with
    | recordRecoveryEvent id phase time =>
      cases h
      rw [acquires]
      rcases recordRecoveryEvent_cases s id phase time with ⟨hd, h'⟩ | ⟨o, hd, h'⟩
      · rw [h', hd]
        exact .idle rfl
      · rw [h', hd]
        exact after_insert hK s.accumulators o (hK.recover _ _ _) k
    | ingestViolationEvent id now => cases h; exact after_violation hK s id now k
    | setObjectiveBudget id total window =>
      cases h
      rw [acquires]
      rcases setObjectiveBudget_cases s id total window with
        ⟨hd, h', _⟩ | ⟨o, hd, ⟨h', _⟩ | ⟨_, h', _⟩⟩
      · rw [h', hd]
        exact .idle rfl
      · rw [h', hd]
        exact after_insert hK s.accumulators o (hK.refl _) k
      · rw [h', hd]
        exact after_insert hK s.accumulators o (hK.fund _ _ _) k
    | _ => cases hop
  | @evaluated _ _ now _ hx =>
    simp only [acquires]
    rcases evaluate_judged hx with ⟨hc, h'⟩ | ⟨c, hc, h'⟩
    · rw [hc, h']
      exact .idle rfl
    · rw [hc, h']
      exact after_evaluate hK now k c.objectives s.accumulators
  | authorized => exact absurd rfl (hauth _ _)
  | transition hx | completed hx => cases hx; exact .idle rfl
  | failed | loaded => exact absurd rfl (hload _)

/-- An arriving record, for a relation that evidence respects, too. -/
theorem account_ingest [Double R] (hoffer : ∀ o a e, K a (offer o a e).1) (s : State R)
    (e : EvidenceRecord R) (now : Duration) (k : ObjectiveId) :
    After K ((acquires s (.ingest e now)).filter (·.id = k)) (s.accumulators.find k)
      ((ingest s e now).1.accumulators.find k) := by
  rcases ingest_offered s e now with ⟨ho, h, _⟩ | ⟨o, ho, h, _⟩
  · rw [h, acquires, ho]
    exact .idle rfl
  · rw [h, acquires, ho]
    exact after_insert hK s.accumulators o (hoffer o _ e) k

end Uses

/-- An authorization sets the cooldown of the accumulator of its objective. -/
theorem setCooldown_find (t : Accumulators R) (id k : ObjectiveId) (stop : Duration) :
    (setCooldown t id stop).find k =
      if k = id then (t.find k).map fun a => { a with cooldownUntil := stop } else t.find k := by
  unfold setCooldown
  cases h : t.find id with
  | none =>
    by_cases hk : k = id
    · rw [if_pos hk, hk, h]
      rfl
    · rw [if_neg hk]
  | some acc =>
    have hkey := KeyedTable.find_key h
    simp only
    rw [KeyedTable.find_insert]
    by_cases hk : k = id
    · rw [if_pos hk, if_pos (hk.trans hkey.symm), hk, h]
      rfl
    · rw [if_neg hk, if_neg (fun e => hk (e.trans hkey))]

end SloFabric
