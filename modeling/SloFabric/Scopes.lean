/-
  File:      SloFabric/Scopes.lean
  Subject:   What the scopes of a fabric share, and what they do not.

  * `Scope`: a service and workload with the ids its contracts, policies and objectives use;
    `Owns`, `Owned`: a contract uses the ids of the scope if it is one of the scope, and none of
    them else;
  * `Foreign`: an operation that concerns other scopes only;
  * `Agree`: two states agree on everything under the ids of the scope;
  * `foreign_step`: a foreign operation keeps that;
  * `definitionOf_agree`, `violationDefinitions_agree`, `selectContract_agree`,
    `intentContract_agree`: what the scans over all contracts find for the scope.
-/
import SloFabric.Contracts
import SloFabric.Authority
import SloFabric.Accounts

namespace SloFabric

variable {R : Type}

/-! ## 1. Scopes -/

/-- A scope and the ids it uses. -/
structure Scope where
  service : ServiceId
  workload : WorkloadId
  contracts : Set SloContractId
  policies : Set PolicyId
  objectives : Set ObjectiveId

/-- The contract is one of the scope. -/
def InScope (sc : Scope) (c : SloContract R) : Prop :=
  c.service = sc.service ∧ c.workload = sc.workload

/-- **Ids of the scope are used by no other scope**: a contract of the scope uses them, a contract
    of another scope uses others. -/
structure Owns (sc : Scope) (c : SloContract R) : Prop where
  contract : InScope sc c ↔ c.id ∈ sc.contracts
  policy : InScope sc c ↔ c.policyId ∈ sc.policies
  objective : ∀ o ∈ c.objectives, InScope sc c ↔ o.id ∈ sc.objectives

/-- Every stored contract is so. -/
def Owned (sc : Scope) (s : State R) : Prop := ∀ c ∈ s.contracts.rows, Owns sc c

/-- The operations that concern other scopes only: registrations of their contracts and policies,
    calls under their ids, evaluations of other scopes, and the bookkeeping of receipts. -/
def Foreign (sc : Scope) : Op R → Prop
  | .setPolicy policy => policy.id ∉ sc.policies
  | .addContract contract => ¬InScope sc contract
  | .supersedeContract replacement _ => ¬InScope sc replacement
  | .activateContract id _ | .suspendContract id _ | .expireContract id _ |
    .retireContract id _ => id ∉ sc.contracts
  | .ingest e _ => e.objectiveId ∉ sc.objectives
  | .recordRecoveryEvent id _ _ | .ingestViolationEvent id _ | .setObjectiveBudget id _ _ =>
    id ∉ sc.objectives
  | .evaluate service workload _ => ¬(service = sc.service ∧ workload = sc.workload)
  | .authorize intent _ => intent.objectiveId ∉ sc.objectives
  | .dispatch | .transition _ _ _ | .completeEnforcement _ _ => True
  | .save _ | .load _ => False

/-- What the runs are about: nothing is loaded, and the contracts that are offered keep to the
    ids of their scopes. -/
structure Separated (sc : Scope) (op : Op R) : Prop where
  noLoad : ∀ file, op ≠ .load file
  offers : ∀ c, offered op = some c → Owns sc c

/-- The states agree on everything under the ids of the scope. -/
structure Agree (sc : Scope) (s t : State R) : Prop where
  epoch : s.epoch = t.epoch
  policies : KeyedTable.AgreeOn sc.policies s.policies t.policies
  contracts : KeyedTable.AgreeOn sc.contracts s.contracts t.contracts
  accumulators : KeyedTable.AgreeOn sc.objectives s.accumulators t.accumulators

namespace Agree

variable {sc : Scope} {s t u : State R}

theorem refl (s : State R) : Agree sc s s := ⟨rfl, .refl _, .refl _, .refl _⟩

theorem symm (h : Agree sc s t) : Agree sc t s :=
  ⟨h.epoch.symm, h.policies.symm, h.contracts.symm, h.accumulators.symm⟩

theorem trans (h : Agree sc s t) (h' : Agree sc t u) : Agree sc s u :=
  ⟨h.epoch.trans h'.epoch, h.policies.trans h'.policies, h.contracts.trans h'.contracts,
    h.accumulators.trans h'.accumulators⟩

end Agree

/-- A contract that was stored keeps to its scope at every point of its life. -/
theorem owned_step [Pod R] [Double R] [Platform R] {sc : Scope} {s s' : State R} {op : Op R}
    {r : Response R}
    (h : apply s op = some (s', r)) (hop : Separated sc op) (hs : Owned sc s) : Owned sc s' := by
  cases contracts_cases h with
  | same h' => rwa [Owned, h']
  | stored hoffer _ _ hput => exact hput.rows hs (hop.offers _ hoffer)
  | @changed _ id f c hlife hc hput =>
    obtain ⟨l, start, stop, hf⟩ := lifecycle_frame hlife c
    have howns := hs c (KeyedTable.find_mem hc)
    refine hput.rows hs ?_
    rw [hf]
    exact ⟨howns.contract, howns.policy, howns.objective⟩
  | loaded => exact absurd rfl (hop.noLoad _)

/-! ## 2. Foreign operations -/

section Foreign

variable {sc : Scope}

/-- A contract under a foreign id leaves the scope's contracts alone. -/
theorem Puts.agree {cs cs' : Contracts R} {c : SloContract R} (h : Puts cs cs' c)
    (hc : c.id ∉ sc.contracts) : KeyedTable.AgreeOn sc.contracts cs cs' :=
  fun k hk => (h.others k fun heq => hc (heq ▸ hk)).symm

/-- A contract call that is foreign. -/
theorem foreign_contracts [Pod R] [Double R] [Platform R] {s s' : State R} {op : Op R}
    {r : Response R} (h : apply s op = some (s', r)) (hop : Separated sc op)
    (hoffer : ∀ c, offered op = some c → ¬InScope sc c)
    (hlife : ∀ id f, op.lifecycle = some (id, f) → id ∉ sc.contracts) :
    KeyedTable.AgreeOn sc.contracts s.contracts s'.contracts := by
  cases contracts_cases h with
  | same h' => rw [h']; exact .refl _
  | @stored _ _ c hc _ _ hput =>
    exact hput.agree fun hin => hoffer c hc ((hop.offers c hc).contract.mpr hin)
  | @changed _ id f c hf hc hput =>
    refine hput.agree ?_
    obtain ⟨l, start, stop, hfc⟩ := lifecycle_frame hf c
    have hid : (f c).id = id := by rw [hfc, ← KeyedTable.find_key hc]
    rw [hid]
    exact hlife id f hf
  | loaded => exact absurd rfl (hop.noLoad _)

/-- Accumulators of objectives of other scopes. -/
theorem agreeOn_judged [Double R] (now : Duration) : ∀ (os : List (Objective R))
    (t : Accumulators R), (∀ o ∈ os, o.id ∉ sc.objectives) →
    KeyedTable.AgreeOn sc.objectives t (accumulatorsAfter t now os)
  | [], t, _ => .refl t
  | o :: os, t, h => by
      have hid : (judged t o now).defn.id ∉ sc.objectives := by
        rw [judged, setLastState_defn, rollBudget_defn, acquire_id]
        exact h o List.mem_cons_self
      exact (KeyedTable.agreeOn_insert t hid).trans
        (agreeOn_judged now os _ fun o' ho' => h o' (List.mem_cons_of_mem _ ho'))

theorem agreeOn_getAccumulator : ∀ (os : List (Objective R)) (t : Accumulators R),
    (∀ o ∈ os, o.id ∉ sc.objectives) →
    KeyedTable.AgreeOn sc.objectives t (os.foldl getAccumulator t)
  | [], t, _ => .refl t
  | o :: os, t, h => by
      have hid : (acquire t o).defn.id ∉ sc.objectives := by
        rw [acquire_id]
        exact h o List.mem_cons_self
      exact (KeyedTable.agreeOn_insert t hid).trans
        (agreeOn_getAccumulator os _ fun o' ho' => h o' (List.mem_cons_of_mem _ ho'))

/-- The accumulator of a foreign definition, after whatever it is used for. -/
theorem agreeOn_acquired {t : Accumulators R} {o : Objective R} {a : ObjectiveAccumulator R}
    (ho : o.id ∉ sc.objectives) (ha : a.defn = (acquire t o).defn) :
    KeyedTable.AgreeOn sc.objectives t (t.insert a) :=
  KeyedTable.agreeOn_insert t (by rwa [ha, acquire_id])

/-- An evaluation of another scope judges none of the scope's objectives. -/
theorem foreign_evaluate [Double R] [Platform R] {s s' : State R} {service : ServiceId}
    {workload : WorkloadId} {now : Duration} {r : Except Status (EvaluationResult R)}
    (h : evaluate s service workload now = some (s', r)) (hs : Owned sc s)
    (hop : ¬(service = sc.service ∧ workload = sc.workload)) : Agree sc s s' := by
  rcases evaluate_cases h with ⟨_, _, h'⟩ | ⟨c, _, _, _, _, hc, _, _, _, _, h'⟩
  · rw [h']
    exact .refl s
  · obtain ⟨hrow, hscope⟩ := List.mem_filter.mp (newest_some hc).1
    obtain ⟨hsv, hwl, _⟩ := of_decide_eq_true hscope
    have hout : ¬InScope sc c := fun hin => hop ⟨hsv ▸ hin.1, hwl ▸ hin.2⟩
    rw [h']
    refine ⟨rfl, .refl _, .refl _,
      agreeOn_judged now c.objectives s.accumulators fun o ho hid => ?_⟩
    exact hout (((hs c hrow).objective o ho).mpr hid)

theorem foreign_violation (s : State R) (id : ObjectiveId) (now : Duration)
    (hid : id ∉ sc.objectives) : Agree sc s (ingestViolationEvent s id now).1 := by
  have hall := agreeOn_getAccumulator (violationDefinitions s.contracts id) s.accumulators
    fun o ho => violationDefinitions_id ho ▸ hid
  rcases ingestViolationEvent_cases s id now with ⟨_, _, h⟩ | ⟨_, acc, _, hacc, _, h⟩
  · rw [h]
    exact ⟨rfl, .refl _, .refl _, hall⟩
  · rw [h]
    refine ⟨rfl, .refl _, .refl _, hall.trans (KeyedTable.agreeOn_insert _ ?_)⟩
    rwa [← KeyedTable.find_key hacc] at hid

theorem foreign_policy (s : State R) {policy : SloPolicy} (hid : policy.id ∉ sc.policies) :
    Agree sc s (setPolicy s policy).1 := by
  unfold setPolicy
  split
  · split
    · exact .refl s
    · exact ⟨rfl, KeyedTable.agreeOn_insert _ hid, .refl _, .refl _⟩
  · exact ⟨rfl, KeyedTable.agreeOn_insert _ hid, .refl _, .refl _⟩

theorem foreign_ingest [Double R] (s : State R) {e : EvidenceRecord R} (now : Duration)
    (hid : e.objectiveId ∉ sc.objectives) : Agree sc s (ingest s e now).1 := by
  obtain ⟨_, _, ⟨h, _⟩ | ⟨o, ho, _, _, h, _⟩⟩ := ingest_cases s e now
  · rw [h]
    exact ⟨rfl, .refl _, .refl _, .refl _⟩
  · rw [h]
    refine ⟨rfl, .refl _, .refl _, agreeOn_acquired ?_ (offer_conduct _ _ _).defn⟩
    rw [(definitionOf_some ho).1]
    exact hid

theorem foreign_recovery [Double R] (s : State R) (id : ObjectiveId) (phase : RecoveryEventPhase)
    (time : Duration) (hid : id ∉ sc.objectives) :
    Agree sc s (recordRecoveryEvent s id phase time).1 := by
  rcases recordRecoveryEvent_cases s id phase time with ⟨_, h⟩ | ⟨o, ho, h⟩
  · rw [h]
    exact .refl s
  · rw [h]
    exact ⟨rfl, .refl _, .refl _, agreeOn_acquired ((definitionOf_some ho).1 ▸ hid) rfl⟩

theorem foreign_grant [Double R] (s : State R) (id : ObjectiveId) (total : Count)
    (window : Duration) (hid : id ∉ sc.objectives) :
    Agree sc s (setObjectiveBudget s id total window).1 := by
  have hne {o : Objective R} (ho : definitionOf s.contracts id = some o) :
      o.id ∉ sc.objectives := (definitionOf_some ho).1 ▸ hid
  rcases setObjectiveBudget_cases s id total window with
    ⟨_, h, _⟩ | ⟨o, ho, ⟨h, _⟩ | ⟨_, h, _⟩⟩
  · rw [h]
    exact .refl s
  · rw [h]
    exact ⟨rfl, .refl _, .refl _, agreeOn_acquired (hne ho) rfl⟩
  · rw [h]
    exact ⟨rfl, .refl _, .refl _, agreeOn_acquired (hne ho) rfl⟩

theorem foreign_authorize (s : State R) {intent : EnforcementIntent} (now : Duration)
    (hid : intent.objectiveId ∉ sc.objectives) : Agree sc s (authorize s intent now).1 := by
  rcases authorize_cases s intent now with ⟨_, h⟩ | ⟨_, _, _, _, _, _, _, _, _, h⟩
  · rw [h]
    exact .refl s
  · rw [h]
    refine ⟨rfl, .refl _, .refl _, fun k hk => ?_⟩
    have hne : k ≠ intent.objectiveId := fun heq => hid (heq ▸ hk)
    show _ = (setCooldown _ _ _).find k
    rw [setCooldown_find, if_neg hne]

/-- A call on contracts that is foreign offers a contract of another scope or names one. -/
theorem foreign_names {op : Op R} (h : Foreign sc op) :
    (∀ c, offered op = some c → ¬InScope sc c) ∧
      ∀ id f, op.lifecycle = some (id, f) → id ∉ sc.contracts := by
  constructor
  · intro c hc
    cases op with
    | addContract contract => cases hc; exact h
    | supersedeContract replacement now => cases hc; exact h
    | _ => cases hc
  · intro id f hf
    cases op with
    | activateContract id' now => cases hf; exact h
    | suspendContract id' now => cases hf; exact h
    | expireContract id' now => cases hf; exact h
    | retireContract id' now => cases hf; exact h
    | _ => cases hf

/-- **A foreign operation leaves everything under the ids of the scope alone.** -/
theorem foreign_step [Pod R] [Double R] [Platform R] {s s' : State R} {op : Op R} {r : Response R}
    (h : apply s op = some (s', r)) (hop : Separated sc op) (hforeign : Foreign sc op)
    (hs : Owned sc s) : Agree sc s s' := by
  cases frame_cases h with
  | policies => cases h; exact foreign_policy s hforeign
  | contracts _ h' =>
    obtain ⟨hoffer, hlife⟩ := foreign_names hforeign
    have hcs := foreign_contracts h hop hoffer hlife
    rw [h']
    exact ⟨rfl, .refl _, hcs, .refl _⟩
  | @ingested e now => cases h; exact foreign_ingest s now hforeign
  | objectives hobj =>
    cases op with
    | recordRecoveryEvent id phase time => cases h; exact foreign_recovery s id phase time hforeign
    | ingestViolationEvent id now => cases h; exact foreign_violation s id now hforeign
    | setObjectiveBudget id total window => cases h; exact foreign_grant s id total window hforeign
    | _ => cases hobj
  | evaluated hx => exact foreign_evaluate hx hs hforeign
  | @authorized intent now => cases h; exact foreign_authorize s now hforeign
  | dispatched h' => rw [h']; exact ⟨rfl, .refl _, .refl _, .refl _⟩
  | transition hx | completed hx => cases hx; exact ⟨rfl, .refl _, .refl _, .refl _⟩
  | saved => exact absurd hforeign id
  | failed | loaded => exact absurd rfl (hop.noLoad _)

end Foreign

/-! ## 3. What the scans find -/

section Scans

variable {sc : Scope} {s t : State R}

/-- The stored contracts of the scope are listed alike, whatever is asked of them. -/
theorem rows_agree (h : Agree sc s t) (hs : Owned sc s) (ht : Owned sc t)
    {p : SloContract R → Bool} (hp : ∀ c, Owns sc c → p c = true → InScope sc c) :
    s.contracts.rows.filter p = t.contracts.rows.filter p := by
  refine KeyedTable.filter_rows_congr fun c hc => ⟨fun hrow => ?_, fun hrow => ?_⟩
  · have howns := hs c hrow
    have hid := howns.contract.mp (hp c howns hc)
    rw [KeyedTable.mem_rows, ← h.contracts _ hid]
    exact KeyedTable.mem_rows.mp hrow
  · have howns := ht c hrow
    have hid := howns.contract.mp (hp c howns hc)
    rw [KeyedTable.mem_rows, h.contracts _ hid]
    exact KeyedTable.mem_rows.mp hrow

/-- A contract with one of the scope's objectives is one of the scope. -/
theorem inScope_of_objective {c : SloContract R} (hc : Owns sc c) {k : ObjectiveId}
    (hk : k ∈ sc.objectives) (hany : c.objectives.any (·.id = k) = true) : InScope sc c := by
  obtain ⟨o, ho, hid⟩ := List.any_eq_true.mp hany
  refine (hc.objective o ho).mpr ?_
  rwa [of_decide_eq_true hid]

theorem flatMap_filter_of_nil {α β : Type} {f : α → List β} {p : α → Bool}
    (h : ∀ x, p x = false → f x = []) : ∀ l : List α, (l.filter p).flatMap f = l.flatMap f
  | [] => rfl
  | x :: l => by
      have ih := flatMap_filter_of_nil h l
      cases hp : p x with
      | true => rw [List.filter_cons_of_pos hp, List.flatMap_cons, List.flatMap_cons, ih]
      | false =>
        rw [List.filter_cons_of_neg (by rw [hp]; exact Bool.false_ne_true), List.flatMap_cons,
          h x hp, ih, List.nil_append]

/-- The definition the fabric uses for one of the scope's objectives. -/
theorem definitionOf_agree (h : Agree sc s t) (hs : Owned sc s) (ht : Owned sc t)
    {k : ObjectiveId} (hk : k ∈ sc.objectives) :
    definitionOf s.contracts k = definitionOf t.contracts k := by
  have hscan (cs : Contracts R) : (allObjectives cs).filter (·.id = k) =
      (cs.rows.filter fun c => c.objectives.any (·.id = k)).flatMap fun c =>
        c.objectives.filter (·.id = k) := by
    rw [allObjectives, List.filter_flatMap]
    refine (flatMap_filter_of_nil (fun c hno => ?_) cs.rows).symm
    exact List.filter_eq_nil_iff.mpr fun o ho hid => by
      rw [List.any_eq_false] at hno
      exact hno o ho hid
  rw [definitionOf, definitionOf, hscan, hscan,
    rows_agree h hs ht fun c hc hany => inScope_of_objective hc hk hany]

theorem violationDefinitions_agree (h : Agree sc s t) (hs : Owned sc s) (ht : Owned sc t)
    {k : ObjectiveId} (hk : k ∈ sc.objectives) :
    violationDefinitions s.contracts k = violationDefinitions t.contracts k := by
  have hscan (cs : Contracts R) : violationDefinitions cs k =
      (cs.rows.filter fun c => c.objectives.any (·.id = k)).filterMap fun c =>
        c.objectives.find? (·.id = k) := by
    rw [violationDefinitions, List.filterMap_filter]
    refine List.filterMap_congr fun c _ => ?_
    cases hany : c.objectives.any (·.id = k) with
    | true => rfl
    | false =>
      rw [List.any_eq_false] at hany
      exact List.find?_eq_none.mpr hany
  rw [hscan, hscan, rows_agree h hs ht fun c hc hany => inScope_of_objective hc hk hany]

/-- The contract in force for the scope. -/
theorem selectContract_agree (h : Agree sc s t) (hs : Owned sc s) (ht : Owned sc t)
    (now : Duration) : selectContract s.contracts sc.service sc.workload now =
      selectContract t.contracts sc.service sc.workload now := by
  rw [selectContract, selectContract, rows_agree h hs ht]
  intro c _ hc
  obtain ⟨hsv, hwl, _⟩ := of_decide_eq_true hc
  exact ⟨hsv, hwl⟩

/-- The contract an intent for one of the scope's objectives is checked against. -/
theorem intentContract_agree (h : Agree sc s t) (hs : Owned sc s) (ht : Owned sc t)
    {intent : EnforcementIntent} (hk : intent.objectiveId ∈ sc.objectives) :
    intentContract s.contracts intent = intentContract t.contracts intent := by
  rw [intentContract, intentContract, foldl_last, foldl_last, rows_agree h hs ht]
  intro c hc hhit
  exact inScope_of_objective hc hk (Bool.and_eq_true_iff.mp hhit).1

end Scans

end SloFabric
