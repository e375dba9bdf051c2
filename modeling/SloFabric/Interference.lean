/-
  File:      SloFabric/Interference.lean
  Subject:   No scope's operations show in the decisions of another one.

  * `decisions`: what a run decides for a scope;
  * `Same`: one call as two runs make it; `Deletes`: a run without some foreign operations of
    another one;
  * `own_step`: a call both runs make keeps their agreement;
  * `Simulates`, `simulates_run`: so the runs agree all along;
  * `scopes_run`: the decisions for the scope are the same in both.
-/
import SloFabric.Agreement
import SloFabric.Deduplication

namespace SloFabric

variable {R : Type}

/-! ## 1. Two runs -/

/-- What a step decides for the scope. -/
def decisionAt (sc : Scope) : Op R × Response R → Option (Except Status (Decision R))
  | (.evaluate service workload _, .evaluated r) =>
    if service = sc.service ∧ workload = sc.workload then some (r.map decisionIn) else none
  | _ => none

/-- The decisions of a run for the scope, in order. -/
def decisions (sc : Scope) (tr : Trace R) : List (Except Status (Decision R)) :=
  tr.filterMap (decisionAt sc)

/-- The same call in two runs. Evaluations and receipts are numbered by each run for itself, and
    each saves its accumulators in an order of its own. -/
inductive Same : Op R → Op R → Prop where
  | same (op : Op R) : Same op op
  | authorize {i i' : EnforcementIntent} (h : SameIntent i i') (now : Duration) :
    Same (.authorize i now) (.authorize i' now)
  | transition (id id' : EnforcementId) (dst : EnforcementLifecycle) (now : Duration) :
    Same (.transition id dst now) (.transition id' dst now)
  | completeEnforcement (id id' : EnforcementId) (now : Duration) :
    Same (.completeEnforcement id now) (.completeEnforcement id' now)
  | save (order order' : List ObjectiveId) : Same (.save order) (.save order')

/-- The second run makes the calls of the first one, without some that are foreign. -/
inductive Deletes (sc : Scope) : Trace R → Trace R → Prop where
  | start : Deletes sc [] []
  | keep {tr tr' : Trace R} {op op' : Op R} (h : Deletes sc tr tr') (hop : Same op op')
      (r r' : Response R) : Deletes sc (tr ++ [(op, r)]) (tr' ++ [(op', r')])
  | delete {tr tr' : Trace R} {op : Op R} (h : Deletes sc tr tr') (hop : Foreign sc op)
      (r : Response R) : Deletes sc (tr ++ [(op, r)]) tr'

/-- The evidence id a call brings. -/
def Op.evidence : Op R → Option EvidenceId
  | .ingest e _ => some e.id
  | _ => none

/-- The evidence ids of a run, in the order they are ingested. -/
def ingested (tr : Trace R) : List EvidenceId := tr.filterMap (·.1.evidence)

/-- Every ingested evidence id is valid and used once. -/
structure EvidenceOnce (tr : Trace R) : Prop where
  valid : ∀ id ∈ ingested tr, id.valid = true
  once : (ingested tr).Nodup

theorem ingested_push (tr : Trace R) (op : Op R) (r : Response R) :
    ingested (tr ++ [(op, r)]) = ingested tr ++ op.evidence.toList := by
  rw [ingested, ingested, List.filterMap_append]
  cases h : op.evidence <;> simp [h]

theorem decisions_push (sc : Scope) (tr : Trace R) (op : Op R) (r : Response R) :
    decisions sc (tr ++ [(op, r)]) = decisions sc tr ++ (decisionAt sc (op, r)).toList := by
  rw [decisions, decisions, List.filterMap_append]
  cases h : decisionAt sc (op, r) <;> simp [h]

namespace Same

variable {op op' : Op R}

theorem evidence (h : Same op op') : op'.evidence = op.evidence := by cases h <;> rfl

theorem foreign {sc : Scope} (h : Same op op') (hop : Foreign sc op) : Foreign sc op' := by
  cases h with
  | same => exact hop
  | authorize h =>
    obtain ⟨_, _, _, rfl⟩ := h
    exact hop
  | transition | completeEnforcement => trivial
  | save => exact hop

theorem separated {sc : Scope} (h : Same op op') (hop : Separated sc op) : Separated sc op' := by
  cases h with
  | same => exact hop
  | authorize | transition | completeEnforcement | save => exact ⟨nofun, nofun⟩

end Same

theorem Deletes.ingested_subset {sc : Scope} {tr tr' : Trace R} (h : Deletes sc tr tr') :
    ingested tr' ⊆ ingested tr := by
  induction h with
  | start => exact List.Subset.refl _
  | keep _ hop r r' ih =>
    rw [ingested_push, ingested_push, hop.evidence]
    exact List.append_subset.mpr
      ⟨List.subset_append_of_subset_left _ ih, List.subset_append_right _ _⟩
  | delete _ _ r ih =>
    rw [ingested_push]
    exact List.subset_append_of_subset_left _ ih

/-! ## 2. The simulation -/

section Step

variable [Pod R] [Double R] [Platform R] {sc : Scope} {s s' t t' : State R} {op op' : Op R}
  {r r' : Response R}

/-- The fabric remembers evidence ids it was given. -/
theorem seen_step (h : apply s op = some (s', r)) {id : EvidenceId}
    (hid : id ∈ s'.globalEvidence) : id ∈ s.globalEvidence ∨ id ∈ op.evidence.toList := by
  by_cases hing : ∃ e now, op = .ingest e now
  · obtain ⟨e, now, rfl⟩ := hing
    cases h
    rw [(ingest_noted s e now).1] at hid
    rcases noteEvidence_cases s e.id with ⟨_, h'⟩ | ⟨_, _, h'⟩
    · rw [h'] at hid
      exact Or.inl hid
    · rw [h'] at hid
      rcases Finset.mem_insert.mp hid with rfl | hid
      · exact Or.inr (List.mem_singleton.mpr rfl)
      · exact Or.inl (forget_subset _ _ _ hid)
  · rw [(noted_step h fun e now heq => hing ⟨e, now, heq⟩).1] at hid
    exact Or.inl hid

theorem seen_run {C : State R → Op R → Prop} {tr : Trace R}
    (h : Run apply C (State.fresh R) tr s) : ∀ id ∈ s.globalEvidence, id ∈ ingested tr := by
  refine h.history (I := fun tr (s : State R) => ∀ id ∈ s.globalEvidence, id ∈ ingested tr)
    nofun fun tr s op s' r hs _ hstep id hid => ?_
  rw [ingested_push]
  rcases seen_step hstep hid with hold | hnew
  · exact List.mem_append_left _ (hs id hold)
  · exact List.mem_append_right _ hnew

omit [Pod R] [Double R] [Platform R] in
theorem decisionAt_foreign (hop : Foreign sc op) : decisionAt sc (op, r) = none := by
  cases op with
  | evaluate service workload now =>
    cases r with
    | evaluated res => exact if_neg hop
    | _ => rfl
  | _ => rfl

/-- **The step lemma**: the same call keeps the agreement of the two runs. -/
theorem own_step (h₁ : apply s op = some (s', r)) (h₂ : apply t op' = some (t', r'))
    (h : Agree sc s t) (hs : Owned sc s) (ht : Owned sc t) (hop : Separated sc op)
    (hsame : Same op op') (hnew : ∀ id ∈ op.evidence, Unseen s id ∧ Unseen t id) :
    Agree sc s' t' := by
  by_cases hforeign : Foreign sc op
  · have hleft := foreign_step h₁ hop hforeign hs
    have hright := foreign_step h₂ (hsame.separated hop) (hsame.foreign hforeign) ht
    exact hleft.symm.trans (h.trans hright)
  cases hsame with
  | authorize hi now =>
    cases h₁
    cases h₂
    exact authorize_agree h hs ht hi (not_not.mp hforeign) now
  | transition id id' dst now => exact absurd trivial hforeign
  | completeEnforcement id id' now => exact absurd trivial hforeign
  | save order order' =>
    simp only [apply, Option.ite_none_right_eq_some] at h₁ h₂
    cases h₁.2
    cases h₂.2
    exact h
  | same =>
    cases op with
    | setPolicy policy =>
      cases h₁
      cases h₂
      exact setPolicy_agree h (not_not.mp hforeign)
    | addContract contract =>
      cases h₁
      cases h₂
      exact addContract_agree h ((hop.offers contract rfl).contract.mp (not_not.mp hforeign))
    | supersedeContract replacement now =>
      cases h₁
      cases h₂
      exact replaceContract_agree h
        ((hop.offers replacement rfl).contract.mp (not_not.mp hforeign))
    | activateContract id now | suspendContract id now | expireContract id now
    | retireContract id now =>
      cases h₁
      cases h₂
      exact updateContract_agree h (not_not.mp hforeign) _
    | ingest e now =>
      cases h₁
      cases h₂
      obtain ⟨hs', ht'⟩ := hnew e.id rfl
      exact ingest_agree h hs ht (not_not.mp hforeign) hs' ht' now
    | recordRecoveryEvent id phase time =>
      cases h₁
      cases h₂
      exact recordRecoveryEvent_agree h hs ht (not_not.mp hforeign) phase time
    | ingestViolationEvent id now =>
      cases h₁
      cases h₂
      exact ingestViolationEvent_agree h hs ht (not_not.mp hforeign) now
    | setObjectiveBudget id total window =>
      cases h₁
      cases h₂
      exact setObjectiveBudget_agree h hs ht (not_not.mp hforeign) total window
    | evaluate service workload now =>
      obtain ⟨rfl, rfl⟩ := not_not.mp hforeign
      obtain ⟨x, hx, hr⟩ := Option.map_eq_some_iff.mp h₁
      obtain ⟨y, hy, hr'⟩ := Option.map_eq_some_iff.mp h₂
      cases hr
      cases hr'
      exact (evaluate_agree h hs ht now).2 _ _ _ _ hx hy
    | authorize intent now =>
      cases h₁
      cases h₂
      exact authorize_agree h hs ht ⟨_, _, _, rfl⟩ (not_not.mp hforeign) now
    | dispatch | transition | completeEnforcement => exact absurd trivial hforeign
    | save order =>
      simp only [apply, Option.ite_none_right_eq_some] at h₁ h₂
      cases h₁.2
      cases h₂.2
      exact h
    | load file => exact absurd rfl (hop.noLoad file)

/-- The decision of the step, if it takes one for the scope, is the same. -/
theorem decisionAt_agree (h₁ : apply s op = some (s', r)) (h₂ : apply t op' = some (t', r'))
    (h : Agree sc s t) (hs : Owned sc s) (ht : Owned sc t) (hsame : Same op op') :
    decisionAt sc (op, r) = decisionAt sc (op', r') := by
  cases hsame with
  | authorize | transition | completeEnforcement | save => rfl
  | same =>
    cases op with
    | evaluate service workload now =>
      obtain ⟨x, hx, hr⟩ := Option.map_eq_some_iff.mp h₁
      obtain ⟨y, hy, hr'⟩ := Option.map_eq_some_iff.mp h₂
      cases hr
      cases hr'
      by_cases hscope : service = sc.service ∧ workload = sc.workload
      · obtain ⟨rfl, rfl⟩ := hscope
        have hsame := (evaluate_agree h hs ht now).1
        rw [hx, hy] at hsame
        rw [decisionAt, decisionAt, if_pos ⟨rfl, rfl⟩, if_pos ⟨rfl, rfl⟩]
        exact hsame
      · rw [decisionAt, decisionAt, if_neg hscope, if_neg hscope]
    | _ => rfl

/-- What the induction over the two runs carries. -/
structure Simulates (sc : Scope) (tr tr' : Trace R) (s t : State R) : Prop where
  agree : Agree sc s t
  owned : Owned sc s
  owned' : Owned sc t
  decisions : decisions sc tr = decisions sc tr'

omit [Pod R] [Double R] [Platform R] in
theorem EvidenceOnce.push {tr : Trace R} (h : EvidenceOnce (tr ++ [(op, r)])) :
    EvidenceOnce tr ∧ ∀ id ∈ op.evidence, id.valid = true ∧ id ∉ ingested tr := by
  obtain ⟨hvalid, honce⟩ := h
  rw [ingested_push] at hvalid honce
  obtain ⟨hold, _, hapart⟩ := List.nodup_append.mp honce
  refine ⟨⟨fun id hid => hvalid id (List.mem_append_left _ hid), hold⟩, fun id hid => ?_⟩
  have hlast : id ∈ op.evidence.toList := Option.mem_toList.mpr hid
  exact ⟨hvalid id (List.mem_append_right _ hlast), fun hin => hapart id hin id hlast rfl⟩

theorem simulates_run {tr tr' : Trace R} (hdel : Deletes sc tr tr')
    (h : Run apply (fun _ op => Separated sc op) (State.fresh R) tr s) (hev : EvidenceOnce tr)
    (h' : Runs (State.fresh R) tr' t) : Simulates sc tr tr' s t := by
  induction hdel generalizing s t with
  | start =>
    rw [h.unstarted, h'.unstarted]
    exact ⟨.refl _, nofun, nofun, rfl⟩
  | @keep tr tr' op op' hrest hsame r r' ih =>
    obtain ⟨s₁, hrun, hop, hs⟩ := h.last
    obtain ⟨t₁, hrun', _, ht⟩ := h'.last
    obtain ⟨hev₁, hnew⟩ := hev.push
    have hsim := ih hrun hev₁ hrun'
    refine ⟨own_step hs ht hsim.agree hsim.owned hsim.owned' hop hsame fun id hid => ?_,
      owned_step hs hop hsim.owned, owned_step ht (hsame.separated hop) hsim.owned', ?_⟩
    · obtain ⟨hvalid, hno⟩ := hnew id hid
      exact ⟨⟨hvalid, fun hin => hno (seen_run hrun id hin)⟩,
        ⟨hvalid, fun hin => hno (hrest.ingested_subset (seen_run hrun' id hin))⟩⟩
    · rw [decisions_push, decisions_push, hsim.decisions,
        decisionAt_agree hs ht hsim.agree hsim.owned hsim.owned' hsame]
  | @delete tr tr' op hrest hforeign r ih =>
    obtain ⟨s₁, hrun, hop, hs⟩ := h.last
    have hsim := ih hrun hev.push.1 h'
    refine ⟨(foreign_step hs hop hforeign hsim.owned).symm.trans hsim.agree,
      owned_step hs hop hsim.owned, hsim.owned', ?_⟩
    rw [decisions_push, hsim.decisions, decisionAt_foreign hforeign]
    exact List.append_nil _

/-- **Scopes do not interfere.** Take a run without load that brings every evidence id once, and a
    scope whose ids no other scope uses. However many of the operations that concern other scopes
    are deleted from it, the evaluations of the scope decide the same, and so would the next one. -/
theorem scopes_run {tr tr' : Trace R}
    (h : Run apply (fun _ op => Separated sc op) (State.fresh R) tr s) (hev : EvidenceOnce tr)
    (h' : Runs (State.fresh R) tr' t) (hdel : Deletes sc tr tr') :
    decisions sc tr = decisions sc tr' ∧
      ∀ now, decisionOf (evaluate s sc.service sc.workload now) =
        decisionOf (evaluate t sc.service sc.workload now) := by
  have hsim := simulates_run hdel h hev h'
  exact ⟨hsim.decisions, fun now => (evaluate_agree hsim.agree hsim.owned hsim.owned' now).1⟩

end Step

/-! ## 3. Two scopes -/

/-- The trace without the foreign operations that `p` picks. -/
theorem Deletes.of_filter {sc : Scope} {p : Op R → Bool} (hp : ∀ op, p op = true → Foreign sc op)
    (tr : Trace R) : ∀ {tr' : Trace R}, tr'.map (·.1) = (tr.map (·.1)).filter (!p ·) →
    Deletes sc tr tr' := by
  induction tr using List.reverseRecOn with
  | nil =>
    intro tr' h
    rw [List.map_eq_nil_iff.mp h]
    exact .start
  | append_singleton tr x ih =>
    intro tr' h
    rw [List.map_append, List.filter_append] at h
    cases hx : p x.1 with
    | true =>
      refine .delete (ih ?_) (hp x.1 hx) x.2
      simpa [hx] using h
    | false =>
      obtain ⟨tr₁, tr₂, rfl, h₁, h₂⟩ := List.map_eq_append_iff.mp h
      have hone : tr₂.map (·.1) = [x.1] := by simpa [hx] using h₂
      obtain ⟨y, rfl, hy⟩ := List.map_eq_singleton_iff.mp hone
      have hsame : Same x.1 y.1 := hy ▸ .same x.1
      exact .keep (ih h₁) hsame x.2 y.2

def smallScope : Scope := ⟨⟨1⟩, ⟨1⟩, {⟨1⟩}, {⟨1⟩}, {⟨1⟩}⟩

/-- Does the contract keep to the ids of its scope? -/
def ownsTest (c : SloContract Binary64) : Bool :=
  let inside : Bool := c.service = ⟨1⟩ ∧ c.workload = ⟨1⟩
  inside = decide (c.id = ⟨1⟩) && inside = decide (c.policyId = ⟨1⟩) &&
    c.objectives.all fun o => inside = decide (o.id = ⟨1⟩)

theorem owns_of_test {c : SloContract Binary64} (h : ownsTest c = true) : Owns smallScope c := by
  simp only [ownsTest, Bool.and_eq_true, decide_eq_true_eq, decide_eq_decide,
    List.all_eq_true] at h
  obtain ⟨⟨hid, hpolicy⟩, hobjectives⟩ := h
  exact ⟨hid, hpolicy, hobjectives⟩

theorem separated_of_test {op : Op Binary64}
    (h : (!op.isLoad && (offered op).all ownsTest) = true) : Separated smallScope op := by
  obtain ⟨hload, hoffers⟩ := Bool.and_eq_true_iff.mp h
  refine ⟨not_load hload, fun c hc => owns_of_test ?_⟩
  rwa [hc] at hoffers

def foreignTest : Op Binary64 → Bool
  | .setPolicy policy => policy.id ≠ ⟨1⟩
  | .addContract contract => ¬(contract.service = ⟨1⟩ ∧ contract.workload = ⟨1⟩)
  | .ingest e _ => e.objectiveId ≠ ⟨1⟩
  | .evaluate service workload _ => ¬(service = ⟨1⟩ ∧ workload = ⟨1⟩)
  | _ => false

theorem foreign_of_test (op : Op Binary64) (h : foreignTest op = true) :
    Foreign smallScope op := by
  cases op with
  | setPolicy | addContract | ingest | evaluate =>
    have hout := of_decide_eq_true h
    exact hout
  | _ => cases h

/-- A latency for each of two scopes, which are evaluated in turn. -/
def twoScopes : List (Op Binary64) :=
  [.setPolicy { smallPolicy with id := ⟨2⟩ }, .setPolicy smallPolicy,
    .addContract { smallContract 2 1 2 [smallObjective 2 1] with policyId := ⟨2⟩ },
    .addContract (smallContract 1 1 1 [smallObjective 1 1]),
    .ingest (smallEvidence 1 2 50000000) 0, .ingest (smallEvidence 2 1 200000000) 0,
    .evaluate ⟨1⟩ ⟨2⟩ 0, .evaluate ⟨1⟩ ⟨1⟩ 0]

/-- Without the other one, the scope decides the same. -/
theorem scopes_run_small :
    ∃ tr tr' : Trace Binary64, tr.map (·.1) = twoScopes ∧ tr'.length = 4 ∧
      (decisions smallScope tr).length = 1 ∧
      decisions smallScope tr = decisions smallScope tr' := by
  have htest : (execute apply (fun _ op => !op.isLoad && (offered op).all ownsTest)
      (State.fresh Binary64) twoScopes).any (fun x =>
        ingested x.2 = [⟨1⟩, ⟨2⟩] ∧ (decisions smallScope x.2).length = 1) = true := by
    decide +kernel
  have htest' : (execute apply (fun _ _ => true) (State.fresh Binary64)
      (twoScopes.filter (!foreignTest ·))).isSome = true := by
    decide +kernel
  obtain ⟨⟨s, tr⟩, hx, hp⟩ := (Option.any_eq_true _ _).mp htest
  obtain ⟨⟨t, tr'⟩, hx'⟩ := Option.isSome_iff_exists.mp htest'
  obtain ⟨hids, hone⟩ := of_decide_eq_true hp
  have hops := execute_ops hx
  have hops' := execute_ops hx'
  have hev : EvidenceOnce tr := ⟨by rw [hids]; decide, by rw [hids]; decide⟩
  have hlength : tr'.length = 4 := by
    rw [← List.length_map (f := (·.1)), hops']
    rfl
  exact ⟨tr, tr', hops, hlength, hone,
    (scopes_run (.of_execute (fun _ _ h => separated_of_test h) hx) hev
      (.of_execute (fun _ _ _ => trivial) hx')
      (.of_filter foreign_of_test tr (by rw [hops, hops']))).1⟩

end SloFabric
