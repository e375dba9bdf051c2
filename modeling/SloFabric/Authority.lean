/-
  File:      SloFabric/Authority.lean
  Subject:   What a successful `authorize` vouches for.

  * `Checked`: the checks `authorize` makes, against the contract its scan lands on;
    `authorize_ok_iff`: it succeeds exactly when they pass;
  * `Unsuperseded`: the checks it does not make -- the contract's workload, the generation of
    the objective, the evaluation the intent comes from;
  * `authorize_fenced`: an intent that has what is not checked is authorized only in force;
  * `authorize_superseded`: the intent of the last evaluation but one is authorized.
-/
import SloFabric.Decision

namespace SloFabric

variable {R : Type}

/-! ## 1. The checks there are -/

/-- The checks `authorize` makes on an intent, against contract `c`. -/
structure Checked (s : State R) (intent : EnforcementIntent) (now : Duration)
    (c : SloContract R) : Prop where
  found : intentContract s.contracts intent = some c
  epoch : intent.epoch = s.epoch
  action : intent.action ≠ .noAction
  gen : c.gen = intent.contractGen
  active : c.canAuthorize now = true
  policy : ∃ p, s.policies.find c.policyId = some p ∧ p.gen = intent.policyGen

/-- **`authorize` succeeds exactly when its checks pass.** -/
theorem authorize_ok_iff {s : State R} {intent : EnforcementIntent} {now : Duration} :
    (∃ s' rc, authorize s intent now = (s', .ok rc)) ↔ ∃ c, Checked s intent now c := by
  constructor
  · rintro ⟨s', rc, h⟩
    rcases authorize_cases s intent now with ⟨st, hst⟩ | ⟨c, p, hc, he, ha, hg, hact, hp, hpg, _⟩
    · rw [h] at hst
      cases hst
    · exact ⟨c, hc, he, ha, hg, hact, p, hp, hpg⟩
  · rintro ⟨c, hc, he, ha, hg, hact, p, hp, hpg⟩
    unfold authorize
    rw [if_neg (not_not.mpr he), if_neg ha, hc]
    simp only
    rw [if_neg (not_not.mpr hg), if_neg (by simp [hact]), if_neg (by simp [hp, hpg])]
    exact ⟨_, _, rfl⟩

/-- A scan that keeps the last hit. -/
theorem foldl_last {α : Type} (p : α → Bool) : ∀ (l : List α) (best : Option α),
    l.foldl (fun c x => if p x then some x else c) best = (l.filter p).getLast?.or best
  | [], best => rfl
  | x :: l, best => by
      rw [List.foldl_cons, foldl_last p l]
      by_cases hx : p x = true
      · rw [if_pos hx, List.filter_cons_of_pos hx, List.getLast?_cons]
        cases (l.filter p).getLast? <;> rfl
      · rw [if_neg hx, List.filter_cons_of_neg hx]

/-- The scan lands on a stored contract of the intent's service that has its objective. -/
theorem intentContract_some {cs : Contracts R} {intent : EnforcementIntent} {c : SloContract R}
    (h : intentContract cs intent = some c) :
    c ∈ cs.rows ∧ c.service = intent.service ∧
      ∃ o ∈ c.objectives, o.id = intent.objectiveId := by
  unfold intentContract at h
  rw [foldl_last, Option.or_none] at h
  obtain ⟨hrow, hhit⟩ := List.mem_filter.mp (List.mem_of_getLast? h)
  obtain ⟨hany, hsv⟩ := Bool.and_eq_true_iff.mp hhit
  obtain ⟨o, ho, hid⟩ := List.any_eq_true.mp hany
  exact ⟨hrow, of_decide_eq_true hsv, o, ho, of_decide_eq_true hid⟩

/-! ## 2. The evaluations of a scope -/

/-- What one step evaluates for a scope. -/
def evaluationOf (service : ServiceId) (workload : WorkloadId) :
    Op R × Response R → Option (EvaluationResult R)
  | (.evaluate sv wl _, .evaluated (.ok res)) =>
    if sv = service ∧ wl = workload then some res else none
  | _ => none

/-- The evaluations of a scope that succeeded in a run, in order. -/
def evaluationsOf (tr : Trace R) (service : ServiceId) (workload : WorkloadId) :
    List (EvaluationResult R) := tr.filterMap (evaluationOf service workload)

theorem evaluationsOf_append (tr₁ tr₂ : Trace R) (service : ServiceId) (workload : WorkloadId) :
    evaluationsOf (tr₁ ++ tr₂) service workload =
      evaluationsOf tr₁ service workload ++ evaluationsOf tr₂ service workload :=
  List.filterMap_append

/-- Does the intent name the evaluation? -/
structure Names (intent : EnforcementIntent) (res : EvaluationResult R) : Prop where
  id : res.explanation.evaluationId = intent.evaluationId
  gen : res.explanation.evaluationGen = intent.evaluationGen

/-- The intent of an evaluation is for its scope and names it. -/
theorem evaluate_names [Double R] [Platform R] {s s' : State R} {service : ServiceId}
    {workload : WorkloadId} {now : Duration} {res : EvaluationResult R}
    (h : evaluate s service workload now = some (s', .ok res)) :
    res.intent.service = service ∧ res.intent.workload = workload ∧ Names res.intent res := by
  rcases evaluate_cases h with ⟨_, hst, _⟩ | ⟨c, policy, overall, binding, _, _, _, _, _, hr, _⟩
  · cases hst
  · rw [Except.ok.injEq] at hr
    subst hr
    cases binding with
    | none => exact ⟨rfl, rfl, rfl, rfl⟩
    | some bobj => exact ⟨rfl, rfl, rfl, rfl⟩

/-! ## 3. The checks there are not -/

/-- Contract `c` has the intent's objective at the intent's generation. -/
def Carries (c : SloContract R) (intent : EnforcementIntent) : Prop :=
  ∃ o ∈ c.objectives, o.id = intent.objectiveId ∧ o.gen = intent.objectiveGen

/-- What `authorize` does not check: contract `c` is of the intent's workload and has its
    objective at its generation, and the intent names the last evaluation of its scope, one of
    contract `c`, and none before it. -/
structure Unsuperseded (tr : Trace R) (intent : EnforcementIntent) (c : SloContract R) :
    Prop where
  workload : c.workload = intent.workload
  objective : Carries c intent
  latest : ∃ res, (evaluationsOf tr intent.service intent.workload).getLast? = some res ∧
    Names intent res ∧ res.explanation.contractId = c.id
  once : ∀ res ∈ (evaluationsOf tr intent.service intent.workload).dropLast,
    res.explanation.evaluationId ≠ intent.evaluationId

/-- What an authorized intent is to be bound to. -/
structure AuthorityFence (tr : Trace R) (s : State R) (intent : EnforcementIntent)
    (now : Duration) : Prop where
  contract : ∃ c ∈ s.contracts.rows, c.canAuthorize now = true ∧ c.service = intent.service ∧
    c.workload = intent.workload ∧ c.gen = intent.contractGen ∧ Carries c intent ∧
    ∃ p, s.policies.find c.policyId = some p ∧ p.gen = intent.policyGen
  epoch : intent.epoch = s.epoch
  latest : ∃ res, (evaluationsOf tr intent.service intent.workload).getLast? = some res ∧
    Names intent res

/-- Nothing evaluation `res` rests on has been superseded: no evaluation of its scope in the
    steps after it, its contract is stored at the same generation with its objective at the
    same generation, and the contract's policy is at the same generation. -/
structure InForce (later : Trace R) (s : State R) (res : EvaluationResult R) : Prop where
  evaluation : evaluationsOf later res.intent.service res.intent.workload = []
  contract : ∃ c, s.contracts.find res.explanation.contractId = some c ∧
    c.gen = res.intent.contractGen ∧ Carries c res.intent ∧
    ∃ p, s.policies.find c.policyId = some p ∧ p.gen = res.intent.policyGen

variable [Double R] [Platform R]

/-- An intent of the run that names the last evaluation of its scope and none before it is the
    intent of that evaluation, and no other one follows. -/
theorem produced_last [Pod R] {tr₁ tr₂ : Trace R} {s : State R} {service : ServiceId}
    {workload : WorkloadId} {now : Duration} {res last : EvaluationResult R}
    (h : Runs (State.fresh R)
      (tr₁ ++ (.evaluate service workload now, .evaluated (.ok res)) :: tr₂) s)
    (hlast : (evaluationsOf (tr₁ ++ (.evaluate service workload now, .evaluated (.ok res)) :: tr₂)
      res.intent.service res.intent.workload).getLast? = some last)
    (honce : ∀ r ∈ (evaluationsOf
      (tr₁ ++ (.evaluate service workload now, .evaluated (.ok res)) :: tr₂)
      res.intent.service res.intent.workload).dropLast,
      r.explanation.evaluationId ≠ res.intent.evaluationId) :
    evaluationsOf tr₂ res.intent.service res.intent.workload = [] ∧ last = res := by
  obtain ⟨s₁, s₂, _, hs, _⟩ := h.split
  obtain ⟨x, hx, hr⟩ := Option.map_eq_some_iff.mp hs
  obtain ⟨s₃, r⟩ := x
  cases hr
  obtain ⟨hsv, hwl, hnames⟩ := evaluate_names hx
  have hone : evaluationOf res.intent.service res.intent.workload
      (.evaluate service workload now, .evaluated (.ok res)) = some res := by
    simp [evaluationOf, hsv, hwl]
  have hlist : evaluationsOf (tr₁ ++ (.evaluate service workload now, .evaluated (.ok res)) :: tr₂)
      res.intent.service res.intent.workload =
        evaluationsOf tr₁ res.intent.service res.intent.workload ++
          res :: evaluationsOf tr₂ res.intent.service res.intent.workload := by
    rw [evaluationsOf_append]
    congr 1
    exact List.filterMap_cons_some hone
  rw [hlist] at hlast honce
  rcases List.eq_nil_or_concat' (evaluationsOf tr₂ res.intent.service res.intent.workload) with
    hnil | ⟨l, r, hl⟩
  · rw [hnil] at hlast
    simp only [List.getLast?_append, List.getLast?_singleton] at hlast
    exact ⟨hnil, (Option.some.inj hlast).symm⟩
  · -- a later evaluation would leave this one among those before the last
    rw [hl] at honce
    have hmem : res ∈ (evaluationsOf tr₁ res.intent.service res.intent.workload ++
        res :: (l ++ [r])).dropLast := by
      rw [← List.cons_append, ← List.append_assoc, List.dropLast_concat]
      simp
    exact absurd hnames.id (honce res hmem)

/-- **Authorization fence.** In every run, whatever intent comes next and whenever: if the
    contract its checks pass against also has what `authorize` does not check, then a success
    of `authorize` means that the intent is bound to the current state, and an intent of the
    run is only authorized as long as nothing its evaluation rests on has been superseded. -/
theorem authorize_fenced [Pod R] {s s' : State R} {tr : Trace R} {intent : EnforcementIntent}
    {now : Duration} {rc : EnforcementReceipt} (h : Runs (State.fresh R) tr s)
    (hfit : ∀ c, Checked s intent now c → Unsuperseded tr intent c)
    (hok : authorize s intent now = (s', .ok rc)) :
    AuthorityFence tr s intent now ∧
    ∀ (tr₁ tr₂ : Trace R) (service : ServiceId) (workload : WorkloadId) (t : Duration)
      (res : EvaluationResult R),
      tr = tr₁ ++ (.evaluate service workload t, .evaluated (.ok res)) :: tr₂ →
      res.intent = intent → InForce tr₂ s res := by
  obtain ⟨c, hc⟩ := authorize_ok_iff.mp ⟨s', rc, hok⟩
  obtain ⟨hrow, hsv, _⟩ := intentContract_some hc.found
  have hun := hfit c hc
  obtain ⟨last, hlast, hnames, hid⟩ := hun.latest
  refine ⟨⟨⟨c, hrow, hc.active, hsv, hun.workload, hc.gen, hun.objective, hc.policy⟩, hc.epoch,
    last, hlast, hnames⟩, ?_⟩
  rintro tr₁ tr₂ service workload t res rfl rfl
  obtain ⟨hnone, rfl⟩ := produced_last h hlast hun.once
  refine ⟨hnone, c, ?_, hc.gen, hun.objective, hc.policy⟩
  rw [hid]
  exact KeyedTable.mem_rows.mp hrow

/-! ## 4. The last evaluation but one -/

/-- What is not checked, as a test. -/
def unsupersededTest (tr : Trace Binary64) (intent : EnforcementIntent)
    (c : SloContract Binary64) : Bool :=
  let evals := evaluationsOf tr intent.service intent.workload
  c.workload = intent.workload &&
  c.objectives.any (fun o => o.id = intent.objectiveId && o.gen = intent.objectiveGen) &&
  evals.getLast?.any (fun res => res.explanation.evaluationId = intent.evaluationId &&
    res.explanation.evaluationGen = intent.evaluationGen &&
    res.explanation.contractId = c.id) &&
  evals.dropLast.all fun res => res.explanation.evaluationId ≠ intent.evaluationId

theorem unsuperseded_of_test {tr : Trace Binary64} {intent : EnforcementIntent}
    {c : SloContract Binary64} (h : unsupersededTest tr intent c = true) :
    Unsuperseded tr intent c := by
  simp only [unsupersededTest, Bool.and_eq_true, decide_eq_true_eq, List.any_eq_true,
    Option.any_eq_true, List.all_eq_true] at h
  obtain ⟨⟨⟨hwl, ho⟩, res, hres, ⟨hid, hgen⟩, hc⟩, honce⟩ := h
  exact ⟨hwl, ho, ⟨res, hres, ⟨hid, hgen⟩, hc⟩, honce⟩

/-- A latency of 200 ms, and some evaluations. -/
def evaluated (n : Nat) : List (Op Binary64) :=
  [.setPolicy smallPolicy, .addContract (smallContract 1 1 1 [smallObjective 1 1]),
    .ingest (smallEvidence 1 1 200000000) 0] ++ List.replicate n (.evaluate ⟨1⟩ ⟨1⟩ 0)

/-- The intent of the next evaluation. -/
def nextIntent (n : Nat) : Option EnforcementIntent :=
  (reported (evaluate (after (evaluated n)) ⟨1⟩ ⟨1⟩ 0)).map (·.2.intent)

theorem exists_of_toBool {σ ε α : Type} {x : σ × Except ε α} (h : x.2.toBool = true) :
    ∃ s a, x = (s, .ok a) := by
  obtain ⟨s, y⟩ := x
  cases y with
  | error e => cases h
  | ok a => exact ⟨s, a, rfl⟩

/-- **A superseded intent is authorized**: of two evaluations of one scope, the first one's. -/
theorem authorize_superseded :
    ¬∀ (tr : Trace Binary64) (s s' : State Binary64) (intent : EnforcementIntent)
      (now : Duration) (rc : EnforcementReceipt), Runs (State.fresh Binary64) tr s →
      authorize s intent now = (s', .ok rc) → AuthorityFence tr s intent now := by
  intro hall
  have htest : (nextIntent 0).any (fun intent =>
      (authorize (after (evaluated 2)) intent 0).2.toBool &&
      (evaluationsOf (traceAfter (evaluated 2)) intent.service intent.workload).getLast?.all
        fun res => res.explanation.evaluationId ≠ intent.evaluationId) = true := by
    decide +kernel
  obtain ⟨intent, _, hintent⟩ := (Option.any_eq_true _ _).mp htest
  obtain ⟨hok, hlast⟩ := Bool.and_eq_true_iff.mp hintent
  obtain ⟨s', rc, hrc⟩ := exists_of_toBool hok
  have hfence := hall _ _ s' intent 0 rc (run_after (evaluated 2)) hrc
  obtain ⟨res, hres, hid, _⟩ := hfence.latest
  rw [hres] at hlast
  exact absurd hid (of_decide_eq_true hlast)

/-- The intent of the only evaluation is authorized, and in force. -/
theorem authorize_fenced_small :
    ∃ s' intent rc, nextIntent 0 = some intent ∧
      authorize (after (evaluated 1)) intent 0 = (s', .ok rc) ∧
      AuthorityFence (traceAfter (evaluated 1)) (after (evaluated 1)) intent 0 := by
  have htest : (nextIntent 0).any (fun intent =>
      (authorize (after (evaluated 1)) intent 0).2.toBool &&
      (intentContract (after (evaluated 1)).contracts intent).all
        (unsupersededTest (traceAfter (evaluated 1)) intent)) = true := by
    decide +kernel
  obtain ⟨intent, hnext, hintent⟩ := (Option.any_eq_true _ _).mp htest
  obtain ⟨hok, hfit⟩ := Bool.and_eq_true_iff.mp hintent
  obtain ⟨s', rc, hrc⟩ := exists_of_toBool hok
  refine ⟨s', intent, rc, hnext, hrc, (authorize_fenced (run_after _) (fun c hc => ?_) hrc).1⟩
  rw [hc.found] at hfit
  exact unsuperseded_of_test hfit

end SloFabric
