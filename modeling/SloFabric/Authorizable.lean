/-
  File:      SloFabric/Authorizable.lean
  Subject:   Whether the decision of an evaluation can be authorized at once.

  * `lastListing`: the contract `authorize` lands on -- the last one, in the order of their ids, of
    the service that lists the objective; `evaluate` judged the newest one of the service and
    workload;
  * `lastListing_of_mem`: it exists wherever some contract of the service lists the objective;
  * `fresh_authorizable_iff`: the decision is authorized exactly if that contract has the
    generation of the one judged, can authorize, and has a policy of the same generation;
  * `fresh_authorizable_fails`: a contract of another workload lists the objective, too.
-/
import SloFabric.Agreement

namespace SloFabric

variable {R : Type}

/-- The last contract of the service that lists the objective. -/
def lastListing (cs : Contracts R) (service : ServiceId) (id : ObjectiveId) :
    Option (SloContract R) :=
  (cs.rows.filter fun c => c.objectives.any (·.id = id) && c.service = service).getLast?

theorem intentContract_eq (cs : Contracts R) (intent : EnforcementIntent) :
    intentContract cs intent = lastListing cs intent.service intent.objectiveId := by
  unfold intentContract lastListing
  rw [foldl_last, Option.or_none]

/-- Where a contract of the service lists the objective, there is a last one. -/
theorem lastListing_of_mem {cs : Contracts R} {c : SloContract R} {o : Objective R}
    (hc : c ∈ cs.rows) (ho : o ∈ c.objectives) :
    ∃ d, lastListing cs c.service o.id = some d := by
  have hlists : c.objectives.any (·.id = o.id) = true :=
    List.any_eq_true.mpr ⟨o, ho, by simp⟩
  have hmem : c ∈ cs.rows.filter fun d =>
      d.objectives.any (·.id = o.id) && d.service = c.service :=
    List.mem_filter.mpr ⟨hc, by simp [hlists]⟩
  exact Option.isSome_iff_exists.mp (by
    rw [lastListing, Option.isSome_iff_ne_none, Ne, List.getLast?_eq_none_iff]
    exact List.ne_nil_of_mem hmem)

/-- The contract stands in for the one judged when it comes to authorizing: it has its generation,
    can authorize, and is under a policy of the same generation. -/
structure StandsIn (s : State R) (now : Duration) (c d : SloContract R) : Prop where
  gen : d.gen = c.gen
  active : d.canAuthorize now = true
  policy : ∃ p, s.policies.find d.policyId = some p ∧ p.gen = c.policyGen

/-- **When a fresh decision can be authorized.** In every state, for every evaluation that selects
    an action: authorizing its intent at the same time succeeds if and only if the last contract
    of the service that lists the binding objective stands in for the one judged. -/
theorem fresh_authorizable_iff [Double R] [Platform R] {s s₁ : State R} {service : ServiceId}
    {workload : WorkloadId} {now : Duration} {res : EvaluationResult R} {c : SloContract R}
    (h : evaluate s service workload now = some (s₁, .ok res))
    (hc : selectContract s.contracts service workload now = some c)
    (ha : res.intent.action ≠ .noAction) :
    (∃ s₂ rc, authorize s₁ res.intent now = (s₂, .ok rc)) ↔
      ∀ d, lastListing s.contracts service res.explanation.bindingObjective = some d →
        StandsIn s now c d := by
  rcases evaluate_cases h with ⟨_, hst, _⟩ |
    ⟨c', policy, overall, binding, digest, hc', hp, hpg, ho, hr, hs⟩
  · cases hst
  rw [hc] at hc'
  cases hc'
  rw [Except.ok.injEq] at hr
  cases binding with
  | none =>
    rw [hr] at ha
    exact absurd rfl ha
  | some bobj =>
    have hb := binding_mem _ now c.objectives overall bobj ho
    have hservice : res.intent.service = service := by rw [hr]; rfl
    have hobjective : res.intent.objectiveId = res.explanation.bindingObjective := by rw [hr]; rfl
    have hbinds : res.explanation.bindingObjective = bobj.id := by rw [hr]; rfl
    have hgen : res.intent.contractGen = c.gen := by rw [hr]; rfl
    have hpolicy : res.intent.policyGen = c.policyGen := by rw [hr]; exact hpg
    have hepoch : res.intent.epoch = s₁.epoch := by rw [hr, hs]; rfl
    have hcs : s₁.contracts = s.contracts := by rw [hs]
    have hps : s₁.policies = s.policies := by rw [hs]
    rw [authorize_ok_iff]
    constructor
    · rintro ⟨d, hd⟩ d' hd'
      have hfound := hd.found
      rw [intentContract_eq, hcs, hservice, hobjective, hd'] at hfound
      cases hfound
      obtain ⟨p, hp', hpg'⟩ := hd.policy
      exact ⟨hd.gen.trans hgen, hd.active, p, hps ▸ hp', hpg'.trans hpolicy⟩
    · intro hall
      obtain ⟨hrow, hsel⟩ := List.mem_filter.mp (newest_some hc).1
      rw [decide_eq_true_eq] at hsel
      obtain ⟨d, hd⟩ := lastListing_of_mem hrow hb
      rw [hsel.1] at hd
      obtain ⟨hdgen, hact, p, hp', hpg'⟩ := hall d (hbinds ▸ hd)
      refine ⟨d, ?_, hepoch, ha, hdgen.trans hgen.symm, hact, p, hps.symm ▸ hp',
        hpg'.trans hpolicy.symm⟩
      rw [intentContract_eq, hcs, hservice, hobjective, hbinds, hd]

/-! ## Two workloads -/

/-- A violated latency objective, listed by the contract of workload 1 and by a contract of
    workload 2 of a generation. -/
def listedTwice (gen : UInt64) : List (Op Binary64) :=
  [.setPolicy smallPolicy, .addContract (smallContract 1 1 1 [smallObjective 1 1]),
    .addContract (smallContract 2 gen 2 [smallObjective 1 1]),
    .ingest (smallEvidence 1 1 200000000) 0]

/-- **A decision cannot be authorized**: another workload's contract is of another generation. -/
theorem fresh_authorizable_fails :
    ¬∀ (s s₁ : State Binary64) (service : ServiceId) (workload : WorkloadId) (now : Duration)
      (res : EvaluationResult Binary64), Reachable s →
      evaluate s service workload now = some (s₁, .ok res) → res.intent.action ≠ .noAction →
      ∃ s₂ rc, authorize s₁ res.intent now = (s₂, .ok rc) := by
  intro hall
  have htest : (reported (evaluate (after (listedTwice 2)) ⟨1⟩ ⟨1⟩ 0)).any (fun x =>
      x.2.intent.action ≠ .noAction && !(authorize x.1 x.2.intent 0).2.toBool) = true := by
    decide +kernel
  obtain ⟨s₁, res, hev, htest⟩ := of_reported htest
  obtain ⟨hact, hno⟩ := Bool.and_eq_true_iff.mp htest
  obtain ⟨s₂, rc, hrc⟩ := hall _ s₁ ⟨1⟩ ⟨1⟩ 0 res (reachable_after (listedTwice 2)) hev
    (of_decide_eq_true hact)
  simp only [hrc] at hno
  cases hno

/-- The two contracts are of one generation: the decision is authorized, against the other one. -/
theorem fresh_authorizable_iff_small :
    ∃ s₁ res, evaluate (after (listedTwice 1)) ⟨1⟩ ⟨1⟩ 0 = some (s₁, .ok res) ∧
      ∃ s₂ rc, authorize s₁ res.intent 0 = (s₂, .ok rc) := by
  have htest : (reported (evaluate (after (listedTwice 1)) ⟨1⟩ ⟨1⟩ 0)).any (fun x =>
      x.2.intent.action ≠ .noAction && x.2.explanation.bindingObjective = ⟨1⟩) = true := by
    decide +kernel
  obtain ⟨s₁, res, hev, htest⟩ := of_reported htest
  obtain ⟨hact, hbinds⟩ := Bool.and_eq_true_iff.mp htest
  have hc : selectContract (after (listedTwice 1)).contracts ⟨1⟩ ⟨1⟩ 0 =
      some (smallContract 1 1 1 [smallObjective 1 1]) := by
    decide +kernel
  have hlast : lastListing (after (listedTwice 1)).contracts ⟨1⟩ ⟨1⟩ =
      some (smallContract 2 1 2 [smallObjective 1 1]) := by
    decide +kernel
  have hp : (after (listedTwice 1)).policies.find ⟨1⟩ = some smallPolicy := by
    decide +kernel
  refine ⟨s₁, res, hev, (fresh_authorizable_iff hev hc (of_decide_eq_true hact)).mpr
    fun d hd => ?_⟩
  rw [of_decide_eq_true hbinds, hlast] at hd
  cases hd
  exact ⟨rfl, by decide, smallPolicy, hp, rfl⟩

end SloFabric
