/-
  File:      SloFabric/Supersession.lean
  Subject:   Generations of contracts and policies, and what evaluates or authorizes under them.

  * `contractGenOf`, `policyGenOf`: the generation stored under an id;
  * `acceptedContract`, `acceptedPolicy`: what a step accepts;
  * `contractGen_step`, `policyGen_step`: only an accepted replacement changes a stored
    generation, and the new one is higher;
  * `evaluate_generations`, `authorize_generation`: evaluations and authorizations are of the
    stored generations;
  * `supersession_run`: so nothing succeeds below a generation that was accepted.
-/
import SloFabric.Contracts
import SloFabric.Library.Advancing

namespace SloFabric

variable {R : Type}

/-! ## 1. Stored and accepted generations -/

def contractGenOf (s : State R) (id : SloContractId) : Option SloContractGen :=
  (s.contracts.find id).map (·.gen)

def policyGenOf (s : State R) (id : PolicyId) : Option PolicyGen :=
  (s.policies.find id).map (·.gen)

/-- The contract generation a step accepts. -/
def acceptedContract : Op R × Response R → Option (SloContractId × SloContractGen)
  | (.addContract c, .status st) => if st.isOk then some (c.id, c.gen) else none
  | (.supersedeContract c _, .status st) => if st.isOk then some (c.id, c.gen) else none
  | _ => none

/-- The policy generation a step accepts. -/
def acceptedPolicy : Op R × Response R → Option (PolicyId × PolicyGen)
  | (.setPolicy p, .status st) => if st.isOk then some (p.id, p.gen) else none
  | _ => none

/-! ## 2. What a step does to them -/

/-- A contract is stored over an older generation, or refused. -/
theorem replaceContract_advances (s : State R) (c : SloContract R) :
    Advances (if (replaceContract s c).2.isOk then some (c.id, c.gen) else none)
      (contractGenOf s) (contractGenOf (replaceContract s c).1) := by
  rcases replaceContract_cases s c with ⟨_, h, hst⟩ | ⟨hfits, hst, hput⟩
  · rw [h, hst]
    exact .refl _
  · rw [hst]
    refine ⟨fun x hx => ?_, fun k hk => ?_⟩
    · cases hx
      refine ⟨by rw [contractGenOf, hput.found]; rfl, fun g hg => ?_⟩
      obtain ⟨c₀, hc₀, rfl⟩ := Option.map_eq_some_iff.mp hg
      exact not_le.mp (hfits c₀ hc₀)
    · rw [contractGenOf, hput.others k (hk _ rfl)]
      rfl

/-- A contract that is changed in place keeps its generation. -/
theorem updateContract_gen (s : State R) (id : SloContractId) (f : SloContract R → SloContract R)
    (hf : ∀ c, (f c).id = c.id ∧ (f c).gen = c.gen) :
    contractGenOf (updateContract s id f).1 = contractGenOf s := by
  funext k
  unfold updateContract contractGenOf
  cases hc : s.contracts.find id with
  | none => rfl
  | some c =>
    have hkey : (f c).id = id := (hf c).1.trans (KeyedTable.find_key hc)
    show ((s.contracts.insert (f c)).find k).map (·.gen) = _
    rw [KeyedTable.find_insert]
    by_cases hk : k = id
    · rw [if_pos (hk.trans hkey.symm), hk, hc]
      exact congrArg some (hf c).2
    · rw [if_neg fun e => hk (e.trans hkey)]

theorem addContract_advances (s : State R) (c : SloContract R) :
    Advances (if (addContract s c).2.isOk then some (c.id, c.gen) else none)
      (contractGenOf s) (contractGenOf (addContract s c).1) := by
  unfold addContract
  split
  · exact .refl _
  · split
    · rename_i hcheck
      rw [Bool.not_eq_true'] at hcheck
      rw [hcheck]
      exact .refl _
    · exact replaceContract_advances s c

theorem setPolicy_advances (s : State R) (p : SloPolicy) :
    Advances (if (setPolicy s p).2.isOk then some (p.id, p.gen) else none)
      (policyGenOf s) (policyGenOf (setPolicy s p).1) := by
  have hput (hnew : ∀ g, policyGenOf s p.id = some g → g < p.gen) :
      Advances (some (p.id, p.gen)) (policyGenOf s)
        (policyGenOf { s with policies := s.policies.insert p }) := by
    refine ⟨fun x hx => ?_, fun k hk => ?_⟩
    · cases hx
      refine ⟨?_, hnew⟩
      show ((s.policies.insert p).find p.id).map (·.gen) = some p.gen
      rw [KeyedTable.find_insert_self]
      rfl
    · show ((s.policies.insert p).find k).map (·.gen) = _
      rw [KeyedTable.find_insert_ne s.policies (hk _ rfl)]
      rfl
  unfold setPolicy
  cases hfind : s.policies.find p.id with
  | none =>
    refine hput fun g hg => ?_
    rw [policyGenOf, hfind] at hg
    cases hg
  | some p₀ =>
    simp only
    split
    · exact .refl _
    · rename_i hgen
      refine hput fun g hg => ?_
      rw [policyGenOf, hfind] at hg
      cases hg
      exact not_le.mp hgen

section Step

variable [Pod R] [Double R] [Platform R]

/-- **Only an accepted contract changes a stored generation**, and it is of a higher one. -/
theorem contractGen_step {s s' : State R} {op : Op R} {r : Response R}
    (h : apply s op = some (s', r)) (hload : ∀ file, op ≠ .load file) :
    Advances (acceptedContract (op, r)) (contractGenOf s) (contractGenOf s') := by
  have hsame (hcs : s'.contracts = s.contracts) (hnone : acceptedContract (op, r) = none) :
      Advances (acceptedContract (op, r)) (contractGenOf s) (contractGenOf s') := by
    rw [hnone]
    exact .of_eq (by unfold contractGenOf; rw [hcs])
  cases frame_cases h with
  | policies h' | ingested h' | evaluated _ h' | authorized _ h' | saved h' =>
    exact hsame (by rw [h']) rfl
  | dispatched h' => exact hsame (by rw [h']; rfl) rfl
  | transition hx | completed hx => cases hx; exact hsame rfl rfl
  | objectives hop h' =>
    refine hsame (by rw [h']) ?_
    cases op with
    | recordRecoveryEvent | ingestViolationEvent | setObjectiveBudget => rfl
    | _ => cases hop
  | failed | loaded => exact absurd rfl (hload _)
  | contracts hop =>
    cases op with
    | addContract c => cases h; exact addContract_advances s c
    | supersedeContract c now => cases h; exact replaceContract_advances s c
    | activateContract id now =>
      cases h
      exact .of_eq (updateContract_gen s id _ fun _ => ⟨rfl, rfl⟩)
    | suspendContract id now =>
      cases h
      exact .of_eq (updateContract_gen s id _ fun _ => ⟨rfl, rfl⟩)
    | expireContract id now =>
      cases h
      exact .of_eq (updateContract_gen s id _ fun _ => ⟨rfl, rfl⟩)
    | retireContract id now =>
      cases h
      exact .of_eq (updateContract_gen s id _ fun _ => ⟨rfl, rfl⟩)
    | _ => cases hop

/-- **Only an accepted policy changes a stored generation**, and it is of a higher one. -/
theorem policyGen_step {s s' : State R} {op : Op R} {r : Response R}
    (h : apply s op = some (s', r)) (hload : ∀ file, op ≠ .load file) :
    Advances (acceptedPolicy (op, r)) (policyGenOf s) (policyGenOf s') := by
  have hsame (hps : s'.policies = s.policies) (hnone : acceptedPolicy (op, r) = none) :
      Advances (acceptedPolicy (op, r)) (policyGenOf s) (policyGenOf s') := by
    rw [hnone]
    exact .of_eq (by unfold policyGenOf; rw [hps])
  cases frame_cases h with
  | policies => cases h; exact setPolicy_advances s _
  | ingested h' | evaluated _ h' | authorized _ h' | saved h' => exact hsame (by rw [h']) rfl
  | dispatched h' => exact hsame (by rw [h']; rfl) rfl
  | transition hx | completed hx => cases hx; exact hsame rfl rfl
  | contracts hop h' | objectives hop h' =>
    refine hsame (by rw [h']) ?_
    cases op with
    | setPolicy => cases hop
    | _ => rfl
  | failed | loaded => exact absurd rfl (hload _)

end Step

/-! ## 3. What succeeds is of the stored generations -/

theorem evaluate_generations [Double R] [Platform R] {s s' : State R} {service : ServiceId}
    {workload : WorkloadId} {now : Duration} {res : EvaluationResult R}
    (h : evaluate s service workload now = some (s', .ok res)) :
    contractGenOf s res.explanation.contractId = some res.explanation.contractGen ∧
      policyGenOf s res.explanation.policyId = some res.explanation.policyGen := by
  rcases evaluate_cases h with ⟨_, hst, _⟩ | ⟨c, policy, _, _, _, hc, hp, _, _, hr, _⟩
  · cases hst
  · cases hr
    have hrow : s.contracts.find c.id = some c :=
      KeyedTable.mem_rows.mp (List.mem_filter.mp (newest_some hc).1).1
    have hkey : policy.id = c.policyId := KeyedTable.find_key hp
    constructor
    · show (s.contracts.find c.id).map (·.gen) = some c.gen
      rw [hrow]
      rfl
    · show (s.policies.find policy.id).map (·.gen) = some policy.gen
      rw [hkey, hp]
      rfl

theorem authorize_generation {s s' : State R} {intent : EnforcementIntent} {now : Duration}
    {rc : EnforcementReceipt} {c : SloContract R} (h : authorize s intent now = (s', .ok rc))
    (hc : intentContract s.contracts intent = some c) :
    policyGenOf s c.policyId = some rc.policyGen := by
  rcases authorize_cases s intent now with ⟨_, hst⟩ | ⟨c', policy, hc', _, _, _, _, hp, hpg, hok⟩
  · cases h.symm.trans hst
  · cases hc.symm.trans hc'
    cases h.symm.trans hok
    rw [policyGenOf, hp]
    exact congrArg some hpg

/-! ## 4. Runs -/

section Runs

variable [Pod R] [Double R] [Platform R]

/-- **Supersession is permanent.** In every run without load, from any state: after a contract
    generation was accepted no evaluation explains a lower one of that contract; after a policy
    generation was accepted nothing is evaluated or authorized under a lower one of that policy; and
    whatever step comes next, an accepted replacement raises the stored generation of its id, and
    nothing else changes one. -/
theorem supersession_run {s₀ s : State R} {tr : Trace R}
    (h : Run apply (fun _ op => ∀ file, op ≠ .load file) s₀ tr s) :
    (∀ x ∈ tr.filterMap acceptedContract, ∀ service workload now s' res,
      evaluate s service workload now = some (s', .ok res) →
      res.explanation.contractId = x.1 → ¬res.explanation.contractGen < x.2) ∧
    (∀ x ∈ tr.filterMap acceptedPolicy,
      (∀ service workload now s' res, evaluate s service workload now = some (s', .ok res) →
        res.explanation.policyId = x.1 → ¬res.explanation.policyGen < x.2) ∧
      ∀ intent now s' rc c, authorize s intent now = (s', .ok rc) →
        intentContract s.contracts intent = some c → c.policyId = x.1 → ¬rc.policyGen < x.2) ∧
    ∀ op s' r, (∀ file, op ≠ .load file) → apply s op = some (s', r) →
      Advances (acceptedContract (op, r)) (contractGenOf s) (contractGenOf s') ∧
      Advances (acceptedPolicy (op, r)) (policyGenOf s) (policyGenOf s') := by
  have hcontracts := Run.accepted_le (fun _ _ _ _ hload hs => contractGen_step hs hload) h
  have hpolicies := Run.accepted_le (fun _ _ _ _ hload hs => policyGen_step hs hload) h
  refine ⟨fun x hx service workload now s' res hev hid => ?_, fun x hx => ⟨?_, ?_⟩,
    fun op s' r hload hs => ⟨contractGen_step hs hload, policyGen_step hs hload⟩⟩
  · obtain ⟨g, hg, hle⟩ := hcontracts x hx
    have hgen := (evaluate_generations hev).1
    rw [hid, hg] at hgen
    exact not_lt.mpr (Option.some.inj hgen ▸ hle)
  · intro service workload now s' res hev hid
    obtain ⟨g, hg, hle⟩ := hpolicies x hx
    have hgen := (evaluate_generations hev).2
    rw [hid, hg] at hgen
    exact not_lt.mpr (Option.some.inj hgen ▸ hle)
  · intro intent now s' rc c hauth hc hid
    obtain ⟨g, hg, hle⟩ := hpolicies x hx
    have hgen := authorize_generation hauth hc
    rw [hid, hg] at hgen
    exact not_lt.mpr (Option.some.inj hgen ▸ hle)

end Runs

/-- Contract `1` is superseded: what is evaluated then is generation `2`. -/
theorem supersession_run_small :
    ∃ (s s' : State Binary64) (tr : Trace Binary64) (res : EvaluationResult Binary64),
      Run apply (fun _ op => ∀ file, op ≠ .load file) (State.fresh Binary64) tr s ∧
      (⟨1⟩, ⟨2⟩) ∈ tr.filterMap acceptedContract ∧
      evaluate s ⟨1⟩ ⟨1⟩ 0 = some (s', .ok res) ∧ res.explanation.contractId = ⟨1⟩ ∧
      ¬res.explanation.contractGen < ⟨2⟩ := by
  have htest : (execute apply (fun _ op => !op.isLoad) (State.fresh Binary64)
      [.setPolicy smallPolicy, .addContract (smallContract 1 1 1 [smallObjective 1 1]),
        .supersedeContract (smallContract 1 2 1 [smallObjective 1 1]) 0]).any (fun x =>
          decide ((⟨1⟩, ⟨2⟩) ∈ x.2.filterMap acceptedContract) &&
          (reported (evaluate x.1 ⟨1⟩ ⟨1⟩ 0)).any fun y =>
            y.2.explanation.contractId = ⟨1⟩) = true := by
    decide +kernel
  obtain ⟨s, tr, hrun, hlast⟩ := Run.of_test (fun _ _ => not_load) htest
  obtain ⟨hmem, hev⟩ := Bool.and_eq_true_iff.mp hlast
  obtain ⟨s', res, he, hid⟩ := of_reported hev
  have hid := of_decide_eq_true hid
  have hmem := of_decide_eq_true hmem
  exact ⟨s, s', tr, res, hrun, hmem, he, hid,
    (supersession_run hrun).1 _ hmem ⟨1⟩ ⟨1⟩ 0 s' res he hid⟩

end SloFabric
