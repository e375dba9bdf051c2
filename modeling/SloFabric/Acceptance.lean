/-
  File:      SloFabric/Acceptance.lean
  Subject:   What the decoders let through, whatever the bytes.

  * `ensures_objective`, `ensures_contract`, `ensures_objstate`: a record that is read meets the
    range checks of its kind;
  * `loadState_storable`: a state that is loaded, from whatever file, could be saved again.
-/
import SloFabric.Persistence

namespace SloFabric

open Codec Double

/-! ## 1. Records -/

theorem ensures_readI64Of (valid : Int64 → Bool) :
    Ensures (readI64Of valid) fun i => valid i = true :=
  .next fun i => (Ensures.check (valid i)).bind fun _ h => .pure h

theorem ensures_readCount : Ensures readCount fun n => n ≤ kMaxCollectionItems :=
  .next fun _ => (Ensures.check _).bind fun _ h => .pure (of_decide_eq_true h)

theorem ensures_readOption {α : Type} {r : Reader α} {P : α → Bool}
    (h : Ensures r fun a => P a = true) : Ensures (readOption r) fun x => x.all P = true := by
  refine .next fun has => ?_
  cases has with
  | true => exact h.map fun a ha => ha
  | false => exact .pure rfl

theorem ensures_objstate : Ensures decodeObjstate fun ps => objstateStorable ps = true := by
  unfold decodeObjstate
  refine .next fun objectiveId => .next fun objectiveGen => ?_
  refine (ensures_readI64Of nonneg).bind fun total htotal => ?_
  refine (ensures_readI64Of nonneg).bind fun consumed hconsumed => ?_
  refine .next fun _ => .next fun _ => .next fun _ => .next fun _ => .next fun _ => .pure ?_
  rw [objstateStorable, htotal, hconsumed]
  rfl

section Number

variable {R : Type} [Pod R] [Double R]

omit [Double R] in
theorem ensures_readPodOf (valid : R → Bool) :
    Ensures (readPodOf R valid) fun x => valid x = true :=
  .next fun x => (Ensures.check (valid x)).bind fun _ h => .pure h

theorem ensures_readValue : Ensures (readValue R) fun v => valueValid v = true := by
  have hany : Ensures readI64 fun _ => True := fun _ _ _ _ => trivial
  refine .next fun tag => ?_
  split
  · exact hany.map fun _ _ => rfl
  · exact hany.map fun _ _ => rfl
  · exact hany.map fun _ _ => rfl
  · exact hany.map fun _ _ => rfl
  · exact (ensures_readPodOf percentageValid).map fun _ h => h
  · exact (ensures_readPodOf pressureRatioValid).map fun _ h => h
  · exact (ensures_readPodOf rateValid).map fun _ h => h
  · exact (ensures_readPodOf rateValid).map fun _ h => h
  · exact (ensures_readPodOf rateValid).map fun _ h => h
  · exact (ensures_readPodOf rateValid).map fun _ h => h
  · exact (ensures_readI64Of nonneg).map fun _ h => h
  · exact (ensures_readI64Of nonneg).map fun _ h => h
  · intro bs a rest h
    cases h

theorem ensures_objective :
    Ensures (decodeObjective R) fun o => objectiveStorable o = true := by
  unfold decodeObjective
  refine .next fun id => .next fun gen => .next fun name => .next fun dim => .next fun kind =>
    .next fun comparison => .next fun hardSoft => .next fun enforcement => ?_
  refine ensures_readValue.bind fun target htarget => ?_
  refine (ensures_readOption ensures_readValue).bind fun breach hbreach => ?_
  refine (ensures_readOption ensures_readValue).bind fun recovery hrecovery => ?_
  refine (ensures_readI64Of nonneg).bind fun minEvidence hmin => ?_
  refine (ensures_readPodOf unitInterval).bind fun uncertainty huncertainty => ?_
  refine (ensures_readI64Of nonneg).bind fun ttl httl => ?_
  refine .next fun grace => .next fun windowType => .next fun windowDuration => ?_
  refine (ensures_readI64Of _).bind fun windowCount hcount => ?_
  refine .next fun priority => ?_
  refine (ensures_readPodOf unitInterval).bind fun rank hrank => ?_
  refine .next fun mode => .next fun tag => ?_
  refine (Ensures.check _).bind fun _ hunit => .pure ?_
  simp only [objectiveStorable, htarget, hbreach, hrecovery, hmin, huncertainty, httl, hcount,
    hrank, hunit, Bool.and_self]

theorem ensures_contract :
    Ensures (decodeContract R) fun c => contractStorable c = true := by
  unfold decodeContract
  refine .next fun id => .next fun gen => .next fun service => .next fun workload =>
    .next fun tenant => ?_
  refine ensures_readCount.bind fun n hn => ?_
  refine (ensures_objective.list n).bind fun objectives hobjs => ?_
  refine .next fun policyId => .next fun policyGen => .next fun effectiveFrom =>
    .next fun expiration => .next fun epoch => .next fun lifecycle => .next fun name =>
    .next fun provenance => .pure ?_
  rw [contractStorable, Bool.and_eq_true, decide_eq_true_eq, List.all_eq_true]
  exact ⟨by rw [hobjs.1]; exact hn, hobjs.2⟩

/-! ## 2. States -/

/-- Whatever `x` answers meets `P`. -/
def Answers {α : Type} (x : StateT Bytes (Except Status) α) (P : α → Prop) : Prop :=
  ∀ bs a rest, x.run bs = .ok (a, rest) → P a

omit [Pod R] [Double R] in
/-- A checked part of the state, and the rest of it. -/
theorem answers_must_bind {α β : Type} {m : String} {r : Reader α}
    {f : α → StateT Bytes (Except Status) β} {Q : α → Prop} {P : β → Prop} (hr : Ensures r Q)
    (hf : ∀ a, Q a → Answers (f a) P) : Answers (must m r >>= f) P := by
  intro bs b rest h
  rw [StateT.run_bind, run_must] at h
  cases hx : r.run bs with
  | none => rw [hx] at h; cases h
  | some x =>
    rw [hx] at h
    exact hf x.1 (hr bs x.1 x.2 hx) x.2 b rest h

theorem answers_decodeState :
    Answers (decodeState R) fun st => durableStorable st = true := by
  have hany {α : Type} (r : Reader α) : Ensures r fun _ => True := fun _ _ _ _ => trivial
  unfold decodeState
  refine answers_must_bind (hany _) fun magic _ => answers_must_bind (hany _) fun _ _ =>
    answers_must_bind (hany _) fun version _ => answers_must_bind (hany _) fun _ _ =>
    answers_must_bind (hany _) fun epoch _ => ?_
  refine answers_must_bind ensures_readCount fun np hnp => ?_
  refine answers_must_bind ((hany decodePolicy).list np) fun policies hpolicies => ?_
  refine answers_must_bind ensures_readCount fun nc hnc => ?_
  refine answers_must_bind (ensures_contract.list nc) fun contracts hcontracts => ?_
  refine answers_must_bind ensures_readCount fun no hno => ?_
  refine answers_must_bind (ensures_objstate.list no) fun states hstates => ?_
  refine answers_must_bind ensures_readCount fun ne hne => ?_
  refine answers_must_bind ((hany decodeReceipt).list ne) fun receipts hreceipts => ?_
  refine answers_must_bind ensures_readCount fun nv hnv => ?_
  refine answers_must_bind ((hany decodeEval).list nv) fun evals hevals => ?_
  intro bs st rest h
  cases h
  simp only [durableStorable, Bool.and_eq_true, decide_eq_true_eq, List.all_eq_true]
  exact ⟨⟨⟨⟨hpolicies.1 ▸ hnp, hcontracts.1 ▸ hnc, hcontracts.2⟩, hstates.1 ▸ hno, hstates.2⟩,
    hreceipts.1 ▸ hne⟩, hevals.1 ▸ hnv⟩

/-- **What is loaded is well formed**: a state from whatever file passes every check a saved
    state is read back under. -/
theorem loadState_storable {file : Option Bytes} {st : DurableState R}
    (h : loadState R file = .ok st) : durableStorable st = true := by
  unfold loadState at h
  split at h
  · cases h
  · split at h
    · cases h
    · split at h
      · cases h
      · simp only at h
        split at h
        · cases h
        · unfold deserializeState at h
          split at h
          · cases h
          · split at h
            · cases h
            · rename_i hd
              split at h
              · cases h
                exact answers_decodeState _ _ _ hd
              · cases h

theorem loadState_objstates {file : Option Bytes} {st : DurableState R}
    (h : loadState R file = .ok st) : st.objectiveStates.all objstateStorable = true := by
  have hs := loadState_storable h
  simp only [durableStorable, Bool.and_eq_true] at hs
  exact hs.1.1.2.2

end Number

end SloFabric
