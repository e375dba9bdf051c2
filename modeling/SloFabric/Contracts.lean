/-
  File:      SloFabric/Contracts.lean
  Subject:   What a step does to the stored contracts.

  * `offered`, `Op.lifecycle`: the contract a call offers to the table, and what a lifecycle call
    does to the contract it names;
  * `contracts_cases`: a step leaves the contracts alone, stores an offered one over one of a
    lower generation, changes one in place, or takes over those of a file;
  * `contracts_step`: so every contract is one offered, at another point of its life.
-/
import SloFabric.Records

namespace SloFabric

variable {R : Type}

/-- The contract an operation offers to the table. -/
def offered : Op R → Option (SloContract R)
  | .addContract contract => some contract
  | .supersedeContract replacement _ => some replacement
  | _ => none

/-- The contract a lifecycle call names, and what it does to it. -/
def Op.lifecycle : Op R → Option (SloContractId × (SloContract R → SloContract R))
  | .activateContract id now => some (id, fun c =>
    { c with lifecycle := .active
             effectiveFrom := if now < c.effectiveFrom then now else c.effectiveFrom })
  | .suspendContract id _ => some (id, fun c => { c with lifecycle := .suspended })
  | .expireContract id now => some (id, fun c =>
    { c with lifecycle := .expired
             expiration := if c.expiration.isSome then c.expiration else some now })
  | .retireContract id _ => some (id, fun c => { c with lifecycle := .retired })
  | _ => none

/-- A lifecycle call changes a contract's lifecycle and the times of its validity. -/
theorem lifecycle_frame {op : Op R} {id : SloContractId} {f : SloContract R → SloContract R}
    (h : op.lifecycle = some (id, f)) (c : SloContract R) :
    ∃ l start stop,
      f c = { c with lifecycle := l, effectiveFrom := start, expiration := stop } := by
  cases op with
  | activateContract id now => cases h; exact ⟨_, _, c.expiration, rfl⟩
  | suspendContract id now => cases h; exact ⟨_, c.effectiveFrom, c.expiration, rfl⟩
  | expireContract id now => cases h; exact ⟨_, c.effectiveFrom, _, rfl⟩
  | retireContract id now => cases h; exact ⟨_, c.effectiveFrom, c.expiration, rfl⟩
  | _ => cases h

/-- The table takes the contract: none is stored under its id, or one of a lower generation. -/
def Fits (cs : Contracts R) (c : SloContract R) : Prop :=
  ∀ c₀, cs.find c.id = some c₀ → ¬c.gen ≤ c₀.gen

/-- `cs'` has `c` under its id, and is `cs` otherwise. -/
structure Puts (cs cs' : Contracts R) (c : SloContract R) : Prop where
  found : cs'.find c.id = some c
  others : ∀ k, k ≠ c.id → cs'.find k = cs.find k

theorem puts_insert (cs : Contracts R) (c : SloContract R) : Puts cs (cs.insert c) c :=
  ⟨KeyedTable.find_insert_self cs c, fun _ hk => KeyedTable.find_insert_ne cs hk⟩

/-- What holds of every contract and of the one put there holds of every contract then. -/
theorem Puts.rows {cs cs' : Contracts R} {c : SloContract R} (h : Puts cs cs' c)
    {P : SloContract R → Prop} (hcs : ∀ x ∈ cs.rows, P x) (hc : P c) : ∀ x ∈ cs'.rows, P x := by
  intro x hx
  have hfind : cs'.find x.id = some x := KeyedTable.mem_rows.mp hx
  by_cases hid : x.id = c.id
  · rw [hid, h.found] at hfind
    rwa [← Option.some.inj hfind]
  · rw [h.others x.id hid] at hfind
    exact hcs x (KeyedTable.find_mem hfind)

theorem replaceContract_cases (s : State R) (c : SloContract R) :
    (¬Fits s.contracts c ∧ (replaceContract s c).1 = s ∧
      (replaceContract s c).2.isOk = false) ∨
    (Fits s.contracts c ∧ (replaceContract s c).2 = ok ∧
      Puts s.contracts (replaceContract s c).1.contracts c) := by
  cases hfind : s.contracts.find c.id with
  | none =>
    have hput : replaceContract s c = ({ s with contracts := s.contracts.insert c }, ok) := by
      simp only [replaceContract, hfind]
    rw [hput]
    refine Or.inr ⟨fun c₀ h => ?_, rfl, puts_insert _ _⟩
    rw [hfind] at h
    cases h
  | some c₀ =>
    by_cases hgen : c.gen ≤ c₀.gen
    · have hkeep : replaceContract s c =
          (s, invalidInput "contract generation must increase") := by
        simp only [replaceContract, hfind, if_pos hgen]
      rw [hkeep]
      exact Or.inl ⟨fun h => h c₀ hfind hgen, rfl, rfl⟩
    · have hput : replaceContract s c = ({ s with contracts :=
          (s.contracts.insert { c₀ with lifecycle := .superseded }).insert c }, ok) := by
        simp only [replaceContract, hfind, if_neg hgen]
      have hkey : c₀.id = c.id := KeyedTable.find_key hfind
      rw [hput]
      refine Or.inr ⟨fun c₁ h => ?_, rfl, KeyedTable.find_insert_self _ _, fun k hk => ?_⟩
      · rw [hfind] at h
        cases h
        exact hgen
      · -- the stored one is marked superseded under the same id, and overwritten
        rw [KeyedTable.find_insert_ne _ hk]
        exact KeyedTable.find_insert_ne _ (hkey ▸ hk)

/-- **What a step does to the contracts.** -/
inductive ContractStep [Pod R] [Double R] (s s' : State R) : Op R → Response R → Prop where
  | same {op : Op R} {r : Response R} (hs : s'.contracts = s.contracts)
      (hrefused : ∀ c now, op = .supersedeContract c now → ¬Fits s.contracts c)
      (hload : ∀ file, op = .load file → ∃ e, loadState R file = .error e) :
      ContractStep s s' op r
  | stored {op : Op R} {r : Response R} {c : SloContract R} (hop : offered op = some c)
      (hadmitted : op = .addContract c →
        c.objectives ≠ [] ∧ (objectivesAdmissible c.objectives).isOk = true)
      (hfits : Fits s.contracts c) (hs : Puts s.contracts s'.contracts c) : ContractStep s s' op r
  | changed {op : Op R} {id : SloContractId} {f : SloContract R → SloContract R}
      {c : SloContract R} (hop : op.lifecycle = some (id, f))
      (hc : s.contracts.find id = some c) (hs : Puts s.contracts s'.contracts (f c)) :
      ContractStep s s' op (.status ok)
  | loaded {file : Option Bytes} {r : Response R} {st : DurableState R}
      (hst : loadState R file = .ok st) (hs : s' = restart s st) :
      ContractStep s s' (.load file) r

section Step

variable [Pod R] [Double R]

/-- Every step but supersessions and loads can leave them alone. -/
theorem contracts_same {s s' : State R} {op : Op R} {r : Response R}
    (hsup : ∀ c now, op ≠ .supersedeContract c now) (hload : op.isLoad = false)
    (hs : s'.contracts = s.contracts) : ContractStep s s' op r := by
  refine .same hs (fun c now heq => absurd heq (hsup c now)) fun file heq => ?_
  rw [heq] at hload
  cases hload

theorem contracts_offered {s : State R} {op : Op R} {r : Response R} {c : SloContract R}
    (hop : offered op = some c)
    (hadmitted : op = .addContract c →
      c.objectives ≠ [] ∧ (objectivesAdmissible c.objectives).isOk = true) :
    ContractStep s (replaceContract s c).1 op r := by
  rcases replaceContract_cases s c with ⟨hno, h, _⟩ | ⟨hfits, _, h⟩
  · refine .same (by rw [h]) (fun c' now heq => ?_) fun file heq => ?_
    · rw [heq] at hop
      cases hop
      exact hno
    · rw [heq] at hop
      cases hop
  · exact .stored hop hadmitted hfits h

theorem contracts_lifecycle {s : State R} {op : Op R} {id : SloContractId}
    {f : SloContract R → SloContract R} (hop : op.lifecycle = some (id, f)) :
    ContractStep s (updateContract s id f).1 op (.status (updateContract s id f).2) := by
  unfold updateContract
  cases hc : s.contracts.find id with
  | none =>
    refine .same rfl (fun c now heq => ?_) fun file heq => ?_
    · rw [heq] at hop
      cases hop
    · rw [heq] at hop
      cases hop
  | some c => exact .changed hop hc (puts_insert _ _)

theorem contracts_cases [Platform R] {s s' : State R} {op : Op R} {r : Response R}
    (h : apply s op = some (s', r)) : ContractStep s s' op r := by
  cases frame_cases h with
  | policies h' | ingested h' | evaluated _ h' | authorized _ h' | saved h' =>
    exact contracts_same (fun _ _ heq => by cases heq) rfl (by rw [h'])
  | dispatched h' => exact contracts_same (fun _ _ heq => by cases heq) rfl (by rw [h']; rfl)
  | objectives hop h' =>
    cases op with
    | supersedeContract | load => cases hop
    | _ => exact contracts_same (fun _ _ heq => by cases heq) rfl (by rw [h'])
  | transition hx | completed hx =>
    cases hx
    exact contracts_same (fun _ _ heq => by cases heq) rfl rfl
  | failed he h' =>
    refine .same (by rw [h']) (fun c now heq => ?_) fun file' heq => ?_
    · cases heq
    · cases heq
      exact ⟨_, he⟩
  | loaded hst h' => exact .loaded hst h'
  | contracts hop h' =>
    cases op with
    | addContract contract =>
      cases h
      have hrefused {st : Status} : ContractStep s s (.addContract contract) (.status st) :=
        contracts_same (fun _ _ heq => by cases heq) rfl rfl
      unfold addContract
      by_cases hempty : contract.objectives.isEmpty = true
      · rw [if_pos hempty]
        exact hrefused
      · rw [if_neg hempty]
        by_cases hchecks : (!(objectivesAdmissible contract.objectives).isOk) = true
        · rw [if_pos hchecks]
          exact hrefused
        · rw [if_neg hchecks]
          refine contracts_offered rfl fun _ => ⟨?_, by simpa using hchecks⟩
          simpa using hempty
    | supersedeContract replacement now =>
      cases h
      refine contracts_offered rfl fun heq => ?_
      cases heq
    | activateContract id now => cases h; exact contracts_lifecycle rfl
    | suspendContract id now => cases h; exact contracts_lifecycle rfl
    | expireContract id now => cases h; exact contracts_lifecycle rfl
    | retireContract id now => cases h; exact contracts_lifecycle rfl
    | _ => cases hop

/-- **The contracts a step can store**: those there were, with another lifecycle and other times
    of validity, the one it offers, and those of a file. -/
theorem contracts_step [Platform R] {P : SloContract R → Prop} {s s' : State R} {op : Op R}
    {r : Response R} (h : apply s op = some (s', r)) (hs : ∀ c ∈ s.contracts.rows, P c)
    (hlife : ∀ c l start stop, P c →
      P { c with lifecycle := l, effectiveFrom := start, expiration := stop })
    (hoffer : ∀ c, offered op = some c → P c)
    (hload : ∀ file st, loadState R file = .ok st → ∀ c ∈ st.contracts, P c) :
    ∀ c ∈ s'.contracts.rows, P c := by
  cases contracts_cases h with
  | same h' => rwa [h']
  | stored hop _ _ hput => exact hput.rows hs (hoffer _ hop)
  | @changed _ id f c hop hc hput =>
    obtain ⟨l, start, stop, hf⟩ := lifecycle_frame hop c
    refine hput.rows hs ?_
    rw [hf]
    exact hlife c l start stop (hs c (KeyedTable.find_mem hc))
  | loaded hst h' =>
    rw [h']
    exact fun c hc => hload _ _ hst c (KeyedTable.mem_ofList hc)

end Step

end SloFabric
