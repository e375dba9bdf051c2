/-
  File:      SloFabric/Order.lean
  Subject:   The order of a contract's objectives does not matter, on exact magnitudes.

  * `moreSevere_exact`: on exact magnitudes the comparison of verdicts is that of their keys, and
    the name makes the key total;
  * `overallOf_perm`: so the overall verdict of distinctly named objectives is that of any
    permutation of them, up to which one stands for a Compliant whole;
  * `selectContract_reordered`: the reordered contract is picked where the other one was;
  * `objective_order`: the evaluations of the two.
-/
import SloFabric.Turns
import SloFabric.Binding
import SloFabric.Exact

namespace SloFabric

variable {R : Type}

/-! ## 1. The overall verdict -/

/-- The keys of exact magnitudes. -/
abbrev exactKey : ObjEval ℚ → ℕ ×ₗ ℚ ×ₗ ℤ ×ₗ List ℕ := keyBy fun e => -e.magnitude

theorem moreSevere_exact (a b : ObjEval ℚ) : moreSevere a b = true ↔ exactKey a < exactKey b := by
  refine moreSevere_keyBy ?_ ?_
  · simp [Double.eq]
  · simp [Double.lt]

/-- The key ends in the name. -/
theorem name_of_exactKey {a b : ObjEval ℚ} (h : exactKey a = exactKey b) :
    a.obj.name = b.obj.name := by
  have hnames : a.obj.name.map UInt8.toNat = b.obj.name.map UInt8.toNat :=
    congrArg (fun k => (ofLex (ofLex (ofLex k).2).2).2) h
  exact List.map_injective_iff.mpr (fun _ _ => UInt8.toNat_inj.mp) hnames

/-- Where everything is Compliant, the first objective stands for the whole. -/
theorem overallOf_compliant [Double R] [Platform R] {e : ObjEval R} {evals : List (ObjEval R)}
    (hall : ∀ x ∈ e :: evals, x.state = .compliant) :
    overallOf (e :: evals) = some (.compliant, some e.obj) := by
  have hrev : (e :: evals).any (·.state == .revalidationRequired) = false :=
    List.any_eq_false.mpr fun x hx => by rw [hall x hx]; decide
  have hins : (e :: evals).any (·.state == .insufficientEvidence) = false :=
    List.any_eq_false.mpr fun x hx => by rw [hall x hx]; decide
  have hnone : (e :: evals).filter (·.state != .compliant) = [] :=
    List.filter_eq_nil_iff.mpr fun x hx => by rw [hall x hx]; decide
  have he : e.state = .compliant := hall e List.mem_cons_self
  unfold overallOf
  rw [hrev, hins, hnone]
  simp [he]

/-- **The overall verdict does not depend on the order**: it is the same, with the same binding
    objective, or everything is Compliant. -/
theorem overallOf_perm [Platform ℚ] {evals evals' : List (ObjEval ℚ)}
    (hperm : evals'.Perm evals) (hnames : (evals.map (·.obj.name)).Nodup) :
    overallOf evals' = overallOf evals ∨
      nonCompliant evals = [] ∧ ∃ b b', overallOf evals = some (.compliant, some b) ∧
        overallOf evals' = some (.compliant, some b') := by
  have hsame (p : ObjEval ℚ → Bool) : evals'.any p = evals.any p :=
    Bool.eq_iff_iff.mpr (by simp [List.any_eq_true, hperm.mem_iff])
  have hnon : (nonCompliant evals').Perm (nonCompliant evals) := hperm.filter _
  by_cases hrev : evals.any (·.state == .revalidationRequired) = true
  · have hrev' := (hsame _).trans hrev
    exact Or.inl (by rw [overallOf, overallOf, if_pos hrev, if_pos hrev'])
  by_cases hins : evals.any (·.state == .insufficientEvidence) = true
  · have hrev' : ¬evals'.any (·.state == .revalidationRequired) = true := by rwa [hsame]
    have hins' := (hsame _).trans hins
    exact Or.inl (by
      rw [overallOf, overallOf, if_neg hrev, if_neg hrev', if_pos hins, if_pos hins'])
  have hm := all_measured hrev hins
  have hm' : ∀ e ∈ evals', e.state.isMeasured = true := fun e he => hm e (hperm.mem_iff.mp he)
  by_cases hne : nonCompliant evals = []
  · have hall : ∀ x ∈ evals, x.state = .compliant := by
      simpa [nonCompliant, List.filter_eq_nil_iff] using hne
    have hall' : ∀ x ∈ evals', x.state = .compliant := fun x hx => hall x (hperm.mem_iff.mp hx)
    cases evals with
    | nil =>
      rw [hperm.eq_nil]
      exact Or.inl rfl
    | cons e evals =>
      cases evals' with
      | nil => exact absurd hperm.symm.eq_nil (List.cons_ne_nil e evals)
      | cons e' evals' =>
        exact Or.inr ⟨hne, _, _, overallOf_compliant hall, overallOf_compliant hall'⟩
  · have hne' : nonCompliant evals' ≠ [] := fun h => hne (List.perm_nil.mp (h ▸ hnon.symm))
    obtain ⟨e, hmem, hfirst, hov⟩ := overallOf_first hm
      (fun a _ b _ => moreSevere_exact a b) hne
    obtain ⟨e', hmem', hfirst', hov'⟩ := overallOf_first hm'
      (fun a _ b _ => moreSevere_exact a b) hne'
    have hmem' := hnon.mem_iff.mp hmem'
    -- both have the least key, and only one verdict has it
    have hkey : exactKey e = exactKey e' :=
      le_antisymm (hfirst e' hmem') (hfirst' e (hnon.mem_iff.mpr hmem))
    have heq : e = e' := List.inj_on_of_nodup_map hnames (List.mem_filter.mp hmem).1
      (List.mem_filter.mp hmem').1 (name_of_exactKey hkey)
    exact Or.inl (by rw [hov, hov', heq])

/-! ## 2. The reordered contract -/

/-- The state with the objectives of contract `c` listed as in `os`. -/
def withObjectives (s : State R) (c : SloContract R) (os : List (Objective R)) : State R :=
  { s with contracts := s.contracts.insert { c with objectives := os } }

/-- A change that a test does not see may be made before it. -/
theorem filter_map_of {α : Type} {p : α → Bool} {f : α → α} {l : List α}
    (h : ∀ x ∈ l, p (f x) = p x) : (l.map f).filter p = (l.filter p).map f := by
  rw [List.filter_map]
  exact congrArg (List.map f) (List.filter_congr h)

/-- The contract that is picked for a scope, replaced by one that differs in nothing the scan looks
    at. -/
theorem selectContract_replaced {cs : Contracts R} {c c' : SloContract R} {service : ServiceId}
    {workload : WorkloadId} {now : Duration} (hc : selectContract cs service workload now = some c)
    (hid : c'.id = c.id) (hgen : c'.gen = c.gen) (hservice : c'.service = c.service)
    (hworkload : c'.workload = c.workload) (hcan : c'.canAuthorize now = c.canAuthorize now) :
    selectContract (cs.insert c') service workload now = some c' := by
  have hrow : c ∈ cs.rows := (List.mem_filter.mp (newest_some hc).1).1
  have hrows := KeyedTable.rows_replace (KeyedTable.mem_rows.mp hrow) hid
  have honly : ∀ x ∈ cs.rows, x.id = c'.id → x = c := fun x hx h =>
    cs.key_inj hx hrow (h.trans hid)
  unfold selectContract at *
  rw [hrows, filter_map_of fun x hx => ?_, newest_map _ fun x hx => ?_, hc, Option.map_some,
    if_pos hid.symm]
  · split
    · rename_i h
      rw [honly x (List.mem_filter.mp hx).1 h, hgen]
    · rfl
  · split
    · rename_i h
      rw [honly x hx h, hservice, hworkload, hcan]
    · rfl

theorem selectContract_reordered {s : State R} {c : SloContract R} {service : ServiceId}
    {workload : WorkloadId} {now : Duration}
    (hc : selectContract s.contracts service workload now = some c) (os : List (Objective R)) :
    selectContract (withObjectives s c os).contracts service workload now =
      some { c with objectives := os } :=
  selectContract_replaced hc rfl rfl rfl rfl rfl

/-! ## 3. The two evaluations -/

/-- **What an evaluation says, whatever the order of the objectives**: the overall compliance, the
    selected action, the states of the objectives; and, where one of these was measured and is not
    Compliant, the binding objective and the secondary constraints, together all that are not
    Compliant. -/
structure SameVerdicts (res res' : EvaluationResult R) : Prop where
  compliance : res'.explanation.compliance = res.explanation.compliance
  action : res'.intent.action = res.intent.action
  selected : res'.explanation.selectedAction = res.explanation.selectedAction
  objectives : res'.explanation.objectives.Perm res.explanation.objectives
  binding : (∃ st ∈ res.explanation.objectives, st.state ≠ .compliant) →
    (∀ st ∈ res.explanation.objectives, st.state.isMeasured = true) →
    res'.explanation.bindingObjective = res.explanation.bindingObjective ∧
    res'.explanation.secondaryConstraints.Perm res.explanation.secondaryConstraints ∧
    (res.explanation.bindingObjective :: res.explanation.secondaryConstraints).Perm
      ((res.explanation.objectives.filter (·.state != .compliant)).map (·.id))

/-- Of distinct keys, one and the others are all of them. -/
theorem perm_one_and_others {α K : Type} [DecidableEq K] {key : α → K} {l : List α} {x : α}
    (hn : (l.map key).Nodup) (hx : x ∈ l) :
    (key x :: (l.filter fun y => key y ≠ key x).map key).Perm (l.map key) := by
  have hothers : (l.filter fun y => key y ≠ key x).map key = (l.map key).erase (key x) := by
    rw [hn.erase_eq_filter, List.filter_map]
    refine congrArg (List.map key) (List.filter_congr fun y _ => ?_)
    by_cases h : key y = key x
    · simp [h]
    · simp [h]
  rw [hothers]
  exact (List.perm_cons_erase (List.mem_map_of_mem hx)).symm

/-- Of the state, an intent names the epoch only. -/
theorem intentOf_epoch {s s' : State R} (h : s'.epoch = s.epoch) (t : Accumulators R)
    (c : SloContract R) (policy : SloPolicy) (service : ServiceId) (workload : WorkloadId)
    (now : Duration) (number : UInt64) (overall : ComplianceState)
    (binding : Option (Objective R)) :
    intentOf s' t c policy service workload now number overall binding =
      intentOf s t c policy service workload now number overall binding := by
  unfold intentOf
  rw [h]

section Evaluation

variable {s : State ℚ} {c : SloContract ℚ} {os : List (Objective ℚ)} {now : Duration}

/-- The verdicts of the reordered contract are those of the contract, reordered. -/
theorem evaluateObjectives_perm (t : Accumulators ℚ) (now : Duration)
    (hperm : os.Perm c.objectives) (hids : (c.objectives.map (·.id)).Nodup) :
    (evaluateObjectives t now os).2.1.Perm (evaluateObjectives t now c.objectives).2.1 := by
  have hids' : (os.map (·.id)).Nodup := (hperm.map _).nodup_iff.mpr hids
  rw [evaluateObjectives_map now os t hids', evaluateObjectives_map now c.objectives t hids]
  exact hperm.map _

/-- The same action is selected for the same objective. -/
theorem selectAction_perm (t : Accumulators ℚ) (hperm : os.Perm c.objectives)
    (hids : (c.objectives.map (·.id)).Nodup) {bobj : Objective ℚ} (hb : bobj ∈ c.objectives)
    (overall : ComplianceState) :
    selectAction (accumulatorsAfter t now os) bobj overall now =
      selectAction (accumulatorsAfter t now c.objectives) bobj overall now := by
  have hids' : (os.map (·.id)).Nodup := (hperm.map _).nodup_iff.mpr hids
  rw [selectAction, cooldownOf, accumulatorsAfter_judged now os t hids' (hperm.mem_iff.mpr hb),
    selectAction, cooldownOf, accumulatorsAfter_judged now c.objectives t hids hb]

/-- The verdicts report the objectives of the contract. -/
theorem evaluateObjectives_reports (t : Accumulators ℚ) (now : Duration)
    (objs : List (Objective ℚ)) : ∀ e ∈ (evaluateObjectives t now objs).2.1,
    e.st.id = e.obj.id ∧ e.st.state = e.state ∧ e.obj ∈ objs := by
  intro e he
  obtain ⟨i, _, hobj, hrep⟩ := mem_evaluateObjectives he
  exact ⟨hrep.2.2.1, hrep.2.2.2.trans hrep.2.1.symm, List.mem_of_getElem? hobj⟩

/-- Over distinct ids or names the verdicts have distinct ones. -/
theorem evaluateObjectives_keys {K : Type} (key : Objective ℚ → K) (t : Accumulators ℚ)
    (now : Duration) {objs : List (Objective ℚ)} (hids : (objs.map (·.id)).Nodup)
    (hkeys : (objs.map key).Nodup) :
    ((evaluateObjectives t now objs).2.1.map fun e => key e.obj).Nodup := by
  rw [evaluateObjectives_map now objs t hids, List.map_map]
  have hobj : (fun e : ObjEval ℚ => key e.obj) ∘ (fun o => (evaluateObjective t o now).2.1) =
      key := funext fun o => congrArg key (evaluateObjective_spec t o now).2.1
  rwa [hobj]

/-- **The binding objective and the secondary constraints are all that is not Compliant.** -/
theorem binding_and_secondary {evals : List (ObjEval ℚ)} {e : ObjEval ℚ}
    (hreports : ∀ x ∈ evals, x.st.id = x.obj.id ∧ x.st.state = x.state)
    (hids : (evals.map (·.obj.id)).Nodup) (he : e ∈ nonCompliant evals) :
    (e.obj.id :: (evals.filter fun x => x.obj.id ≠ e.obj.id ∧ x.state ≠ .compliant).map
        (·.obj.id)).Perm
      (((evals.map (·.st)).filter (·.state != .compliant)).map (·.id)) := by
  have hnon : (evals.map (·.st)).filter (·.state != .compliant) =
      (nonCompliant evals).map (·.st) := by
    rw [List.filter_map]
    refine congrArg (List.map _) (List.filter_congr fun x hx => ?_)
    simp [(hreports x hx).2]
  have hidsof : ((nonCompliant evals).map (·.st)).map (·.id) =
      (nonCompliant evals).map (·.obj.id) := by
    rw [List.map_map]
    exact List.map_congr_left fun x hx => (hreports x (List.mem_filter.mp hx).1).1
  have hothers : (evals.filter fun x => x.obj.id ≠ e.obj.id ∧ x.state ≠ .compliant) =
      (nonCompliant evals).filter fun x => x.obj.id ≠ e.obj.id := by
    rw [nonCompliant, List.filter_filter]
    refine List.filter_congr fun x _ => ?_
    by_cases h : x.state = .compliant
    · simp [h]
    · simp [h]
  have hnodup : ((nonCompliant evals).map (·.obj.id)).Nodup :=
    hids.sublist ((List.filter_sublist).map _)
  rw [hnon, hidsof, hothers]
  exact perm_one_and_others hnodup he

/-- The outcomes of the two evaluations, where both have the same overall verdict. -/
theorem outcomeOf_perm {policy : SloPolicy} {service : ServiceId} {workload : WorkloadId}
    {overall : ComplianceState} {binding binding' : Option (Objective ℚ)}
    (hperm : os.Perm c.objectives) (hids : (c.objectives.map (·.id)).Nodup)
    (haction : (intentOf s (accumulatorsAfter s.accumulators now os) { c with objectives := os }
        policy service workload now (s.evaluationCounter + 1) overall binding').action =
      (intentOf s (accumulatorsAfter s.accumulators now c.objectives) c policy service workload now
        (s.evaluationCounter + 1) overall binding).action)
    (hbinding : (∃ e ∈ (evaluateObjectives s.accumulators now c.objectives).2.1,
        e.state ≠ .compliant) →
      (∀ e ∈ (evaluateObjectives s.accumulators now c.objectives).2.1,
        e.state.isMeasured = true) →
      binding' = binding ∧ ∃ e ∈ nonCompliant (evaluateObjectives s.accumulators now
        c.objectives).2.1, binding = some e.obj) :
    SameVerdicts (outcomeOf s c policy service workload now overall binding).1
      (outcomeOf (withObjectives s c os) { c with objectives := os } policy service workload now
        overall binding').1 := by
  have hevals := evaluateObjectives_perm s.accumulators now hperm hids
  have hreports := evaluateObjectives_reports s.accumulators now c.objectives
  have htable : (withObjectives s c os).accumulators = s.accumulators := rfl
  have hnumber : (withObjectives s c os).evaluationCounter = s.evaluationCounter := rfl
  have hepoch : (withObjectives s c os).epoch = s.epoch := rfl
  unfold outcomeOf
  simp only [htable, hnumber]
  rw [intentOf_epoch hepoch]
  refine ⟨rfl, haction, haction, hevals.map _, ?_⟩
  rintro ⟨st, hst, hne⟩ hm
  obtain ⟨x, hx, rfl⟩ := List.mem_map.mp hst
  have hsome : ∃ e ∈ (evaluateObjectives s.accumulators now c.objectives).2.1,
      e.state ≠ .compliant := ⟨x, hx, by rwa [← (hreports x hx).2.1]⟩
  have hall : ∀ e ∈ (evaluateObjectives s.accumulators now c.objectives).2.1,
      e.state.isMeasured = true := fun e he => by
    rw [← (hreports e he).2.1]
    exact hm _ (List.mem_map_of_mem he)
  obtain ⟨rfl, e, he, rfl⟩ := hbinding hsome hall
  exact ⟨rfl, (hevals.filter _).map _, binding_and_secondary
    (fun y hy => ⟨(hreports y hy).1, (hreports y hy).2.1⟩)
    (evaluateObjectives_keys _ _ now hids hids) he⟩

/-- An action is only selected for what is not Compliant. -/
theorem intentOf_compliant (s : State ℚ) (t : Accumulators ℚ) (c : SloContract ℚ)
    (policy : SloPolicy) (service : ServiceId) (workload : WorkloadId) (now : Duration)
    (number : UInt64) (bobj : Objective ℚ) :
    (intentOf s t c policy service workload now number .compliant (some bobj)).action =
      .noAction := by
  by_contra h
  obtain ⟨_, _, hne, _⟩ := selectAction_ne_noAction h
  exact hne rfl

/-- **The order of the objectives does not matter.** In every state, for every scope and the
    contract picked for it, its objectives of distinct ids and distinct names: with the objectives
    listed in another order the evaluation is defined, or complains, just as before, and otherwise
    says the same. -/
theorem objective_order [Platform ℚ] {service : ServiceId} {workload : WorkloadId}
    (hc : selectContract s.contracts service workload now = some c)
    (hperm : os.Perm c.objectives) (hids : (c.objectives.map (·.id)).Nodup)
    (hnames : (c.objectives.map (·.name)).Nodup) :
    (evaluate s service workload now = none ∧
      evaluate (withObjectives s c os) service workload now = none) ∨
    (∃ st, evaluate s service workload now = some (s, .error st) ∧
      evaluate (withObjectives s c os) service workload now =
        some (withObjectives s c os, .error st)) ∨
    ∃ s₁ res s₁' res', evaluate s service workload now = some (s₁, .ok res) ∧
      evaluate (withObjectives s c os) service workload now = some (s₁', .ok res') ∧
      SameVerdicts res res' := by
  have hc' := selectContract_reordered hc os
  cases hp : (s.policies.find c.policyId).filter (·.gen = c.policyGen) with
  | none =>
    refine Or.inr (Or.inl ⟨policySuperseded "policy generation does not match contract", ?_, ?_⟩)
    · simp only [evaluate, hc, hp]
    · have hp' : ((withObjectives s c os).policies.find c.policyId).filter
          (·.gen = c.policyGen) = none := hp
      simp only [evaluate, hc', hp']
  | some policy =>
    have hevals := evaluateObjectives_perm s.accumulators now hperm hids
    have hone := evaluate_eq s hc hp
    have htwo : evaluate (withObjectives s c os) service workload now =
        (overallOf (evaluateObjectives s.accumulators now os).2.1).map _ :=
      evaluate_eq (withObjectives s c os) hc' hp
    rcases overallOf_perm hevals (evaluateObjectives_keys _ _ now hids hnames) with
      hsame | ⟨hnone, b, b', hov, hov'⟩
    · cases hov : overallOf (evaluateObjectives s.accumulators now c.objectives).2.1 with
      | none =>
        rw [hov] at hone hsame
        rw [hsame] at htwo
        exact Or.inl ⟨hone, htwo⟩
      | some x =>
        obtain ⟨overall, binding⟩ := x
        rw [hov] at hone hsame
        rw [hsame] at htwo
        refine Or.inr (Or.inr ⟨_, _, _, _, hone, htwo, outcomeOf_perm hperm hids ?_ ?_⟩)
        · cases binding with
          | none => rfl
          | some bobj =>
            exact selectAction_perm s.accumulators hperm hids
              (binding_mem _ now c.objectives overall bobj hov) overall
        · rintro ⟨x, hx, hne⟩ hm
          have hmem : x ∈ nonCompliant (evaluateObjectives s.accumulators now c.objectives).2.1 :=
            List.mem_filter.mpr ⟨hx, by simpa using hne⟩
          obtain ⟨e, hlead, he⟩ := overallOf_leads hm (List.ne_nil_of_mem hmem)
          rw [hov] at he
          cases he
          exact ⟨rfl, e, hlead.1, rfl⟩
    · rw [hov] at hone
      rw [hov'] at htwo
      refine Or.inr (Or.inr ⟨_, _, _, _, hone, htwo, outcomeOf_perm hperm hids ?_ ?_⟩)
      · exact (intentOf_compliant _ _ _ _ _ _ _ _ b').trans
          (intentOf_compliant _ _ _ _ _ _ _ _ b).symm
      · rintro ⟨x, hx, hne⟩ _
        exact absurd (List.mem_filter.mpr ⟨hx, by simpa using hne⟩)
          (List.eq_nil_iff_forall_not_mem.mp hnone x)

end Evaluation

/-! ## 4. Two objectives -/

/-- A latency of at most 100 ms. -/
def exactObjective (id : UInt64) (name : Bytes) : Objective ℚ where
  id := ⟨id⟩
  gen := ⟨1⟩
  name := name
  target := .duration 100000000
  freshnessTtl := 1000000000
  allowedUncertainty := 0
  percentileRank := 99 / 100

def exactContract : SloContract ℚ where
  id := ⟨1⟩
  gen := ⟨1⟩
  service := ⟨1⟩
  workload := ⟨1⟩
  objectives := [exactObjective 1 [97], exactObjective 2 [98]]
  policyId := ⟨1⟩
  policyGen := ⟨1⟩
  lifecycle := .active

/-- A fabric with the contract, one objective near its limit and the other violated. -/
def exactFabric : State ℚ :=
  let s := (setPolicy (State.fresh ℚ) smallPolicy).1
  let s := (addContract s exactContract).1
  let s := (ingest s { id := ⟨1⟩, objectiveId := ⟨1⟩, value := .duration 97000000 } 0).1
  (ingest s { id := ⟨2⟩, objectiveId := ⟨2⟩, value := .duration 200000000 } 0).1

theorem objective_order_small :
    ∃ s₁ res s₁' res', evaluate exactFabric ⟨1⟩ ⟨1⟩ 0 = some (s₁, .ok res) ∧
      evaluate (withObjectives exactFabric exactContract
        [exactObjective 2 [98], exactObjective 1 [97]]) ⟨1⟩ ⟨1⟩ 0 = some (s₁', .ok res') ∧
      res.explanation.bindingObjective = ⟨2⟩ ∧ SameVerdicts res res' := by
  have hc : selectContract exactFabric.contracts ⟨1⟩ ⟨1⟩ 0 = some exactContract := by
    decide +kernel
  have hbinds : ((evaluate exactFabric ⟨1⟩ ⟨1⟩ 0).bind fun x =>
      x.2.toOption.map (·.explanation.bindingObjective)) = some ⟨2⟩ := by
    decide +kernel
  have hperm : [exactObjective 2 [98], exactObjective 1 [97]].Perm exactContract.objectives :=
    List.Perm.swap _ _ _
  rcases objective_order hc hperm (by decide) (by decide) with
    ⟨hnone, _⟩ | ⟨st, herr, _⟩ | ⟨s₁, res, s₁', res', hone, htwo, hsame⟩
  · rw [hnone] at hbinds
    cases hbinds
  · rw [herr] at hbinds
    cases hbinds
  · rw [hone] at hbinds
    exact ⟨s₁, res, s₁', res', hone, htwo, Option.some.inj hbinds, hsame⟩

end SloFabric
