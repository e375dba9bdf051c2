/-
  File:      SloFabric/Coherence.lean
  Subject:   That an explanation explains the decision it comes with.

  * `pressing_iff`: the states an intent is ranked for are those of a measured objective that is not
    Compliant;
  * `rankedFor`, `Explains`: the ranked intents and the secondary constraints are those of the
    objectives that press, in their order, and one intent is selected, that of the binding
    objective;
  * `explanation_coherent`: so they are in every explanation, and nothing else is done; where
    nothing presses, nothing is ranked and nothing is done.
-/
import SloFabric.Decision

namespace SloFabric

variable {R : Type} [Double R]

/-! ## 1. Verdicts -/

/-- The states an evaluation ranks an intent for. -/
def pressing (state : ComplianceState) : Bool :=
  [.violating, .recovering, .atRisk, .nearLimit].contains state

theorem pressing_stepState (o : Objective R) (m : R) (last : ComplianceState) :
    pressing (stepState o m last) = (stepState o m last != .compliant) := by
  unfold stepState
  cases classifyZone o m with
  | violation | compliant => rfl
  | near =>
    simp only
    split
    · rename_i h
      rcases h with rfl | rfl <;> rfl
    · rfl

/-- **A measured objective presses if it is not Compliant.** -/
theorem pressing_iff {t : Accumulators R} {o : Objective R} {now : Duration}
    (h : (verdict t o now).isMeasured = true) :
    pressing (verdict t o now) = (verdict t o now != .compliant) := by
  unfold verdict at h ⊢
  simp only at h ⊢
  split at h
  · unfold unmeasuredState at h
    split at h <;> cases h
  · rename_i hmeasured
    rw [if_neg hmeasured]
    unfold measuredState
    simp only
    split
    · rfl
    · exact pressing_stepState o _ _

/-! ## 2. Entries -/

section Entries

variable {t : Accumulators R} {now : Duration} {os : List (Objective R)}

/-- The entries are those of the objectives, in their order. -/
theorem entries_objs : (evaluateObjectives t now os).2.1.map (·.obj) = os := by
  refine List.ext_getElem? fun i => ?_
  rw [List.getElem?_map]
  cases ho : os[i]? with
  | none =>
    have hlen : (evaluateObjectives t now os).2.1.length ≤ i := by
      rw [evaluateObjectives_length]
      exact List.getElem?_eq_none_iff.mp ho
    rw [List.getElem?_eq_none hlen]
    rfl
  | some o =>
    obtain ⟨ev, hev, hobj, _⟩ := evaluateObjectives_getElem now os t i o ho
    rw [hev, Option.map_some, hobj]

/-- What an entry of the loop says. -/
theorem entry_says {e : ObjEval R} (he : e ∈ (evaluateObjectives t now os).2.1) :
    e.st.id = e.obj.id ∧ e.st.state = e.state ∧
      (e.state.isMeasured = true → pressing e.state = (e.state != .compliant)) := by
  obtain ⟨_, _, _, _, hstate, hid, hsaid⟩ := mem_evaluateObjectives he
  refine ⟨hid, hsaid.trans hstate.symm, fun hm => ?_⟩
  rw [hstate] at hm ⊢
  exact pressing_iff hm

end Entries

omit [Double R] in
/-- The entry of an objective that presses, among those that do. -/
theorem pressing_split {evals : List (ObjEval R)} {e : ObjEval R}
    (hsaid : ∀ x ∈ evals, pressing x.state = (x.state != .compliant))
    (hids : (evals.map (·.obj.id)).Nodup) (he : e ∈ evals) (hne : e.state ≠ .compliant) :
    ∃ f f', evals.filter (fun x => pressing x.state) = f ++ e :: f' ∧
      evals.filter (fun x => decide (x.state ≠ .compliant)) = f ++ e :: f' ∧
      evals.filter (fun x => decide (x.obj.id ≠ e.obj.id ∧ x.state ≠ .compliant)) = f ++ f' ∧
      ∀ x ∈ f ++ f', x.obj.id ≠ e.obj.id := by
  obtain ⟨g, g', rfl⟩ := List.append_of_mem he
  have hother : ∀ x ∈ g ++ g', x.obj.id ≠ e.obj.id := by
    rw [List.map_append, List.map_cons, List.nodup_middle, List.nodup_cons, ← List.map_append]
      at hids
    exact fun x hx heq => hids.1 (heq ▸ List.mem_map_of_mem hx)
  have hsame {l : List (ObjEval R)} (hl : ∀ x ∈ l, x ∈ g ++ e :: g') :
      l.filter (fun x => pressing x.state) =
        l.filter fun x => decide (x.state ≠ .compliant) := by
    refine List.filter_congr fun x hx => ?_
    rw [hsaid x (hl x hx)]
    cases x.state <;> rfl
  have hrest {l : List (ObjEval R)} (hl : ∀ x ∈ l, x ∈ g ++ g') :
      l.filter (fun x => decide (x.obj.id ≠ e.obj.id ∧ x.state ≠ .compliant)) =
        l.filter fun x => decide (x.state ≠ .compliant) :=
    List.filter_congr fun x hx => by simp [hother x (hl x hx)]
  have hmiddle : (g ++ e :: g').filter (fun x => decide (x.state ≠ .compliant)) =
      g.filter (fun x => decide (x.state ≠ .compliant)) ++
        e :: g'.filter fun x => decide (x.state ≠ .compliant) := by
    rw [List.filter_append, List.filter_cons_of_pos (by simpa using hne)]
  refine ⟨_, _, (hsame fun _ hx => hx).trans hmiddle, hmiddle, ?_, fun x hx => ?_⟩
  · rw [List.filter_append, List.filter_cons_of_neg (by simp),
      hrest fun x hx => List.mem_append_left _ hx, hrest fun x hx => List.mem_append_right _ hx]
  · rw [← List.filter_append] at hx
    exact hother x (List.mem_of_mem_filter hx)

/-! ## 3. Explanations -/

/-- The intent ranked for an objective in a state. -/
def rankedFor (x : Objective R × ComplianceState) (selected : Bool) : RankedIntent :=
  { action := actionFor x.1 x.2, selected := selected
    rationale := x.1.name ++ Codec.ascii ": " ++ Codec.ascii (severityReason x.2) }

/-- The objectives of a contract are explained by one ranked intent for each of them that is not
    Compliant, the one of the binding objective selected, and by the others as secondary
    constraints. -/
structure Explains (os : List (Objective R)) (ex : Explanation R) (r : RankedIntent) : Prop where
  objectives : ex.objectives.map (·.id) = os.map (·.id)
  entries : ∃ (before after : List (Objective R × ComplianceState))
      (b : Objective R × ComplianceState),
    ((os.zip (ex.objectives.map (·.state))).filter fun x => decide (x.2 ≠ .compliant)) =
        before ++ b :: after ∧
      ex.bindingObjective = b.1.id ∧ ex.secondaryConstraints = (before ++ after).map (·.1.id) ∧
      ex.rankedIntents =
        before.map (rankedFor · false) ++ r :: after.map (rankedFor · false) ∧
      r = rankedFor b true

omit [Double R] in
theorem explains_of_entries {c : SloContract R} {policy : SloPolicy} {intent : EnforcementIntent}
    {evals : List (ObjEval R)} {e : ObjEval R}
    (hsaid : ∀ x ∈ evals, x.st.id = x.obj.id ∧ x.st.state = x.state ∧
      pressing x.state = (x.state != .compliant))
    (hids : (evals.map (·.obj.id)).Nodup) (he : e ∈ evals) (hne : e.state ≠ .compliant) :
    ∃ r, Explains (evals.map (·.obj)) (explanationOf c policy intent evals e.state (some e.obj)) r ∧
      r.action = actionFor e.obj e.state := by
  obtain ⟨f, f', hranked, hpresses, hothers, hids'⟩ :=
    pressing_split (fun x hx => (hsaid x hx).2.2) hids he hne
  let pair (x : ObjEval R) : Objective R × ComplianceState := (x.obj, x.state)
  let rank (x : ObjEval R) : RankedIntent := rankedFor (pair x) (decide (x.obj.id = e.obj.id))
  have hself : rank e = rankedFor (pair e) true :=
    congrArg (rankedFor (pair e)) (decide_eq_true rfl)
  have hrank {g : List (ObjEval R)} (hg : ∀ x ∈ g, x.obj.id ≠ e.obj.id) :
      g.map rank = (g.map pair).map (rankedFor · false) := by
    rw [List.map_map]
    exact List.map_congr_left fun x hx =>
      congrArg (rankedFor (pair x)) (decide_eq_false (hg x hx))
  refine ⟨rank e, ⟨?_, f.map pair, f'.map pair, pair e, ?_, rfl, ?_, ?_, hself⟩, rfl⟩
  · show (evals.map (·.st)).map (·.id) = _
    rw [List.map_map, List.map_map]
    exact List.map_congr_left fun x hx => (hsaid x hx).1
  · show List.filter _ ((evals.map (·.obj)).zip ((evals.map (·.st)).map (·.state))) = _
    have hstates : (evals.map (·.st)).map (·.state) = evals.map (·.state) := by
      rw [List.map_map]
      exact List.map_congr_left fun x hx => (hsaid x hx).2.1
    rw [hstates, List.zip_map', List.filter_map, ← List.map_cons, ← List.map_append, ← hpresses]
    rfl
  · show List.map _ (List.filter _ evals) = _
    rw [← List.map_append, List.map_map, ← hothers]
    rfl
  · show List.map _ (List.filter _ evals) = _
    rw [← hrank fun x hx => hids' x (List.mem_append_left _ hx),
      ← hrank fun x hx => hids' x (List.mem_append_right _ hx), ← List.map_cons,
      ← List.map_append, ← hranked]
    rfl

section Decisions

variable {s s' : State R} {service : ServiceId} {workload : WorkloadId} {now : Duration}
  {res : EvaluationResult R} {c : SloContract R}

omit [Double R] in
theorem selectAction_cases (t : Accumulators R) (o : Objective R) (overall : ComplianceState)
    (now : Duration) : selectAction t o overall now = .noAction ∨
      selectAction t o overall now = actionFor o overall := by
  unfold selectAction
  split
  · exact Or.inl rfl
  · split
    · exact Or.inl rfl
    · exact Or.inr rfl

/-- **An explanation explains its decision.** Where its objectives have different ids, and a
    contract is measured and not Compliant, the explanation explains it, and the action is that of
    its selected intent, or none. A contract that is Compliant, or not measured, is explained
    without intents and constraints, and nothing is done. -/
theorem explanation_coherent [Platform R] (h : evaluate s service workload now = some (s', .ok res))
    (hc : selectContract s.contracts service workload now = some c)
    (hids : (c.objectives.map (·.id)).Nodup) :
    res.explanation.selectedAction = res.intent.action ∧
      if res.explanation.compliance.isMeasured ∧ res.explanation.compliance ≠ .compliant then
        ∃ r, Explains c.objectives res.explanation r ∧
          (res.intent.action = .noAction ∨ res.intent.action = r.action)
      else
        res.explanation.rankedIntents = [] ∧ res.explanation.secondaryConstraints = [] ∧
          res.intent.action = .noAction := by
  rcases evaluate_cases h with
    ⟨_, hst, _⟩ | ⟨c', policy, overall, binding, _, hc', _, _, hov, hr, _⟩
  · cases hst
  rw [hc] at hc'
  cases hc'
  have hsaid : ∀ x ∈ (evaluateObjectives s.accumulators now c.objectives).2.1,
      x.st.id = x.obj.id ∧ x.st.state = x.state ∧
        (x.state.isMeasured = true → pressing x.state = (x.state != .compliant)) :=
    fun _ hx => entry_says hx
  have hobjs : (evaluateObjectives s.accumulators now c.objectives).2.1.map (·.obj) =
      c.objectives := entries_objs
  have hids' : ((evaluateObjectives s.accumulators now c.objectives).2.1.map (·.obj.id)).Nodup := by
    rw [← hobjs, List.map_map] at hids
    exact hids
  rw [Except.ok.injEq] at hr
  generalize (evaluateObjectives s.accumulators now c.objectives).2.1 = evals at *
  clear h
  subst hr
  refine ⟨rfl, ?_⟩
  rcases overallOf_cases hov with ⟨rfl, rfl⟩ | ⟨rfl, rfl⟩ | ⟨e, he, rfl, rfl, hm, hall⟩
  · exact ⟨rfl, rfl, rfl⟩
  · exact ⟨rfl, rfl, rfl⟩
  · show if e.state.isMeasured = true ∧ e.state ≠ .compliant then _ else _
    by_cases hne : e.state = .compliant
    · rw [if_neg fun h => h.2 hne]
      have hnone := hall hne
      refine ⟨?_, ?_, ?_⟩
      · show List.map _ (List.filter _ evals) = []
        rw [List.filter_eq_nil_iff.mpr fun x hx => by rw [hnone x hx]; decide]
        rfl
      · show List.map _ (List.filter _ evals) = []
        rw [List.filter_eq_nil_iff.mpr fun x hx => by simp [hnone x hx]]
        rfl
      · show selectAction _ _ _ _ = _
        rcases selectAction_cases (accumulatorsAfter s.accumulators now c.objectives) e.obj e.state
          now with h | h
        · exact h
        · rw [h, hne]
          rfl
    · rw [if_pos ⟨hm e he, hne⟩]
      obtain ⟨r, hexplains, haction⟩ := explains_of_entries
        (fun x hx => ⟨(hsaid x hx).1, (hsaid x hx).2.1, (hsaid x hx).2.2 (hm x hx)⟩) hids' he hne
      rw [hobjs] at hexplains
      refine ⟨r, hexplains, ?_⟩
      rw [haction]
      exact selectAction_cases _ e.obj e.state now

end Decisions

/-- Of two latencies of at most 100 ms one is violated and one is near its limit. -/
def twoPressing : List (Op Binary64) :=
  [.setPolicy smallPolicy,
    .addContract (smallContract 1 1 1 [smallObjective 2 1, smallObjective 1 1]),
    .ingest (smallEvidence 1 1 200000000) 0, .ingest (smallEvidence 2 2 97000000) 0]

theorem explanation_coherent_small :
    ∃ s' res r, evaluate (after twoPressing) ⟨1⟩ ⟨1⟩ 0 = some (s', .ok res) ∧
      res.explanation.compliance = .violating ∧ res.explanation.secondaryConstraints = [⟨2⟩] ∧
      res.intent.action = .increaseCapacity ∧
      Explains [smallObjective 2 1, smallObjective 1 1] res.explanation r ∧
      r.action = .increaseCapacity := by
  have htest : (reported (evaluate (after twoPressing) ⟨1⟩ ⟨1⟩ 0)).any (fun x =>
      decide (x.2.explanation.compliance = .violating) &&
        decide (x.2.explanation.secondaryConstraints = [⟨2⟩]) &&
        decide (x.2.intent.action = .increaseCapacity)) = true := by
    decide +kernel
  have hsel : selectContract (after twoPressing).contracts ⟨1⟩ ⟨1⟩ 0 =
      some (smallContract 1 1 1 [smallObjective 2 1, smallObjective 1 1]) := by
    decide +kernel
  obtain ⟨s', res, heval, hres⟩ := of_reported htest
  simp only [Bool.and_eq_true, decide_eq_true_eq] at hres
  obtain ⟨⟨hstate, hsecond⟩, haction⟩ := hres
  obtain ⟨_, hex⟩ := explanation_coherent heval hsel (by decide)
  rw [if_pos (by rw [hstate]; decide), haction] at hex
  obtain ⟨r, hexplains, hr⟩ := hex
  exact ⟨s', res, r, heval, hstate, hsecond, haction, hexplains,
    (hr.resolve_left (by decide)).symm⟩

end SloFabric
