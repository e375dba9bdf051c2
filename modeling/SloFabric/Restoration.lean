/-
  File:      SloFabric/Restoration.lean
  Subject:   A violation ends with evidence, and with nothing else.

  * `SameHoldings`: accumulators with the same evidence; `acquire_after`: what a step without
    evidence for an objective leaves of its accumulator;
  * `Condemned`: what is in the stores is in breach, whenever it is judged;
  * `condemned_step`: only evidence that is accepted ends that;
  * `restored_by_evidence`: between a Violating verdict and a Compliant one there is evidence.

  The recovery time of an objective is measured from events, not from evidence, and goes on while
  nothing happens; it is left out here.
-/
import SloFabric.Counting
import SloFabric.Refusal
import SloFabric.Statuses

namespace SloFabric

variable {R : Type}

/-! ## 1. The same evidence -/

/-- The definition and what is in the stores of evidence are those of `a`. -/
structure SameHoldings (a b : ObjectiveAccumulator R) : Prop where
  defn : b.defn = a.defn
  samples : b.window.samples = a.window.samples
  avail : b.avail = a.avail
  cost : b.cost = a.cost

theorem sameHoldings_carried : Carried (SameHoldings (R := R)) where
  refl _ := ⟨rfl, rfl, rfl, rfl⟩
  trans _ _ _ h h' := ⟨h'.defn.trans h.defn, h'.samples.trans h.samples, h'.avail.trans h.avail,
    h'.cost.trans h.cost⟩
  defn _ _ h := h.defn
  recover _ _ _ := ⟨rfl, rfl, rfl, rfl⟩
  fund _ _ _ := ⟨rfl, rfl, rfl, rfl⟩
  judge _ _ _ := ⟨rfl, rfl, rfl, rfl⟩

/-- All stored definitions of the objective are `o`, and the step loads nothing. -/
structure Defines (o : Objective R) (s : State R) (op : Op R) : Prop where
  sole : ∀ x ∈ allObjectives s.contracts, x.id = o.id → x = o
  load : op.isLoad = false

/-- **What an accumulator asked for again is**: the one before, as far as its evidence goes. -/
theorem acquire_after {t t' : Accumulators R} {o : Objective R} {os : List (Objective R)}
    (h : After SameHoldings os (t.find o.id) (t'.find o.id)) (hos : ∀ x ∈ os, x = o) :
    SameHoldings (acquire t o) (acquire t' o) := by
  unfold acquire
  generalize t.find o.id = x at h
  generalize t'.find o.id = y at h
  cases h with
  | idle => exact sameHoldings_carried.refl _
  | @kept a b _ hk =>
    simp only [hk.defn]
    split
    · exact ⟨rfl, rfl, rfl, rfl⟩
    · exact hk
  | @fresh _ b o' ho' _ hstale hk =>
    obtain rfl := hos o' ho'
    have hb : b.defn.gen = o'.gen := congrArg (·.gen) hk.defn
    simp only [hb, ne_eq, not_true_eq_false, if_false]
    cases x with
    | none => exact hk
    | some a =>
      obtain ⟨o'', ho'', hne⟩ := hstale a rfl
      rw [hos o'' ho''] at hne
      simp only [hne.symm, not_false_eq_true, if_true]
      exact ⟨hk.defn, hk.samples, hk.avail, hk.cost⟩

/-! ## 2. Evidence in breach -/

section Measure

variable [Double R] {a b : ObjectiveAccumulator R} {o : Objective R}

theorem SameHoldings.measured (h : SameHoldings a b) (hdim : a.defn.dim ≠ .recoveryTime)
    (now : Duration) : computeMeasured b now = computeMeasured a now := by
  refine measured_reads h.defn ?_ now
  unfold SameRead readStore
  cases hd : a.defn.dim with
  | availability => exact ⟨by rw [h.avail], by rw [h.avail]⟩
  | recoveryTime => exact absurd hd hdim
  | cost =>
    simp only
    split
    · exact h.samples
    · rename_i heq
      split at heq <;> cases heq
    · exact congrArg (·.items) h.cost
    · rename_i heq
      split at heq <;> cases heq
  | latency | throughput | memoryPressure => exact h.samples

omit [Double R] in
theorem SameHoldings.freshness (h : SameHoldings a b) (now : Duration) :
    evaluateFreshness b now = evaluateFreshness a now := by
  unfold evaluateFreshness ObjectiveAccumulator.usesAvailability ObjectiveAccumulator.usesRecovery
    ObjectiveAccumulator.usesCost
  rw [h.defn, h.samples, h.avail, h.cost]

/-- A measurement does not look at the clock, but that of a recovery time. -/
theorem measured_any_time (hdim : a.defn.dim ≠ .recoveryTime) (now now' : Duration) :
    computeMeasured a now = computeMeasured a now' := by
  unfold computeMeasured
  simp only
  cases hd : a.defn.dim with
  | recoveryTime => exact absurd hd hdim
  | _ => rfl

omit [Double R] in
/-- Evidence that is not there is not there at any time. -/
theorem expired_any_time {now : Duration} (h : evaluateFreshness a now = .expired)
    (now' : Duration) : evaluateFreshness a now' = .expired := by
  have hage (latest : WindowSample R) : (if now - latest.time < 0 then Freshness.stale
      else if a.defn.freshnessTtl ≤ 0 then
        if 0 < a.defn.windowDuration ∧ a.defn.windowDuration ≤ now - latest.time then .stale
        else .current
      else if a.defn.freshnessTtl < now - latest.time then .stale else .current) ≠ .expired := by
    split_ifs <;> simp
  unfold evaluateFreshness at h ⊢
  cases havail : a.usesAvailability with
  | true => simpa only [havail, if_true] using h
  | false =>
    cases hrecovery : a.usesRecovery with
    | true => simp [havail, hrecovery] at h
    | false =>
      cases hcost : a.usesCost with
      | true =>
        simpa only [havail, hrecovery, hcost, Bool.false_eq_true, if_false, if_true] using h
      | false =>
        cases hlast : a.window.samples.getLast? with
        | none => rfl
        | some latest =>
          simp only [havail, hrecovery, hcost, hlast, Bool.false_eq_true, if_false] at h
          exact absurd h (hage latest)

/-- Whenever it is judged for `o`, there is a value, and it is not in the Compliant zone. -/
structure CondemnedAt (o : Objective R) (a : ObjectiveAccumulator R) (now : Duration) : Prop where
  got : (computeMeasured a now).got = true
  sufficient : (computeMeasured a now).sufficient = true
  there : evaluateFreshness a now ≠ .expired
  zone : classifyZone o (computeMeasured a now).value ≠ .compliant

def Condemned (o : Objective R) (a : ObjectiveAccumulator R) : Prop := ∀ now, CondemnedAt o a now

theorem Condemned.congr (h : Condemned o a) (hab : SameHoldings a b)
    (hdim : a.defn.dim ≠ .recoveryTime) : Condemned o b := by
  intro now
  have hmeasured := hab.measured hdim now
  obtain ⟨hgot, hsufficient, hthere, hzone⟩ := h now
  exact ⟨by rwa [hmeasured], by rwa [hmeasured], by rwa [hab.freshness], by rwa [hmeasured]⟩

/-- A verdict Violating condemns. -/
theorem condemned_of_violating {t : Accumulators R} {now : Duration}
    (h : verdict t o now = .violating) (hdim : (acquire t o).defn.dim ≠ .recoveryTime) :
    Condemned o (acquire t o) := by
  obtain ⟨hgot, hsufficient, hfresh⟩ := verdict_measured (by rw [h]; rfl)
  have hstate : stepState o (computeMeasured (acquire t o) now).value (acquire t o).lastState =
      .violating := by
    have hmeasured : unmeasured (computeMeasured (acquire t o) now)
        (evaluateFreshness (acquire t o) now) = false := by
      simp [unmeasured, hgot, hsufficient, hfresh]
    unfold verdict at h
    simp only [hmeasured, Bool.false_eq_true, if_false, measuredState, rollBudget_lastState] at h
    split at h
    · cases h
    · exact h
  intro now'
  rw [measured_any_time hdim now now'] at hgot hsufficient hstate
  refine ⟨hgot, hsufficient, fun hexp => ?_, fun hzone => ?_⟩
  · rw [expired_any_time hexp now] at hfresh
    cases hfresh
  · rw [stepState, hzone] at hstate
    cases hstate

/-- **What is condemned is found neither Compliant nor without evidence.** -/
theorem Condemned.verdict {t : Accumulators R} (h : Condemned o (acquire t o)) (now : Duration) :
    SloFabric.verdict t o now ≠ .compliant ∧
      SloFabric.verdict t o now ≠ .insufficientEvidence := by
  obtain ⟨hgot, hsufficient, hthere, hzone⟩ := h now
  refine ⟨fun hv => hzone (verdict_compliant hv).2.2.2.1, fun hv => ?_⟩
  unfold SloFabric.verdict at hv
  simp only at hv
  split at hv
  · rename_i hm
    unfold unmeasuredState at hv
    split at hv
    · cases hv
    · rename_i hstale
      simp [unmeasured, hgot, hsufficient, hstale, hthere] at hm
  · simp only [measuredState, rollBudget_lastState] at hv
    split at hv
    · cases hv
    · unfold stepState at hv
      split at hv
      · cases hv
      · cases hv
      · split at hv
        · rename_i hlast
          rw [hv] at hlast
          rcases hlast with hlast | hlast <;> cases hlast
        · cases hv

end Measure

/-! ## 3. Steps -/

section Steps

variable [Pod R] [Double R] [Platform R] {o : Objective R} {s s' : State R} {op : Op R}
  {r : Response R}

/-- A step that accepts no evidence for the objective. -/
def Supplies (o : Objective R) (x : Op R × Response R) : Prop := acceptedBy o.id x ≠ none

omit [Pod R] [Double R] [Platform R] in
/-- What is put back for a definition is what is handed out for it next. -/
theorem acquire_insert (t : Accumulators R) {b : ObjectiveAccumulator R} (hid : b.defn.id = o.id)
    (hgen : b.defn.gen = o.gen) : acquire (t.insert b) o = b := by
  unfold acquire
  rw [t.find_insert_key hid]
  simp [hgen]

omit [Pod R] [Platform R] in
/-- An evaluation brings no evidence, at none of its turns. -/
theorem holdings_evaluate (now : Duration) (objs : List (Objective R)) (t : Accumulators R)
    (hobjs : ∀ x ∈ objs, x.id = o.id → x = o) :
    SameHoldings (acquire t o) (acquire (accumulatorsAfter t now objs) o) := by
  refine acquire_after (after_evaluate sameHoldings_carried now o.id objs t) fun x hx => ?_
  obtain ⟨hmem, hid⟩ := List.mem_filter.mp hx
  exact hobjs x hmem (of_decide_eq_true hid)

omit [Pod R] [Platform R] in
/-- A record that is offered to the objective leaves its definition, one that is not accepted the
    stores. -/
theorem holdings_ingest {e : EvidenceRecord R} {now : Duration}
    (hsole : ∀ x ∈ allObjectives s.contracts, x.id = o.id → x = o) :
    (acquire (ingest s e now).1.accumulators o).defn = (acquire s.accumulators o).defn ∧
      (¬Supplies o (.ingest e now, .status (ingest s e now).2) →
        SameHoldings (acquire s.accumulators o) (acquire (ingest s e now).1.accumulators o)) := by
  have hidle {t : Accumulators R} {P : Prop} (h : acquire t o = acquire s.accumulators o) :
      (acquire t o).defn = (acquire s.accumulators o).defn ∧
        (P → SameHoldings (acquire s.accumulators o) (acquire t o)) := by
    rw [h]
    exact ⟨rfl, fun _ => sameHoldings_carried.refl _⟩
  rcases ingest_offered s e now with ⟨_, h', _⟩ | ⟨x, hx, h', hst⟩
  · exact hidle (by rw [h'])
  · have hstored : x ∈ acquires s (.ingest e now) := Option.mem_toList.mpr hx
    have hid := offeredTo_id hx
    have hconduct := (offer_conduct x (acquire s.accumulators x) e).defn
    rw [h']
    by_cases hk : x.id = o.id
    · obtain rfl := hsole x (acquires_stored hstored) hk
      rw [acquire_insert _ (by rw [hconduct, acquire_id]) (by rw [hconduct, acquire_gen])]
      refine ⟨hconduct, fun hno => ?_⟩
      have hrefused : (offer x (acquire s.accumulators x) e).2.isOk = false := by
        rw [← hst]
        by_contra hok
        exact hno (by simp [Supplies, acceptedBy, hok, hid])
      obtain ⟨_, hsamples, havail, hcost, _⟩ := (offer_rejected hrefused).measured
      exact ⟨hconduct, hsamples, havail, hcost⟩
    · exact hidle (acquire_insert_ne _ (by rw [hconduct, acquire_id]; exact hk))

/-- **The step lemma**: the definition stays, and the stores do without evidence that is
    accepted. -/
theorem holdings_step (hc : Defines o s op) (h : apply s op = some (s', r)) :
    (acquire s'.accumulators o).defn = (acquire s.accumulators o).defn ∧
      (¬Supplies o (op, r) →
        SameHoldings (acquire s.accumulators o) (acquire s'.accumulators o)) := by
  have hload : ∀ file, op ≠ .load file := not_load (by rw [hc.load]; rfl)
  by_cases hing : ∃ e now, op = .ingest e now
  · obtain ⟨e, now, rfl⟩ := hing
    cases h
    exact holdings_ingest hc.sole
  suffices hsame : SameHoldings (acquire s.accumulators o) (acquire s'.accumulators o) from
    ⟨hsame.defn, fun _ => hsame⟩
  by_cases hauth : ∃ intent now, op = .authorize intent now
  · obtain ⟨intent, now, rfl⟩ := hauth
    cases h
    rcases authorize_cases s intent now with ⟨_, h'⟩ | ⟨_, _, _, _, _, _, _, _, _, h'⟩
    · rw [h']
      exact sameHoldings_carried.refl _
    · rw [h']
      have hrest : After SameHoldings [] (s.accumulators.find o.id)
          ((setCooldown s.accumulators intent.objectiveId (now + intent.cooldown)).find o.id) := by
        rw [setCooldown_find]
        split
        · cases s.accumulators.find o.id with
          | none => exact .idle rfl
          | some a => exact .kept (fun _ hx => absurd hx List.not_mem_nil) ⟨rfl, rfl, rfl, rfl⟩
        · exact .idle rfl
      exact acquire_after hrest fun _ hx => absurd hx List.not_mem_nil
  · refine acquire_after (account_step sameHoldings_carried h
      (fun e now heq => hing ⟨e, now, heq⟩) hload (fun i now heq => hauth ⟨i, now, heq⟩) o.id)
      fun x hx => ?_
    obtain ⟨hmem, hid⟩ := List.mem_filter.mp hx
    exact hc.sole x (acquires_stored hmem) (of_decide_eq_true hid)

omit [Pod R] in
/-- What is reported of the objective in an evaluation is the verdict at one of its turns, on the
    stores it had before. -/
theorem reported_turn {service : ServiceId} {workload : WorkloadId} {now : Duration}
    {res : EvaluationResult R} {st : ObjectiveState R}
    (hsole : ∀ x ∈ allObjectives s.contracts, x.id = o.id → x = o)
    (h : evaluate s service workload now = some (s', .ok res))
    (hst : st ∈ res.explanation.objectives) (hid : st.id = o.id) :
    ∃ t, SameHoldings (acquire s.accumulators o) (acquire t o) ∧ st.state = verdict t o now ∧
      SameHoldings (acquire t o) (acquire s'.accumulators o) := by
  rcases evaluate_cases h with ⟨_, hr, _⟩ | ⟨c, _, _, _, _, hc, _, _, _, hr, hs'⟩
  · cases hr
  cases hr
  obtain ⟨ev, hev, rfl⟩ := List.mem_map.mp hst
  obtain ⟨i, _, hobj, hev⟩ := mem_evaluateObjectives hev
  have hrow := (List.mem_filter.mp (newest_some hc).1).1
  have hobjs : ∀ x ∈ c.objectives, x.id = o.id → x = o := fun x hx =>
    hsole x (List.mem_flatMap.mpr ⟨c, hrow, hx⟩)
  have heq : ev.obj = o := hobjs _ (List.mem_of_getElem? hobj) (hev.2.2.1.symm.trans hid)
  rw [heq] at hev
  have hafter : s'.accumulators = accumulatorsAfter
      (accumulatorsAfter s.accumulators now (c.objectives.take i)) now (c.objectives.drop i) := by
    rw [hs', accumulatorsAfter, accumulatorsAfter, accumulatorsAfter, ← List.foldl_append,
      List.take_append_drop]
  refine ⟨_, ?_, hev.2.2.2, ?_⟩
  · exact holdings_evaluate now _ _ fun x hx => hobjs x (List.mem_of_mem_take hx)
  · rw [hafter]
    exact holdings_evaluate now _ _ fun x hx => hobjs x (List.mem_of_mem_drop hx)

/-! ## 4. Runs -/

/-- The step is an evaluation that reports the objective in the state. -/
def ReportsState (k : ObjectiveId) (state : ComplianceState) (x : Op R × Response R) : Prop :=
  ∃ res, x.2.report = some res ∧ ∃ st ∈ res.explanation.objectives, st.id = k ∧ st.state = state

theorem evaluated_of_report {res : EvaluationResult R}
    (h : apply s op = some (s', r)) (hr : r.report = some res) :
    ∃ service workload now, op = .evaluate service workload now ∧
      evaluate s service workload now = some (s', .ok res) := by
  cases frame_cases h with
  | @evaluated service workload now x hx =>
    cases x with
    | error st => cases hr
    | ok res' =>
      cases hr
      exact ⟨service, workload, now, rfl, hx⟩
  | _ => cases hr

/-- **A violation ends with evidence.** Take any run without loads in which all stored definitions
    of an objective are the same, and it is not a recovery time. If an evaluation reports it
    Violating, and a later one Compliant, or without evidence, then in between evidence for it was
    accepted. No passing of time, no enforcement, lifecycle or recovery event, no other
    objective's evidence and no budget does that. -/
theorem restored_by_evidence (hdim : o.dim ≠ .recoveryTime) {tr : Trace R}
    (h : Run apply (Defines o) (State.fresh R) tr s) {before between after : Trace R}
    {x y : Op R × Response R} (htr : tr = before ++ x :: (between ++ y :: after))
    (hx : ReportsState o.id .violating x)
    (hy : ReportsState o.id .compliant y ∨ ReportsState o.id .insufficientEvidence y) :
    ∃ z ∈ between, Supplies o z := by
  subst htr
  obtain ⟨s₁, hbefore, hrest⟩ := h.parts
  obtain ⟨s₂, hc₁, hstep₁, hrest⟩ := hrest.first
  obtain ⟨s₃, hbetween, hrest⟩ := hrest.parts
  obtain ⟨s₄, hc₃, hstep₃, _⟩ := hrest.first
  by_contra hnone
  have hdefn : (acquire s₁.accumulators o).defn = o := hbefore.invariant
    (I := fun s => (acquire s.accumulators o).defn = o) rfl
    fun s op s' r hi hc hs => (holdings_step hc hs).1.trans hi
  -- what is condemned after the violation is condemned until the later evaluation
  have hcondemned : Condemned o (acquire s₂.accumulators o) ∧
      (acquire s₂.accumulators o).defn = o := by
    obtain ⟨res, hres, st, hst, hid, hstate⟩ := hx
    obtain ⟨service, workload, now, hop, heval⟩ := evaluated_of_report hstep₁ hres
    obtain ⟨t, hsame, hverdict, hafter⟩ := reported_turn hc₁.sole heval hst hid
    have ht : (acquire t o).defn = o := hsame.defn.trans hdefn
    have hdim' : (acquire t o).defn.dim ≠ .recoveryTime := by rwa [ht]
    exact ⟨(condemned_of_violating (hverdict.symm.trans hstate) hdim').congr hafter hdim',
      hafter.defn.trans ht⟩
  have hkept : SameHoldings (acquire s₂.accumulators o) (acquire s₃.accumulators o) :=
    hbetween.history
      (I := fun tr s => (∀ z ∈ tr, ¬Supplies o z) →
        SameHoldings (acquire s₂.accumulators o) (acquire s.accumulators o))
      (fun _ => sameHoldings_carried.refl _)
      (fun tr s op s' r hi hc hs hno => sameHoldings_carried.trans _ _ _
        (hi fun z hz => hno z (List.mem_append_left _ hz))
        ((holdings_step hc hs).2 (hno _ (List.mem_append_right _ (List.mem_singleton_self _)))))
      fun z hz hsupplies => hnone ⟨z, hz, hsupplies⟩
  have hlater {state : ComplianceState} (hy : ReportsState o.id state y) :
      state ≠ .compliant ∧ state ≠ .insufficientEvidence := by
    obtain ⟨res, hres, st, hst, hid, hstate⟩ := hy
    obtain ⟨service, workload, now, hop, heval⟩ := evaluated_of_report hstep₃ hres
    obtain ⟨t, hsame, hverdict, _⟩ := reported_turn hc₃.sole heval hst hid
    have hthere : Condemned o (acquire t o) := hcondemned.1.congr
      (sameHoldings_carried.trans _ _ _ hkept hsame) (by rw [hcondemned.2]; exact hdim)
    rw [← hstate, hverdict]
    exact hthere.verdict now
  rcases hy with hy | hy
  · exact (hlater hy).1 rfl
  · exact (hlater hy).2 rfl

end Steps

/-! ## 5. A latency that comes back -/

/-- The last latency counts. -/
def lastLatency : Objective Binary64 := { smallObjective 1 1 with windowType := .instantaneous }

/-- Two hundred milliseconds are judged, and then fifty. -/
def comesBack : List (Op Binary64) :=
  [.setPolicy smallPolicy, .addContract (smallContract 1 1 1 [lastLatency]),
    .ingest (smallEvidence 1 1 200000000) 0, .evaluate ⟨1⟩ ⟨1⟩ 0,
    .ingest (smallEvidence 2 1 50000000) 0, .evaluate ⟨1⟩ ⟨1⟩ 0]

def definesTest (o : Objective Binary64) (s : State Binary64) (op : Op Binary64) : Bool :=
  ((allObjectives s.contracts).all fun x => decide (x.id = o.id → x = o)) && !op.isLoad

theorem defines_of_test {o : Objective Binary64} {s : State Binary64} {op : Op Binary64}
    (h : definesTest o s op = true) : Defines o s op := by
  obtain ⟨hsole, hload⟩ := Bool.and_eq_true_iff.mp h
  exact ⟨fun x hx => of_decide_eq_true (List.all_eq_true.mp hsole x hx), by simpa using hload⟩

def reportsTest (k : ObjectiveId) (state : ComplianceState) (x : Op Binary64 × Response Binary64) :
    Bool :=
  x.2.report.any fun res => res.explanation.objectives.any fun st =>
    decide (st.id = k ∧ st.state = state)

theorem reports_of_test {k : ObjectiveId} {state : ComplianceState}
    {x : Op Binary64 × Response Binary64} (h : reportsTest k state x = true) :
    ReportsState k state x := by
  obtain ⟨res, hres, h⟩ := (Option.any_eq_true _ _).mp h
  obtain ⟨st, hst, hp⟩ := List.any_eq_true.mp h
  exact ⟨res, hres, st, hst, of_decide_eq_true hp⟩

/-- The objective is reported violating by the first evaluation, compliant by the second. -/
def comesBackTest : Trace Binary64 → Bool
  | [_, _, _, x, _, y] => reportsTest ⟨1⟩ .violating x && reportsTest ⟨1⟩ .compliant y
  | _ => false

theorem restored_by_evidence_small :
    ∃ before between after x y s, Run apply (Defines lastLatency) (State.fresh Binary64)
        (before ++ x :: (between ++ y :: after)) s ∧
      ReportsState ⟨1⟩ .violating x ∧ ReportsState ⟨1⟩ .compliant y ∧
      ∃ z ∈ between, Supplies lastLatency z := by
  have htest : (execute apply (definesTest lastLatency) (State.fresh Binary64) comesBack).any
      (fun w => comesBackTest w.2) = true := by
    decide +kernel
  obtain ⟨s, tr, hrun, hp⟩ := Run.of_test (fun _ _ => defines_of_test) htest
  unfold comesBackTest at hp
  split at hp
  · rename_i a b c x z y heq
    obtain rfl : tr = [a, b, c] ++ x :: ([z] ++ y :: []) := heq
    obtain ⟨hx, hy⟩ := Bool.and_eq_true_iff.mp hp
    have hx := reports_of_test hx
    have hy := reports_of_test hy
    exact ⟨_, _, _, _, _, s, hrun, hx, hy,
      restored_by_evidence (by decide) hrun rfl hx (Or.inl hy)⟩
  · cases hp

end SloFabric
