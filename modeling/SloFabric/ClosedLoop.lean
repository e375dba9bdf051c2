/-
  File:      SloFabric/ClosedLoop.lean
  Subject:   The fabric and the runtimes behind a router as one system.

  Between any operations of the fabric, any intent that an evaluation has reported so far may be
  routed, as often as one likes and with or without an authorization.

  * `Loop`, `Loop.step`: the system;
  * `Offers`: what a reported evaluation can ask for, `evaluate_offers`;
  * `toldOf`: which runtime is due to hear of a verdict on a dimension;
  * `enforce_cases`: what routing a reported intent does;
  * `unused_runtimes`: four of the seven runtimes are never called;
  * `runtimes_told`: what each runtime is told, and of which verdicts none is.
-/
import SloFabric.Routing
import SloFabric.Revalidation
import SloFabric.Archive

namespace SloFabric

/-! ## 1. The system -/

/-- The fabric, the evaluations it has reported and the runtimes. -/
structure Loop (R W : Type) where
  fabric : State R
  reports : List (EvaluationResult R) := []
  runtimes : W

inductive LoopAct (R : Type) where
  | fabric (op : Op R)
  /-- Route the intent of the `n`-th report. -/
  | enforce (n : Nat)

inductive LoopAnswer (R : Type) where
  | fabric (r : Response R)
  | enforced (st : Status)

section Step

variable {R W : Type} [Pod R] [Double R] [Platform R]

def Loop.step (router : EnforcementRouter W) (l : Loop R W) :
    LoopAct R → Option (Loop R W × LoopAnswer R)
  | .fabric op => (apply l.fabric op).map fun x =>
    ({ l with fabric := x.1, reports := l.reports ++ x.2.report.toList }, .fabric x.2)
  | .enforce n => l.reports[n]?.map fun res =>
    ({ l with runtimes := (router.dispatch res.intent l.runtimes).1 },
      .enforced (router.dispatch res.intent l.runtimes).2)

end Step

/-! ## 2. What an evaluation asks for -/

section Offers

variable {R : Type} [Double R] [Platform R]

/-- The evaluation asks for nothing, or for what its verdict on the binding objective, violated or
    near its limit, asks for. -/
def Offers (res : EvaluationResult R) : Prop :=
  res.intent.action = .noAction ∨ ∃ obj : Objective R,
    (res.explanation.compliance = .violating ∨ res.explanation.compliance = .nearLimit) ∧
    obj.enforcement ≠ .none ∧ res.intent.cls = obj.enforcement ∧
    res.intent.dimension = obj.dim ∧
    res.intent.action = actionFor obj res.explanation.compliance

omit [Platform R] in
/-- Where no accumulator remembers Recovering, no entry of the loop is Recovering, AtRisk or
    Suspended. -/
theorem evaluateObjectives_isVerdict {t : Accumulators R} {now : Duration}
    {objs : List (Objective R)} (ht : ∀ a ∈ t.rows, a.lastState ≠ .recovering) {ev : ObjEval R}
    (hev : ev ∈ (evaluateObjectives t now objs).2.1) (hm : ev.state.isMeasured = true) :
    ev.state.isVerdict = true := by
  obtain ⟨i, _, _, hrep⟩ := mem_evaluateObjectives hev
  have hrows := neverRecovering_rule.accumulatorsAfter now (objs.take i) ht
  have hlast := neverRecovering_rule.acquired hrows ev.obj
  rw [hrep.2.1] at hm ⊢
  rcases verdict_cases now hlast with ⟨hun, _⟩ | ⟨_, hv⟩
  · rcases verdict_of_unmeasured hun with hv | hv <;> rw [hv] at hm <;> cases hm
  · exact hv

/-- **What `evaluate` offers.** -/
theorem evaluate_offers {s s' : State R} {service : ServiceId} {workload : WorkloadId}
    {now : Duration} {res : EvaluationResult R}
    (hs : ∀ a ∈ s.accumulators.rows, a.lastState ≠ .recovering)
    (h : evaluate s service workload now = some (s', .ok res)) : Offers res := by
  rcases evaluate_cases h with ⟨st, hst, _⟩ |
    ⟨c, policy, overall, binding, digest, _, _, _, ho, hr, _⟩
  · cases hst
  rw [Except.ok.injEq] at hr
  subst hr
  rcases overallOf_cases ho with ⟨rfl, _⟩ | ⟨rfl, _⟩ | ⟨ev, hev, rfl, rfl, hall, _⟩
  · exact Or.inl rfl
  · exact Or.inl rfl
  by_cases hact : selectAction (accumulatorsAfter s.accumulators now c.objectives) ev.obj ev.state
      now = .noAction
  · exact Or.inl hact
  obtain ⟨haction, hcls, hcompliant, _⟩ := selectAction_ne_noAction hact
  have hverdict := evaluateObjectives_isVerdict hs hev (hall ev hev)
  refine Or.inr ⟨ev.obj, ?_, hcls, rfl, rfl, haction⟩
  show ev.state = .violating ∨ ev.state = .nearLimit
  simp only [ComplianceState.isVerdict, Bool.or_eq_true, beq_iff_eq] at hverdict
  rcases hverdict with (hv | hv) | hv
  · exact absurd hv hcompliant
  · exact Or.inr hv
  · exact Or.inl hv

/-- The runtime that is told of a verdict on a dimension. -/
def toldOf : Dimension → ComplianceState → Option Interface
  | .latency, .violating | .latency, .nearLimit => some .resource
  | .availability, .violating | .availability, .nearLimit => some .resource
  | .throughput, .violating => some .resource
  | .recoveryTime, .violating | .recoveryTime, .nearLimit => some .recovery
  | .memoryPressure, .violating | .memoryPressure, .nearLimit => some .memory
  | _, _ => none

/-- The runtime an evaluation has something to say to. -/
def EvaluationResult.tells (res : EvaluationResult R) : Option Interface :=
  if res.intent.action = .noAction then none
  else toldOf res.intent.dimension res.explanation.compliance

omit [Double R] [Platform R] in
/-- **What is offered belongs to the runtime that is due**, and is an enumerator. -/
theorem Offers.interface {res : EvaluationResult R} (h : Offers res) :
    interfaceOf res.intent.action = res.tells ∧ res.intent.action ≠ .undeclared := by
  unfold EvaluationResult.tells
  rcases h with hno | ⟨obj, hv, _, _, hdim, hact⟩
  · rw [if_pos hno, hno]
    exact ⟨rfl, by decide⟩
  · rw [hdim, hact]
    unfold actionFor
    rcases hv with hv | hv <;> rw [hv] <;> cases obj.dim <;> decide

end Offers

/-! ## 3. Any run of the system -/

section Runs

variable {R W : Type} [Pod R] [Double R] [Platform R]

/-- What every state of the system is like, whatever the runtimes are. -/
structure Loop.Sound (l : Loop R W) : Prop where
  fabric : Reachable l.fabric
  offers : ∀ res ∈ l.reports, Offers res

omit [Pod R] [Double R] [Platform R] in
theorem report_some {r : Response R} {res : EvaluationResult R} (h : r.report = some res) :
    r = .evaluated (.ok res) := by
  unfold Response.report at h
  split at h
  · cases h; rfl
  · cases h

/-- A report is one of an evaluation. -/
theorem reported_evaluate {s s' : State R} {op : Op R} {res : EvaluationResult R}
    (h : apply s op = some (s', .evaluated (.ok res))) :
    ∃ service workload now, evaluate s service workload now = some (s', .ok res) := by
  cases op with
  | evaluate service workload now =>
    obtain ⟨⟨s₁, r⟩, hx, he⟩ := Option.map_eq_some_iff.mp h
    cases he
    exact ⟨service, workload, now, hx⟩
  | save order =>
    rw [apply] at h
    split at h <;> cases h
  | _ => cases h

theorem Loop.sound_step {router : EnforcementRouter W} {l l' : Loop R W} {act : LoopAct R}
    {a : LoopAnswer R} (hl : l.Sound) (h : Loop.step router l act = some (l', a)) : l'.Sound := by
  cases act with
  | enforce n =>
    obtain ⟨res, _, he⟩ := Option.map_eq_some_iff.mp h
    cases he
    exact ⟨hl.fabric, hl.offers⟩
  | fabric op =>
    obtain ⟨⟨s, r⟩, hs, he⟩ := Option.map_eq_some_iff.mp h
    cases he
    obtain ⟨tr, htr⟩ := hl.fabric
    refine ⟨⟨_, .next htr trivial hs⟩, fun res hres => ?_⟩
    rcases List.mem_append.mp hres with hres | hres
    · exact hl.offers res hres
    · obtain rfl : r = _ := report_some (Option.mem_toList.mp hres)
      obtain ⟨_, _, _, heval⟩ := reported_evaluate hs
      exact evaluate_offers (neverRecovering_run htr) heval

theorem Loop.sound_fresh (w₀ : W) : Loop.Sound (R := R) ⟨State.fresh R, [], w₀⟩ where
  fabric := ⟨[], .start⟩
  offers _ h := absurd h List.not_mem_nil

/-! ## 4. The runtimes nobody calls -/

omit [Pod R] [Double R] [Platform R] in
/-- Two routers with the same runtime for the interface of an action do the same with it. -/
theorem dispatch_congr {router router' : EnforcementRouter W}
    (hresource : router.resource = router'.resource)
    (hrecovery : router.recovery = router'.recovery) (hmemory : router.memory = router'.memory)
    {res : EvaluationResult R} (h : Offers res) :
    router.dispatch res.intent = router'.dispatch res.intent := by
  have hf : interfaceOf res.intent.action = none ∨
      interfaceOf res.intent.action = some .resource ∨
      interfaceOf res.intent.action = some .recovery ∨
      interfaceOf res.intent.action = some .memory := by
    rw [h.interface.1, EvaluationResult.tells]
    split
    · exact Or.inl rfl
    · unfold toldOf
      split <;> simp
  funext w
  unfold EnforcementRouter.dispatch
  cases hact : res.intent.action <;> rw [hact] at hf <;>
    simp only [interfaceOf, reduceCtorEq, Option.some.injEq, or_self] at hf <;>
    simp only [hresource, hrecovery, hmemory]

/-- **Four runtimes are never called.** Whatever the fabric goes through and whatever of its
    reports is routed how often: with other admission, scheduler, preemption and power enforcers
    behind the router, or none, everything goes exactly the same way. -/
theorem unused_runtimes {router router' : EnforcementRouter W}
    (hresource : router.resource = router'.resource)
    (hrecovery : router.recovery = router'.recovery) (hmemory : router.memory = router'.memory)
    (w₀ : W) {tr : List (LoopAct R × LoopAnswer R)} {l : Loop R W} :
    Run (Loop.step router) (fun _ _ => True) ⟨State.fresh R, [], w₀⟩ tr l ↔
      Run (Loop.step router') (fun _ _ => True) ⟨State.fresh R, [], w₀⟩ tr l := by
  have hstep {l : Loop R W} (hl : l.Sound) (act : LoopAct R) :
      Loop.step router l act = Loop.step router' l act := by
    cases act with
    | fabric op => rfl
    | enforce n =>
      simp only [Loop.step]
      cases hn : l.reports[n]? with
      | none => rfl
      | some res =>
        have hres := hl.offers res (List.mem_of_getElem? hn)
        simp only [Option.map_some, dispatch_congr hresource hrecovery hmemory hres]
  exact ⟨fun h => h.transfer (Loop.sound_fresh w₀) (fun _ _ _ _ hl => Loop.sound_step hl)
      fun _ act hl => hstep hl act,
    fun h => h.transfer (Loop.sound_fresh w₀) (fun _ _ _ _ hl => Loop.sound_step hl)
      fun _ act hl => (hstep hl act).symm⟩

end Runs

/-- The slots of a router with a sink for the resource runtime. -/
def resourceSlots : Slots Bool := fun f => if f = .resource then some true else none

/-- The same with a sink for all runtimes that are never called. -/
def crowdedSlots : Slots Bool := fun f =>
  if f = .resource then some true
  else if f = .recovery ∨ f = .memory then none
  else some false

/-- A latency of 200 ms against a target of 100 ms is judged and routed. -/
def smallLoop : List (LoopAct Binary64) :=
  [.fabric (.setPolicy smallPolicy),
    .fabric (.addContract (smallContract 1 1 1 [smallObjective 1 1])),
    .fabric (.ingest (smallEvidence 1 1 200000000) 0), .fabric (.evaluate ⟨1⟩ ⟨1⟩ 0), .enforce 0]

theorem smallLoop_runs : ∃ l tr, Run (Loop.step resourceSlots.router) (fun _ _ => True)
    ⟨State.fresh Binary64, [], fun _ => {}⟩ tr l ∧ (l.runtimes true).records.length = 1 := by
  have htest : (execute (Loop.step resourceSlots.router) (fun _ _ => true)
      ⟨State.fresh Binary64, [], fun _ => {}⟩ smallLoop).any
      (fun x => decide ((x.1.runtimes true).records.length = 1)) = true := by
    decide +kernel
  obtain ⟨l, tr, hrun, hp⟩ := Run.of_test (fun _ _ _ => trivial) htest
  exact ⟨l, tr, hrun, of_decide_eq_true hp⟩

/-- An action reaches the resource runtime, whoever else is there. -/
theorem unused_runtimes_small :
    ∃ l tr, Run (Loop.step crowdedSlots.router) (fun _ _ => True)
      ⟨State.fresh Binary64, [], fun _ => {}⟩ tr l ∧ (l.runtimes true).records.length = 1 := by
  obtain ⟨l, tr, hrun, hone⟩ := smallLoop_runs
  have hresource : resourceSlots.router.resource = crowdedSlots.router.resource := rfl
  have hrecovery : resourceSlots.router.recovery = crowdedSlots.router.recovery := rfl
  have hmemory : resourceSlots.router.memory = crowdedSlots.router.memory := rfl
  exact ⟨l, tr, (unused_runtimes hresource hrecovery hmemory _).mp hrun, hone⟩

/-! ## 5. What the other three are told -/

section Runs

variable {R : Type} [Pod R] [Double R] [Platform R]

section Sinks

variable {K : Type} [DecidableEq K]

/-- Who has a record is the runtime that was due to hear of that verdict on that dimension. -/
def RecordsDue (slots : Slots K) (l : Loop R (Sinks K)) : Prop :=
  ∀ k, ∀ record ∈ (l.runtimes k).records, ∃ res ∈ l.reports, ∃ f,
    record.intent = res.intent ∧ record.action = res.intent.action ∧ res.tells = some f ∧
      slots f = some k

/-- **What is told.** The state of a system whose runtimes are sinks, plugged in as `slots` say. -/
structure Told (slots : Slots K) (l : Loop R (Sinks K)) : Prop where
  records : RecordsDue slots l
  /-- Where nobody is due, the intent is answered `ok` and nobody hears of it. -/
  silent : ∀ n res, l.reports[n]? = some res → res.tells = none →
    Loop.step slots.router l (.enforce n) = some (l, .enforced ok)
  /-- Where the runtime is missing, the caller is told so. -/
  missing : ∀ n res f, l.reports[n]? = some res → res.tells = some f → slots f = none →
    Loop.step slots.router l (.enforce n) = some (l, .enforced (notReady f.missing))
  /-- Else it is handed the intent, and the caller its answer. -/
  called : ∀ n res f k, l.reports[n]? = some res → res.tells = some f → slots f = some k →
    Loop.step slots.router l (.enforce n) =
      some ({ l with runtimes := (Sinks.pass k res.intent.action res.intent l.runtimes).1 },
        .enforced (Sinks.pass k res.intent.action res.intent l.runtimes).2)

/-- Routing a reported intent. -/
theorem enforce_cases {slots : Slots K} {l : Loop R (Sinks K)} (hl : l.Sound) {n : Nat}
    {res : EvaluationResult R} (hn : l.reports[n]? = some res) :
    Loop.step slots.router l (.enforce n) =
      match res.tells with
      | none => some (l, .enforced ok)
      | some f =>
        match slots f with
        | none => some (l, .enforced (notReady f.missing))
        | some k =>
          some ({ l with runtimes := (Sinks.pass k res.intent.action res.intent l.runtimes).1 },
            .enforced (Sinks.pass k res.intent.action res.intent l.runtimes).2) := by
  obtain ⟨hf, hdeclared⟩ := (hl.offers res (List.mem_of_getElem? hn)).interface
  simp only [Loop.step, hn, Option.map_some, router_dispatch, Slots.target, unrouted, hf,
    if_neg hdeclared]
  cases res.tells with
  | none => rfl
  | some f =>
    simp only [Option.bind_some]
    cases slots f <;> rfl

/-- Records are only added, each for a report and by the runtime that is due. -/
theorem records_step {slots : Slots K} {l l' : Loop R (Sinks K)} {act : LoopAct R}
    {a : LoopAnswer R} (hl : l.Sound)
    (hrecords : RecordsDue slots l) (h : Loop.step slots.router l act = some (l', a)) :
    RecordsDue slots l' := by
  cases act with
  | fabric op =>
    obtain ⟨⟨s, r⟩, _, he⟩ := Option.map_eq_some_iff.mp h
    cases he
    intro k record hrecord
    obtain ⟨res, hres, hrest⟩ := hrecords k record hrecord
    exact ⟨res, List.mem_append_left _ hres, hrest⟩
  | enforce n =>
    cases hn : l.reports[n]? with
    | none =>
      rw [Loop.step, hn] at h
      cases h
    | some res =>
      rw [enforce_cases hl hn] at h
      split at h
      · cases h; exact hrecords
      · rename_i f htells
        split at h
        · cases h; exact hrecords
        · rename_i k hk
          cases h
          intro k' record hrecord
          obtain ⟨st, hst, _⟩ := sink_dispatch (l.runtimes k) res.intent.action res.intent
          simp only [Sinks.pass, hst] at hrecord
          by_cases he : k' = k
          · subst he
            rw [Function.update_self] at hrecord
            rcases List.mem_append.mp hrecord with hrecord | hrecord
            · exact hrecords k' record hrecord
            · obtain rfl := List.mem_singleton.mp hrecord
              exact ⟨res, List.mem_of_getElem? hn, f, rfl, rfl, htells, hk⟩
          · rw [Function.update_of_ne he] at hrecord
            exact hrecords k' record hrecord

/-- **What each runtime is told.** Whatever the fabric goes through and whatever of its reports is
    routed how often: the resource runtime hears of latency, availability and throughput, the
    recovery runtime of recovery time, the memory runtime of memory pressure, and only when the
    binding objective is violated or near its limit. Of a violated cost, and of a throughput that
    is near its limit, no runtime ever hears, though the caller is answered `ok`. -/
theorem runtimes_told (slots : Slots K) {tr : List (LoopAct R × LoopAnswer R)}
    {l : Loop R (Sinks K)}
    (h : Run (Loop.step slots.router) (fun _ _ => True) ⟨State.fresh R, [], fun _ => {}⟩ tr l) :
    Told slots l := by
  have hall := h.invariant (I := fun l => l.Sound ∧ RecordsDue slots l)
    ⟨Loop.sound_fresh _, fun _ _ hrecord => absurd hrecord List.not_mem_nil⟩
    fun _ _ _ _ hl _ hs => ⟨Loop.sound_step hl.1 hs, records_step hl.1 hl.2 hs⟩
  obtain ⟨hsound, hrecords⟩ := hall
  refine ⟨hrecords, fun n res hn ht => ?_, fun n res f hn ht hf => ?_,
    fun n res f k hn ht hf => ?_⟩
  · rw [enforce_cases hsound hn, ht]
  · rw [enforce_cases hsound hn, ht]
    simp only [hf]
  · rw [enforce_cases hsound hn, ht]
    simp only [hf]

end Sinks

end Runs

/-- The record of that action is one of a report. -/
theorem runtimes_told_small :
    ∃ l tr, Run (Loop.step resourceSlots.router) (fun _ _ => True)
        ⟨State.fresh Binary64, [], fun _ => {}⟩ tr l ∧ Told resourceSlots l ∧
      ∃ record ∈ (l.runtimes true).records, ∃ res ∈ l.reports, record.intent = res.intent := by
  obtain ⟨l, tr, hrun, hone⟩ := smallLoop_runs
  have htold := runtimes_told resourceSlots hrun
  have hpos : 0 < (l.runtimes true).records.length := by omega
  obtain ⟨record, hrecord⟩ := List.exists_mem_of_length_pos hpos
  obtain ⟨res, hres, _, hintent, _⟩ := htold.records true record hrecord
  exact ⟨l, tr, hrun, htold, record, hrecord, res, hres, hintent⟩

end SloFabric
