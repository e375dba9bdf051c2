/-
  File:      SloFabric/Routing.lean
  Subject:   The narrow interfaces of the runtimes and the router that picks one of them.

  The runtimes are whatever is behind the interfaces: a method answers a status and may change a
  world `W`. The pointers of the router are slots that may be empty, and the sink of the source
  can be plugged into any of them, one sink into several.

  * `IAdmissionEnforcer` .. `IPowerEnforcer`, `EnforcementRouter.dispatch`: as in the source;
  * `interfaceOf`: which interface an action belongs to, the fact behind the switch;
  * `Slots.router`: the router whose pointers are sinks, `router_dispatch`: what it does;
  * `Wiring`: sinks and router under any use, with everything a sink was ever handed noted;
  * `routed_once`: a sink has recorded exactly what it was handed since it was cleared, in order,
    numbered through, and through an interface it was only handed actions of that interface.
-/
import SloFabric.Dispatch

namespace SloFabric

/-! ## 1. The interfaces -/

/-- A method of a runtime in a world `W`. -/
abbrev EnforcerMethod (W : Type) := EnforcementIntent → W → W × Status

structure IAdmissionEnforcer (W : Type) where
  /-- The method `admit` of the source. -/
  admitIntent : EnforcerMethod W
  defer : EnforcerMethod W
  reject : EnforcerMethod W
  throttle : EnforcerMethod W

structure ISchedulerEnforcer (W : Type) where
  changeQueuePriority : EnforcerMethod W
  reserveCapacity : EnforcerMethod W

structure IResourceEnforcer (W : Type) where
  increaseCapacity : EnforcerMethod W
  replicate : EnforcerMethod W
  promoteWarmCapacity : EnforcerMethod W
  changePlacement : EnforcerMethod W

structure IRecoveryEnforcer (W : Type) where
  failover : EnforcerMethod W
  recover : EnforcerMethod W
  replanRecovery : EnforcerMethod W
  drain : EnforcerMethod W

structure IMemoryEnforcer (W : Type) where
  reclaimMemory : EnforcerMethod W
  reduceResidency : EnforcerMethod W

structure IPreemptionEnforcer (W : Type) where
  preemptLowerPriority : EnforcerMethod W

structure IPowerEnforcer (W : Type) where
  limitPower : EnforcerMethod W

/-! ## 2. The router -/

/-- The router. A null pointer is `none`. -/
structure EnforcementRouter (W : Type) where
  admission : Option (IAdmissionEnforcer W) := none
  scheduler : Option (ISchedulerEnforcer W) := none
  resource : Option (IResourceEnforcer W) := none
  recovery : Option (IRecoveryEnforcer W) := none
  memory : Option (IMemoryEnforcer W) := none
  preemption : Option (IPreemptionEnforcer W) := none
  power : Option (IPowerEnforcer W) := none

section Router

variable {W : Type}

/-- `slot ? slot->method(i) : not_ready(missing)` -/
def callOr {E : Type} (slot : Option E) (method : E → EnforcerMethod W) (missing : String)
    (i : EnforcementIntent) (w : W) : W × Status :=
  match slot with
  | some e => method e i w
  | none => (w, notReady missing)

/-- Route an intent to the interface of its action. -/
def EnforcementRouter.dispatch (r : EnforcementRouter W) (i : EnforcementIntent) (w : W) :
    W × Status :=
  match i.action with
  | .admitted => callOr r.admission (·.admitIntent) "no admission enforcer" i w
  | .defer => callOr r.admission (·.defer) "no admission enforcer" i w
  | .reject => callOr r.admission (·.reject) "no admission enforcer" i w
  | .throttle => callOr r.admission (·.throttle) "no admission enforcer" i w
  | .changeQueuePriority =>
    callOr r.scheduler (·.changeQueuePriority) "no scheduler enforcer" i w
  | .reserveCapacity => callOr r.scheduler (·.reserveCapacity) "no scheduler enforcer" i w
  | .increaseCapacity => callOr r.resource (·.increaseCapacity) "no resource enforcer" i w
  | .replicate => callOr r.resource (·.replicate) "no resource enforcer" i w
  | .promoteWarmCapacity => callOr r.resource (·.promoteWarmCapacity) "no resource enforcer" i w
  | .changePlacement => callOr r.resource (·.changePlacement) "no resource enforcer" i w
  | .failover => callOr r.recovery (·.failover) "no recovery enforcer" i w
  | .recover => callOr r.recovery (·.recover) "no recovery enforcer" i w
  | .replanRecovery => callOr r.recovery (·.replanRecovery) "no recovery enforcer" i w
  | .drain => callOr r.recovery (·.drain) "no recovery enforcer" i w
  | .reclaimMemory => callOr r.memory (·.reclaimMemory) "no memory enforcer" i w
  | .reduceResidency => callOr r.memory (·.reduceResidency) "no memory enforcer" i w
  | .preemptLowerPriority =>
    callOr r.preemption (·.preemptLowerPriority) "no preemption enforcer" i w
  | .limitPower => callOr r.power (·.limitPower) "no power enforcer" i w
  | .noAction => (w, ok)
  | .reduceBatchSize | .increaseBatchSize | .escalate | .manualInterventionRequired => (w, ok)
  -- a value that is none of the enumerators falls out of the switch
  | .undeclared => (w, invalidInput "unmapped enforcement action")

end Router

/-- The seven interfaces. -/
inductive Interface where
  | admission | scheduler | resource | recovery | memory | preemption | power
  deriving DecidableEq

/-- The interface an action is a method of. -/
def interfaceOf : EnforcementAction → Option Interface
  | .admitted | .defer | .reject | .throttle => some .admission
  | .changeQueuePriority | .reserveCapacity => some .scheduler
  | .increaseCapacity | .replicate | .promoteWarmCapacity | .changePlacement => some .resource
  | .failover | .recover | .replanRecovery | .drain => some .recovery
  | .reclaimMemory | .reduceResidency => some .memory
  | .preemptLowerPriority => some .preemption
  | .limitPower => some .power
  | .noAction | .reduceBatchSize | .increaseBatchSize | .escalate
  | .manualInterventionRequired | .undeclared => none

def Interface.missing : Interface → String
  | .admission => "no admission enforcer"
  | .scheduler => "no scheduler enforcer"
  | .resource => "no resource enforcer"
  | .recovery => "no recovery enforcer"
  | .memory => "no memory enforcer"
  | .preemption => "no preemption enforcer"
  | .power => "no power enforcer"

/-! ## 3. Sinks behind the interfaces -/

/-- The sinks there are, by their address. -/
abbrev Sinks (K : Type) := K → ReferenceEnforcementSink

/-- Which sink each pointer of the router points to. -/
abbrev Slots (K : Type) := Interface → Option K

section Sinks

variable {K : Type} [DecidableEq K]

/-- `dispatch` of the sink at `k`, which all its methods are calls of. -/
def Sinks.pass (k : K) (action : EnforcementAction) : EnforcerMethod (Sinks K) := fun i sinks =>
  (Function.update sinks k ((sinks k).dispatch action i).1, ((sinks k).dispatch action i).2)

/-- The router with sinks behind its pointers. A sink implements every interface. -/
def Slots.router (slots : Slots K) : EnforcementRouter (Sinks K) where
  admission := (slots .admission).map fun k =>
    { admitIntent := Sinks.pass k .admitted, defer := Sinks.pass k .defer
      reject := Sinks.pass k .reject, throttle := Sinks.pass k .throttle }
  scheduler := (slots .scheduler).map fun k =>
    { changeQueuePriority := Sinks.pass k .changeQueuePriority
      reserveCapacity := Sinks.pass k .reserveCapacity }
  resource := (slots .resource).map fun k =>
    { increaseCapacity := Sinks.pass k .increaseCapacity
      replicate := Sinks.pass k .replicate
      promoteWarmCapacity := Sinks.pass k .promoteWarmCapacity
      changePlacement := Sinks.pass k .changePlacement }
  recovery := (slots .recovery).map fun k =>
    { failover := Sinks.pass k .failover, recover := Sinks.pass k .recover
      replanRecovery := Sinks.pass k .replanRecovery, drain := Sinks.pass k .drain }
  memory := (slots .memory).map fun k =>
    { reclaimMemory := Sinks.pass k .reclaimMemory
      reduceResidency := Sinks.pass k .reduceResidency }
  preemption := (slots .preemption).map fun k =>
    { preemptLowerPriority := Sinks.pass k .preemptLowerPriority }
  power := (slots .power).map fun k => { limitPower := Sinks.pass k .limitPower }

/-- The sink an intent is routed to. -/
def Slots.target (slots : Slots K) (action : EnforcementAction) : Option K :=
  (interfaceOf action).bind slots

/-- What the router answers by itself. -/
def unrouted (action : EnforcementAction) : Status :=
  match interfaceOf action with
  | some f => notReady f.missing
  | none => if action = .undeclared then invalidInput "unmapped enforcement action" else ok

omit [DecidableEq K] in
/-- A pointer to a sink is null or calls that sink. -/
theorem callOr_map {W E : Type} (slot : Option K) (object : K → E) (method : E → EnforcerMethod W)
    (missing : String) (i : EnforcementIntent) (w : W) :
    callOr (slot.map object) method missing i w =
      match slot with
      | some k => method (object k) i w
      | none => (w, notReady missing) := by
  cases slot <;> rfl

/-- **Where the router goes**: it hands the intent, as the action it asks for, to the sink in the
    slot of that action's interface, or answers by itself and touches nothing. -/
theorem router_dispatch (slots : Slots K) (i : EnforcementIntent) (sinks : Sinks K) :
    slots.router.dispatch i sinks =
      match slots.target i.action with
      | some k => Sinks.pass k i.action i sinks
      | none => (sinks, unrouted i.action) := by
  unfold EnforcementRouter.dispatch Slots.target unrouted
  cases i.action <;>
    simp only [interfaceOf, Option.bind_some, Option.bind_none, Slots.router, callOr_map,
      Interface.missing, if_true, reduceCtorEq, if_false]

end Sinks

/-! ## 4. Any use of the router and its sinks -/

/-- The router and the sinks. -/
structure Wiring (K : Type) where
  slots : Slots K := fun _ => none
  sinks : Sinks K := fun _ => {}

/-- What is done with them. The pointers are public, and so is `dispatch` of a sink. -/
inductive WiringAct (K : Type) where
  | plug (f : Interface) (k : Option K)
  | route (i : EnforcementIntent)
  | hand (k : K) (action : EnforcementAction) (i : EnforcementIntent)
  | fence (k : K) (epoch : CoordinatorEpoch) (contractGen : SloContractGen)
      (policyGen : PolicyGen) (evalGen : EvaluationGen)
  | unfence (k : K)
  | setFailAll (k : K) (b : Bool)
  | clear (k : K)

def ReferenceEnforcementSink.clear (sink : ReferenceEnforcementSink) : ReferenceEnforcementSink :=
  { sink with records := [] }

def ReferenceEnforcementSink.setFailAll (sink : ReferenceEnforcementSink) (b : Bool) :
    ReferenceEnforcementSink :=
  { sink with failAll := b }

section Wiring

variable {K : Type} [DecidableEq K]

/-- A call of a sink that answers nothing. -/
def Wiring.setSink (w : Wiring K) (k : K) (sink : ReferenceEnforcementSink) : Wiring K :=
  { w with sinks := Function.update w.sinks k sink }

/-- **One call**, and what it answers. -/
def Wiring.step (w : Wiring K) : WiringAct K → Option (Wiring K × Option Status)
  | .plug f k => some ({ w with slots := Function.update w.slots f k }, none)
  | .route i =>
    let x := w.slots.router.dispatch i w.sinks
    some ({ w with sinks := x.1 }, some x.2)
  | .hand k action i =>
    let x := Sinks.pass k action i w.sinks
    some ({ w with sinks := x.1 }, some x.2)
  | .fence k epoch contractGen policyGen evalGen =>
    some (w.setSink k ((w.sinks k).setAuthorizedGenerations epoch contractGen policyGen evalGen),
      none)
  | .unfence k => some (w.setSink k (w.sinks k).disableGenerationFence, none)
  | .setFailAll k b => some (w.setSink k ((w.sinks k).setFailAll b), none)
  | .clear k => some (w.setSink k (w.sinks k).clear, none)

/-- An intent a sink was handed: through which interface, or directly, as which action, and what
    the caller was answered. -/
structure Handed where
  via : Option Interface
  action : EnforcementAction
  intent : EnforcementIntent
  answer : Status

/-- What an observer knows of a sink: all it was ever handed, and how much of it was forgotten by
    `clear`. -/
structure SinkLog where
  all : List Handed := []
  forgotten : Nat := 0

/-- The observer of the sinks. -/
def noteHanded (w : Wiring K) (log : K → SinkLog) (x : WiringAct K × Option Status) :
    K → SinkLog :=
  let noted (k : K) (via : Option Interface) (action : EnforcementAction)
      (i : EnforcementIntent) : K → SinkLog :=
    match x.2 with
    | none => log
    | some st =>
      Function.update log k { log k with all := (log k).all ++ [⟨via, action, i, st⟩] }
  match x.1 with
  | .route i =>
    match w.slots.target i.action with
    | some k => noted k (interfaceOf i.action) i.action i
    | none => log
  | .hand k action i => noted k none action i
  | .clear k => Function.update log k { log k with forgotten := (log k).all.length }
  | _ => log

/-- The records of what was handed to a sink: what is not forgotten, numbered by its place in all
    that was ever handed to it. -/
def SinkLog.records (log : SinkLog) : List DispatchRecord :=
  ((log.all.zipIdx 1).drop log.forgotten).map fun x =>
    ⟨x.1.action, x.1.intent, x.1.answer, UInt64.ofNat x.2⟩

/-- What a sink has recorded, against what it was handed. -/
structure SinkLog.Kept (log : SinkLog) (sink : ReferenceEnforcementSink) : Prop where
  seq : sink.seq = UInt64.ofNat log.all.length
  forgotten : log.forgotten ≤ log.all.length
  records : sink.records = log.records
  /-- Through an interface comes what is a method of it, under its own name. -/
  legal : ∀ x ∈ log.all, ∀ f, x.via = some f →
    x.action = x.intent.action ∧ interfaceOf x.action = some f

namespace SinkLog.Kept

omit [DecidableEq K]

theorem fresh : SinkLog.Kept {} {} where
  seq := rfl
  forgotten := Nat.le_refl _
  records := rfl
  legal _ hx := absurd hx List.not_mem_nil

variable {log : SinkLog} {sink sink' : ReferenceEnforcementSink}

/-- A call that leaves records and numbering alone. -/
theorem untouched (h : log.Kept sink) (hrecords : sink'.records = sink.records)
    (hseq : sink'.seq = sink.seq) : log.Kept sink' where
  seq := hseq.trans h.seq
  forgotten := h.forgotten
  records := hrecords.trans h.records
  legal := h.legal

theorem clear (h : log.Kept sink) :
    SinkLog.Kept { log with forgotten := log.all.length } sink.clear where
  seq := h.seq
  forgotten := Nat.le_refl _
  records := by
    have hnil : (log.all.zipIdx 1).drop log.all.length = [] :=
      List.drop_eq_nil_of_le (List.length_zipIdx).le
    rw [SinkLog.records, hnil]
    rfl
  legal := h.legal

/-- **One intent handed over**: whatever the sink answers, it has recorded that. -/
theorem hand (h : log.Kept sink) {via : Option Interface} (action : EnforcementAction)
    (i : EnforcementIntent)
    (hvia : ∀ f, via = some f → action = i.action ∧ interfaceOf action = some f) :
    SinkLog.Kept
      { log with all := log.all ++ [⟨via, action, i, (sink.dispatch action i).2⟩] }
      (sink.dispatch action i).1 := by
  obtain ⟨st, hst, _⟩ := sink_dispatch sink action i
  rw [hst]
  have hnext : sink.seq + 1 = UInt64.ofNat (log.all.length + 1) := by
    rw [h.seq, UInt64.ofNat_add]
    rfl
  refine ⟨?_, ?_, ?_, ?_⟩
  · show sink.seq + 1 = _
    rw [hnext, List.length_append, List.length_singleton]
  · show log.forgotten ≤ (log.all ++ [_]).length
    rw [List.length_append]
    exact Nat.le_add_right_of_le h.forgotten
  · show sink.records ++ [_] = _
    have hdrop : log.forgotten ≤ (log.all.zipIdx 1).length := by
      rw [List.length_zipIdx]
      exact h.forgotten
    rw [h.records, SinkLog.records, SinkLog.records, List.zipIdx_append,
      List.drop_append_of_le_length hdrop, List.map_append, hnext, Nat.add_comm]
    rfl
  · intro x hx f hf
    rcases List.mem_append.mp hx with hx | hx
    · exact h.legal x hx f hf
    · obtain rfl := List.mem_singleton.mp hx
      exact hvia f hf

end SinkLog.Kept

/-- All sinks have kept what they were handed. -/
def AllKept (w : Watched (Wiring K) (K → SinkLog)) : Prop :=
  ∀ k, (w.seen k).Kept (w.state.sinks k)

/-- A call of the sink at `k` alone, with what the observer then knows of it. -/
theorem AllKept.update {slots slots' : Slots K} {sinks : Sinks K} {log : K → SinkLog}
    (h : AllKept ⟨⟨slots, sinks⟩, log⟩) (k : K) {sink : ReferenceEnforcementSink}
    {entry : SinkLog} (hk : entry.Kept sink) :
    AllKept ⟨⟨slots', Function.update sinks k sink⟩, Function.update log k entry⟩ := by
  intro k'
  by_cases he : k' = k
  · subst he
    simpa only [Function.update_self] using hk
  · simpa only [Function.update_of_ne he] using h k'

/-- **One call.** -/
theorem allKept_step {w w' : Watched (Wiring K) (K → SinkLog)} {act : WiringAct K}
    {a : Option Status} (hw : AllKept w) (h : watch Wiring.step noteHanded w act = some (w', a)) :
    AllKept w' := by
  obtain ⟨⟨slots, sinks⟩, log⟩ := w
  obtain ⟨w', log'⟩ := w'
  obtain ⟨hs, hseen⟩ := watch_cases h
  simp only at hs hseen
  subst hseen
  -- a call that answers nothing leaves what the observer knows as it is
  have hset (k : K) (sink : ReferenceEnforcementSink) (hrecords : sink.records = (sinks k).records)
      (hseq : sink.seq = (sinks k).seq) :
      AllKept ⟨⟨slots, Function.update sinks k sink⟩, log⟩ := by
    have hupdate : AllKept ⟨⟨slots, Function.update sinks k sink⟩, Function.update log k (log k)⟩ :=
      hw.update k ((hw k).untouched hrecords hseq)
    rwa [Function.update_eq_self] at hupdate
  cases act with
  | plug f k => cases hs; exact hw
  | route i =>
    cases hs
    simp only [noteHanded, router_dispatch]
    cases htarget : slots.target i.action with
    | none => exact hw
    | some k =>
      exact hw.update k ((hw k).hand i.action i fun f hf => ⟨rfl, hf⟩)
  | hand k action i =>
    cases hs
    exact hw.update k ((hw k).hand action i fun f hf => by cases hf)
  | fence k epoch contractGen policyGen evalGen =>
    cases hs
    exact hset k _ rfl rfl
  | unfence k => cases hs; exact hset k _ rfl rfl
  | setFailAll k b => cases hs; exact hset k _ rfl rfl
  | clear k => cases hs; exact hw.update k (hw k).clear

/-! ## 5. Every intent exactly once -/

/-- **Every intent is recorded exactly once, where it belongs.** Whatever pointers of the router
    are changed, whatever is routed or handed to a sink directly and however the sinks are set in
    between: the records of each sink are exactly what it was handed since it was last cleared,
    in order, each with the answer its caller got and numbered by its place in all that was ever
    handed to the sink; and what came through an interface is a method of it. -/
theorem routed_once {tr : List (WiringAct K × Option Status)}
    {w : Watched (Wiring K) (K → SinkLog)}
    (h : Run (watch Wiring.step noteHanded) (fun _ _ => True) ⟨{}, fun _ => {}⟩ tr w) (k : K) :
    (w.seen k).Kept (w.state.sinks k) :=
  h.invariant (I := AllKept) (fun _ => .fresh) (fun _ _ _ _ hw _ hs => allKept_step hw hs) k

end Wiring

/-- A sink for capacity and memory that is cleared in between, and an intent that finds no
    runtime. -/
theorem routed_once_small :
    let intent : EnforcementIntent := { smallIntent 1 with action := .reclaimMemory }
    ∃ (w : Watched (Wiring Bool) (Bool → SinkLog)) (tr : List (WiringAct Bool × Option Status)),
      Run (watch Wiring.step noteHanded) (fun _ _ => True) ⟨{}, fun _ => {}⟩ tr w ∧
      (w.state.sinks true).records =
        [⟨.replicate, { intent with action := .replicate }, ok, 2⟩] ∧
      (w.seen true).Kept (w.state.sinks true) := by
  intro intent
  let acts : List (WiringAct Bool) :=
    [.plug .memory (some true), .route intent, .clear true, .plug .resource (some true),
      .route { intent with action := .replicate }, .route { intent with action := .failover }]
  have htest : (execute (watch (Wiring.step (K := Bool)) noteHanded) (fun _ _ => true)
      ⟨{}, fun _ => {}⟩ acts).any (fun x => decide ((x.1.state.sinks true).records =
        [⟨.replicate, { intent with action := .replicate }, ok, 2⟩])) = true := by
    decide +kernel
  obtain ⟨w, tr, hrun, hp⟩ := Run.of_test (fun _ _ _ => trivial) htest
  exact ⟨w, tr, hrun, of_decide_eq_true hp, routed_once hrun true⟩

end SloFabric
