/-
  File:      SloFabric/Threads.lean
  Subject:   The threads of the coordinator, one access at a time.

  A step of the coordinator handles a frame, or a round of the monitor, in one go. Its threads do
  not: the lock is not taken for the fabric, nor for the number of the next record, which is read
  and written in two accesses.

  * `Call`: where a thread is in `ingest_latency` or `ingest_availability`;
  * `Threaded`, `Threaded.step`: the coordinator, the calls its threads are in, and where the
    monitor is in its round, for which it holds the lock;
  * `Threaded.Does`: what an access can do;
  * `Coordinator.step_threads`, `run_threads`: a run of the coordinator is one of its threads;
  * `Threaded.fabricOps`, `step_performs`: what an access asks of the fabric;
  * `coordinator_refines`: a run of the threads, however they interleave, is a run of the fabric.
-/
import SloFabric.Service

namespace SloFabric

variable {R : Type}

/-! ## 1. Calls -/

/-- What `ingest_latency` or `ingest_availability` makes a record of. -/
structure Report (R : Type) where
  dimension : Dimension
  objectiveId : ObjectiveId
  value : ObjectiveValue R
  sampleCount : Count

/-- Where a thread is in such a call. -/
inductive Call (R : Type) where
  /-- Next `g_next_evidence` is read, ... -/
  | numbering (r : Report R)
  /-- ... and written; ... -/
  | bumping (r : Report R) (id : UInt64)
  /-- ... then the clock is read, and the record handed to the fabric. -/
  | ingesting (r : Report R) (id : UInt64)

/-- Where the monitor is, until it reports that worker A serves nothing. -/
inductive MonitorPhase where
  | asleep
  /-- The flags are set; next are the two recovery events. -/
  | observing
  | authorizing
  deriving DecidableEq

/-- The coordinator, the call the thread of a connection is in -- `none` is the monitor -- and where
    the monitor is. -/
structure Threaded (R : Type) where
  shared : Coordinator R
  calls : Option SocketHandle → Option (Call R) := fun _ => none
  monitor : MonitorPhase := .asleep

/-- What happens next: a step outside a call -- a round of the monitor begins with it --, the next
    access in a call, or the next event the monitor records. -/
inductive ThreadAct where
  | plain (act : Act)
  | call (who : Option SocketHandle) (now : Int64)
  | record (now : Int64)

/-- The step begins with the lock. -/
def Phase.locks : Phase → Bool
  | .registering _ | .stamping | .leaving => true
  | _ => false

namespace Report

variable [Double R]

def latency (latencyNs : R) : Report R :=
  ⟨.latency, kLatencyObjId, .duration (toInt64 latencyNs), 1⟩

def availability (bp : R) (sampleCount : Int64) : Report R :=
  ⟨.availability, kAvailObjId, .basisPoints (toInt64 bp), sampleCount⟩

omit [Double R] in
/-- The record. -/
def record (r : Report R) (id : UInt64) (epoch : CoordinatorEpoch) (now : Int64) :
    EvidenceRecord R :=
  { id := ⟨id⟩, dimension := r.dimension, objectiveId := r.objectiveId, objectiveGen := ⟨1⟩
    epoch := epoch, time := nowDur now, provenance := .measured, sampleCount := r.sampleCount
    value := r.value }

end Report

def Call.report : Call R → Report R
  | .numbering r | .bumping r _ | .ingesting r _ => r

/-! ## 2. Accesses -/

namespace Threaded

/-- The monitor holds the lock. -/
def locked (p : Threaded R) : Bool := p.monitor ≠ .asleep || (p.calls none).isSome

def setCall (p : Threaded R) (who : Option SocketHandle) (x : Option (Call R)) : Threaded R :=
  { p with calls := Function.update p.calls who x }

variable [Double R]

/-- What the monitor reports of a worker that is lost. -/
def silence : Report R := .availability (Double.ofRat 0) 1

/-- The call that evidence leads to, and where its thread goes on. -/
def callFor (c : Coordinator R) (m : EvidenceMessage R) : Option (Report R × Phase) :=
  if m.epoch ≠ c.epoch.value then none
  else if m.dimension = 0 then some (.latency m.value, .checking m.bootId)
  else if m.dimension = 2 then some (.availability m.value m.sampleCount, .stamping)
  else none

/-- The call that a frame leads to. -/
def callOf [Pod R] (c : Coordinator R) (f : Frame) : Option (Report R × Phase) :=
  if f.kind = .evidence then (decodeEvidence R f.payload).bind (callFor c) else none

/-- The number of the next record is written. -/
def bump (p : Threaded R) (id : UInt64) : Threaded R :=
  { p with shared := { p.shared with nextEvidence := id + 1 } }

/-- The record is handed to the fabric. -/
def hand (p : Threaded R) (r : Report R) (id : UInt64) (now : Int64) : Threaded R × Status :=
  let e := r.record id p.shared.epoch now
  let x := ingest p.shared.fabric e e.time
  ({ p with shared := { p.shared with fabric := x.1 } }, x.2)

/-- The next access of a thread that is in a call. -/
def goOn (p : Threaded R) (who : Option SocketHandle) (now : Int64) :
    Call R → Threaded R × Effect R
  | .numbering r => (p.setCall who (some (.bumping r p.shared.nextEvidence)), .went)
  | .bumping r id => ((p.bump id).setCall who (some (.ingesting r id)), .went)
  | .ingesting r id => ((p.hand r id now).1.setCall who none, .ingested (p.hand r id now).2)

/-- It changes the caller's call, which is about the same if it is not over, and no thread. -/
theorem goOn_frame (p : Threaded R) (who : Option SocketHandle) (now : Int64) (x : Call R) :
    (p.goOn who now x).1.shared.threads = p.shared.threads ∧
      (p.goOn who now x).1.shared.downA = p.shared.downA ∧
      (p.goOn who now x).1.monitor = p.monitor ∧
      ∃ y, (p.goOn who now x).1.calls = Function.update p.calls who y ∧
        ∀ z, y = some z → z.report = x.report := by
  cases x with
  | numbering r =>
    refine ⟨rfl, rfl, rfl, some (.bumping r p.shared.nextEvidence), rfl, fun z hz => ?_⟩
    cases hz
    rfl
  | bumping r id =>
    refine ⟨rfl, rfl, rfl, some (.ingesting r id), rfl, fun z hz => ?_⟩
    cases hz
    rfl
  | ingesting r id => exact ⟨rfl, rfl, rfl, none, rfl, nofun⟩

/-- The monitor wakes up, and takes the lock. Where it raises the alarm it looks at no other worker:
    the flag that A is down is up. -/
def wake (p : Threaded R) (now : Int64) : Threaded R × Effect R :=
  if p.shared.downA = false ∧ p.shared.workers.rows.any (·.lost now) = true then
    ({ p with
      shared := { p.shared with downA := true, recoveryAuth := true }, monitor := .observing },
      .ticked [])
  else (p, .ticked [])

/-- The next event the monitor records. -/
def raise (p : Threaded R) (now : Int64) : Option (Threaded R × Effect R) :=
  match p.monitor with
  | .asleep => none
  | .observing =>
    let r := p.shared.recordRecovery .observed now
    some ({ p with shared := r.1, monitor := .authorizing }, .recorded .observed r.2)
  | .authorizing =>
    let r := p.shared.recordRecovery .authoritative now
    some ({ p with shared := r.1, monitor := .asleep }.setCall none (some (.numbering silence)),
      .recorded .authoritative r.2)

variable [Platform R] [Pod R]

/-- A step of the coordinator that needs one access. -/
def once (p : Threaded R) (act : Act) : Option (Threaded R × Effect R) :=
  (p.shared.step act).map fun x => ({ p with shared := x.1 }, x.2)

/-- A thread reads a frame: it is handled, or leads to a call. -/
def read (p : Threaded R) (sock : SocketHandle) (f : Frame) (now : Int64) :
    Option (Threaded R × Effect R) :=
  match callOf p.shared f with
  | none => p.once (.receive sock f now)
  | some (r, next) =>
    if p.shared.threads sock = some .reading then
      some ({ p with shared := p.shared.goTo sock (some next) }.setCall (some sock)
        (some (.numbering r)), .went)
    else none

/-- One access. A thread that needs the lock waits for the monitor, and one that is in a call for
    its return. -/
def step (p : Threaded R) (act : ThreadAct) : Option (Threaded R × Effect R) :=
  if p.shared.exited then none
  else
    match act with
    | .plain (.receive sock f now) => p.read sock f now
    | .plain (.proceed sock now) =>
      if (p.calls (some sock)).isSome || p.locked && (p.shared.threads sock).any Phase.locks then
        none
      else p.once (.proceed sock now)
    | .plain (.tick now) => if p.locked then none else some (p.wake now)
    | .plain act => p.once act
    | .call who now => (p.calls who).map (p.goOn who now)
    | .record now => p.raise now

end Threaded

section Threads

variable [Double R] [Platform R] [Pod R]

/-- **What an access can do.** -/
inductive Threaded.Does (p : Threaded R) : ThreadAct → Threaded R → Effect R → Prop where
  /-- A step of the coordinator that needs one access, of a thread that is in no call. -/
  | once {act : Act} {c' : Coordinator R} {e : Effect R}
    (hcall : ∀ sock f now, act = .receive sock f now → callOf p.shared f = none)
    (hidle : ∀ sock now, act = .proceed sock now → p.calls (some sock) = none)
    (hround : ∀ now, act ≠ .tick now) (hs : p.shared.step act = some (c', e)) :
    Does p (.plain act) { p with shared := c' } e
  | call {sock : SocketHandle} {f : Frame} {now : Int64} {r : Report R} {next : Phase}
    (hcall : callOf p.shared f = some (r, next)) (hp : p.shared.threads sock = some .reading) :
    Does p (.plain (.receive sock f now))
      ({ p with shared := p.shared.goTo sock (some next) }.setCall (some sock)
        (some (.numbering r))) .went
  | wake {now : Int64} : Does p (.plain (.tick now)) (p.wake now).1 (.ticked [])
  | goOn {who : Option SocketHandle} {now : Int64} {x : Call R} (hx : p.calls who = some x) :
    Does p (.call who now) (p.goOn who now x).1 (p.goOn who now x).2
  | observe {now : Int64} (hm : p.monitor = .observing) :
    Does p (.record now)
      { p with shared := (p.shared.recordRecovery .observed now).1, monitor := .authorizing }
      (.recorded .observed (p.shared.recordRecovery .observed now).2)
  | authorize {now : Int64} (hm : p.monitor = .authorizing) :
    Does p (.record now)
      ({ p with
        shared := (p.shared.recordRecovery .authoritative now).1, monitor := .asleep }.setCall none
          (some (.numbering silence)))
      (.recorded .authoritative (p.shared.recordRecovery .authoritative now).2)

namespace Threaded

variable {p p' : Threaded R}

theorem read_does {sock : SocketHandle} {f : Frame} {now : Int64} {e : Effect R}
    (h : p.read sock f now = some (p', e)) : p.Does (.plain (.receive sock f now)) p' e := by
  unfold read at h
  split at h
  · rename_i hcall
    obtain ⟨x, hs, hp⟩ := Option.map_eq_some_iff.mp h
    cases hp
    refine .once (fun _ _ _ hact => ?_) nofun nofun hs
    cases hact
    exact hcall
  · rename_i hcall
    split_ifs at h with hp
    cases h
    exact .call hcall hp

/-- **Every access is one of these.** -/
theorem step_does {act : ThreadAct} {e : Effect R} (h : p.step act = some (p', e)) :
    p.Does act p' e := by
  have hone {a : Act} (ha : p.once a = some (p', e))
      (hcall : ∀ sock f now, a = .receive sock f now → callOf p.shared f = none)
      (hidle : ∀ sock now, a = .proceed sock now → p.calls (some sock) = none)
      (hround : ∀ now, a ≠ .tick now) : p.Does (.plain a) p' e := by
    obtain ⟨x, hs, hp⟩ := Option.map_eq_some_iff.mp ha
    cases hp
    exact .once hcall hidle hround hs
  unfold step at h
  split at h
  · cases h
  · cases act with
    | call who now =>
      obtain ⟨x, hx, hgo⟩ := Option.map_eq_some_iff.mp h
      obtain ⟨rfl, rfl⟩ := Prod.ext_iff.mp hgo
      exact .goOn hx
    | record now =>
      simp only [raise] at h
      split at h
      · cases h
      · rename_i hm
        cases h
        exact .observe hm
      · rename_i hm
        cases h
        exact .authorize hm
    | plain a =>
      cases a with
      | accept sock | lose sock => exact hone h nofun nofun nofun
      | receive sock f now => exact read_does h
      | proceed sock now =>
        simp only at h
        split at h
        · cases h
        · rename_i hfree
          simp only [Bool.or_eq_true, not_or, Bool.not_eq_true, Option.isSome_eq_false_iff,
            Option.isNone_iff_eq_none] at hfree
          refine hone h nofun (fun k t hact => ?_) nofun
          cases hact
          exact hfree.1
      | tick now =>
        simp only at h
        split at h
        · cases h
        · have hwake : (p.wake now).2 = .ticked [] := by
            unfold wake
            split <;> rfl
          obtain ⟨rfl, rfl⟩ := Prod.ext_iff.mp (Option.some.inj h)
          rw [hwake]
          exact .wake

end Threaded

/-! ## 3. Frames and rounds in one go -/

namespace Threaded

variable {p p' : Threaded R}

/-- A run of one access. -/
theorem ran {act : ThreadAct} {e : Effect R} (h : p.step act = some (p', e)) :
    Run step (fun _ _ => True) p [(act, e)] p' := Run.next .start trivial h

omit [Double R] [Platform R] [Pod R] in
theorem setCall_self (p : Threaded R) (who : Option SocketHandle) (x : Option (Call R)) :
    (p.setCall who x).calls who = x := Function.update_self ..

omit [Double R] [Platform R] [Pod R] in
theorem setCall_ne (p : Threaded R) {who k : Option SocketHandle} (x : Option (Call R))
    (hne : k ≠ who) : (p.setCall who x).calls k = p.calls k := Function.update_of_ne hne ..

omit [Double R] [Platform R] [Pod R] in
theorem setCall_setCall (p : Threaded R) (who : Option SocketHandle) (x y : Option (Call R)) :
    (p.setCall who x).setCall who y = p.setCall who y := by
  unfold setCall
  rw [Function.update_idem]

omit [Double R] [Platform R] [Pod R] in
theorem setCall_none {p : Threaded R} {who : Option SocketHandle} (h : p.calls who = none) :
    p.setCall who none = p := by
  unfold setCall
  rw [Function.update_eq_self_iff.mpr h.symm]

/-- The next access in a call. -/
theorem call_step (hexited : p.shared.exited = false) (who : Option SocketHandle) (x : Call R)
    (now : Int64) : (p.setCall who (some x)).step (.call who now) =
      some ((p.setCall who (some x)).goOn who now x) := by
  have hshared : (p.setCall who (some x)).shared.exited = false := hexited
  simp only [step, hshared, Bool.false_eq_true, if_false, setCall_self, Option.map_some]

/-- **A call that nobody interferes with** numbers the record and hands it to the fabric. -/
theorem call_runs (hexited : p.shared.exited = false) (who : Option SocketHandle) (r : Report R)
    (now : Int64) : ∃ tr, Run step (fun _ _ => True) (p.setCall who (some (.numbering r))) tr
      (((p.bump p.shared.nextEvidence).hand r p.shared.nextEvidence now).1.setCall who none) := by
  have hnumber : (p.setCall who (some (.numbering r))).step (.call who now) =
      some (p.setCall who (some (.bumping r p.shared.nextEvidence)), .went) := by
    rw [call_step hexited, goOn, setCall_setCall]
    rfl
  -- the number was read, and nobody else has written it
  have hbump : (p.setCall who (some (.bumping r p.shared.nextEvidence))).step (.call who now) =
      some ((p.bump p.shared.nextEvidence).setCall who
        (some (.ingesting r p.shared.nextEvidence)), .went) := by
    rw [call_step hexited, goOn]
    exact congrArg (fun x => some (x, Effect.went))
      ((p.bump p.shared.nextEvidence).setCall_setCall who _ _)
  have hbumped : (p.bump p.shared.nextEvidence).shared.exited = false := hexited
  have hingest := call_step hbumped who (.ingesting r p.shared.nextEvidence) now
  rw [goOn] at hingest
  have hdone := ((ran hnumber).next trivial hbump).next trivial hingest
  have hlast : (((p.bump p.shared.nextEvidence).setCall who
      (some (.ingesting r p.shared.nextEvidence))).hand r p.shared.nextEvidence now).1.setCall who
      none = ((p.bump p.shared.nextEvidence).hand r p.shared.nextEvidence now).1.setCall who none :=
    setCall_setCall ((p.bump p.shared.nextEvidence).hand r p.shared.nextEvidence now).1 who _ none
  exact ⟨_, hlast ▸ hdone⟩

omit [Platform R] in
/-- A request leads to no call. -/
theorem callOf_request {c : Coordinator R} {f : Frame} {x : Report R × Phase}
    (h : callOf c f = some x) : f.kind ≠ .evaluateRequest := by
  unfold callOf at h
  split_ifs at h with hkind
  rw [hkind]
  decide

/-- Evidence that leads to a call is handled by it. -/
theorem receive_call {c : Coordinator R} (sock : SocketHandle) {f : Frame} {r : Report R}
    {next : Phase} (h : callOf c f = some (r, next)) (now : Int64) :
    ∃ st, c.receive sock f now = some ({ c with
      fabric := (ingest c.fabric (r.record c.nextEvidence c.epoch now) (nowDur now)).1
      nextEvidence := c.nextEvidence + 1 }.goTo sock (some next), .ingested st) := by
  unfold callOf at h
  split_ifs at h with hkind
  obtain ⟨m, hm, hcall⟩ := Option.bind_eq_some_iff.mp h
  have hhello : f.kind ≠ .hello := by
    rw [hkind]
    decide
  unfold Coordinator.receive
  simp only [if_neg hhello, if_pos hkind, hm]
  unfold callFor at hcall
  unfold Coordinator.handleEvidence
  split_ifs at hcall with hepoch hlatency havail
  · cases hcall
    rw [if_neg hepoch, if_pos hlatency]
    exact ⟨_, rfl⟩
  · cases hcall
    rw [if_neg hepoch, if_neg hlatency, if_pos havail]
    exact ⟨_, rfl⟩

/-- Evidence that a thread reads, and the call it leads to. -/
theorem receive_runs {c : Coordinator R} {sock : SocketHandle} {f : Frame} {r : Report R}
    {next : Phase} (hexited : c.exited = false) (hreading : c.threads sock = some .reading)
    (h : callOf c f = some (r, next)) (now : Int64) :
    ∃ c' st tr, c.receive sock f now = some (c', .ingested st) ∧
      Run step (fun _ _ => True) { shared := c } tr { shared := c' } := by
  obtain ⟨st, hreceive⟩ := receive_call sock h now
  have hread : ({ shared := c } : Threaded R).step (.plain (.receive sock f now)) =
      some (setCall { shared := c.goTo sock (some next) } (some sock) (some (.numbering r)),
        .went) := by
    simp only [step, hexited, Bool.false_eq_true, if_false, read, h, if_pos hreading]
  obtain ⟨tr, hcall⟩ := call_runs (p := { shared := c.goTo sock (some next) }) hexited (some sock) r
    now
  rw [setCall_none rfl] at hcall
  exact ⟨_, st, _, hreceive, (ran hread).append hcall⟩

/-- The alarm, and the call the monitor makes. -/
theorem alarm_runs {c : Coordinator R} {now : Int64} (hexited : c.exited = false)
    (hup : c.downA = false) (hlost : c.workers.rows.any (·.lost now) = true) :
    ∃ tr, Run step (fun _ _ => True) { shared := c } tr { shared := (c.alarm now).1 } := by
  have hwake : ({ shared := c } : Threaded R).step (.plain (.tick now)) =
      some (⟨{ c with downA := true, recoveryAuth := true }, fun _ => none, .observing⟩,
        .ticked []) := by
    simp [step, hexited, locked, wake, hup, hlost]
  have hstep {p p' : Threaded R} {e : Effect R} (hp : p.shared.exited = false)
      (hraise : p.raise now = some (p', e)) : p.step (.record now) = some (p', e) := by
    simp only [step, hp, Bool.false_eq_true, if_false, hraise]
  have hobserved := (ran hwake).next trivial (hstep hexited rfl)
  have hauthoritative := hobserved.next trivial (hstep hexited rfl)
  obtain ⟨tr, hcall⟩ := call_runs (p := { shared := (({ c with
    downA := true, recoveryAuth := true }.recordRecovery .observed now).1.recordRecovery
      .authoritative now).1 }) hexited none silence now
  rw [setCall_none rfl] at hcall
  exact ⟨_, hauthoritative.append hcall⟩

end Threaded

/-- **A frame that is handled, or a round of the monitor that is made, in one go**: the threads can
    do it when none is in a call. -/
theorem Coordinator.step_threads {c c' : Coordinator R} {act : Act} {e : Effect R}
    (h : c.step act = some (c', e)) :
    ∃ tr, Run Threaded.step (fun _ _ => True) { shared := c } tr { shared := c' } := by
  have hexited : c.exited = false := by
    unfold step at h
    split_ifs at h with hexited
    exact Bool.not_eq_true _ ▸ hexited
  have hidle : ({ shared := c } : Threaded R).locked = false := rfl
  have hone (hact : ({ shared := c } : Threaded R).step (.plain act) =
      ({ shared := c } : Threaded R).once act) :
      ∃ tr, Run Threaded.step (fun _ _ => True) { shared := c } tr { shared := c' } := by
    refine ⟨_, Threaded.ran (e := e) (hact.trans ?_)⟩
    simp only [Threaded.once, h, Option.map_some]
  cases act with
  | accept sock | lose sock => exact hone (by simp [Threaded.step, hexited])
  | proceed sock now => exact hone (by simp [Threaded.step, hexited, hidle])
  | receive sock f now =>
    cases hcall : Threaded.callOf c f with
    | none => exact hone (by simp [Threaded.step, hexited, Threaded.read, hcall])
    | some x =>
      simp only [step, hexited, Bool.false_eq_true, if_false] at h
      split_ifs at h with hreading
      obtain ⟨c₁, st, tr, hreceive, hrun⟩ := Threaded.receive_runs hexited hreading hcall now
      cases hreceive.symm.trans h
      exact ⟨tr, hrun⟩
  | tick now =>
    simp only [step, hexited, Bool.false_eq_true, if_false] at h
    cases h
    rw [monitor_eq]
    split
    · rename_i hlost
      exact Threaded.alarm_runs hexited hlost.1 hlost.2
    · rename_i hcalm
      have hquiet : ({ shared := c } : Threaded R).step (.plain (.tick now)) =
          some ({ shared := c }, .ticked []) := by
        simp only [Threaded.step, hexited, Bool.false_eq_true, if_false, hidle, Threaded.wake,
          if_neg hcalm]
      exact ⟨_, Threaded.ran hquiet⟩

/-- So what the coordinator can come to in this way, its threads can. -/
theorem Coordinator.run_threads {C : Coordinator R → Act → Prop} {c c' : Coordinator R}
    {tr : List (Act × Effect R)} (h : Run Coordinator.step C c tr c') :
    ∃ tr', Run Threaded.step (fun _ _ => True) { shared := c } tr' { shared := c' } := by
  induction h with
  | start => exact ⟨[], .start⟩
  | next _ _ hstep ih =>
    obtain ⟨tr₁, hbefore⟩ := ih
    obtain ⟨tr₂, hlast⟩ := step_threads hstep
    exact ⟨tr₁ ++ tr₂, hbefore.append hlast⟩

/-! ## 4. What the threads ask of the fabric -/

/-- **What an access asks of the fabric**: one operation, or none. -/
def Threaded.fabricOps (p : Threaded R) : ThreadAct → List (Op R)
  | .plain (.tick _) => []
  | .plain (.receive _ f now) =>
    if f.kind = .evaluateRequest then [.evaluate ⟨100⟩ ⟨200⟩ (nowDur now)] else []
  | .plain act => p.shared.fabricOps act
  | .call who now =>
    match p.calls who with
    | some (.ingesting r id) => [.ingest (r.record id p.shared.epoch now) (nowDur now)]
    | _ => []
  | .record now =>
    match p.monitor with
    | .asleep => []
    | .observing => [Coordinator.recoveryOp .observed now]
    | .authorizing => [Coordinator.recoveryOp .authoritative now]

/-- An access, as the fabric sees it. -/
structure Threaded.Performs (p : Threaded R) (act : ThreadAct) (p' : Threaded R) (e : Effect R)
    (ftr : Trace R) : Prop where
  run : Runs p.shared.fabric ftr p'.shared.fabric
  ops : ftr.map (·.1) = p.fabricOps act
  tells : e.Tells p.shared ftr
  epoch : p'.shared.epoch = p.shared.epoch

namespace Threaded

variable {p p' : Threaded R} {act : ThreadAct} {e : Effect R}

/-- An access that does not ask the fabric. -/
theorem Performs.none (hfabric : p'.shared.fabric = p.shared.fabric)
    (hepoch : p'.shared.epoch = p.shared.epoch) (hops : p.fabricOps act = [])
    (htells : e.Tells p.shared []) : p.Performs act p' e [] := by
  refine ⟨?_, hops.symm, htells, hepoch⟩
  rw [hfabric]
  exact .start

omit [Platform R] in
/-- Evidence that leads to no call asks nothing. -/
theorem evidence_ops {c : Coordinator R} {sock : SocketHandle} {f : Frame} {now : Int64}
    (h : callOf c f = Option.none) : c.fabricOps (.receive sock f now) =
      if f.kind = .evaluateRequest then [.evaluate ⟨100⟩ ⟨200⟩ (nowDur now)] else [] := by
  unfold Coordinator.fabricOps
  by_cases hkind : f.kind = .evidence
  · have hother : f.kind ≠ .evaluateRequest := by
      rw [hkind]
      decide
    rw [callOf, if_pos hkind] at h
    simp only [if_pos hkind, if_neg hother]
    cases hm : decodeEvidence R f.payload with
    | none => rfl
    | some m =>
      rw [hm, Option.bind_some, callFor] at h
      simp only [Option.map_some, Option.getD_some, Coordinator.evidenceOps]
      split_ifs at h ⊢
      · rfl
      · rfl
  · simp only [if_neg hkind]

/-- A step of the coordinator that is one access. -/
theorem once_performs {a : Act} {c' : Coordinator R}
    (hcall : ∀ sock f now, a = .receive sock f now → callOf p.shared f = Option.none)
    (hround : ∀ now, a ≠ .tick now) (h : p.shared.step a = some (c', e)) :
    ∃ ftr, p.Performs (.plain a) { p with shared := c' } e ftr := by
  obtain ⟨ftr, hperforms⟩ := Coordinator.coordinator_step h
  refine ⟨ftr, hperforms.run, ?_, hperforms.tells, hperforms.epoch⟩
  rw [hperforms.ops]
  cases a with
  | tick now => exact absurd rfl (hround now)
  | receive sock f now => exact evidence_ops (hcall sock f now rfl)
  | accept | lose | proceed => rfl

/-- The next access in a call. -/
theorem goOn_performs {who : Option SocketHandle} {x : Call R} (hx : p.calls who = some x)
    (now : Int64) : ∃ ftr, p.Performs (.call who now) (p.goOn who now x).1 (p.goOn who now x).2
      ftr := by
  cases x with
  | numbering r | bumping r id =>
    refine ⟨[], .none rfl rfl ?_ rfl⟩
    simp only [fabricOps, hx]
  | ingesting r id =>
    refine ⟨_, Runs.one rfl, ?_, ⟨_, _, rfl⟩, rfl⟩
    simp only [fabricOps, hx]
    rfl

/-- **An access is a run of the fabric.** -/
theorem step_performs (h : p.step act = some (p', e)) : ∃ ftr, p.Performs act p' e ftr := by
  cases step_does h with
  | once hcall _ hround hs => exact once_performs hcall hround hs
  | call hcall _ =>
    refine ⟨[], .none rfl rfl ?_ rfl⟩
    simp only [fabricOps, if_neg (callOf_request hcall)]
  | wake =>
    refine ⟨[], .none ?_ ?_ rfl rfl⟩
    · unfold wake
      split <;> rfl
    · unfold wake
      split <;> rfl
  | goOn hx => exact goOn_performs hx _
  | @observe now hm | @authorize now hm =>
    refine ⟨_, Runs.one rfl, ?_, ⟨now, rfl⟩, rfl⟩
    simp only [fabricOps, hm]
    rfl

end Threaded

/-! ## 5. Runs -/

/-- An observer that notes the operations. -/
def noteOps (p : Threaded R) (ops : List (Op R)) (x : ThreadAct × Effect R) : List (Op R) :=
  ops ++ p.fabricOps x.1

omit [Platform R] in
theorem Threaded.fabricOps_fromThread {p : Threaded R} {act : ThreadAct} {op : Op R}
    (h : op ∈ p.fabricOps act) : op.fromThread = true := by
  cases act with
  | call who now =>
    simp only [fabricOps] at h
    split at h
    · rw [List.mem_singleton.mp h]
      rfl
    · cases h
  | record now =>
    simp only [fabricOps] at h
    split at h
    · cases h
    · rw [List.mem_singleton.mp h]
      rfl
    · rw [List.mem_singleton.mp h]
      rfl
  | plain a =>
    cases a with
    | tick now => cases h
    | receive sock f now =>
      simp only [fabricOps] at h
      split at h
      · rw [List.mem_singleton.mp h]
        rfl
      · cases h
    | accept | lose | proceed =>
      simp only [fabricOps] at h
      exact Coordinator.fabricOps_fromThread h

/-- None of them loads a file. -/
theorem Threaded.Performs.sameEpoch {p p' : Threaded R} {act : ThreadAct} {e : Effect R}
    {ftr : Trace R} (h : p.Performs act p' e ftr) :
    p'.shared.fabric.epoch = p.shared.fabric.epoch := by
  refine h.run.epoch fun x hx file hload => ?_
  have hmem := List.mem_map_of_mem (f := (·.1)) hx
  rw [h.ops] at hmem
  have hthread := fabricOps_fromThread hmem
  rw [hload] at hthread
  cases hthread

/-- **A coordinator does nothing that the fabric could not do alone.** Whatever its threads, its
    monitor and its clients do, and however their accesses interleave, its fabric went through a
    run: the operations of the accesses, in their order; and the coordinator's epoch is the
    fabric's. -/
theorem coordinator_refines {C : Watched (Threaded R) (List (Op R)) → ThreadAct → Prop}
    {file : Option (Option Bytes)} {now : Int64} {tr : List (ThreadAct × Effect R)}
    {w : Watched (Threaded R) (List (Op R))}
    (h : Run (watch Threaded.step noteOps) C
      ⟨{ shared := .start file now }, Coordinator.startOps R file now⟩ tr w) :
    w.state.shared.epoch = w.state.shared.fabric.epoch ∧
      ∃ ftr, Runs (State.fresh R) ftr w.state.shared.fabric ∧ ftr.map (·.1) = w.seen := by
  refine h.invariant (I := fun w => w.state.shared.epoch = w.state.shared.fabric.epoch ∧
    ∃ ftr, Runs (State.fresh R) ftr w.state.shared.fabric ∧ ftr.map (·.1) = w.seen)
    (start_runs file now) ?_
  rintro w act w' e ⟨hepoch, ftr, hrun, hops⟩ _ hs
  obtain ⟨hstep, hseen⟩ := watch_cases hs
  obtain ⟨ftr', hperforms⟩ := Threaded.step_performs hstep
  refine ⟨?_, ftr ++ ftr', hrun.append hperforms.run, ?_⟩
  · rw [hperforms.epoch, hepoch, hperforms.sameEpoch]
  · rw [List.map_append, hops, hperforms.ops, hseen]
    rfl

end Threads

/-- Two connections with evidence. Their threads read the same number before either writes the
    next one, and hand their records over. -/
def raceForNumber : List ThreadAct :=
  [.plain (.accept 3), .plain (.accept 4), .plain (.receive 3 evidenceFrame 0),
    .plain (.receive 4 evidenceFrame 0), .call (some 3) 0, .call (some 4) 0, .call (some 3) 0,
    .call (some 4) 0, .call (some 3) 0, .call (some 4) 0]

/-- A record is refused, as a duplicate. -/
def refusesDuplicate : ThreadAct × Effect Binary64 → Bool
  | (_, .ingested st) => st.code == .cancelled
  | _ => false

/-- The scenario's operations and the two records, of which the second is refused. -/
theorem coordinator_refines_small :
    ∃ (tr : List (ThreadAct × Effect Binary64))
      (w : Watched (Threaded Binary64) (List (Op Binary64))) (ftr : Trace Binary64),
      w.seen.length = 5 ∧ tr.getLast?.any refusesDuplicate = true ∧
      Runs (State.fresh Binary64) ftr w.state.shared.fabric ∧ ftr.map (·.1) = w.seen ∧
      Run (watch Threaded.step noteOps) (fun _ _ => True)
        ⟨{ shared := .start none 0 }, Coordinator.startOps Binary64 none 0⟩ tr w := by
  have htest : (execute (watch Threaded.step noteOps) (fun _ _ => true)
      (⟨{ shared := .start none 0 }, Coordinator.startOps Binary64 none 0⟩ :
        Watched (Threaded Binary64) (List (Op Binary64))) raceForNumber).any
      (fun x => decide (x.1.seen.length = 5) && x.2.getLast?.any refusesDuplicate) = true := by
    decide +kernel
  obtain ⟨w, tr, hrun, hw⟩ := Run.of_test (fun _ _ _ => trivial) htest
  obtain ⟨hlen, hrefused⟩ := Bool.and_eq_true_iff.mp hw
  obtain ⟨_, ftr, hfabric, hops⟩ := coordinator_refines hrun
  exact ⟨tr, w, ftr, of_decide_eq_true hlen, hrefused, hfabric, hops, hrun⟩

end SloFabric
