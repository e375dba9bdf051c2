/-
  File:      SloFabric/Coordinator.lean
  Subject:   The coordinator process of the distributed proof.

  One thread serves each connection, and a monitor looks for workers that have gone silent. The
  coordinator is a machine that takes one step of one of them at a time: a thread reads a frame, or
  goes on from where it is (`Phase`) to its next access to what the threads share. A frame of
  evidence, and a round of the monitor, is handled in one go; Threads.lean takes them apart.

  * `decodeHello`, `decodeEvidence`: the payloads of the workers;
  * `Coordinator`: the shared state and where every thread is;
  * `receive`, `proceed`, `monitor`: what a thread does with a frame, what it does next, and one
    round of the monitor;
  * `step`: one step; the kernel hands out a handle again once it is closed;
  * `monitor_eq`: what a round of the monitor comes to;
  * `Does`: what a step can do.

  A step reads the clock once. Not here: the listener, and what the printed lines say.
-/
import SloFabric.Frame
import SloFabric.Machine
import SloFabric.Library.Publishing

namespace SloFabric

variable {R : Type}

open Codec

/-! ## 1. Payloads -/

abbrev SocketHandle := Nat

namespace FrameKind

def hello : FrameKind := ⟨0⟩
def evidence : FrameKind := ⟨2⟩
def heartbeat : FrameKind := ⟨3⟩
def evaluateRequest : FrameKind := ⟨4⟩
def kill : FrameKind := ⟨8⟩
def shutdown : FrameKind := ⟨9⟩

end FrameKind

/-- `read_string` under a bound. -/
def readStringOf (bound : Nat) : Reader Bytes := do
  let len ← readU64
  check (len.toNat ≤ bound)
  take len.toNat

/-- What a worker says hello with. -/
structure Hello where
  name : Bytes
  bootId : UInt64
  epoch : UInt64
  deriving DecidableEq

def encodeHello (h : Hello) : Bytes := writeString h.name ++ writeU64 h.bootId ++ writeU64 h.epoch

/-- Bytes after the payload are not looked at. -/
def decodeHello (p : Bytes) : Option Hello :=
  ((Hello.mk <$> readStringOf 256 <*> readU64 <*> readU64).run p).map (·.1)

/-- What a worker reports. -/
structure EvidenceMessage (R : Type) where
  objectiveId : UInt64
  dimension : UInt8
  value : R
  sampleCount : Int64
  timeNs : Int64
  bootId : UInt64
  epoch : UInt64

def encodeEvidence [Pod R] (m : EvidenceMessage R) : Bytes :=
  writeU64 m.objectiveId ++ m.dimension :: (writePod m.value ++ writeI64 m.sampleCount ++
    writeI64 m.timeNs ++ writeU64 m.bootId ++ writeU64 m.epoch)

def decodeEvidence (R : Type) [Pod R] (p : Bytes) : Option (EvidenceMessage R) :=
  ((EvidenceMessage.mk <$> readU64 <*> readU8 <*> readPod R <*> readI64 <*> readI64 <*> readU64
    <*> readU64).run p).map (·.1)

/-- The answer to a hello. The boot id is left open where the hello could not be read. -/
structure RegisterAck where
  epoch : UInt64
  bootId : Option UInt64
  code : Nat
  status : String
  deriving DecidableEq

def complianceStateName : ComplianceState → String
  | .compliant => "compliant"
  | .nearLimit => "near_limit"
  | .atRisk => "at_risk"
  | .violating => "violating"
  | .recovering => "recovering"
  | .insufficientEvidence => "insufficient_evidence"
  | .revalidationRequired => "revalidation_required"
  | .suspended => "suspended"

def dimensionName : Dimension → String
  | .latency => "latency"
  | .availability => "availability"
  | .throughput => "throughput"
  | .recoveryTime => "recovery_time"
  | .memoryPressure => "memory_pressure"
  | .cost => "cost"

/-- The answer to a request for an evaluation. -/
structure EvaluateReply (R : Type) where
  epoch : CoordinatorEpoch
  contractGen : SloContractGen := ⟨0⟩
  policyGen : PolicyGen := ⟨0⟩
  compliance : ComplianceState := .insufficientEvidence
  bindingDimension : Dimension := .latency
  action : EnforcementAction := .noAction
  objectiveId : ObjectiveId := ⟨0⟩
  measured : R
  text : String

/-! ## 2. The state -/

structure WorkerInfo where
  sock : SocketHandle
  name : Bytes
  bootId : UInt64
  lastHbMs : Int64
  alive : Bool := true
  deriving DecidableEq

/-- `g_workers`, by the handle of the connection. -/
abbrev Workers := KeyedTable fun w : WorkerInfo => w.sock

/-- Where the thread of a connection is. -/
inductive Phase where
  /-- At `recv_frame`. -/
  | reading
  /-- A hello of the current epoch was read; next is the lock. -/
  | registering (h : Hello)
  /-- The worker is registered; next is its acknowledgement. -/
  | granting (h : Hello)
  /-- A latency was ingested; next is `if (g_recovery_auth && ...)`. -/
  | checking (bootId : UInt64)
  /-- Next are the two recovery events and the flag that they were recorded. -/
  | restoring (bootId : UInt64)
  | verifying (bootId : UInt64)
  | marking
  /-- Evidence or a heartbeat was read; next is the lock and the time of the heartbeat. -/
  | stamping
  /-- The loop is left; next is the lock, and the worker is removed. -/
  | leaving
  deriving DecidableEq

structure Coordinator (R : Type) where
  fabric : State R
  epoch : CoordinatorEpoch
  workers : Workers := KeyedTable.empty _
  seenBoots : Bytes → List UInt64 := fun _ => []
  downA : Bool := false
  recoveryAuth : Bool := false
  recoveryVerified : Bool := false
  nextEvidence : UInt64 := 1000000
  threads : SocketHandle → Option Phase := fun _ => none
  exited : Bool := false

def kLatencyObjId : ObjectiveId := ⟨1⟩
def kRecoveryObjId : ObjectiveId := ⟨2⟩
def kAvailObjId : ObjectiveId := ⟨3⟩

/-- `now_dur`, of a time in milliseconds. -/
def nowDur (ms : Int64) : Duration := ms * 1000000

def proofPolicy : SloPolicy :=
  { id := ⟨1⟩, gen := ⟨1⟩, mode := .hardThenSoft, tieBreak := .byName
    name := ascii "distributed", description := ascii "distributed proof policy" }

def proofContract (R : Type) [Double R] : SloContract R :=
  { id := ⟨1⟩, gen := ⟨1⟩, service := ⟨100⟩, workload := ⟨200⟩, tenant := ⟨1⟩
    policyId := ⟨1⟩, policyGen := ⟨1⟩, effectiveFrom := 0, epoch := ⟨1⟩, lifecycle := .active
    name := ascii "dist-contract", provenance := ascii "test"
    objectives :=
      [{ id := kLatencyObjId, gen := ⟨1⟩, name := ascii "p99-latency", dim := .latency
         kind := .latencyPercentile, percentileRank := Double.ofRat (99 / 100)
         allowedUncertainty := Double.ofRat 0, comparison := .atMost, hard := .hard
         target := .duration 120000000, minEvidence := 16, windowType := .sliding
         windowDuration := 5000000000, windowCount := 64 },
       { id := kRecoveryObjId, gen := ⟨1⟩, name := ascii "rto", dim := .recoveryTime
         kind := .recoveryMaxDuration, percentileRank := Double.ofRat (99 / 100)
         allowedUncertainty := Double.ofRat 0, comparison := .atMost, hard := .hard
         target := .duration 4000000000 },
       { id := kAvailObjId, gen := ⟨1⟩, name := ascii "avail", dim := .availability
         kind := .availabilityRequest, percentileRank := Double.ofRat (99 / 100)
         allowedUncertainty := Double.ofRat 0, comparison := .atLeast, hard := .hard
         target := .basisPoints 9990 }] }

/-- `set_scenario`. -/
def setScenario [Double R] (s : State R) (now : Int64) : State R :=
  let s := (setPolicy s proofPolicy).1
  let s := (addContract s (proofContract R)).1
  (activateContract s ⟨1⟩ (nowDur now)).1

/-- The coordinator when it starts, with the file of its state if one is named. -/
def Coordinator.start [Pod R] [Double R] (file : Option (Option Bytes)) (now : Int64) :
    Coordinator R :=
  let fabric := setScenario (State.fresh R) now
  match file with
  | none => { fabric := fabric, epoch := ⟨1⟩ }
  | some file =>
    let (fabric, st) := load fabric file
    { fabric := fabric, epoch := if st.isOk then fabric.epoch else ⟨1⟩ }

/-- Nobody is connected, and nothing was seen. -/
theorem Coordinator.start_blank [Pod R] [Double R] (file : Option (Option Bytes)) (now : Int64) :
    (start (R := R) file now).workers = .empty _ ∧
      (start (R := R) file now).seenBoots = (fun _ => []) ∧
      (start (R := R) file now).threads = (fun _ => none) ∧
      (start (R := R) file now).downA = false := by
  unfold start
  split <;> exact ⟨rfl, rfl, rfl, rfl⟩

/-! ## 3. What the threads do -/

/-- What a step does, as its connection or the fabric sees it. -/
inductive Effect (R : Type) where
  | opened
  | went
  | acked (h : Option Hello) (ack : RegisterAck)
  | granted (h : Hello)
  | ingested (st : Status)
  | recorded (phase : RecoveryEventPhase) (st : Status)
  | replied (reply : EvaluateReply R)
  | stamped
  | closed
  | ticked (recorded : List (RecoveryEventPhase × Status))
  | exited

namespace Coordinator

/-- The coordinator with the thread of a connection at another place, or ended. -/
def goTo (c : Coordinator R) (sock : SocketHandle) (p : Option Phase) : Coordinator R :=
  { c with threads := Function.update c.threads sock p }

section Handlers

variable [Double R]

/-- Ingest a measurement. The record also names the worker's boot id as its source, which nothing
    reads. -/
def report (c : Coordinator R) (dimension : Dimension) (id : ObjectiveId) (value : ObjectiveValue R)
    (sampleCount : Count) (now : Int64) : Coordinator R × Status :=
  let e : EvidenceRecord R :=
    { id := ⟨c.nextEvidence⟩, dimension := dimension, objectiveId := id, objectiveGen := ⟨1⟩
      epoch := c.epoch, time := nowDur now, provenance := .measured, sampleCount := sampleCount
      value := value }
  let r := ingest c.fabric e e.time
  ({ c with fabric := r.1, nextEvidence := c.nextEvidence + 1 }, r.2)

def ingestLatency (c : Coordinator R) (latencyNs : R) (now : Int64) : Coordinator R × Status :=
  c.report .latency kLatencyObjId (.duration (toInt64 latencyNs)) 1 now

def ingestAvailability (c : Coordinator R) (bp : R) (sampleCount : Int64) (now : Int64) :
    Coordinator R × Status :=
  c.report .availability kAvailObjId (.basisPoints (toInt64 bp)) sampleCount now

omit [Double R] in
/-- Record a boundary of the recovery objective. -/
def recordRecovery (c : Coordinator R) (phase : RecoveryEventPhase) (now : Int64) :
    Coordinator R × Status :=
  let r := recordRecoveryEvent c.fabric kRecoveryObjId phase (nowDur now)
  ({ c with fabric := r.1 }, r.2)

/-- The answer to a request for an evaluation. -/
def replyOf (c : Coordinator R) (r : Except Status (EvaluationResult R)) : EvaluateReply R :=
  match r with
  | .error st => { epoch := c.epoch, measured := Double.ofRat 0, text := st.message }
  | .ok res =>
    { epoch := c.epoch, contractGen := res.explanation.contractGen
      policyGen := res.explanation.policyGen, compliance := res.explanation.compliance
      bindingDimension := res.explanation.bindingDimension, action := res.intent.action
      objectiveId := res.explanation.bindingObjective
      measured := ((res.explanation.objectives.head?.bind (·.currentValue)).map numericOf).getD
        (Double.ofRat 0)
      text := complianceStateName res.explanation.compliance ++ ";" ++
        dimensionName res.explanation.bindingDimension }

variable [Pod R]

/-- What a thread does with evidence it read. -/
def handleEvidence (c : Coordinator R) (sock : SocketHandle) (m : EvidenceMessage R) (now : Int64) :
    Coordinator R × Effect R :=
  if m.epoch ≠ c.epoch.value then (c.goTo sock (some .stamping), .went)
  else if m.dimension = 0 then
    let r := c.ingestLatency m.value now
    (r.1.goTo sock (some (.checking m.bootId)), .ingested r.2)
  else if m.dimension = 2 then
    let r := c.ingestAvailability m.value m.sampleCount now
    (r.1.goTo sock (some .stamping), .ingested r.2)
  else (c.goTo sock (some .stamping), .went)

/-- What a thread does with a frame. A save changes nothing in memory. -/
def receive [Platform R] (c : Coordinator R) (sock : SocketHandle) (f : Frame) (now : Int64) :
    Option (Coordinator R × Effect R) :=
  if f.kind = .hello then
    match decodeHello f.payload with
    | none => some (c.goTo sock none, .acked none ⟨0, none, 99, "malformed hello"⟩)
    | some h =>
      if h.epoch ≠ c.epoch.value then
        some (c.goTo sock none, .acked (some h) ⟨c.epoch.value, some h.bootId, 1, "stale epoch"⟩)
      else some (c.goTo sock (some (.registering h)), .went)
  else if f.kind = .evidence then
    match decodeEvidence R f.payload with
    | none => some (c.goTo sock (some .stamping), .went)
    | some m => some (c.handleEvidence sock m now)
  else if f.kind = .heartbeat then some (c.goTo sock (some .stamping), .went)
  else if f.kind = .evaluateRequest then
    (evaluate c.fabric ⟨100⟩ ⟨200⟩ (nowDur now)).map fun r =>
      ({ c with fabric := r.1 }, .replied (c.replyOf r.2))
  else if f.kind = .kill then some ({ c with exited := true }, .exited)
  else if f.kind = .shutdown then some (c.goTo sock (some .leaving), .went)
  else some (c, .went)

omit [Double R] [Pod R] in
/-- The lock of the Hello branch: a boot id that was used for the name is refused, and the
    connection closed; the worker is left registered if it was. -/
def register (c : Coordinator R) (sock : SocketHandle) (h : Hello) (now : Int64) :
    Coordinator R × Effect R :=
  if h.bootId ∈ c.seenBoots h.name then
    (c.goTo sock none, .acked (some h) ⟨c.epoch.value, some h.bootId, 2, "stale boot id"⟩)
  else
    ({ c with
        seenBoots := Function.update c.seenBoots h.name (c.seenBoots h.name ++ [h.bootId])
        workers := c.workers.insert
          { sock := sock, name := h.name, bootId := h.bootId, lastHbMs := now } }.goTo sock
        (some (.granting h)), .granted h)

omit [Double R] [Pod R] in
/-- The lock at the end of the Evidence and Heartbeat branches. -/
def stamp (c : Coordinator R) (sock : SocketHandle) (now : Int64) : Coordinator R :=
  match c.workers.find sock with
  | none => c
  | some w => { c with workers := c.workers.insert { w with lastHbMs := now } }

omit [Double R] [Pod R] in
/-- What a thread does next, where it need not wait for a frame. -/
def proceed (c : Coordinator R) (sock : SocketHandle) (now : Int64) :
    Phase → Option (Coordinator R × Effect R)
  | .reading => none
  | .registering h => some (c.register sock h now)
  | .granting h =>
    some (c.goTo sock (some .reading), .acked (some h) ⟨c.epoch.value, some h.bootId, 0, "ok"⟩)
  | .checking bootId =>
    if c.recoveryAuth && !c.recoveryVerified && bootId != 1001 then
      some (c.goTo sock (some (.restoring bootId)), .went)
    else some (c.goTo sock (some .stamping), .went)
  | .restoring bootId =>
    let r := c.recordRecovery .restored now
    some (r.1.goTo sock (some (.verifying bootId)), .recorded .restored r.2)
  | .verifying _ =>
    let r := c.recordRecovery .verified now
    some (r.1.goTo sock (some .marking), .recorded .verified r.2)
  | .marking => some ({ c with recoveryVerified := true }.goTo sock (some .stamping), .went)
  | .stamping => some ((c.stamp sock now).goTo sock (some .reading), .stamped)
  | .leaving => some ({ c with workers := c.workers.erase sock }.goTo sock none, .closed)

omit [Pod R] in
/-- Worker A is gone: the failure is recorded, and that recovery is called for. -/
def alarm (c : Coordinator R) (now : Int64) : Coordinator R × List (RecoveryEventPhase × Status) :=
  let r := { c with downA := true, recoveryAuth := true }.recordRecovery .observed now
  let r' := r.1.recordRecovery .authoritative now
  ((r'.1.ingestAvailability (Double.ofRat 0) 1 now).1,
    [(.observed, r.2), (.authoritative, r'.2)])

omit [Pod R] in
/-- What the monitor does with one worker. -/
def visit (now : Int64) (x : Coordinator R × List (RecoveryEventPhase × Status)) (w : WorkerInfo) :
    Coordinator R × List (RecoveryEventPhase × Status) :=
  if !w.alive then x
  else if w.name = ascii "A" ∧ x.1.downA = false ∧ 2000 < now - w.lastHbMs then
    ((x.1.alarm now).1, x.2 ++ (x.1.alarm now).2)
  else x

omit [Pod R] in
/-- One round of the monitor, under the lock. -/
def monitor (c : Coordinator R) (now : Int64) :
    Coordinator R × List (RecoveryEventPhase × Status) :=
  c.workers.rows.foldl (visit now) (c, [])

end Handlers

end Coordinator

/-! ## 4. Steps -/

/-- What happens next: a connection is accepted, its thread reads a frame at a time or fails to, a
    thread goes on, or the monitor wakes up. -/
inductive Act where
  | accept (sock : SocketHandle)
  | receive (sock : SocketHandle) (f : Frame) (now : Int64)
  | lose (sock : SocketHandle)
  | proceed (sock : SocketHandle) (now : Int64)
  | tick (now : Int64)

/-- The connection whose thread takes the step. -/
def Act.sock : Act → Option SocketHandle
  | .accept _ | .tick _ => none
  | .receive sock _ _ | .lose sock | .proceed sock _ => some sock

/-- One step of the coordinator. A handle that is open is not handed out. -/
def Coordinator.step [Double R] [Platform R] [Pod R] (c : Coordinator R) (act : Act) :
    Option (Coordinator R × Effect R) :=
  if c.exited then none
  else
    match act with
    | .accept sock =>
      if c.threads sock = none then some (c.goTo sock (some .reading), .opened) else none
    | .receive sock f now =>
      if c.threads sock = some .reading then c.receive sock f now else none
    | .lose sock =>
      if c.threads sock = some .reading then some (c.goTo sock (some .leaving), .went) else none
    | .proceed sock now => (c.threads sock).bind (c.proceed sock now)
    | .tick now => some ((c.monitor now).1, .ticked (c.monitor now).2)

/-! ## 5. What is done under the lock -/

/-- The worker is one that the monitor takes for dead. -/
def WorkerInfo.lost (now : Int64) (w : WorkerInfo) : Bool :=
  w.alive && w.name = ascii "A" && 2000 < now - w.lastHbMs

section Monitor

variable [Double R]

namespace Coordinator

theorem alarm_downA (c : Coordinator R) (now : Int64) : (c.alarm now).1.downA = true := rfl

theorem visit_down {x : Coordinator R × List (RecoveryEventPhase × Status)} (hx : x.1.downA = true)
    (now : Int64) (w : WorkerInfo) : visit now x w = x := by
  unfold visit
  simp [hx]

theorem visit_up {c : Coordinator R} (hc : c.downA = false)
    (evs : List (RecoveryEventPhase × Status)) (now : Int64) (w : WorkerInfo) :
    visit now (c, evs) w =
      if w.lost now then ((c.alarm now).1, evs ++ (c.alarm now).2) else (c, evs) := by
  unfold visit WorkerInfo.lost
  cases w.alive <;> simp [hc]

theorem foldl_visit_down {x : Coordinator R × List (RecoveryEventPhase × Status)}
    (hx : x.1.downA = true) (now : Int64) : ∀ l : List WorkerInfo, l.foldl (visit now) x = x
  | [] => rfl
  | w :: l => by rw [List.foldl_cons, visit_down hx, foldl_visit_down hx now l]

theorem foldl_visit {c : Coordinator R} (hc : c.downA = false)
    (evs : List (RecoveryEventPhase × Status)) (now : Int64) : ∀ l : List WorkerInfo,
    l.foldl (visit now) (c, evs) =
      if l.any (·.lost now) then ((c.alarm now).1, evs ++ (c.alarm now).2) else (c, evs)
  | [] => rfl
  | w :: l => by
      rw [List.foldl_cons, visit_up hc, List.any_cons]
      cases hw : w.lost now with
      | false => simpa using foldl_visit hc evs now l
      | true =>
        have hdown := alarm_downA c now
        simpa using foldl_visit_down (x := ((c.alarm now).1, evs ++ (c.alarm now).2)) hdown now l

/-- **One round of the monitor**: the alarm is raised once, where one worker is lost. -/
theorem monitor_eq (c : Coordinator R) (now : Int64) :
    c.monitor now =
      if c.downA = false ∧ c.workers.rows.any (·.lost now) = true then c.alarm now
      else (c, []) := by
  unfold monitor
  cases hc : c.downA with
  | true => simpa using foldl_visit_down (x := (c, [])) hc now c.workers.rows
  | false => simpa using foldl_visit hc [] now c.workers.rows

/-- The threads and the tables are as they were. -/
theorem monitor_tables (c : Coordinator R) (now : Int64) :
    (c.monitor now).1.workers = c.workers ∧ (c.monitor now).1.seenBoots = c.seenBoots ∧
      (c.monitor now).1.epoch = c.epoch ∧ (c.monitor now).1.threads = c.threads := by
  rw [monitor_eq]
  split
  · exact ⟨rfl, rfl, rfl, rfl⟩
  · exact ⟨rfl, rfl, rfl, rfl⟩

omit [Double R] in
/-- A worker that is stamped keeps its name and boot id. -/
theorem find_stamp_self (c : Coordinator R) (sock : SocketHandle) (now : Int64) :
    (c.stamp sock now).workers.find sock =
      (c.workers.find sock).map fun w => { w with lastHbMs := now } := by
  unfold stamp
  cases hfind : c.workers.find sock with
  | none => exact hfind
  | some w =>
    have hkey := KeyedTable.find_key hfind
    exact c.workers.find_insert_key (v := { w with lastHbMs := now }) hkey

omit [Double R] in
theorem find_stamp_ne (c : Coordinator R) {sock k : SocketHandle} (hne : k ≠ sock) (now : Int64) :
    (c.stamp sock now).workers.find k = c.workers.find k := by
  unfold stamp
  cases hfind : c.workers.find sock with
  | none => rfl
  | some w =>
    have hkey := KeyedTable.find_key hfind
    exact c.workers.find_insert_key_ne (v := { w with lastHbMs := now }) hkey hne

omit [Double R] in
/-- Who is in the table after a worker was stamped. -/
theorem find_stamp_some {c : Coordinator R} {sock k : SocketHandle} {now : Int64} {row : WorkerInfo}
    (h : (c.stamp sock now).workers.find k = some row) :
    (k = sock ∧ ∃ row', c.workers.find sock = some row' ∧ row = { row' with lastHbMs := now }) ∨
      k ≠ sock ∧ c.workers.find k = some row := by
  rcases eq_or_ne k sock with rfl | hne
  · obtain ⟨row', hrow', rfl⟩ := Option.map_eq_some_iff.mp ((c.find_stamp_self k now).symm.trans h)
    exact .inl ⟨rfl, row', hrow', rfl⟩
  · exact .inr ⟨hne, (c.find_stamp_ne hne now).symm.trans h⟩

omit [Double R] in
theorem stamp_frame (c : Coordinator R) (sock : SocketHandle) (now : Int64) :
    (c.stamp sock now).threads = c.threads ∧ (c.stamp sock now).seenBoots = c.seenBoots ∧
      (c.stamp sock now).epoch = c.epoch ∧ (c.stamp sock now).downA = c.downA ∧
      (c.stamp sock now).recoveryAuth = c.recoveryAuth := by
  unfold stamp
  split <;> exact ⟨rfl, rfl, rfl, rfl, rfl⟩

end Coordinator

end Monitor

/-! ## 6. What a step can do -/

namespace Coordinator

/-- The tables and flags under the lock, and the epoch, are the same. -/
structure SameTables (c c' : Coordinator R) : Prop where
  workers : c'.workers = c.workers
  seenBoots : c'.seenBoots = c.seenBoots
  epoch : c'.epoch = c.epoch
  downA : c'.downA = c.downA
  recoveryAuth : c'.recoveryAuth = c.recoveryAuth

namespace SameTables

theorem refl (c : Coordinator R) : SameTables c c := ⟨rfl, rfl, rfl, rfl, rfl⟩

theorem goTo {c c' : Coordinator R} (h : SameTables c c') (sock : SocketHandle)
    (p : Option Phase) : SameTables c (c'.goTo sock p) :=
  ⟨h.workers, h.seenBoots, h.epoch, h.downA, h.recoveryAuth⟩

end SameTables

end Coordinator

/-- The hello that is not acknowledged yet. -/
def Phase.grant : Phase → Option Hello
  | .granting h => some h
  | _ => none

/-- The boot id of the evidence that is being worked off. -/
def Phase.bootId : Phase → Option UInt64
  | .checking bootId | .restoring bootId | .verifying bootId => some bootId
  | _ => none

/-- Nothing was done under the lock. -/
def Effect.quiet : Effect R → Bool
  | .went | .ingested _ | .recorded _ _ | .replied _ | .exited => true
  | .acked _ ack => ack.code ≠ 0
  | _ => false

/-- The thread of a connection works off evidence: it was at it, or has just read it. -/
def Coordinator.WorksOff [Pod R] (c : Coordinator R) (act : Act) (sock : SocketHandle)
    (bootId : UInt64) : Prop :=
  (∃ now p, act = .proceed sock now ∧ c.threads sock = some p ∧ p.bootId = some bootId) ∨
    ∃ f now m, act = .receive sock f now ∧ f.kind = .evidence ∧
      decodeEvidence R f.payload = some m ∧ m.bootId = bootId ∧ m.epoch = c.epoch.value

section Does

variable [Double R] [Pod R]

/-- **What a step can do.** -/
inductive Coordinator.Does (c : Coordinator R) : Act → Coordinator R → Effect R → Prop where
  | accept {sock : SocketHandle} (hp : c.threads sock = none) :
    Does c (.accept sock) (c.goTo sock (some .reading)) .opened
  /-- A thread goes on without the lock. -/
  | work {act : Act} {sock : SocketHandle} {p : Phase} {p' : Option Phase} {c' : Coordinator R}
    {e : Effect R} (hact : act.sock = some sock) (hp : c.threads sock = some p)
    (hsame : SameTables c c') (hp' : c'.threads = Function.update c.threads sock p')
    (hgrant : p.grant = none) (hgrant' : p'.bind Phase.grant = none)
    (hboot : ∀ b ∈ p'.bind Phase.bootId, c.WorksOff act sock b) (he : e.quiet) : Does c act c' e
  /-- A thread stays where it is. -/
  | stay {sock : SocketHandle} {f : Frame} {now : Int64} {c' : Coordinator R} {e : Effect R}
    (hf : f.kind ≠ .evidence) (hsame : SameTables c c') (hp' : c'.threads = c.threads)
    (he : e.quiet) : Does c (.receive sock f now) c' e
  | grant {sock : SocketHandle} {h : Hello} {now : Int64}
    (hp : c.threads sock = some (.registering h)) (hnew : h.bootId ∉ c.seenBoots h.name) :
    Does c (.proceed sock now) (c.register sock h now).1 (.granted h)
  | ack {sock : SocketHandle} {h : Hello} {now : Int64}
    (hp : c.threads sock = some (.granting h)) :
    Does c (.proceed sock now) (c.goTo sock (some .reading))
      (.acked (some h) ⟨c.epoch.value, some h.bootId, 0, "ok"⟩)
  | stamp {sock : SocketHandle} {now : Int64} (hp : c.threads sock = some .stamping) :
    Does c (.proceed sock now) ((c.stamp sock now).goTo sock (some .reading)) .stamped
  | close {sock : SocketHandle} {now : Int64} (hp : c.threads sock = some .leaving) :
    Does c (.proceed sock now) ({ c with workers := c.workers.erase sock }.goTo sock none) .closed
  | tick {now : Int64} : Does c (.tick now) (c.monitor now).1 (.ticked (c.monitor now).2)

namespace Coordinator

variable {c c' : Coordinator R} {act : Act} {sock : SocketHandle} {e : Effect R}

/-- A thread goes from one place to another, where it has no evidence at hand. -/
theorem Does.move {p : Phase} {p' : Option Phase} (hact : act.sock = some sock)
    (hp : c.threads sock = some p) (hsame : SameTables c c') (hthreads : c'.threads = c.threads)
    (hgrant : p.grant = none) (hgrant' : p'.bind Phase.grant = none)
    (hboot : p'.bind Phase.bootId = none) (he : e.quiet) : Does c act (c'.goTo sock p') e := by
  refine .work hact hp (hsame.goTo sock p') ?_ hgrant hgrant' (fun b hb => ?_) he
  · show Function.update c'.threads sock p' = _
    rw [hthreads]
  · rw [hboot] at hb
    cases hb

theorem handleEvidence_does {f : Frame} {m : EvidenceMessage R} {now : Int64}
    (hp : c.threads sock = some .reading) (hf : f.kind = .evidence)
    (hm : decodeEvidence R f.payload = some m) :
    Does c (.receive sock f now) (c.handleEvidence sock m now).1
      (c.handleEvidence sock m now).2 := by
  unfold handleEvidence
  split_ifs with hepoch hlatency havail
  · exact .move rfl hp (.refl c) rfl rfl rfl rfl rfl
  · refine .work rfl hp ⟨rfl, rfl, rfl, rfl, rfl⟩ rfl rfl rfl ?_ rfl
    rintro _ ⟨⟩
    exact .inr ⟨f, now, m, rfl, hf, hm, rfl, not_not.mp hepoch⟩
  · exact .move rfl hp ⟨rfl, rfl, rfl, rfl, rfl⟩ rfl rfl rfl rfl rfl
  · exact .move rfl hp (.refl c) rfl rfl rfl rfl rfl

theorem receive_does [Platform R] {f : Frame} {now : Int64} (hp : c.threads sock = some .reading)
    (h : c.receive sock f now = some (c', e)) : Does c (.receive sock f now) c' e := by
  unfold receive at h
  split_ifs at h with hhello hevidence hbeat hrequest hkill hshut
  · split at h
    · cases h
      exact .move rfl hp (.refl c) rfl rfl rfl rfl rfl
    · split_ifs at h
      · cases h
        exact .move rfl hp (.refl c) rfl rfl rfl rfl rfl
      · cases h
        exact .move rfl hp (.refl c) rfl rfl rfl rfl rfl
  · split at h
    · cases h
      exact .move rfl hp (.refl c) rfl rfl rfl rfl rfl
    · rename_i m hm
      obtain ⟨rfl, rfl⟩ := Prod.ext_iff.mp (Option.some.inj h)
      exact handleEvidence_does hp hevidence hm
  · cases h
    exact .move rfl hp (.refl c) rfl rfl rfl rfl rfl
  · obtain ⟨x, _, he⟩ := Option.map_eq_some_iff.mp h
    cases he
    exact .stay hevidence ⟨rfl, rfl, rfl, rfl, rfl⟩ rfl rfl
  · cases h
    exact .stay hevidence ⟨rfl, rfl, rfl, rfl, rfl⟩ rfl rfl
  · cases h
    exact .move rfl hp (.refl c) rfl rfl rfl rfl rfl
  · cases h
    exact .stay hevidence (.refl c) rfl rfl

theorem proceed_does {p : Phase} {now : Int64} (hp : c.threads sock = some p)
    (h : c.proceed sock now p = some (c', e)) : Does c (.proceed sock now) c' e := by
  cases p with
  | reading => cases h
  | registering g =>
    have hcase : c.register sock g now = (c', e) := Option.some.inj h
    unfold register at hcase
    split_ifs at hcase with hseen
    · cases hcase
      exact .move rfl hp (.refl c) rfl rfl rfl rfl rfl
    · cases hcase
      have hgrant : Does c (.proceed sock now) _ _ := .grant hp hseen
      rwa [register, if_neg hseen] at hgrant
  | granting g =>
    cases h
    exact .ack hp
  | checking bootId =>
    simp only [proceed] at h
    split_ifs at h
    · cases h
      refine .work rfl hp ⟨rfl, rfl, rfl, rfl, rfl⟩ rfl rfl rfl ?_ rfl
      rintro _ ⟨⟩
      exact .inl ⟨now, _, rfl, hp, rfl⟩
    · cases h
      exact .move rfl hp (.refl c) rfl rfl rfl rfl rfl
  | restoring bootId =>
    cases h
    refine .work rfl hp ⟨rfl, rfl, rfl, rfl, rfl⟩ rfl rfl rfl ?_ rfl
    rintro _ ⟨⟩
    exact .inl ⟨now, _, rfl, hp, rfl⟩
  | verifying bootId =>
    cases h
    exact .move rfl hp ⟨rfl, rfl, rfl, rfl, rfl⟩ rfl rfl rfl rfl rfl
  | marking =>
    cases h
    exact .move rfl hp ⟨rfl, rfl, rfl, rfl, rfl⟩ rfl rfl rfl rfl rfl
  | stamping =>
    cases h
    exact .stamp hp
  | leaving =>
    cases h
    exact .close hp

/-- **Every step is one of these.** -/
theorem step_does [Platform R] (h : c.step act = some (c', e)) : Does c act c' e := by
  unfold step at h
  split_ifs at h
  cases act with
  | accept sock =>
    simp only at h
    split_ifs at h with hp
    cases h
    exact .accept hp
  | receive sock f now =>
    simp only at h
    split_ifs at h with hp
    exact receive_does hp h
  | lose sock =>
    simp only at h
    split_ifs at h with hp
    cases h
    exact .move rfl hp (.refl c) rfl rfl rfl rfl rfl
  | proceed sock now =>
    obtain ⟨p, hp, hproceed⟩ := Option.bind_eq_some_iff.mp h
    exact proceed_does hp hproceed
  | tick now =>
    cases h
    exact .tick

end Coordinator

end Does

end SloFabric
