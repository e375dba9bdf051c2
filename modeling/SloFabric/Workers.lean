/-
  File:      SloFabric/Workers.lean
  Subject:   The worker processes and the coordinator together.

  Any number of workers is started under any names, boot ids and epochs; each connects once and
  talks over a connection that keeps the order of its frames and may be lost at any point. Other
  clients may send anything.

  * `Worker`, `Worker.work`: the process of a worker, send by send;
  * `Deployment`, `Deployment.step`: the threads of the coordinator, the workers and who is at which
    connection;
  * `Answered`: which answer a hello is due;
  * `Coordinator.Greets`: what an access of the coordinator does with hellos, `access_greets`;
  * `Sound.regranted`: who comes to be registered in a step of the coordinator;
  * `Deployment.Sound`: the invariant, `sound_step`, `sound_run`;
  * `workers_registered`: who was registered was entitled to it, no two workers are registered
    under one identity, and who was refused was refused for the reason it is told.
-/
import SloFabric.Messages
import SloFabric.Threads

namespace SloFabric

open Codec

/-! ## 1. A worker -/

def FrameKind.registerAck : FrameKind := ⟨1⟩

/-- The command line. The length of a name is one of a `size_t`. -/
structure WorkerConfig where
  hello : Hello
  latencyNs : Binary64
  serve : Bool
  sized : hello.name.length < 2 ^ 64

/-- Where `main` is. -/
inductive WorkerPhase where
  /-- Next is the hello, then the answer to it. -/
  | greeting
  | waiting
  /-- In the loop: the next frame to send. -/
  | latency
  | availability
  | beat
  | exited (code : Nat)
  /-- On its way with variables that nobody has written. -/
  | undefined
  deriving DecidableEq

/-- A worker process: where it is, the answer it has read, and the two directions of its
    connection. -/
structure Worker where
  config : WorkerConfig
  phase : WorkerPhase := .greeting
  answer : Option AckMessage := none
  up : List Frame := []
  down : List Frame := []
  connected : Bool := false

namespace Worker

def helloFrame (w : Worker) : Frame := { kind := .hello, payload := encodeHello w.config.hello }

def latencyReport (w : Worker) : EvidenceMessage Binary64 :=
  ⟨1, 0, w.config.latencyNs, 1, 0, w.config.hello.bootId, w.config.hello.epoch⟩

def availabilityReport (w : Worker) : EvidenceMessage Binary64 :=
  ⟨3, 2, Double.ofRat 10000, 1, 0, w.config.hello.bootId, w.config.hello.epoch⟩

def reportFrame (m : EvidenceMessage Binary64) : Frame :=
  { kind := .evidence, payload := encodeEvidence m }

def heartbeatFrame : Frame := { kind := .heartbeat }

def send (w : Worker) (f : Frame) (next : WorkerPhase) : Worker :=
  { w with up := w.up ++ [f], phase := next }

/-- Where the loop begins. -/
def top (w : Worker) : WorkerPhase := if w.config.serve then .latency else .beat

/-- What `main` does next. That `decode_ack` fails goes unnoticed. -/
def work (w : Worker) : Option Worker :=
  match w.phase with
  | .greeting => some (w.send w.helloFrame .waiting)
  | .waiting =>
    match w.down with
    | [] => none
    | f :: rest =>
      match decodeAck f.payload with
      | none => some { w with down := rest, phase := .undefined }
      | some m =>
        some { w with
          down := rest, answer := some m
          phase := if m.statusCode = 0 then w.top else .exited 2 }
  | .latency => some (w.send (reportFrame w.latencyReport) .availability)
  | .availability => some (w.send (reportFrame w.availabilityReport) .beat)
  | .beat => some (w.send heartbeatFrame w.top)
  | .exited _ | .undefined => none

/-- The worker has read that it is registered. -/
def Registered (w : Worker) : Prop := ∃ m, w.answer = some m ∧ m.statusCode = 0

end Worker

/-! ## 2. Workers, connections and the coordinator -/

/-- The coordinator, the workers by process id, and whose connection a handle is (`none` where it
    is another client's). -/
structure Deployment where
  server : Threaded Binary64
  workers : Nat → Option Worker := fun _ => none
  peer : SocketHandle → Option Nat := fun _ => none

/-- What happens next. `junk` is what the coordinator's boot id happens to be where a hello could
    not be read. -/
inductive DeploymentAct where
  | spawn (pid : Nat) (config : WorkerConfig)
  | work (pid : Nat)
  /-- The process is killed, or its connection is lost where it looks for it. -/
  | stop (pid : Nat)
  | accept (sock : SocketHandle) (who : Option Nat)
  /-- A thread reads the next frame of a worker, or one of another client. -/
  | deliver (sock : SocketHandle) (now : Int64) (junk : UInt64)
  | client (sock : SocketHandle) (f : Frame) (now : Int64)
  | lose (sock : SocketHandle)
  | proceed (sock : SocketHandle) (now : Int64)
  | tick (now : Int64)
  /-- A call, or the monitor, goes on. -/
  | call (who : Option SocketHandle) (now : Int64)
  | record (now : Int64)

/-- The frame of an answer. -/
def ackMessage (junk : UInt64) (ack : RegisterAck) : AckMessage :=
  ⟨ack.epoch, ack.bootId.getD junk, UInt8.ofNat ack.code, ascii ack.status⟩

def ackFrame (m : AckMessage) : Frame := { kind := .registerAck, payload := encodeAck m }

/-- The connection whose thread takes the step. -/
def ThreadAct.sock : ThreadAct → Option SocketHandle
  | .plain act => act.sock
  | .call who _ => who
  | .record _ => none

/-- The answer a step sends. -/
def Effect.answer {R : Type} : Effect R → Option RegisterAck
  | .acked _ ack => some ack
  | _ => none

namespace Deployment

def setWorker (d : Deployment) (pid : Nat) (w : Worker) : Deployment :=
  { d with workers := Function.update d.workers pid (some w) }

/-- A frame goes down a connection. -/
def post (d : Deployment) (sock : SocketHandle) (f : Frame) : Deployment :=
  match d.peer sock with
  | none => d
  | some pid =>
    match d.workers pid with
    | none => d
    | some w => d.setWorker pid { w with down := w.down ++ [f] }

/-- The coordinator takes a step. -/
def coordinate [Platform Binary64] (d : Deployment) (act : ThreadAct) (junk : UInt64) :
    Option (Deployment × Option (Effect Binary64)) :=
  (d.server.step act).map fun r =>
    let d := { d with server := r.1 }
    match act.sock, r.2.answer with
    | some sock, some ack => (d.post sock (ackFrame (ackMessage junk ack)), some r.2)
    | _, _ => (d, some r.2)

/-- One step. A worker connects once. -/
def step [Platform Binary64] (d : Deployment) : DeploymentAct → Option
    (Deployment × Option (Effect Binary64))
  | .spawn pid config =>
    match d.workers pid with
    | some _ => none
    | none => some (d.setWorker pid { config := config }, none)
  | .work pid =>
    match d.workers pid with
    | none => none
    | some w => w.work.map fun w' => (d.setWorker pid w', none)
  | .stop pid =>
    match d.workers pid with
    | none => none
    | some w => some (d.setWorker pid { w with phase := .exited 1 }, none)
  | .accept sock none =>
    { d with peer := Function.update d.peer sock none }.coordinate (.plain (.accept sock)) 0
  | .accept sock (some pid) =>
    match d.workers pid with
    | none => none
    | some w =>
      if w.connected then none
      else
        { d.setWorker pid { w with connected := true } with
          peer := Function.update d.peer sock (some pid) }.coordinate (.plain (.accept sock)) 0
  | .deliver sock now junk =>
    match d.peer sock with
    | none => none
    | some pid =>
      match d.workers pid with
      | none => none
      | some w =>
        match w.up with
        | [] => none
        | f :: rest =>
          (d.setWorker pid { w with up := rest }).coordinate (.plain (.receive sock f now)) junk
  | .client sock f now =>
    match d.peer sock with
    | none => d.coordinate (.plain (.receive sock f now)) 0
    | some _ => none
  | .lose sock => d.coordinate (.plain (.lose sock)) 0
  | .proceed sock now => d.coordinate (.plain (.proceed sock now)) 0
  | .tick now => d.coordinate (.plain (.tick now)) 0
  | .call who now => d.coordinate (.call who now) 0
  | .record now => d.coordinate (.record now) 0

end Deployment

/-- The access that a step is, where it is no more than that. -/
def DeploymentAct.access : DeploymentAct → Option ThreadAct
  | .lose sock => some (.plain (.lose sock))
  | .proceed sock now => some (.plain (.proceed sock now))
  | .tick now => some (.plain (.tick now))
  | .call who now => some (.call who now)
  | .record now => some (.record now)
  | _ => none

namespace Deployment

/-- **What a step of the system can do.** -/
inductive Does [Platform Binary64] (d : Deployment) :
    DeploymentAct → Deployment → Option (Effect Binary64) → Prop where
  | spawn {pid : Nat} {config : WorkerConfig} (hpid : d.workers pid = none) :
    Does d (.spawn pid config) (d.setWorker pid { config := config }) none
  | work {pid : Nat} {w w' : Worker} (hw : d.workers pid = some w) (hwork : w.work = some w') :
    Does d (.work pid) (d.setWorker pid w') none
  | stop {pid : Nat} {w : Worker} (hw : d.workers pid = some w) :
    Does d (.stop pid) (d.setWorker pid { w with phase := .exited 1 }) none
  | accept {sock : SocketHandle} {d' : Deployment} {e : Option (Effect Binary64)}
    (hc : { d with peer := Function.update d.peer sock none }.coordinate (.plain (.accept sock)) 0 =
      some (d', e)) : Does d (.accept sock none) d' e
  | connect {sock : SocketHandle} {pid : Nat} {w : Worker} {d' : Deployment}
    {e : Option (Effect Binary64)} (hw : d.workers pid = some w) (hfree : w.connected = false)
    (hc : { d.setWorker pid { w with connected := true } with
      peer := Function.update d.peer sock (some pid) }.coordinate (.plain (.accept sock)) 0 =
        some (d', e)) : Does d (.accept sock (some pid)) d' e
  | deliver {sock : SocketHandle} {now : Int64} {junk : UInt64} {pid : Nat} {w : Worker}
    {f : Frame} {rest : List Frame} {d' : Deployment} {e : Option (Effect Binary64)}
    (hpeer : d.peer sock = some pid) (hw : d.workers pid = some w) (hup : w.up = f :: rest)
    (hc : (d.setWorker pid { w with up := rest }).coordinate (.plain (.receive sock f now)) junk =
      some (d', e)) : Does d (.deliver sock now junk) d' e
  | client {sock : SocketHandle} {f : Frame} {now : Int64} {d' : Deployment}
    {e : Option (Effect Binary64)} (hpeer : d.peer sock = none)
    (hc : d.coordinate (.plain (.receive sock f now)) 0 = some (d', e)) :
    Does d (.client sock f now) d' e
  | access {act : DeploymentAct} {a : ThreadAct} {d' : Deployment}
    {e : Option (Effect Binary64)} (ha : act.access = some a)
    (hc : d.coordinate a 0 = some (d', e)) : Does d act d' e

theorem step_does [Platform Binary64] {d d' : Deployment} {act : DeploymentAct}
    {e : Option (Effect Binary64)} (h : d.step act = some (d', e)) : d.Does act d' e := by
  cases act with
  | spawn pid config =>
    simp only [step] at h
    split at h
    · cases h
    · rename_i hpid
      cases h
      exact .spawn hpid
  | work pid =>
    simp only [step] at h
    split at h
    · cases h
    · rename_i w hw
      obtain ⟨w', hwork, he⟩ := Option.map_eq_some_iff.mp h
      cases he
      exact .work hw hwork
  | stop pid =>
    simp only [step] at h
    split at h
    · cases h
    · rename_i w hw
      cases h
      exact .stop hw
  | accept sock who =>
    cases who with
    | none => exact .accept h
    | some pid =>
      simp only [step] at h
      split at h
      · cases h
      · rename_i w hw
        split at h
        · cases h
        · rename_i hfree
          exact .connect hw (Bool.eq_false_of_not_eq_true hfree) h
  | deliver sock now junk =>
    simp only [step] at h
    split at h
    · cases h
    · rename_i pid hpeer
      split at h
      · cases h
      · rename_i w hw
        split at h
        · cases h
        · rename_i f rest hup
          exact .deliver hpeer hw hup h
  | client sock f now =>
    simp only [step] at h
    split at h
    · rename_i hpeer
      exact .client hpeer h
    · cases h
  | lose | proceed | tick | call | record => exact .access rfl h

/-- Such an access reads no frame. -/
theorem access_unread {act : DeploymentAct} {a : ThreadAct} (ha : act.access = some a) :
    ∀ sock f now, a ≠ .plain (.receive sock f now) := by
  rintro sock f now rfl
  cases act <;> cases ha

end Deployment

/-! ## 3. What the coordinator does with hellos -/

/-- The hello a thread has at hand. -/
def Phase.hello : Phase → Option Hello
  | .registering h | .granting h => some h
  | _ => none

/-- The answer a hello is due, by the epoch and the boot ids seen. -/
inductive Answered {R : Type} (c : Coordinator R) (h : Hello) : AckMessage → Prop where
  | granted (hepoch : h.epoch = c.epoch.value) (hseen : h.bootId ∈ c.seenBoots h.name) :
    Answered c h ⟨c.epoch.value, h.bootId, 0, ascii "ok"⟩
  | staleEpoch (hepoch : h.epoch ≠ c.epoch.value) :
    Answered c h ⟨c.epoch.value, h.bootId, 1, ascii "stale epoch"⟩
  | staleBoot (hepoch : h.epoch = c.epoch.value) (hseen : h.bootId ∈ c.seenBoots h.name) :
    Answered c h ⟨c.epoch.value, h.bootId, 2, ascii "stale boot id"⟩
  | malformed (junk : UInt64) (hname : 256 < h.name.length) :
    Answered c h ⟨0, junk, 99, ascii "malformed hello"⟩

/-- Boot ids are added, and nothing else about hellos changes. -/
structure Coordinator.Later {R : Type} (c c' : Coordinator R) : Prop where
  epoch : c'.epoch = c.epoch
  seen : ∀ name, c.seenBoots name ⊆ c'.seenBoots name

section Greets

variable {R : Type} {c c' : Coordinator R} {act : ThreadAct} {sock : SocketHandle} {e : Effect R}

theorem Answered.later {h : Hello} {m : AckMessage} (ha : Answered c h m) (hl : c.Later c') :
    Answered c' h m := by
  cases ha with
  | granted hepoch hseen =>
    rw [← hl.epoch] at hepoch ⊢
    exact .granted hepoch (hl.seen _ hseen)
  | staleEpoch hepoch =>
    rw [← hl.epoch] at hepoch ⊢
    exact .staleEpoch hepoch
  | staleBoot hepoch hseen =>
    rw [← hl.epoch] at hepoch ⊢
    exact .staleBoot hepoch (hl.seen _ hseen)
  | malformed junk hname => exact .malformed junk hname

/-- **What a step does with hellos**: how a thread comes to have one at hand, and which answer goes
    out. -/
structure Coordinator.Greets (c : Coordinator R) (act : ThreadAct) (c' : Coordinator R)
    (e : Effect R) : Prop where
  later : c.Later c'
  registering : ∀ k h, c'.threads k = some (.registering h) →
    c.threads k = some (.registering h) ∨ ∃ f now, act = .plain (.receive k f now) ∧
      f.kind = .hello ∧ decodeHello f.payload = some h ∧ h.epoch = c.epoch.value
  granting : ∀ k h, c'.threads k = some (.granting h) →
    c.threads k = some (.granting h) ∨ ∃ now, act = .plain (.proceed k now) ∧
      c.threads k = some (.registering h) ∧ h.bootId ∉ c.seenBoots h.name ∧
      h.bootId ∈ c'.seenBoots h.name
  answer : ∀ ack, e.answer = some ack → ∃ k, act.sock = some k ∧
    ((∃ f now, act = .plain (.receive k f now) ∧ f.kind = .hello ∧ decodeHello f.payload = none ∧
        ack = ⟨0, none, 99, "malformed hello"⟩) ∨
      (∃ f now h, act = .plain (.receive k f now) ∧ f.kind = .hello ∧
        decodeHello f.payload = some h ∧ h.epoch ≠ c.epoch.value ∧
        ack = ⟨c.epoch.value, some h.bootId, 1, "stale epoch"⟩) ∨
      (∃ h, c.threads k = some (.registering h) ∧ h.bootId ∈ c.seenBoots h.name ∧
        ack = ⟨c.epoch.value, some h.bootId, 2, "stale boot id"⟩) ∨
      ∃ h, c.threads k = some (.granting h) ∧ ack = ⟨c.epoch.value, some h.bootId, 0, "ok"⟩)

namespace Coordinator

theorem Later.same (hepoch : c'.epoch = c.epoch) (hseen : c'.seenBoots = c.seenBoots) :
    c.Later c' := by
  refine ⟨hepoch, fun name => ?_⟩
  rw [hseen]
  exact List.Subset.refl _

theorem goTo_self (c : Coordinator R) (sock : SocketHandle) (p : Option Phase) :
    (c.goTo sock p).threads sock = p := Function.update_self ..

theorem goTo_ne (c : Coordinator R) {sock k : SocketHandle} (p : Option Phase) (hne : k ≠ sock) :
    (c.goTo sock p).threads k = c.threads k := Function.update_of_ne hne ..

/-- A step that gives no thread a hello and answers none. -/
theorem Greets.plain (hl : c.Later c') (p' : Option Phase)
    (hthreads : c'.threads = Function.update c.threads sock p') (hp' : p'.bind Phase.hello = none)
    (he : e.answer = none) : c.Greets act c' e := by
  have hkept (k : SocketHandle) (p : Phase) (h : Hello) (hp : p.hello = some h)
      (hk : c'.threads k = some p) : c.threads k = some p := by
    rw [hthreads] at hk
    rcases eq_or_ne k sock with rfl | hne
    · rw [Function.update_self] at hk
      rw [hk, Option.bind_some, hp] at hp'
      cases hp'
    · rwa [Function.update_of_ne hne] at hk
  refine ⟨hl, fun k h hk => .inl (hkept k _ h rfl hk), fun k h hk => .inl (hkept k _ h rfl hk),
    fun ack hack => ?_⟩
  rw [he] at hack
  cases hack

/-- A step that leaves the threads where they are. -/
theorem Greets.stay (hl : c.Later c') (hthreads : c'.threads = c.threads) (he : e.answer = none) :
    c.Greets act c' e := by
  refine ⟨hl, fun k h hk => .inl (hthreads ▸ hk), fun k h hk => .inl (hthreads ▸ hk),
    fun ack hack => ?_⟩
  rw [he] at hack
  cases hack

variable [Double R] [Platform R] [Pod R]

omit [Pod R] [Platform R] in
theorem handleEvidence_greets {f : Frame} {m : EvidenceMessage R} {now : Int64} :
    c.Greets (.plain (.receive sock f now)) (c.handleEvidence sock m now).1
      (c.handleEvidence sock m now).2 := by
  unfold handleEvidence
  split_ifs
  · exact .plain (.same rfl rfl) _ rfl rfl rfl
  · exact .plain (.same rfl rfl) _ rfl rfl rfl
  · exact .plain (.same rfl rfl) _ rfl rfl rfl
  · exact .plain (.same rfl rfl) _ rfl rfl rfl

theorem receive_greets {f : Frame} {now : Int64}
    (h : c.receive sock f now = some (c', e)) : c.Greets (.plain (.receive sock f now)) c' e := by
  -- an answer to a hello that ends the connection
  have hrefused (g : Option Hello) (ack : RegisterAck)
      (hack : (f.kind = .hello ∧ decodeHello f.payload = none ∧
          ack = ⟨0, none, 99, "malformed hello"⟩) ∨
        ∃ h, f.kind = .hello ∧ decodeHello f.payload = some h ∧ h.epoch ≠ c.epoch.value ∧
          ack = ⟨c.epoch.value, some h.bootId, 1, "stale epoch"⟩) :
      c.Greets (.plain (.receive sock f now)) (c.goTo sock none) (.acked g ack) := by
    have hplain : c.Greets (.plain (.receive sock f now)) (c.goTo sock none) .went :=
      .plain (.same rfl rfl) none rfl rfl rfl
    refine ⟨hplain.later, hplain.registering, hplain.granting, ?_⟩
    rintro _ ⟨⟩
    rcases hack with ⟨hkind, hdec, rfl⟩ | ⟨h, hkind, hdec, hepoch, rfl⟩
    · exact ⟨sock, rfl, .inl ⟨f, now, rfl, hkind, hdec, rfl⟩⟩
    · exact ⟨sock, rfl, .inr (.inl ⟨f, now, h, rfl, hkind, hdec, hepoch, rfl⟩)⟩
  unfold receive at h
  split_ifs at h with hhello hevidence hbeat hrequest hkill hshut
  · split at h
    · rename_i hdec
      cases h
      exact hrefused _ _ (.inl ⟨hhello, hdec, rfl⟩)
    · rename_i g hdec
      split_ifs at h with hepoch
      · cases h
        exact hrefused _ _ (.inr ⟨g, hhello, hdec, hepoch, rfl⟩)
      · cases h
        refine ⟨.same rfl rfl, fun k h hk => ?_, fun k h hk => ?_, nofun⟩
        · rcases eq_or_ne k sock with rfl | hne
          · have heq : some (Phase.registering g) = some (.registering h) :=
              (goTo_self ..).symm.trans hk
            cases heq
            exact .inr ⟨f, now, rfl, hhello, hdec, not_not.mp hepoch⟩
          · exact .inl ((goTo_ne _ _ hne).symm.trans hk)
        · rcases eq_or_ne k sock with rfl | hne
          · have heq : some (Phase.registering g) = some (.granting h) :=
              (goTo_self ..).symm.trans hk
            cases heq
          · exact .inl ((goTo_ne _ _ hne).symm.trans hk)
  · split at h
    · cases h
      exact .plain (.same rfl rfl) _ rfl rfl rfl
    · obtain ⟨rfl, rfl⟩ := Prod.ext_iff.mp (Option.some.inj h)
      exact handleEvidence_greets
  · cases h
    exact .plain (.same rfl rfl) _ rfl rfl rfl
  · obtain ⟨x, _, he⟩ := Option.map_eq_some_iff.mp h
    cases he
    exact .stay (.same rfl rfl) rfl rfl
  · cases h
    exact .stay (.same rfl rfl) rfl rfl
  · cases h
    exact .plain (.same rfl rfl) _ rfl rfl rfl
  · cases h
    exact .stay (.same rfl rfl) rfl rfl

omit [Double R] [Pod R] [Platform R] in
theorem register_greets {h : Hello} {now : Int64} (hp : c.threads sock = some (.registering h)) :
    c.Greets (.plain (.proceed sock now)) (c.register sock h now).1 (c.register sock h now).2 := by
  unfold register
  split_ifs with hseen
  · have hplain : c.Greets (.plain (.proceed sock now)) (c.goTo sock none) .went :=
      .plain (.same rfl rfl) none rfl rfl rfl
    refine ⟨hplain.later, hplain.registering, hplain.granting, ?_⟩
    rintro _ ⟨⟩
    exact ⟨sock, rfl, .inr (.inr (.inl ⟨h, hp, hseen, rfl⟩))⟩
  · refine ⟨⟨rfl, fun name b hb => ?_⟩, fun k g hk => ?_, fun k g hk => ?_, nofun⟩
    · show b ∈ Function.update c.seenBoots h.name (c.seenBoots h.name ++ [h.bootId]) name
      rcases eq_or_ne name h.name with rfl | hne
      · rw [Function.update_self]
        exact List.mem_append_left _ hb
      · rwa [Function.update_of_ne hne]
    · rcases eq_or_ne k sock with rfl | hne
      · have heq : some (Phase.granting h) = some (.registering g) :=
          (goTo_self ..).symm.trans hk
        cases heq
      · exact .inl ((goTo_ne _ _ hne).symm.trans hk)
    · rcases eq_or_ne k sock with rfl | hne
      · have heq : some (Phase.granting h) = some (.granting g) :=
          (goTo_self ..).symm.trans hk
        cases heq
        refine .inr ⟨now, rfl, hp, hseen, ?_⟩
        show h.bootId ∈ Function.update c.seenBoots h.name (c.seenBoots h.name ++ [h.bootId]) h.name
        rw [Function.update_self]
        exact List.mem_append_right _ List.mem_cons_self
      · exact .inl ((goTo_ne _ _ hne).symm.trans hk)

omit [Double R] [Pod R] [Platform R] in
theorem proceed_greets {p : Phase} {now : Int64} (hp : c.threads sock = some p)
    (h : c.proceed sock now p = some (c', e)) : c.Greets (.plain (.proceed sock now)) c' e := by
  cases p with
  | reading => cases h
  | registering g =>
    obtain ⟨rfl, rfl⟩ := Prod.ext_iff.mp (Option.some.inj h)
    exact register_greets hp
  | granting g =>
    cases h
    have hplain : c.Greets (.plain (.proceed sock now)) (c.goTo sock (some .reading)) .went :=
      .plain (.same rfl rfl) (some .reading) rfl rfl rfl
    refine ⟨hplain.later, hplain.registering, hplain.granting, ?_⟩
    rintro _ ⟨⟩
    exact ⟨sock, rfl, .inr (.inr (.inr ⟨g, hp, rfl⟩))⟩
  | checking bootId =>
    simp only [proceed] at h
    split_ifs at h
    · cases h
      exact .plain (.same rfl rfl) _ rfl rfl rfl
    · cases h
      exact .plain (.same rfl rfl) _ rfl rfl rfl
  | restoring bootId | verifying bootId | marking =>
    cases h
    exact .plain (.same rfl rfl) _ rfl rfl rfl
  | stamping =>
    cases h
    obtain ⟨hthreads, hseen, hepoch, _⟩ := c.stamp_frame sock now
    have hgo : ((c.stamp sock now).goTo sock (some .reading)).threads =
        Function.update c.threads sock (some .reading) := by
      show Function.update (c.stamp sock now).threads sock _ = _
      rw [hthreads]
    exact .plain (.same hepoch hseen) (some .reading) hgo rfl rfl
  | leaving =>
    cases h
    exact .plain (.same rfl rfl) none rfl rfl rfl

omit [Platform R] in
/-- A call leads to no hello. -/
theorem callOf_next {f : Frame} {r : Report R} {next : Phase}
    (h : Threaded.callOf c f = some (r, next)) : (some next).bind Phase.hello = none := by
  unfold Threaded.callOf at h
  split_ifs at h
  obtain ⟨m, _, hcall⟩ := Option.bind_eq_some_iff.mp h
  unfold Threaded.callFor at hcall
  split_ifs at hcall <;> cases hcall <;> rfl

/-- **Every step does one of these with hellos.** -/
theorem step_greets {a : Act} (h : c.step a = some (c', e)) : c.Greets (.plain a) c' e := by
  unfold step at h
  split_ifs at h
  cases a with
  | accept sock =>
    simp only at h
    split_ifs at h
    cases h
    exact .plain (.same rfl rfl) _ rfl rfl rfl
  | receive sock f now =>
    simp only at h
    split_ifs at h
    exact receive_greets h
  | lose sock =>
    simp only at h
    split_ifs at h
    cases h
    exact .plain (.same rfl rfl) _ rfl rfl rfl
  | proceed sock now =>
    obtain ⟨p, hp, hproceed⟩ := Option.bind_eq_some_iff.mp h
    exact proceed_greets hp hproceed
  | tick now =>
    cases h
    obtain ⟨_, hseen, hepoch, hthreads⟩ := c.monitor_tables now
    exact .stay (.same hepoch hseen) hthreads rfl

/-- ... and every access: none in a call, or of the monitor, is about a hello. -/
theorem access_greets {p p' : Threaded R} (h : p.step act = some (p', e)) :
    p.shared.Greets act p'.shared e := by
  cases Threaded.step_does h with
  | once _ _ _ hs => exact step_greets hs
  | @call sock f now r next hcall _ =>
    refine .plain (.same rfl rfl) (some next) rfl ?_ rfl
    exact callOf_next hcall
  | wake =>
    unfold Threaded.wake
    split
    · exact .stay (.same rfl rfl) rfl rfl
    · exact .stay (.same rfl rfl) rfl rfl
  | @goOn who now x hx => cases x <;> exact .stay (.same rfl rfl) rfl rfl
  | observe | authorize => exact .stay (.same rfl rfl) rfl rfl

omit [Double R] [Pod R] [Platform R] in
/-- A hello that a thread has at hand it had before, or reads in this step. -/
theorem Greets.hello (hg : c.Greets act c' e) {p : Phase} {h : Hello}
    (hp : c'.threads sock = some p) (hh : p.hello = some h) :
    (∃ p', c.threads sock = some p' ∧ p'.hello = some h) ∨
      ∃ f now, act = .plain (.receive sock f now) ∧ f.kind = .hello ∧
        decodeHello f.payload = some h ∧ h.epoch = c.epoch.value := by
  cases p with
  | registering g =>
    cases hh
    exact (hg.registering sock h hp).imp_left fun hp => ⟨_, hp, rfl⟩
  | granting g =>
    cases hh
    rcases hg.granting sock h hp with hp | ⟨_, _, hp, _⟩
    · exact .inl ⟨_, hp, rfl⟩
    · exact .inl ⟨_, hp, rfl⟩
  | reading | checking | restoring | verifying | marking | stamping | leaving => cases hh

end Coordinator

end Greets


/-! ## 4. One worker -/

theorem leNat_writeU64 (v : UInt64) : leNat (writeU64 v) = v.toNat := by
  rw [writeU64, leNat_leBytes]
  exact Nat.mod_eq_of_lt v.toNat_lt

theorem decodeHello_encodeHello {h : Hello} (hsize : h.name.length < 2 ^ 64) :
    decodeHello (encodeHello h) = if h.name.length ≤ 256 then some h else none := by
  split
  · rename_i hname
    exact decodeHello_iff.mpr ⟨[], (List.append_nil _).symm, hname⟩
  · rename_i hname
    cases hdec : decodeHello (encodeHello h) with
    | none => rfl
    | some g =>
      -- the lengths in front of the two names would be the same
      obtain ⟨rest, hrest, hg⟩ := decodeHello_iff.mp hdec
      simp only [encodeHello, writeString, List.append_assoc] at hrest
      have hlen := (List.append_inj hrest rfl).1
      have hlen' := congrArg leNat hlen
      rw [leNat_writeU64, leNat_writeU64, UInt64.toNat_ofNat', UInt64.toNat_ofNat',
        Nat.mod_eq_of_lt hsize, Nat.mod_eq_of_lt (by omega)] at hlen'
      omega

theorem decodeEvidence_encodeEvidence (m : EvidenceMessage Binary64) :
    decodeEvidence Binary64 (encodeEvidence m) = some m :=
  decodeEvidence_iff.mpr ⟨[], (List.append_nil _).symm⟩

theorem Answered.status_length {R : Type} {c : Coordinator R} {h : Hello} {m : AckMessage}
    (ha : Answered c h m) : m.status.length ≤ 512 := by
  have hascii (s : String) : (ascii s).length = s.toList.length := List.length_map _
  cases ha with
  | granted | staleEpoch | staleBoot | malformed =>
    rw [hascii]
    decide

theorem Answered.decoded {R : Type} {c : Coordinator R} {h : Hello} {m : AckMessage}
    (ha : Answered c h m) : decodeAck (encodeAck m) = some m :=
  decodeAck_iff.mpr ⟨[], (List.append_nil _).symm, ha.status_length⟩

/-- A frame that a worker sends; its measurements it sends once it is registered. -/
inductive Worker.Sends (w : Worker) : Frame → Prop where
  | hello : Sends w w.helloFrame
  | heartbeat : Sends w heartbeatFrame
  | latency (h : w.Registered) : Sends w (reportFrame w.latencyReport)
  | availability (h : w.Registered) : Sends w (reportFrame w.availabilityReport)

/-- What holds of a worker in every state: what is on its connection, what it was answered, and
    that it is in its loop once it was registered. -/
structure Worker.Sound {R : Type} (c : Coordinator R) (w : Worker) : Prop where
  up : ∀ f ∈ w.up, w.Sends f
  down : ∀ f ∈ w.down, ∃ m, f = ackFrame m ∧ Answered c w.config.hello m
  answer : ∀ m, w.answer = some m → Answered c w.config.hello m
  unanswered : w.phase = .greeting ∨ w.phase = .waiting → w.answer = none
  serving : w.phase = .latency ∨ w.phase = .availability ∨ w.phase = .beat → w.Registered
  defined : w.phase ≠ .undefined

/-- The worker has been told that it is registered, or is about to read it. -/
def Worker.Told (w : Worker) : Prop :=
  w.Registered ∨ ∃ f ∈ w.down, ∃ m, decodeAck f.payload = some m ∧ m.statusCode = 0

namespace Worker

variable {R : Type} {c c' : Coordinator R} {w w' : Worker}

theorem Sound.later (h : w.Sound c) (hl : c.Later c') : w.Sound c' := by
  refine ⟨h.up, fun f hf => ?_, fun m hm => (h.answer m hm).later hl, h.unanswered, h.serving,
    h.defined⟩
  obtain ⟨m, hfm, hm⟩ := h.down f hf
  exact ⟨m, hfm, hm.later hl⟩

/-- A hello that a worker sends is its own, if its name is not too long. -/
theorem Sends.greeting {f : Frame} (h : w.Sends f) (hkind : f.kind = .hello) :
    decodeHello f.payload =
      if w.config.hello.name.length ≤ 256 then some w.config.hello else none := by
  cases h with
  | hello => exact decodeHello_encodeHello w.config.sized
  | heartbeat | latency | availability => cases hkind

theorem Sends.same {f : Frame} (h : w.Sends f) (hc : w'.config = w.config)
    (ha : w'.answer = w.answer) : w'.Sends f := by
  have hreg : w.Registered → w'.Registered := fun ⟨m, hm, h₀⟩ => ⟨m, ha.trans hm, h₀⟩
  cases h with
  | hello =>
    rw [helloFrame, ← hc]
    exact .hello
  | heartbeat => exact .heartbeat
  | latency h =>
    rw [latencyReport, ← hc]
    exact .latency (hreg h)
  | availability h =>
    rw [availabilityReport, ← hc]
    exact .availability (hreg h)

/-- A worker in another place, or with less to read or more sent, is as sound. -/
theorem Sound.turn (h : w.Sound c) (hc : w'.config = w.config) (ha : w'.answer = w.answer)
    (hup : ∀ f ∈ w'.up, f ∈ w.up ∨ w'.Sends f) (hdown : w'.down = w.down)
    (hun : w'.phase = .greeting ∨ w'.phase = .waiting → w.answer = none)
    (hserve : w'.phase = .latency ∨ w'.phase = .availability ∨ w'.phase = .beat → w.Registered)
    (hdef : w'.phase ≠ .undefined) : w'.Sound c := by
  refine ⟨fun f hf => ?_, ?_, ?_, fun hp => ha.trans (hun hp), fun hp => ?_, hdef⟩
  · rcases hup f hf with hf | hf
    · exact (h.up f hf).same hc ha
    · exact hf
  · rw [hdown, hc]
    exact h.down
  · rw [ha, hc]
    exact h.answer
  · obtain ⟨m, hm, h₀⟩ := hserve hp
    exact ⟨m, ha.trans hm, h₀⟩

/-- A send. -/
theorem Sound.send (h : w.Sound c) {f : Frame} {p : WorkerPhase}
    (hf : (w.send f p).Sends f) (hun : p = .greeting ∨ p = .waiting → w.answer = none)
    (hserve : p = .latency ∨ p = .availability ∨ p = .beat → w.Registered)
    (hdef : p ≠ .undefined) : (w.send f p).Sound c := by
  refine h.turn rfl rfl (fun g hg => ?_) rfl hun hserve hdef
  rcases List.mem_append.mp hg with hg | hg
  · exact .inl hg
  · rw [List.mem_singleton.mp hg]
    exact .inr hf

theorem top_serving (w : Worker) : w.top = .latency ∨ w.top = .beat := by
  unfold top
  split
  · exact .inl rfl
  · exact .inr rfl

/-- **What a worker does keeps it sound**, and tells it nothing that it has not been told. -/
theorem work_sound (h : w.Sound c) (hw : w.work = some w') :
    w'.Sound c ∧ w'.config = w.config ∧ (w'.Told → w.Told) := by
  have hloop (p : WorkerPhase) (hp : p = .latency ∨ p = .availability ∨ p = .beat) :
      (p = .greeting ∨ p = .waiting → w.answer = none) ∧ p ≠ .undefined := by
    rcases hp with rfl | rfl | rfl <;> exact ⟨by simp, by simp⟩
  unfold work at hw
  split at hw
  · rename_i hp
    cases hw
    exact ⟨h.send .hello (fun _ => h.unanswered (.inl hp)) (by simp) (by simp), rfl, id⟩
  · rename_i hp
    split at hw
    · cases hw
    · rename_i f rest hdown
      obtain ⟨m, rfl, hm⟩ := h.down f (hdown ▸ List.mem_cons_self)
      have hdec : decodeAck (ackFrame m).payload = some m := hm.decoded
      rw [hdec] at hw
      cases hw
      have hanswer := h.unanswered (.inr hp)
      refine ⟨⟨fun f hf => ?_, fun f hf => ?_, ?_, ?_, ?_, ?_⟩, rfl, ?_⟩
      · have hsend := h.up f hf
        have hnone : ¬w.Registered := fun ⟨m, hm, _⟩ => by rw [hanswer] at hm; cases hm
        cases hsend with
        | hello => exact .hello
        | heartbeat => exact .heartbeat
        | latency hreg | availability hreg => exact absurd hreg hnone
      · exact h.down f (hdown ▸ List.mem_cons_of_mem _ hf)
      · rintro _ ⟨⟩
        exact hm
      · intro hphase
        dsimp only at hphase
        split at hphase
        · rcases w.top_serving with ht | ht <;> rw [ht] at hphase <;> simp at hphase
        · simp at hphase
      · intro hphase
        dsimp only at hphase
        split at hphase
        · rename_i h₀
          exact ⟨m, rfl, h₀⟩
        · simp at hphase
      · dsimp only
        split
        · rcases w.top_serving with ht | ht <;> rw [ht] <;> simp
        · simp
      · rintro (⟨_, ⟨⟩, h₀⟩ | ⟨f, hf, hgrant⟩)
        · exact .inr ⟨ackFrame m, hdown ▸ List.mem_cons_self, m, hdec, h₀⟩
        · exact .inr ⟨f, hdown ▸ List.mem_cons_of_mem _ hf, hgrant⟩
  · rename_i hp
    cases hw
    have hreg := h.serving (.inl hp)
    have hnext := hloop .availability (.inr (.inl rfl))
    exact ⟨h.send (.latency hreg) hnext.1 (fun _ => hreg) hnext.2, rfl, id⟩
  · rename_i hp
    cases hw
    have hreg := h.serving (.inr (.inl hp))
    have hnext := hloop .beat (.inr (.inr rfl))
    exact ⟨h.send (.availability hreg) hnext.1 (fun _ => hreg) hnext.2, rfl, id⟩
  · rename_i hp
    cases hw
    have hreg := h.serving (.inr (.inr hp))
    have hnext := hloop w.top (w.top_serving.imp_right .inr)
    exact ⟨h.send .heartbeat hnext.1 (fun _ => hreg) hnext.2, rfl, id⟩
  · cases hw
  · cases hw

end Worker


/-! ## 5. The invariant -/

/-- Only one answer has the code `0`. -/
theorem Answered.entitled {R : Type} {c : Coordinator R} {h : Hello} {m : AckMessage}
    (ha : Answered c h m) (h₀ : m.statusCode = 0) :
    h.epoch = c.epoch.value ∧ h.bootId ∈ c.seenBoots h.name := by
  cases ha with
  | granted hepoch hseen => exact ⟨hepoch, hseen⟩
  | staleEpoch | staleBoot | malformed => cases h₀

namespace Deployment

/-- The coordinator has granted a worker its identity. -/
def Granted (d : Deployment) (pid : Nat) (w : Worker) : Prop :=
  w.Told ∨ ∃ sock h, d.peer sock = some pid ∧ d.server.shared.threads sock = some (.granting h)

/-- What holds in every state. -/
structure Sound (d : Deployment) : Prop where
  worker : ∀ pid w, d.workers pid = some w → w.Sound d.server.shared
  known : ∀ sock pid, d.peer sock = some pid → ∃ w, d.workers pid = some w
  greeted : ∀ sock pid w p h, d.peer sock = some pid → d.workers pid = some w →
    d.server.shared.threads sock = some p → p.hello = some h → h = w.config.hello
  epoch : ∀ sock p h, d.server.shared.threads sock = some p → p.hello = some h →
    h.epoch = d.server.shared.epoch.value
  granting : ∀ sock h, d.server.shared.threads sock = some (.granting h) →
    h.bootId ∈ d.server.shared.seenBoots h.name
  exclusive : ∀ pid pid' w w', d.workers pid = some w → d.workers pid' = some w' →
    d.Granted pid w → d.Granted pid' w' → pid ≠ pid' →
    w.config.hello.name = w'.config.hello.name →
    w.config.hello.bootId ≠ w'.config.hello.bootId

variable {d d' : Deployment} {pid : Nat} {w w' : Worker}

/-- Whoever was granted an identity is entitled to it. -/
theorem Sound.entitled (h : d.Sound) (hw : d.workers pid = some w) (hg : d.Granted pid w) :
    w.config.hello.epoch = d.server.shared.epoch.value ∧
      w.config.hello.bootId ∈ d.server.shared.seenBoots w.config.hello.name := by
  have hsound := h.worker pid w hw
  rcases hg with (⟨m, hm, h₀⟩ | ⟨f, hf, m, hdec, h₀⟩) | ⟨sock, g, hpeer, hthread⟩
  · exact (hsound.answer m hm).entitled h₀
  · obtain ⟨m', rfl, hm'⟩ := hsound.down f hf
    cases hm'.decoded.symm.trans hdec
    exact hm'.entitled h₀
  · obtain rfl := h.greeted sock pid w _ g hpeer hw hthread rfl
    exact ⟨h.epoch sock _ _ hthread rfl, h.granting sock _ hthread⟩

theorem start_sound {c : Coordinator Binary64} (hc : c.threads = fun _ => none) :
    ({ server := { shared := c } } : Deployment).Sound := by
  have hnone (sock : SocketHandle) : c.threads sock = none := congrFun hc sock
  refine ⟨fun _ _ hw => ?_, fun _ _ hpeer => ?_, fun _ _ _ _ _ hpeer => ?_,
    fun sock p h hp => ?_, fun sock h hp => ?_, fun _ _ _ _ hw => ?_⟩
  · cases hw
  · cases hpeer
  · cases hpeer
  · cases (hnone sock).symm.trans hp
  · cases (hnone sock).symm.trans hp
  · cases hw

theorem setWorker_self (d : Deployment) (pid : Nat) (w : Worker) :
    (d.setWorker pid w).workers pid = some w := Function.update_self ..

theorem setWorker_ne (d : Deployment) {q : Nat} (w : Worker) (hne : q ≠ pid) :
    (d.setWorker pid w).workers q = d.workers q := Function.update_of_ne hne ..

/-- Who is where after a worker took a step. -/
theorem setWorker_cases {q : Nat} {v : Worker} (h : (d.setWorker pid w').workers q = some v) :
    (q = pid ∧ v = w') ∨ q ≠ pid ∧ d.workers q = some v := by
  rcases eq_or_ne q pid with rfl | hne
  · exact .inl ⟨rfl, (Option.some.inj ((d.setWorker_self q w').symm.trans h)).symm⟩
  · exact .inr ⟨hne, (d.setWorker_ne w' hne).symm.trans h⟩

/-- A worker that keeps its configuration and is told nothing new. -/
theorem Sound.setWorker (h : d.Sound) (hw : d.workers pid = some w)
    (hsound : w'.Sound d.server.shared) (hconfig : w'.config = w.config)
    (htold : w'.Told → w.Told) : (d.setWorker pid w').Sound := by
  -- everybody was there before, under the same configuration, and was granted as much
  have hbefore (q : Nat) (v : Worker) (hv : (d.setWorker pid w').workers q = some v) :
      v.Sound d.server.shared ∧ ∃ v₀, d.workers q = some v₀ ∧ v.config = v₀.config ∧
        ((d.setWorker pid w').Granted q v → d.Granted q v₀) := by
    rcases setWorker_cases hv with ⟨rfl, rfl⟩ | ⟨_, hv⟩
    · exact ⟨hsound, w, hw, hconfig, Or.imp_left htold⟩
    · exact ⟨h.worker q v hv, v, hv, rfl, id⟩
  refine ⟨fun q v hv => (hbefore q v hv).1, fun sock q hq => ?_,
    fun sock q v p g hpeer hv hp hg => ?_, h.epoch, h.granting, ?_⟩
  · obtain ⟨v, hv⟩ := h.known sock q hq
    rcases eq_or_ne q pid with rfl | hne
    · exact ⟨w', d.setWorker_self q w'⟩
    · exact ⟨v, (d.setWorker_ne w' hne).trans hv⟩
  · obtain ⟨_, v₀, hv₀, hc, _⟩ := hbefore q v hv
    rw [hc]
    exact h.greeted sock q v₀ p g hpeer hv₀ hp hg
  · intro q q' v v' hv hv' hgrant hgrant' hne hname
    obtain ⟨_, v₀, hv₀, hc, hg⟩ := hbefore q v hv
    obtain ⟨_, v₀', hv₀', hc', hg'⟩ := hbefore q' v' hv'
    rw [hc, hc'] at hname ⊢
    exact h.exclusive q q' v₀ v₀' hv₀ hv₀' (hg hgrant) (hg' hgrant') hne hname

/-- A worker that is started. -/
theorem Sound.spawn (h : d.Sound) (hpid : d.workers pid = none) (config : WorkerConfig) :
    (d.setWorker pid { config := config }).Sound := by
  have hnew : Worker.Sound d.server.shared { config := config } :=
    ⟨nofun, nofun, nofun, fun _ => rfl, by simp, by simp⟩
  have hpeer (sock : SocketHandle) : d.peer sock ≠ some pid := by
    intro hp
    obtain ⟨v, hv⟩ := h.known sock pid hp
    cases hpid.symm.trans hv
  have hnot : ¬(d.setWorker pid { config := config }).Granted pid { config := config } := by
    rintro ((⟨m, ⟨⟩, _⟩ | ⟨f, hf, _⟩) | ⟨sock, g, hp, _⟩)
    · cases hf
    · exact hpeer sock hp
  refine ⟨fun q v hv => ?_, fun sock q hq => ?_, fun sock q v p g hp hv ht hg => ?_, h.epoch,
    h.granting, ?_⟩
  · rcases setWorker_cases hv with ⟨rfl, rfl⟩ | ⟨_, hv⟩
    · exact hnew
    · exact h.worker q v hv
  · obtain ⟨v, hv⟩ := h.known sock q hq
    have hne : q ≠ pid := by
      rintro rfl
      exact hpeer sock hq
    exact ⟨v, (d.setWorker_ne _ hne).trans hv⟩
  · rcases setWorker_cases hv with ⟨rfl, rfl⟩ | ⟨_, hv⟩
    · exact absurd hp (hpeer sock)
    · exact h.greeted sock q v p g hp hv ht hg
  · intro q q' v v' hv hv' hgrant hgrant' hne hname
    rcases setWorker_cases hv with ⟨rfl, rfl⟩ | ⟨_, hv⟩
    · exact absurd hgrant hnot
    · rcases setWorker_cases hv' with ⟨rfl, rfl⟩ | ⟨_, hv'⟩
      · exact absurd hgrant' hnot
      · exact h.exclusive q q' v v' hv hv' hgrant hgrant' hne hname

/-- A handle without a thread can be anybody's. -/
theorem Sound.assign (h : d.Sound) {sock : SocketHandle} {who : Option Nat}
    (hnone : d.server.shared.threads sock = none)
    (hwho : ∀ q, who = some q → ∃ v, d.workers q = some v) :
    ({ d with peer := Function.update d.peer sock who } : Deployment).Sound := by
  have hsame (k : SocketHandle) (p : Phase) (hp : d.server.shared.threads k = some p) :
      Function.update d.peer sock who k = d.peer k := by
    refine Function.update_of_ne ?_ ..
    rintro rfl
    cases hnone.symm.trans hp
  have hgranted (q : Nat) (v : Worker) (hg : ({ d with
      peer := Function.update d.peer sock who } : Deployment).Granted q v) : d.Granted q v := by
    rcases hg with htold | ⟨k, g, hpeer, hthread⟩
    · exact .inl htold
    · exact .inr ⟨k, g, (hsame k _ hthread).symm.trans hpeer, hthread⟩
  refine ⟨h.worker, fun k q hq => ?_, fun k q v p g hpeer hv hp hg => ?_, h.epoch, h.granting, ?_⟩
  · have hq' : Function.update d.peer sock who k = some q := hq
    rcases eq_or_ne k sock with rfl | hne
    · rw [Function.update_self] at hq'
      exact hwho q hq'
    · rw [Function.update_of_ne hne] at hq'
      exact h.known k q hq'
  · exact h.greeted k q v p g ((hsame k p hp).symm.trans hpeer) hv hp hg
  · intro q q' v v' hv hv' hgrant hgrant' hne hname
    exact h.exclusive q q' v v' hv hv' (hgranted q v hgrant) (hgranted q' v' hgrant') hne hname

variable [Platform Binary64]

/-- **What a step of the coordinator leaves**: the workers, but for an answer on the connection of
    the thread that took it. -/
theorem coordinate_cases {act : ThreadAct} {junk : UInt64} {e : Option (Effect Binary64)}
    (h : d.coordinate act junk = some (d', e)) : ∃ p' e', e = some e' ∧
      d.server.step act = some (p', e') ∧ d'.server = p' ∧ d'.peer = d.peer ∧
      (∀ q v, d.workers q = some v → ∃ v', d'.workers q = some v') ∧
      ∀ q v', d'.workers q = some v' → ∃ v, d.workers q = some v ∧ (v' = v ∨ ∃ sock ack,
        act.sock = some sock ∧ d.peer sock = some q ∧ e'.answer = some ack ∧
        v' = { v with down := v.down ++ [ackFrame (ackMessage junk ack)] }) := by
  obtain ⟨⟨c', e'⟩, hstep, hr⟩ := Option.map_eq_some_iff.mp h
  refine ⟨c', e', ?_⟩
  dsimp only at hr
  split at hr
  · rename_i sock ack hsock hack
    obtain ⟨hd, rfl⟩ := Prod.ext_iff.mp hr
    dsimp only at hd
    subst hd
    unfold post
    split
    · exact ⟨rfl, hstep, rfl, rfl, fun q v hv => ⟨v, hv⟩, fun q v hv => ⟨v, hv, .inl rfl⟩⟩
    · rename_i q hpeer
      split
      · exact ⟨rfl, hstep, rfl, rfl, fun q v hv => ⟨v, hv⟩, fun q v hv => ⟨v, hv, .inl rfl⟩⟩
      · rename_i w hw
        refine ⟨rfl, hstep, rfl, rfl, fun k v hv => ?_, fun k v hv => ?_⟩
        · rcases eq_or_ne k q with rfl | hne
          · exact ⟨_, setWorker_self _ k _⟩
          · exact ⟨v, (setWorker_ne _ _ hne).trans hv⟩
        · rcases setWorker_cases hv with ⟨rfl, rfl⟩ | ⟨_, hv⟩
          · exact ⟨w, hw, .inr ⟨sock, ack, hsock, hpeer, hack, rfl⟩⟩
          · exact ⟨v, hv, .inl rfl⟩
  · cases hr
    exact ⟨rfl, hstep, rfl, rfl, fun q v hv => ⟨v, hv⟩, fun q v hv => ⟨v, hv, .inl rfl⟩⟩

omit [Platform Binary64] in
/-- What a worker is answered is what its hello is due. -/
theorem Sound.answered (h : d.Sound) {act : ThreadAct} {c' : Coordinator Binary64}
    {e : Effect Binary64} (hgreets : d.server.shared.Greets act c' e) (hw : d.workers pid = some w)
    (hfrom : ∀ sock f now, act = .plain (.receive sock f now) → d.peer sock = some pid → w.Sends f)
    {sock : SocketHandle} (hsock : act.sock = some sock) (hpeer : d.peer sock = some pid)
    {ack : RegisterAck} (hack : e.answer = some ack) (junk : UInt64) :
    Answered c' w.config.hello (ackMessage junk ack) ∧
      ((ackMessage junk ack).statusCode = 0 → d.Granted pid w) := by
  obtain ⟨k, hk, hcase⟩ := hgreets.answer ack hack
  obtain rfl : sock = k := Option.some.inj (hsock.symm.trans hk)
  rcases hcase with ⟨f, now, hact, hkind, hdec, rfl⟩ | ⟨f, now, g, hact, hkind, hdec, hepoch, rfl⟩ |
    ⟨g, hthread, hseen, rfl⟩ | ⟨g, hthread, rfl⟩
  · rw [(hfrom sock f now hact hpeer).greeting hkind] at hdec
    split at hdec
    · cases hdec
    · rename_i hname
      exact ⟨.malformed junk (Nat.lt_of_not_le hname), nofun⟩
  · rw [(hfrom sock f now hact hpeer).greeting hkind] at hdec
    split at hdec
    · cases hdec
      exact ⟨Answered.later (.staleEpoch hepoch) hgreets.later, nofun⟩
    · cases hdec
  · obtain rfl := h.greeted sock pid w _ g hpeer hw hthread rfl
    have hepoch := h.epoch sock _ _ hthread rfl
    exact ⟨Answered.later (.staleBoot hepoch hseen) hgreets.later, nofun⟩
  · obtain rfl := h.greeted sock pid w _ g hpeer hw hthread rfl
    have hepoch := h.epoch sock _ _ hthread rfl
    have hseen := h.granting sock _ hthread
    exact ⟨Answered.later (.granted hepoch hseen) hgreets.later,
      fun _ => .inr ⟨sock, _, hpeer, hthread⟩⟩

/-- Whoever is granted an identity after a step of the coordinator was granted it before, or is
    granted it in this step. -/
theorem Sound.regranted (h : d.Sound) {act : ThreadAct} {junk : UInt64}
    {e : Option (Effect Binary64)}
    (hfrom : ∀ sock f now q v, act = .plain (.receive sock f now) → d.peer sock = some q →
      d.workers q = some v → v.Sends f)
    (hstep : d.coordinate act junk = some (d', e)) (hw : d'.workers pid = some w') :
    ∃ w, d.workers pid = some w ∧ w'.config = w.config ∧ w'.Sound d'.server.shared ∧
      (d'.Granted pid w' → d.Granted pid w ∨ ∃ sock now, act = .plain (.proceed sock now) ∧
        d.peer sock = some pid ∧
        w.config.hello.bootId ∉ d.server.shared.seenBoots w.config.hello.name) := by
  obtain ⟨c', e', rfl, hc, rfl, hpeer, _, hworkers⟩ := coordinate_cases hstep
  have hgreets := Coordinator.access_greets hc
  obtain ⟨v, hv, hcase⟩ := hworkers pid w' hw
  have hsound := (h.worker pid v hv).later hgreets.later
  have hthread (k : SocketHandle) (g : Hello) (hk : d'.peer k = some pid)
      (hg : d'.server.shared.threads k = some (.granting g)) : d.Granted pid v ∨
        ∃ sock now, act = .plain (.proceed sock now) ∧ d.peer sock = some pid ∧
          v.config.hello.bootId ∉ d.server.shared.seenBoots v.config.hello.name := by
    rw [hpeer] at hk
    rcases hgreets.granting k g hg with hg | ⟨now, hact, hreg, hnew, _⟩
    · exact .inl (.inr ⟨k, g, hk, hg⟩)
    · obtain rfl := h.greeted k pid v _ g hk hv hreg rfl
      exact .inr ⟨k, now, hact, hk, hnew⟩
  rcases hcase with rfl | ⟨sock, ack, hsock, hsockpeer, hack, rfl⟩
  · refine ⟨w', hv, rfl, hsound, ?_⟩
    rintro (htold | ⟨k, g, hk, hg⟩)
    · exact .inl (.inl htold)
    · exact hthread k g hk hg
  · obtain ⟨hanswered, hzero⟩ := h.answered hgreets hv
      (fun sock f now hact hp => hfrom sock f now pid v hact hp hv) hsock hsockpeer hack junk
    refine ⟨v, hv, rfl, ⟨fun f hf => (hsound.up f hf).same rfl rfl, fun f hf => ?_,
      hsound.answer, hsound.unanswered, hsound.serving, hsound.defined⟩, ?_⟩
    · rcases List.mem_append.mp hf with hf | hf
      · exact hsound.down f hf
      · exact ⟨_, List.mem_singleton.mp hf, hanswered⟩
    · rintro ((hreg | ⟨f, hf, m, hdec, h₀⟩) | ⟨k, g, hk, hg⟩)
      · exact .inl (.inl (.inl hreg))
      · rcases List.mem_append.mp hf with hf | hf
        · exact .inl (.inl (.inr ⟨f, hf, m, hdec, h₀⟩))
        · obtain rfl := List.mem_singleton.mp hf
          cases hanswered.decoded.symm.trans hdec
          exact .inl (hzero h₀)
      · exact hthread k g hk hg

/-- **A step of the coordinator keeps the invariant**, where what its thread reads is what the
    worker at the other end sent. -/
theorem Sound.coordinate (h : d.Sound) {act : ThreadAct} {junk : UInt64}
    {e : Option (Effect Binary64)}
    (hfrom : ∀ sock f now q v, act = .plain (.receive sock f now) → d.peer sock = some q →
      d.workers q = some v → v.Sends f)
    (hstep : d.coordinate act junk = some (d', e)) : d'.Sound := by
  have hgranted (q : Nat) (v' : Worker) (hv' : d'.workers q = some v') :=
    h.regranted hfrom hstep hv'
  obtain ⟨c', e', rfl, hc, rfl, hpeer, hstay, _⟩ := coordinate_cases hstep
  have hgreets := Coordinator.access_greets hc
  have hl := hgreets.later
  refine ⟨fun q v' hv' => ?_, fun sock q hq => ?_, fun sock q v' p g hk hv' hp hg => ?_,
    fun sock p g hp hg => ?_, fun sock g hg => ?_, ?_⟩
  · obtain ⟨_, _, _, hsound, _⟩ := hgranted q v' hv'
    exact hsound
  · rw [hpeer] at hq
    obtain ⟨v, hv⟩ := h.known sock q hq
    exact hstay q v hv
  · obtain ⟨v, hv, hconfig, _⟩ := hgranted q v' hv'
    rw [hpeer] at hk
    rw [hconfig]
    rcases hgreets.hello hp hg with ⟨p', hp', hg'⟩ | ⟨f, now, hact, hkind, hdec, _⟩
    · exact h.greeted sock q v p' g hk hv hp' hg'
    · rw [(hfrom sock f now q v hact hk hv).greeting hkind] at hdec
      split at hdec
      · exact (Option.some.inj hdec).symm
      · cases hdec
  · rw [hl.epoch]
    rcases hgreets.hello hp hg with ⟨p', hp', hg'⟩ | ⟨_, _, _, _, _, hepoch⟩
    · exact h.epoch sock p' g hp' hg'
    · exact hepoch
  · rcases hgreets.granting sock g hg with hg | ⟨_, _, _, _, hseen⟩
    · exact hl.seen _ (h.granting sock g hg)
    · exact hseen
  · intro q q' v v' hv hv' hgrant hgrant' hne hname hboot
    obtain ⟨u, hu, hconfig, _, hcase⟩ := hgranted q v hv
    obtain ⟨u', hu', hconfig', _, hcase'⟩ := hgranted q' v' hv'
    rw [hconfig, hconfig'] at hname hboot
    rcases hcase hgrant with hold | ⟨sock, now, hact, hk, hnew⟩
    · rcases hcase' hgrant' with hold' | ⟨sock', now', hact', hk', hnew'⟩
      · exact h.exclusive q q' u u' hu hu' hold hold' hne hname hboot
      · rw [← hname, ← hboot] at hnew'
        exact hnew' (h.entitled hu hold).2
    · rcases hcase' hgrant' with hold' | ⟨sock', now', hact', hk', hnew'⟩
      · rw [hname, hboot] at hnew
        exact hnew (h.entitled hu' hold').2
      · cases hact.symm.trans hact'
        exact hne (Option.some.inj (hk.symm.trans hk'))

/-- A step of the coordinator that reads no frame. -/
theorem Sound.unread (h : d.Sound) {act : ThreadAct} {e : Option (Effect Binary64)}
    (hs : d.coordinate act 0 = some (d', e))
    (hact : ∀ sock f now, act ≠ .plain (.receive sock f now)) : d'.Sound :=
  h.coordinate (fun sock f now _ _ h _ _ => absurd h (hact sock f now)) hs

/-- A handle that is handed out has no thread. -/
theorem accepted {sock : SocketHandle} {e : Option (Effect Binary64)}
    (hs : d.coordinate (.plain (.accept sock)) 0 = some (d', e)) :
    d.server.shared.threads sock = none := by
  obtain ⟨_, _, _, hc, _⟩ := coordinate_cases hs
  cases Threaded.step_does hc with
  | once _ _ _ hstep =>
    cases Coordinator.step_does hstep with
    | accept hp => exact hp
    | work hact => cases hact

/-- A connection is accepted under a handle that no thread has. -/
theorem Sound.accept (h : d.Sound) {sock : SocketHandle} {who : Option Nat}
    {e : Option (Effect Binary64)} (hwho : ∀ q, who = some q → ∃ v, d.workers q = some v)
    (hs : { d with peer := Function.update d.peer sock who }.coordinate (.plain (.accept sock)) 0 =
      some (d', e)) : d'.Sound := by
  have hnone := accepted hs
  exact (h.assign hnone hwho).unread hs fun _ _ _ ha => by cases ha

/-- A thread reads what the worker sent. -/
theorem Sound.deliver (h : d.Sound) {sock : SocketHandle} {now : Int64} {junk : UInt64}
    {e : Option (Effect Binary64)} {f : Frame} {rest : List Frame} (hpeer : d.peer sock = some pid)
    (hw : d.workers pid = some w) (hup : w.up = f :: rest)
    (hs : (d.setWorker pid { w with up := rest }).coordinate (.plain (.receive sock f now)) junk =
      some (d', e)) : d'.Sound := by
  have hw' := h.worker pid w hw
  have hread : (d.setWorker pid { w with up := rest }).Sound := by
    refine h.setWorker hw ?_ rfl id
    exact hw'.turn rfl rfl (fun g hg => .inl (hup ▸ List.mem_cons_of_mem _ hg)) rfl
      hw'.unanswered hw'.serving hw'.defined
  refine hread.coordinate (fun k g t q v hact hq hv => ?_) hs
  cases hact
  cases hpeer.symm.trans hq
  cases (d.setWorker_self pid _).symm.trans hv
  exact (hw'.up f (hup ▸ List.mem_cons_self)).same rfl rfl

/-- **Every step keeps the invariant.** -/
theorem sound_step (h : d.Sound) {act : DeploymentAct} {e : Option (Effect Binary64)}
    (hs : d.step act = some (d', e)) : d'.Sound := by
  cases step_does hs with
  | @spawn pid config hpid => exact h.spawn hpid config
  | @work pid w w' hw hwork =>
    obtain ⟨hsound, hconfig, htold⟩ := Worker.work_sound (h.worker pid w hw) hwork
    exact h.setWorker hw hsound hconfig htold
  | @stop pid w hw =>
    refine h.setWorker hw ?_ rfl id
    exact (h.worker pid w hw).turn rfl rfl (fun f hf => .inl hf) rfl (by simp) (by simp) (by simp)
  | accept hc => exact h.accept (fun _ hq => by cases hq) hc
  | @connect sock pid w _ _ hw _ hc =>
    have hconnected : (d.setWorker pid { w with connected := true }).Sound := by
      refine h.setWorker hw ?_ rfl id
      have hw' := h.worker pid w hw
      exact hw'.turn rfl rfl (fun f hf => .inl hf) rfl hw'.unanswered hw'.serving hw'.defined
    refine hconnected.accept ?_ hc
    rintro q ⟨⟩
    exact ⟨_, d.setWorker_self pid _⟩
  | deliver hpeer hw hup hc => exact h.deliver hpeer hw hup hc
  | client hpeer hc =>
    refine h.coordinate (fun k g t q v hact hq _ => ?_) hc
    cases hact
    cases hpeer.symm.trans hq
  | access ha hc => exact h.unread hc (access_unread ha)

end Deployment

/-! ## 6. Runs -/

/-- **The invariant holds in every run** of a coordinator, its workers and other clients. -/
theorem sound_run [Platform Binary64] {C : Deployment → DeploymentAct → Prop}
    {file : Option (Option Bytes)} {now : Int64}
    {tr : List (DeploymentAct × Option (Effect Binary64))} {d : Deployment}
    (h : Run Deployment.step C { server := { shared := .start file now } } tr d) : d.Sound :=
  h.invariant (Deployment.start_sound (Coordinator.start_blank file now).2.2.1)
    fun _ _ _ _ hI _ hs => Deployment.sound_step hI hs

/-- **Registration.** However the processes and threads interleave, whatever other clients send,
    wherever connections end and handles are used again: no worker goes on without an answer it
    could read; what it was answered is what its hello is due; and no two workers are registered
    under one name and boot id. -/
theorem workers_registered [Platform Binary64] {file : Option (Option Bytes)} {now : Int64}
    {tr : List (DeploymentAct × Option (Effect Binary64))} {d : Deployment}
    (h : Run Deployment.step (fun _ _ => True) { server := { shared := .start file now } } tr d) :
    (∀ pid w, d.workers pid = some w → w.phase ≠ .undefined ∧
      ∀ m, w.answer = some m → Answered d.server.shared w.config.hello m) ∧
    ∀ pid pid' w w', d.workers pid = some w → d.workers pid' = some w' →
      w.Registered → w'.Registered → pid ≠ pid' →
      w.config.hello.name = w'.config.hello.name →
      w.config.hello.bootId ≠ w'.config.hello.bootId := by
  have hI := sound_run h
  refine ⟨fun pid w hw => ?_, fun pid pid' w w' hw hw' hreg hreg' => ?_⟩
  · exact ⟨(hI.worker pid w hw).defined, (hI.worker pid w hw).answer⟩
  · exact hI.exclusive pid pid' w w' hw hw' (.inl (.inl hreg)) (.inl (.inl hreg'))

/-- A worker `A` that serves. -/
def configOfA : WorkerConfig :=
  { hello := ⟨ascii "A", 7, 1⟩, latencyNs := Double.ofRat 50000000, serve := true
    sized := by decide }

/-- A process is started, connects, says hello and reads the answer. -/
def registers (pid sock : Nat) : List DeploymentAct :=
  [.spawn pid configOfA, .accept sock (some pid), .work pid, .deliver sock 0 0, .proceed sock 0]

def codeOf (d : Deployment) (pid : Nat) : Option UInt8 :=
  (d.workers pid).bind fun w => w.answer.map (·.statusCode)

/-- A second process under the same boot id is told that it is stale. -/
theorem workers_registered_small :
    ∃ (tr : List (DeploymentAct × Option (Effect Binary64))) (d : Deployment) (w : Worker)
      (m : AckMessage),
      Run Deployment.step (fun _ _ => True) { server := { shared := .start none 0 } } tr d ∧
      d.workers 1 = some w ∧ w.answer = some m ∧ m.statusCode = 2 ∧
      Answered d.server.shared w.config.hello m := by
  have htest : (execute Deployment.step (fun _ _ => true)
      ({ server := { shared := .start none 0 } } : Deployment)
      (registers 0 3 ++ [.proceed 3 0, .work 0] ++ registers 1 4 ++ [.work 1])).any (fun x =>
        codeOf x.1 1 = some 2) = true := by
    decide +kernel
  obtain ⟨d, tr, hrun, hcode⟩ := Run.of_test (fun _ _ _ => trivial) htest
  obtain ⟨w, hw, hanswer⟩ := Option.bind_eq_some_iff.mp (of_decide_eq_true hcode)
  obtain ⟨m, hm, h₂⟩ := Option.map_eq_some_iff.mp hanswer
  exact ⟨tr, d, w, m, hrun, hw, hm, h₂, ((workers_registered hrun).1 1 w hw).2 m hm⟩

end SloFabric
