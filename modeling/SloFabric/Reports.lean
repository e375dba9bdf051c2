/-
  File:      SloFabric/Reports.lean
  Subject:   Whose figures the coordinator hands to its fabric.

  A figure is read from a frame, and handed over some accesses later.

  * `Threaded.ingest_mem`: only a call hands a record to the fabric;
  * `Threaded.Attributed`, `Threaded.attributed_step`: what the calls of the threads are about;
  * `Deployment.Attributed`: every call is about what the registered worker at the other end of the
    connection has to report, or is the monitor's; `attributed_step`, `attributed_run`;
  * `step_access`: what a step of the system is to the coordinator;
  * `reports_registered`: whatever is measured was reported by a registered worker, or by the
    monitor once worker A is down.
-/
import SloFabric.Workers

namespace SloFabric

open Codec

/-! ## 1. Calls -/

/-- What a worker has to report. -/
def Worker.Reports (w : Worker) (r : Report Binary64) : Prop :=
  r = .latency w.config.latencyNs ∨ r = .availability (Double.ofRat 10000) 1

section Ingest

variable {R : Type} [Double R] [Pod R]

/-- **Only a call hands a record to the fabric.** -/
theorem Threaded.ingest_mem {p : Threaded R} {act : ThreadAct} {x : EvidenceRecord R} {t : Duration}
    (h : .ingest x t ∈ p.fabricOps act) : ∃ who now r id, act = .call who now ∧
      p.calls who = some (.ingesting r id) := by
  cases act with
  | call who now =>
    simp only [fabricOps] at h
    split at h
    · rename_i r id hx
      exact ⟨who, now, r, id, rfl, hx⟩
    · cases h
  | record now =>
    simp only [fabricOps] at h
    split at h
    · cases h
    · cases List.mem_singleton.mp h
    · cases List.mem_singleton.mp h
  | plain a =>
    cases a with
    | accept | lose | tick => cases h
    | proceed sock now =>
      simp only [fabricOps, Coordinator.fabricOps] at h
      split at h
      · cases List.mem_singleton.mp h
      · cases List.mem_singleton.mp h
      · cases h
    | receive sock f now =>
      simp only [fabricOps] at h
      split at h
      · cases List.mem_singleton.mp h
      · cases h

variable [Platform R]

/-- The end of a call. -/
theorem Threaded.call_ingests {p p' : Threaded R} {who : Option SocketHandle} {now : Int64}
    {e : Effect R} {r : Report R} {id : UInt64} (hcall : p.calls who = some (.ingesting r id))
    (h : p.step (.call who now) = some (p', e)) :
    p'.shared.fabric =
        (ingest p.shared.fabric (r.record id p.shared.epoch now) (nowDur now)).1 ∧
      ∃ st, e = .ingested st := by
  unfold step at h
  split at h
  · cases h
  · simp only [hcall, Option.map_some] at h
    obtain ⟨rfl, rfl⟩ := Prod.ext_iff.mp (Option.some.inj h)
    exact ⟨rfl, _, rfl⟩

/-- Threads that do not take the step are where they were. -/
theorem Coordinator.step_threads_other {c c' : Coordinator R} {act : Act} {e : Effect R}
    (h : c.step act = some (c', e)) {k : SocketHandle} (hk : act.sock ≠ some k)
    (haccept : act ≠ .accept k) : c'.threads k = c.threads k := by
  cases Coordinator.step_does h with
  | @accept sock hp =>
    refine Function.update_of_ne ?_ ..
    rintro rfl
    exact haccept rfl
  | work hact _ _ hp' =>
    rw [hp']
    refine Function.update_of_ne ?_ ..
    rintro rfl
    exact hk hact
  | stay _ _ hp' => rw [hp']
  | grant _ hnew =>
    rw [register, if_neg hnew]
    refine Function.update_of_ne ?_ ..
    rintro rfl
    exact hk rfl
  | ack | close =>
    refine Function.update_of_ne ?_ ..
    rintro rfl
    exact hk rfl
  | stamp =>
    rw [goTo_ne]
    · rw [(c.stamp_frame _ _).1]
    · rintro rfl
      exact hk rfl
  | @tick now => rw [(c.monitor_tables now).2.2.2]

/-- A thread that is not at a frame stays where it is, until it goes on. -/
theorem Coordinator.step_threads_at {c c' : Coordinator R} {act : Act} {e : Effect R}
    (h : c.step act = some (c', e)) {k : SocketHandle} {p : Phase} (hp : c.threads k = some p)
    (hne : p ≠ .reading) (hact : ∀ now, act ≠ .proceed k now) : c'.threads k = some p := by
  have hstep := h
  unfold step at hstep
  split at hstep
  · cases hstep
  · refine (step_threads_other h ?_ ?_).trans hp
    · cases act with
      | accept | tick => exact nofun
      | receive sock f now =>
        rintro ⟨⟩
        simp only at hstep
        split_ifs at hstep with hreading
        cases hp.symm.trans hreading
        exact hne rfl
      | lose sock =>
        rintro ⟨⟩
        simp only at hstep
        split_ifs at hstep with hreading
        cases hp.symm.trans hreading
        exact hne rfl
      | proceed sock now =>
        rintro ⟨⟩
        exact hact now rfl
    · rintro rfl
      simp only at hstep
      split_ifs at hstep with hnone
      cases hp.symm.trans hnone

/-- A flag that was raised stays up. -/
theorem Coordinator.step_down {c c' : Coordinator R} {act : Act} {e : Effect R}
    (h : c.step act = some (c', e)) (hdown : c.downA = true) : c'.downA = true := by
  rcases flags_step h with ⟨hsame, _⟩ | ⟨_, _, hup, _⟩
  · rw [hsame, hdown]
  · cases hdown.symm.trans hup

end Ingest

/-! ## 2. The calls of the threads -/

/-- What holds of the calls in every state, where `source r sock` says that the thread of `sock` may
    have been told of `r`. -/
structure Threaded.Attributed {R : Type} [Double R] (source : Report R → SocketHandle → Prop)
    (p : Threaded R) : Prop where
  told : ∀ sock x, p.calls (some sock) = some x → source x.report sock
  silent : ∀ x, p.calls none = some x → x.report = silence ∧ p.shared.downA = true
  busy : ∀ sock x, p.calls (some sock) = some x →
    ∃ phase, p.shared.threads sock = some phase ∧ phase ≠ .reading
  alarmed : p.monitor ≠ .asleep → p.shared.downA = true

section Calls

variable {R : Type} [Double R] [Pod R] {p p' : Threaded R}
  {source source' : Report R → SocketHandle → Prop}

omit [Pod R] in
/-- What the thread of a call may have been told of, it may still. -/
theorem Threaded.Attributed.mono (h : p.Attributed source)
    (hold : ∀ sock x, p.calls (some sock) = some x → source x.report sock →
      source' x.report sock) : p.Attributed source' where
  told sock x hx := hold sock x hx (h.told sock x hx)
  silent := h.silent
  busy := h.busy
  alarmed := h.alarmed

/-- A thread that is in a call is not at the next frame. -/
theorem Threaded.callOf_reading {c : Coordinator R} {f : Frame} {r : Report R} {next : Phase}
    (h : callOf c f = some (r, next)) : next ≠ .reading := by
  unfold callOf at h
  split_ifs at h
  obtain ⟨m, _, hcall⟩ := Option.bind_eq_some_iff.mp h
  unfold callFor at hcall
  split_ifs at hcall <;> cases hcall <;> exact nofun

/-- A thread that reads a frame is told of what it says. -/
theorem Threaded.Attributed.begin (h : p.Attributed source) {sock : SocketHandle} {f : Frame}
    {r : Report R} {next : Phase} (hcall : callOf p.shared f = some (r, next))
    (hr : source r sock) : Threaded.Attributed source
      ({ p with shared := p.shared.goTo sock (some next) }.setCall (some sock)
        (some (.numbering r))) where
  told k x hx := by
    rcases eq_or_ne k sock with rfl | hne
    · cases (setCall_self _ (some k) _).symm.trans hx
      exact hr
    · have hne' : some k ≠ some sock := fun heq => hne (Option.some.inj heq)
      exact h.told k x ((setCall_ne _ _ hne').symm.trans hx)
  silent x hx := h.silent x ((setCall_ne _ _ (Option.some_ne_none sock).symm).symm.trans hx)
  busy k x hx := by
    rcases eq_or_ne k sock with rfl | hne
    · exact ⟨next, Coordinator.goTo_self .., callOf_reading hcall⟩
    · have hne' : some k ≠ some sock := fun heq => hne (Option.some.inj heq)
      obtain ⟨phase, hphase, hp⟩ := h.busy k x ((setCall_ne _ _ hne').symm.trans hx)
      exact ⟨phase, (Coordinator.goTo_ne _ _ hne).trans hphase, hp⟩
  alarmed := h.alarmed

omit [Pod R] in
/-- A call goes on about the same, or is over. -/
theorem Threaded.Attributed.goOn (h : p.Attributed source) {who : Option SocketHandle} {now : Int64}
    {x : Call R} (hx : p.calls who = some x) : (p.goOn who now x).1.Attributed source := by
  obtain ⟨hthreads, hdown, hmonitor, y, hcalls, hy⟩ := p.goOn_frame who now x
  have hbefore (k : Option SocketHandle) (z : Call R) (hz : (p.goOn who now x).1.calls k = some z) :
      ∃ z₀, p.calls k = some z₀ ∧ z₀.report = z.report := by
    rw [hcalls] at hz
    rcases eq_or_ne k who with rfl | hne
    · rw [Function.update_self] at hz
      exact ⟨x, hx, (hy z hz).symm⟩
    · rw [Function.update_of_ne hne] at hz
      exact ⟨z, hz, rfl⟩
  constructor
  · intro sock z hz
    obtain ⟨z₀, hz₀, hsame⟩ := hbefore (some sock) z hz
    exact hsame ▸ h.told sock z₀ hz₀
  · intro z hz
    obtain ⟨z₀, hz₀, hsame⟩ := hbefore none z hz
    rw [hdown, ← hsame]
    exact h.silent z₀ hz₀
  · intro sock z hz
    obtain ⟨z₀, hz₀, _⟩ := hbefore (some sock) z hz
    rw [hthreads]
    exact h.busy sock z₀ hz₀
  · rw [hdown, hmonitor]
    exact h.alarmed

/-- **An access keeps it so**, where what a thread reads it may have been told of. -/
theorem Threaded.attributed_step [Platform R] (h : p.Attributed source) {act : ThreadAct}
    {e : Effect R} (hs : p.step act = some (p', e))
    (hread : ∀ sock f now r next, act = .plain (.receive sock f now) →
      callOf p.shared f = some (r, next) → source r sock) : p'.Attributed source := by
  cases step_does hs with
  | @once a c' _ hcall hidle hround hstep =>
    have hdown := Coordinator.step_down hstep
    refine ⟨h.told, fun x hx => ⟨(h.silent x hx).1, hdown (h.silent x hx).2⟩, fun sock x hx => ?_,
      fun hawake => hdown (h.alarmed hawake)⟩
    obtain ⟨phase, hphase, hne⟩ := h.busy sock x hx
    refine ⟨phase, Coordinator.step_threads_at hstep hphase hne fun now hact => ?_, hne⟩
    cases (hidle sock now hact).symm.trans hx
  | @call sock f now r next hcall _ => exact h.begin hcall (hread sock f now r next rfl hcall)
  | @wake now =>
    unfold wake
    split
    · exact ⟨h.told, fun x hx => ⟨(h.silent x hx).1, rfl⟩, h.busy, fun _ => rfl⟩
    · exact h
  | goOn hx => exact h.goOn hx
  | observe hm =>
    exact ⟨h.told, h.silent, h.busy, fun _ => h.alarmed (by rw [hm]; decide)⟩
  | @authorize now hm =>
    have hdown := h.alarmed (by rw [hm]; decide)
    refine ⟨fun sock x hx => h.told sock x ?_, fun x hx => ?_, fun sock x hx => h.busy sock x ?_,
      fun _ => hdown⟩
    · exact (setCall_ne _ _ (Option.some_ne_none sock)).symm.trans hx
    · cases (setCall_self _ none _).symm.trans hx
      exact ⟨rfl, hdown⟩
    · exact (setCall_ne _ _ (Option.some_ne_none sock)).symm.trans hx

end Calls

/-! ## 3. Whose reports they are -/

namespace Deployment

variable {d d' : Deployment}

/-- What the worker at the other end of the connection has to report, and it is registered -- if it
    is a worker who is there. -/
def Source (d : Deployment) (r : Report Binary64) (sock : SocketHandle) : Prop :=
  ∀ pid, d.peer sock = some pid → ∃ w, d.workers pid = some w ∧ w.Registered ∧ w.Reports r

/-- The calls are about what workers have to report, or the monitor. -/
abbrev Attributed (d : Deployment) : Prop := d.server.Attributed d.Source

/-- Workers stay registered under what they were configured with. -/
def Keeps (d d' : Deployment) : Prop :=
  ∀ pid w, d.workers pid = some w → w.Registered →
    ∃ w', d'.workers pid = some w' ∧ w'.Registered ∧ w'.config = w.config

theorem Source.keep {r : Report Binary64} {sock : SocketHandle} (h : d.Source r sock)
    (hworkers : d.Keeps d') (hpeer : d'.peer sock = d.peer sock) : d'.Source r sock := by
  intro pid hpid
  rw [hpeer] at hpid
  obtain ⟨w, hw, hreg, hr⟩ := h pid hpid
  obtain ⟨w', hw', hreg', hconfig⟩ := hworkers pid w hw hreg
  refine ⟨w', hw', hreg', ?_⟩
  unfold Worker.Reports
  rw [hconfig]
  exact hr

theorem Keeps.refl (d : Deployment) : d.Keeps d := fun _ w hw hreg => ⟨w, hw, hreg, rfl⟩

/-- A worker that is at the same answer. -/
theorem Keeps.setWorker {pid : Nat} {w w' : Worker} (hw : d.workers pid = some w)
    (hanswer : w.Registered → w'.Registered) (hconfig : w'.config = w.config) :
    d.Keeps (d.setWorker pid w') := by
  intro q v hv hreg
  rcases eq_or_ne q pid with rfl | hne
  · cases hw.symm.trans hv
    exact ⟨w', d.setWorker_self q w', hanswer hreg, hconfig⟩
  · exact ⟨v, (d.setWorker_ne w' hne).trans hv, hreg, rfl⟩

/-- A registered worker has read its answer. -/
theorem work_registered {w w' : Worker} (h : w.Sound d.server.shared) (hw : w.work = some w')
    (hreg : w.Registered) : w'.Registered := by
  obtain ⟨m, hm, h₀⟩ := hreg
  refine ⟨m, ?_, h₀⟩
  unfold Worker.work at hw
  split at hw
  · cases hw
    exact hm
  · rename_i hp
    cases (h.unanswered (.inr hp)).symm.trans hm
  · cases hw
    exact hm
  · cases hw
    exact hm
  · cases hw
    exact hm
  · cases hw
  · cases hw

/-- The call that the frame of a worker leads to is about what the worker has to report. -/
theorem call_reports {c : Coordinator Binary64} {w : Worker} {f : Frame} {r : Report Binary64}
    {next : Phase} (h : Threaded.callOf c f = some (r, next)) (hf : w.Sends f) :
    w.Registered ∧ w.Reports r := by
  unfold Threaded.callOf at h
  split_ifs at h with hkind
  obtain ⟨m, hm, hcall⟩ := Option.bind_eq_some_iff.mp h
  unfold Threaded.callFor at hcall
  cases hf with
  | hello | heartbeat => cases hkind
  | latency hreg =>
    cases (decodeEvidence_encodeEvidence w.latencyReport).symm.trans hm
    refine ⟨hreg, .inl ?_⟩
    split_ifs at hcall with _ hzero htwo
    · cases hcall
      rfl
    · exact absurd rfl hzero
  | availability hreg =>
    cases (decodeEvidence_encodeEvidence w.availabilityReport).symm.trans hm
    refine ⟨hreg, .inr ?_⟩
    split_ifs at hcall with _ hzero htwo
    · cases hzero
    · cases hcall
      rfl

theorem start_attributed (c : Coordinator Binary64) :
    ({ server := { shared := c } } : Deployment).Attributed where
  told _ _ hcall := nomatch hcall
  silent _ hcall := nomatch hcall
  busy _ _ hcall := nomatch hcall
  alarmed hawake := absurd rfl hawake

/-- The coordinator takes no step. -/
theorem Attributed.aside (h : d.Attributed) (hserver : d'.server = d.server)
    (hworkers : d.Keeps d')
    (hpeer : ∀ sock x, d.server.calls (some sock) = some x → d'.peer sock = d.peer sock) :
    d'.Attributed := by
  unfold Attributed
  rw [hserver]
  exact h.mono fun sock x hx hsource => hsource.keep hworkers (hpeer sock x hx)

variable [Platform Binary64]

/-- A step of the coordinator leaves the workers registered. -/
theorem coordinate_keeps {act : ThreadAct} {junk : UInt64} {e : Option (Effect Binary64)}
    (hs : d.coordinate act junk = some (d', e)) : d.Keeps d' := by
  obtain ⟨_, _, _, _, _, _, hstay, hworkers⟩ := coordinate_cases hs
  intro q v hv hreg
  obtain ⟨v', hv'⟩ := hstay q v hv
  obtain ⟨u, hu, hcase⟩ := hworkers q v' hv'
  cases hv.symm.trans hu
  refine ⟨v', hv', ?_⟩
  rcases hcase with rfl | ⟨_, _, _, _, _, rfl⟩
  · exact ⟨hreg, rfl⟩
  · exact ⟨hreg, rfl⟩

/-- An access keeps it so, where what a thread reads is what the worker at the other end sent. -/
theorem Attributed.coordinate (h : d.Attributed) {act : ThreadAct} {junk : UInt64}
    {e : Option (Effect Binary64)}
    (hfrom : ∀ sock f now pid, act = .plain (.receive sock f now) → d.peer sock = some pid →
      ∃ w, d.workers pid = some w ∧ w.Sends f)
    (hs : d.coordinate act junk = some (d', e)) : d'.Attributed := by
  have hkeeps := coordinate_keeps hs
  obtain ⟨p', e', rfl, hc, hserver, hpeer, _⟩ := coordinate_cases hs
  have hstep : p'.Attributed d.Source := by
    refine Threaded.attributed_step h hc ?_
    rintro sock f now r next rfl hcall pid hpid
    obtain ⟨w, hw, hsends⟩ := hfrom sock f now pid rfl hpid
    exact ⟨w, hw, call_reports hcall hsends⟩
  unfold Attributed
  rw [hserver]
  exact hstep.mono fun sock _ _ hsource => hsource.keep hkeeps (congrFun hpeer sock)

/-- An access that reads no frame. -/
theorem Attributed.unread (h : d.Attributed) {act : ThreadAct} {e : Option (Effect Binary64)}
    (hs : d.coordinate act 0 = some (d', e))
    (hact : ∀ sock f now, act ≠ .plain (.receive sock f now)) : d'.Attributed :=
  h.coordinate (fun sock f now _ heq _ => absurd heq (hact sock f now)) hs

/-- A connection is accepted under a handle whose last thread is in no call. -/
theorem Attributed.accept (h : d.Attributed) {sock : SocketHandle} {who : Option Nat}
    {e : Option (Effect Binary64)}
    (hs : { d with peer := Function.update d.peer sock who }.coordinate (.plain (.accept sock)) 0 =
      some (d', e)) : d'.Attributed := by
  have hnone := accepted hs
  have hassigned : Attributed { d with peer := Function.update d.peer sock who } := by
    refine h.aside rfl (.refl d) fun k x hx => Function.update_of_ne ?_ ..
    rintro rfl
    obtain ⟨phase, hphase, _⟩ := h.busy k x hx
    cases hnone.symm.trans hphase
  exact hassigned.unread hs fun _ _ _ ha => by cases ha

/-- **Every step keeps it so.** -/
theorem attributed_step (h : d.Attributed) (hsound : d.Sound) {act : DeploymentAct}
    {e : Option (Effect Binary64)} (hs : d.step act = some (d', e)) : d'.Attributed := by
  cases step_does hs with
  | @spawn pid config hpid =>
    refine h.aside rfl (fun q v hv hreg => ?_) fun _ _ _ => rfl
    have hne : q ≠ pid := by
      rintro rfl
      cases hpid.symm.trans hv
    exact ⟨v, (d.setWorker_ne _ hne).trans hv, hreg, rfl⟩
  | @work pid w w' hw hwork =>
    have hw' := hsound.worker pid w hw
    obtain ⟨_, hconfig, _⟩ := Worker.work_sound hw' hwork
    exact h.aside rfl (.setWorker hw (work_registered hw' hwork) hconfig) fun _ _ _ => rfl
  | stop hw => exact h.aside rfl (.setWorker hw id rfl) fun _ _ _ => rfl
  | accept hc => exact h.accept hc
  | @connect sock pid w _ _ hw _ hc =>
    have hconnected : (d.setWorker pid { w with connected := true }).Attributed :=
      h.aside rfl (.setWorker hw id rfl) fun _ _ _ => rfl
    exact hconnected.accept hc
  | @deliver sock now junk pid w f rest _ _ hpeer hw hup hc =>
    have hread : (d.setWorker pid { w with up := rest }).Attributed :=
      h.aside rfl (.setWorker hw id rfl) fun _ _ _ => rfl
    refine hread.coordinate (fun k g t q heq hq => ?_) hc
    cases heq
    cases hpeer.symm.trans hq
    exact ⟨_, d.setWorker_self pid _,
      ((hsound.worker pid w hw).up f (hup ▸ List.mem_cons_self)).same rfl rfl⟩
  | client hpeer hc =>
    refine h.coordinate (fun k g t q heq hq => ?_) hc
    cases heq
    cases hpeer.symm.trans hq
  | access ha hc => exact h.unread hc (access_unread ha)

/-- What a step of the system is to the coordinator: none, or an access. -/
theorem step_access {act : DeploymentAct} {e : Option (Effect Binary64)}
    (hs : d.step act = some (d', e)) : e = none ∧ d'.server = d.server ∨
      ∃ a e', e = some e' ∧ d.server.step a = some (d'.server, e') ∧
        ∀ who now, a = .call who now → act = .call who now := by
  have hcoordinate {d₀ : Deployment} {a : ThreadAct} {junk : UInt64}
      (hc : d₀.coordinate a junk = some (d', e)) (hd : d₀.server = d.server) :
      ∃ e', e = some e' ∧ d.server.step a = some (d'.server, e') := by
    obtain ⟨p', e', he, hstep, rfl, _⟩ := coordinate_cases hc
    exact ⟨e', he, hd ▸ hstep⟩
  cases step_does hs with
  | spawn | work | stop => exact .inl ⟨rfl, rfl⟩
  | accept hc | connect _ _ hc | deliver _ _ _ hc | client _ hc =>
    obtain ⟨e', he, hstep⟩ := hcoordinate hc rfl
    exact .inr ⟨_, e', he, hstep, fun _ _ ha => by cases ha⟩
  | access ha hc =>
    obtain ⟨e', he, hstep⟩ := hcoordinate hc rfl
    refine .inr ⟨_, e', he, hstep, ?_⟩
    rintro who now rfl
    cases act <;> cases ha
    rfl

end Deployment

/-! ## 4. Runs -/

theorem attributed_run [Platform Binary64] {C : Deployment → DeploymentAct → Prop}
    {file : Option (Option Bytes)} {now : Int64}
    {tr : List (DeploymentAct × Option (Effect Binary64))} {d : Deployment}
    (h : Run Deployment.step C { server := { shared := .start file now } } tr d) :
    d.Attributed := by
  have hboth : d.Sound ∧ d.Attributed :=
    h.invariant (I := fun d => d.Sound ∧ d.Attributed)
      ⟨Deployment.start_sound (Coordinator.start_blank file now).2.2.1,
        Deployment.start_attributed _⟩
      fun _ _ _ _ hI _ hs =>
        ⟨Deployment.sound_step hI.1 hs, Deployment.attributed_step hI.2 hI.1 hs⟩
  exact hboth.2

/-- **Reports come from registered workers.** What a step ingests is handed over by a call, and
    changes the fabric as its ingestion does. It is what the monitor reports once A is down; or,
    unless the connection is another client's, what the worker at its other end has to report, who
    is registered, under a boot id seen for its name and in the epoch of the coordinator. No other
    step hands a record to the fabric. -/
theorem reports_registered [Platform Binary64] {file : Option (Option Bytes)} {now : Int64}
    {tr : List (DeploymentAct × Option (Effect Binary64))} {d d' : Deployment}
    {act : DeploymentAct} {e : Option (Effect Binary64)}
    (h : Run Deployment.step (fun _ _ => True) { server := { shared := .start file now } } tr d)
    (hs : d.step act = some (d', e)) :
    (∀ st, e = some (.ingested st) → ∃ who t r id, act = .call who t ∧
      d.server.calls who = some (.ingesting r id) ∧
      d'.server.shared.fabric = (ingest d.server.shared.fabric
        (r.record id d.server.shared.epoch t) (nowDur t)).1 ∧
      (who = none → r = Threaded.silence ∧ d.server.shared.downA = true) ∧
      ∀ sock pid, who = some sock → d.peer sock = some pid →
        ∃ w, d.workers pid = some w ∧ w.Registered ∧
          w.config.hello.epoch = d.server.shared.epoch.value ∧
          w.config.hello.bootId ∈ d.server.shared.seenBoots w.config.hello.name ∧
          w.Reports r) ∧
    ((∀ st, e ≠ some (.ingested st)) → ∃ ftr,
      Runs d.server.shared.fabric ftr d'.server.shared.fabric ∧
        ∀ x ∈ ftr, ∀ y t, x.1 ≠ .ingest y t) := by
  have hsound := sound_run h
  have hattributed := attributed_run h
  refine ⟨?_, fun hno => ?_⟩
  · rintro st rfl
    rcases Deployment.step_access hs with ⟨hnone, _⟩ | ⟨a, _, ⟨⟩, hc, hact⟩
    · cases hnone
    · obtain ⟨ftr, hperforms⟩ := Threaded.step_performs hc
      obtain ⟨x, t, rfl⟩ := hperforms.tells
      have hmem : .ingest x t ∈ d.server.fabricOps a := by
        rw [← hperforms.ops]
        exact List.mem_singleton_self _
      obtain ⟨who, now, r, id, rfl, hcall⟩ := Threaded.ingest_mem hmem
      refine ⟨who, now, r, id, hact who now rfl, hcall, (Threaded.call_ingests hcall hc).1,
        fun hwho => ?_, fun sock pid hwho hpeer => ?_⟩
      · subst hwho
        exact hattributed.silent _ hcall
      · subst hwho
        obtain ⟨w, hw, hreg, hreports⟩ := hattributed.told sock _ hcall pid hpeer
        obtain ⟨hepoch, hboot⟩ := hsound.entitled hw (.inl (.inl hreg))
        exact ⟨w, hw, hreg, hepoch, hboot, hreports⟩
  · rcases Deployment.step_access hs with ⟨_, hserver⟩ | ⟨a, e', rfl, hc, _⟩
    · rw [hserver]
      exact ⟨[], .start, fun x hx => absurd hx List.not_mem_nil⟩
    · obtain ⟨ftr, hperforms⟩ := Threaded.step_performs hc
      refine ⟨ftr, hperforms.run, fun x hx y t heq => ?_⟩
      have hmem := List.mem_map_of_mem (f := (·.1)) hx
      rw [hperforms.ops, heq] at hmem
      obtain ⟨who, now, r, id, rfl, hcall⟩ := Threaded.ingest_mem hmem
      obtain ⟨_, st, rfl⟩ := Threaded.call_ingests hcall hc
      exact hno st rfl

def ingestedTest : Option (Effect Binary64) → Bool
  | some (.ingested _) => true
  | _ => false

/-- The first figure of a worker. -/
theorem reports_registered_small :
    ∃ (tr : List (DeploymentAct × Option (Effect Binary64))) (d d' : Deployment) (st : Status)
      (w : Worker), Run Deployment.step (fun _ _ => True)
        { server := { shared := .start none 0 } } tr d ∧
      d.step (.call (some 3) 0) = some (d', some (.ingested st)) ∧
      d.workers 0 = some w ∧ w.Registered := by
  have htest : (execute Deployment.step (fun _ _ => true)
      ({ server := { shared := .start none 0 } } : Deployment)
      (registers 0 3 ++ [.proceed 3 0, .work 0, .work 0, .deliver 3 0 0, .call (some 3) 0,
        .call (some 3) 0])).any (fun x =>
        decide (x.1.peer 3 = some 0) &&
          (x.1.step (.call (some 3) 0)).any fun y => ingestedTest y.2) = true := by
    decide +kernel
  obtain ⟨d, tr, hrun, hnext⟩ := Run.of_test (fun _ _ _ => trivial) htest
  obtain ⟨hpeer, hnext⟩ := Bool.and_eq_true_iff.mp hnext
  obtain ⟨⟨d', e⟩, hs, he⟩ := (Option.any_eq_true _ _).mp hnext
  simp only [ingestedTest] at he
  split at he
  · rename_i st
    obtain ⟨who, t, r, id, hact, _, _, _, hfrom⟩ := (reports_registered hrun hs).1 st rfl
    cases hact
    obtain ⟨w, hw, hreg, _⟩ := hfrom 3 0 rfl (of_decide_eq_true hpeer)
    exact ⟨tr, d, d', st, w, hrun, hs, hw, hreg⟩
  · cases he

end SloFabric
