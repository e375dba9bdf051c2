/-
  File:      SloFabric/Service.lean
  Subject:   The coordinator as a user of the fabric.

  * `Coordinator.fabricOps`: the operations of the fabric a step of the coordinator takes;
  * `Effect.Tells`: what a step reports is what the fabric answered;
  * `coordinator_step`: one step, as a run of the fabric;
  * `Scheduled`: a coordinator without a state file has the contract it was started with, and no
    other; `scenario_answers`: recovery events are recorded, evidence is never refused for its
    epoch, its objective or its generation, and a request is answered by a verdict on the contract.
-/
import SloFabric.Failover
import SloFabric.Fencing

namespace SloFabric

variable {R : Type} [Double R] [Platform R] [Pod R]

/-! ## 1. Operations -/

namespace Coordinator

/-- The record of a measurement. -/
def measurement (c : Coordinator R) (dimension : Dimension) (id : ObjectiveId)
    (value : ObjectiveValue R) (sampleCount : Count) (now : Int64) : EvidenceRecord R :=
  { id := ⟨c.nextEvidence⟩, dimension := dimension, objectiveId := id, objectiveGen := ⟨1⟩
    epoch := c.epoch, time := nowDur now, provenance := .measured, sampleCount := sampleCount
    value := value }

def latencyOp (c : Coordinator R) (latencyNs : R) (now : Int64) : Op R :=
  .ingest (c.measurement .latency kLatencyObjId (.duration (toInt64 latencyNs)) 1 now) (nowDur now)

def availabilityOp (c : Coordinator R) (bp : R) (sampleCount : Int64) (now : Int64) : Op R :=
  .ingest (c.measurement .availability kAvailObjId (.basisPoints (toInt64 bp)) sampleCount now)
    (nowDur now)

def recoveryOp (phase : RecoveryEventPhase) (now : Int64) : Op R :=
  .recordRecoveryEvent kRecoveryObjId phase (nowDur now)

/-- What the handler of evidence asks of the fabric. -/
def evidenceOps (c : Coordinator R) (m : EvidenceMessage R) (now : Int64) : List (Op R) :=
  if m.epoch ≠ c.epoch.value then []
  else if m.dimension = 0 then [c.latencyOp m.value now]
  else if m.dimension = 2 then [c.availabilityOp m.value m.sampleCount now]
  else []

/-- **What a step asks of the fabric**, in its order. -/
def fabricOps (c : Coordinator R) : Act → List (Op R)
  | .receive _ f now =>
    if f.kind = .evidence then ((decodeEvidence R f.payload).map (c.evidenceOps · now)).getD []
    else if f.kind = .evaluateRequest then [.evaluate ⟨100⟩ ⟨200⟩ (nowDur now)]
    else []
  | .proceed sock now =>
    match c.threads sock with
    | some (.restoring _) => [recoveryOp .restored now]
    | some (.verifying _) => [recoveryOp .verified now]
    | _ => []
  | .tick now =>
    if c.downA = false ∧ c.workers.rows.any (·.lost now) = true then
      [recoveryOp .observed now, recoveryOp .authoritative now,
        c.availabilityOp (Double.ofRat 0) 1 now]
    else []
  | _ => []

/-- What `main` asks of it before there is a thread. -/
def startOps (R : Type) [Double R] (file : Option (Option Bytes)) (now : Int64) : List (Op R) :=
  [.setPolicy proofPolicy, .addContract (proofContract R), .activateContract ⟨1⟩ (nowDur now)] ++
    (file.map fun file => [.load file]).getD []

end Coordinator

/-- What a step reports is what the fabric answered. -/
def Effect.Tells (c : Coordinator R) (ftr : Trace R) : Effect R → Prop
  | .ingested st => ∃ x t, ftr = [(.ingest x t, .status st)]
  | .recorded phase st => ∃ t, ftr = [(Coordinator.recoveryOp phase t, .status st)]
  | .replied reply =>
    ∃ t r, ftr = [(.evaluate ⟨100⟩ ⟨200⟩ t, .evaluated r)] ∧ reply = c.replyOf r
  | .ticked evs => (ftr.map (·.2)).take 2 = evs.map fun e => .status e.2
  | _ => ftr = []

/-! ## 2. Steps -/

/-- One operation is a run. -/
theorem Runs.one {s s' : State R} {op : Op R} {r : Response R} (h : apply s op = some (s', r)) :
    Runs s [(op, r)] s' :=
  Run.next .start trivial h

/-- The step that a run of one step took. -/
theorem Runs.taken {s s' : State R} {x : Op R × Response R} (h : Runs s [x] s') :
    apply s x.1 = some (s', x.2) := by
  have hlast : Runs s ([] ++ [x]) s' := h
  obtain ⟨s₁, hrun, _, hs⟩ := hlast.last
  rwa [hrun.unstarted] at hs

/-- A step of the coordinator, as the fabric sees it. -/
structure Coordinator.Performs (c : Coordinator R) (act : Act) (c' : Coordinator R) (e : Effect R)
    (ftr : Trace R) : Prop where
  run : Runs c.fabric ftr c'.fabric
  ops : ftr.map (·.1) = c.fabricOps act
  tells : e.Tells c ftr
  epoch : c'.epoch = c.epoch

namespace Coordinator

variable {c c' : Coordinator R} {act : Act} {sock : SocketHandle} {e : Effect R}

/-- A step that does not ask the fabric. -/
theorem Performs.none (hfabric : c'.fabric = c.fabric) (hepoch : c'.epoch = c.epoch)
    (hops : c.fabricOps act = []) (htells : e.Tells c []) : c.Performs act c' e [] := by
  refine ⟨?_, hops.symm, htells, hepoch⟩
  rw [hfabric]
  exact .start

/-- A step of one operation. -/
theorem Performs.single {op : Op R} {r : Response R}
    (hs : apply c.fabric op = some (c'.fabric, r)) (hepoch : c'.epoch = c.epoch)
    (hops : c.fabricOps act = [op]) (htells : e.Tells c [(op, r)]) :
    c.Performs act c' e [(op, r)] :=
  ⟨.one hs, hops.symm, htells, hepoch⟩

theorem handleEvidence_performs {f : Frame} {m : EvidenceMessage R} {now : Int64}
    (hkind : f.kind = .evidence) (hm : decodeEvidence R f.payload = some m) :
    ∃ ftr, c.Performs (.receive sock f now) (c.handleEvidence sock m now).1
      (c.handleEvidence sock m now).2 ftr := by
  have hops : c.fabricOps (.receive sock f now) = c.evidenceOps m now := by
    simp only [fabricOps, if_pos hkind, hm, Option.map_some, Option.getD_some]
  unfold evidenceOps at hops
  unfold handleEvidence
  split_ifs with hepoch hlatency havail
  · rw [if_pos hepoch] at hops
    exact ⟨[], .none rfl rfl hops rfl⟩
  · rw [if_neg hepoch, if_pos hlatency] at hops
    exact ⟨_, .single rfl rfl hops ⟨_, _, rfl⟩⟩
  · rw [if_neg hepoch, if_neg hlatency, if_pos havail] at hops
    exact ⟨_, .single rfl rfl hops ⟨_, _, rfl⟩⟩
  · rw [if_neg hepoch, if_neg hlatency, if_neg havail] at hops
    exact ⟨[], .none rfl rfl hops rfl⟩

theorem receive_performs {f : Frame} {now : Int64} (h : c.receive sock f now = some (c', e)) :
    ∃ ftr, c.Performs (.receive sock f now) c' e ftr := by
  have hops (h₁ : f.kind ≠ .evidence) (h₂ : f.kind ≠ .evaluateRequest) :
      c.fabricOps (.receive sock f now) = [] := by
    simp only [fabricOps, if_neg h₁, if_neg h₂]
  unfold receive at h
  split_ifs at h with hhello hevidence hbeat hrequest hkill hshut
  · have hnone := hops (by rw [hhello]; decide) (by rw [hhello]; decide)
    split at h
    · cases h
      exact ⟨[], .none rfl rfl hnone rfl⟩
    · split_ifs at h
      · cases h
        exact ⟨[], .none rfl rfl hnone rfl⟩
      · cases h
        exact ⟨[], .none rfl rfl hnone rfl⟩
  · split at h
    · rename_i hdec
      cases h
      refine ⟨[], .none rfl rfl ?_ rfl⟩
      simp only [fabricOps, if_pos hevidence, hdec, Option.map_none, Option.getD_none]
    · rename_i m hm
      obtain ⟨rfl, rfl⟩ := Prod.ext_iff.mp (Option.some.inj h)
      exact handleEvidence_performs hevidence hm
  · cases h
    exact ⟨[], .none rfl rfl (hops hevidence (by rw [hbeat]; decide)) rfl⟩
  · obtain ⟨⟨s', r⟩, hr, he⟩ := Option.map_eq_some_iff.mp h
    cases he
    refine ⟨[(.evaluate ⟨100⟩ ⟨200⟩ (nowDur now), .evaluated r)], .single ?_ rfl ?_
      ⟨_, r, rfl, rfl⟩⟩
    · simp only [apply, hr, Option.map_some]
    · simp only [fabricOps, if_neg hevidence, if_pos hrequest]
  · cases h
    exact ⟨[], .none rfl rfl (hops hevidence hrequest) rfl⟩
  · cases h
    exact ⟨[], .none rfl rfl (hops hevidence hrequest) rfl⟩
  · cases h
    exact ⟨[], .none rfl rfl (hops hevidence hrequest) rfl⟩

theorem proceed_performs {p : Phase} {now : Int64} (hp : c.threads sock = some p)
    (h : c.proceed sock now p = some (c', e)) : ∃ ftr, c.Performs (.proceed sock now) c' e ftr := by
  cases p with
  | reading => cases h
  | restoring bootId =>
    cases h
    have hops : c.fabricOps (.proceed sock now) = [recoveryOp .restored now] := by
      simp only [fabricOps, hp]
    exact ⟨_, .single rfl rfl hops ⟨_, rfl⟩⟩
  | verifying bootId =>
    cases h
    have hops : c.fabricOps (.proceed sock now) = [recoveryOp .verified now] := by
      simp only [fabricOps, hp]
    exact ⟨_, .single rfl rfl hops ⟨_, rfl⟩⟩
  | registering g =>
    obtain ⟨rfl, rfl⟩ := Prod.ext_iff.mp (Option.some.inj h)
    refine ⟨[], ?_⟩
    unfold register
    split_ifs
    · exact .none rfl rfl (by simp only [fabricOps, hp]) rfl
    · exact .none rfl rfl (by simp only [fabricOps, hp]) rfl
  | checking bootId =>
    refine ⟨[], ?_⟩
    simp only [proceed] at h
    split_ifs at h
    · cases h
      exact .none rfl rfl (by simp only [fabricOps, hp]) rfl
    · cases h
      exact .none rfl rfl (by simp only [fabricOps, hp]) rfl
  | stamping =>
    cases h
    obtain ⟨_, _, hepoch, _⟩ := c.stamp_frame sock now
    refine ⟨[], .none ?_ hepoch (by simp only [fabricOps, hp]) rfl⟩
    show (c.stamp sock now).fabric = c.fabric
    unfold stamp
    split <;> rfl
  | granting | marking | leaving =>
    cases h
    exact ⟨[], .none rfl rfl (by simp only [fabricOps, hp]) rfl⟩

/-- A round of the monitor: nothing, or the alarm's three operations. -/
theorem tick_performs (c : Coordinator R) (now : Int64) :
    ∃ ftr, c.Performs (.tick now) (c.monitor now).1 (.ticked (c.monitor now).2) ftr := by
  rw [monitor_eq]
  split
  · rename_i hlost
    have hops : c.fabricOps (.tick now) = [recoveryOp .observed now, recoveryOp .authoritative now,
        c.availabilityOp (Double.ofRat 0) 1 now] := by
      simp only [fabricOps, if_pos hlost]
    have hobserved : Runs c.fabric [(recoveryOp .observed now, _)] _ := .one rfl
    have hboth : Runs c.fabric ([(recoveryOp .observed now, _)] ++
      [(recoveryOp .authoritative now, _)]) _ := hobserved.next trivial rfl
    have hall : Runs c.fabric ([(recoveryOp .observed now, _)] ++
      [(recoveryOp .authoritative now, _)] ++ [(c.availabilityOp (Double.ofRat 0) 1 now, _)]) _ :=
      hboth.next trivial rfl
    exact ⟨_, hall, hops.symm, rfl, rfl⟩
  · rename_i hcalm
    refine ⟨[], .none rfl rfl ?_ rfl⟩
    simp only [fabricOps, if_neg hcalm]

/-- **A step of the coordinator is a run of the fabric.** -/
theorem coordinator_step (h : c.step act = some (c', e)) : ∃ ftr, c.Performs act c' e ftr := by
  unfold step at h
  split_ifs at h
  cases act with
  | accept sock | lose sock =>
    simp only at h
    split_ifs at h
    cases h
    exact ⟨[], .none rfl rfl rfl rfl⟩
  | receive sock f now =>
    simp only at h
    split_ifs at h
    exact receive_performs h
  | proceed sock now =>
    obtain ⟨p, hp, hproceed⟩ := Option.bind_eq_some_iff.mp h
    exact proceed_performs hp hproceed
  | tick now =>
    cases h
    exact c.tick_performs now

end Coordinator

/-! ## 3. The epoch, and the start -/

/-- Only a load changes the epoch. -/
theorem Runs.epoch {s s' : State R} {tr : Trace R} (h : Runs s tr s')
    (hload : ∀ x ∈ tr, ∀ file, x.1 ≠ .load file) : s'.epoch = s.epoch := by
  refine (h.restrict (P := fun op => ∀ file, op ≠ .load file) hload).invariant
    (I := fun s' => s'.epoch = s.epoch) rfl ?_
  intro s₁ op s₂ r hI hc hs
  exact (epoch_step hs hc.2).trans hI

/-- The operations that a thread takes. -/
def Op.fromThread : Op R → Bool
  | .ingest _ _ | .recordRecoveryEvent _ _ _ | .evaluate _ _ _ => true
  | _ => false

omit [Platform R] in
/-- There are four of them. -/
theorem Coordinator.fabricOps_cases {c : Coordinator R} {act : Act} {op : Op R}
    (h : op ∈ c.fabricOps act) : (∃ phase t, op = recoveryOp phase t) ∨
      (∃ x t, op = c.latencyOp x t) ∨ (∃ bp n t, op = c.availabilityOp bp n t) ∨
        ∃ t, op = .evaluate ⟨100⟩ ⟨200⟩ t := by
  unfold fabricOps at h
  split at h
  · rename_i sock f now
    split_ifs at h
    · cases hdec : decodeEvidence R f.payload with
      | none => simp [hdec] at h
      | some m =>
        simp only [hdec, Option.map_some, Option.getD_some, evidenceOps] at h
        split_ifs at h
        · cases h
        · exact .inr (.inl ⟨_, _, List.mem_singleton.mp h⟩)
        · exact .inr (.inr (.inl ⟨_, _, _, List.mem_singleton.mp h⟩))
        · cases h
    · exact .inr (.inr (.inr ⟨_, List.mem_singleton.mp h⟩))
    · cases h
  · split at h
    · exact .inl ⟨_, _, List.mem_singleton.mp h⟩
    · exact .inl ⟨_, _, List.mem_singleton.mp h⟩
    · cases h
  · split_ifs at h
    · simp only [List.mem_cons, List.not_mem_nil, or_false] at h
      rcases h with h | h | h
      · exact .inl ⟨_, _, h⟩
      · exact .inl ⟨_, _, h⟩
      · exact .inr (.inr (.inl ⟨_, _, _, h⟩))
    · cases h
  · cases h

omit [Platform R] in
theorem Coordinator.fabricOps_fromThread {c : Coordinator R} {act : Act} {op : Op R}
    (h : op ∈ c.fabricOps act) : op.fromThread = true := by
  rcases fabricOps_cases h with ⟨_, _, rfl⟩ | ⟨_, _, rfl⟩ | ⟨_, _, _, rfl⟩ | ⟨_, rfl⟩ <;> rfl

/-- They leave epoch, contracts and policies as they are. -/
theorem apply_fromThread {s s' : State R} {op : Op R} {r : Response R}
    (h : apply s op = some (s', r)) (hop : op.fromThread = true) :
    s'.epoch = s.epoch ∧ s'.contracts = s.contracts ∧ s'.policies = s.policies := by
  cases frame_cases h with
  | objectives _ hs | ingested hs | evaluated _ hs =>
    rw [hs]
    exact ⟨rfl, rfl, rfl⟩
  | contracts hcontract =>
    cases op with
    | ingest | recordRecoveryEvent | evaluate => cases hcontract
    | _ => cases hop
  | policies | authorized | dispatched | transition | completed | saved | failed | loaded =>
    cases hop

theorem Coordinator.Performs.same {c c' : Coordinator R} {act : Act} {e : Effect R} {ftr : Trace R}
    (h : c.Performs act c' e ftr) : c'.fabric.epoch = c.fabric.epoch ∧
      c'.fabric.contracts = c.fabric.contracts ∧ c'.fabric.policies = c.fabric.policies := by
  have hops : ∀ x ∈ ftr, x.1.fromThread = true := by
    intro x hx
    have hmem := List.mem_map_of_mem (f := (·.1)) hx
    rw [h.ops] at hmem
    exact fabricOps_fromThread hmem
  refine (h.run.restrict (P := fun op => op.fromThread = true) hops).invariant
    (I := fun s => s.epoch = c.fabric.epoch ∧ s.contracts = c.fabric.contracts ∧
      s.policies = c.fabric.policies) ⟨rfl, rfl, rfl⟩ ?_
  rintro s op s' r ⟨hepoch, hcontracts, hpolicies⟩ hc hs
  obtain ⟨hepoch', hcontracts', hpolicies'⟩ := apply_fromThread hs hc.2
  exact ⟨hepoch'.trans hepoch, hcontracts'.trans hcontracts, hpolicies'.trans hpolicies⟩

/-- The scenario, and the file if one is named. -/
theorem start_runs (file : Option (Option Bytes)) (now : Int64) :
    (Coordinator.start (R := R) file now).epoch =
        (Coordinator.start (R := R) file now).fabric.epoch ∧
      ∃ ftr, Runs (State.fresh R) ftr (Coordinator.start file now).fabric ∧
        ftr.map (·.1) = Coordinator.startOps R file now := by
  have hpolicy : Runs (State.fresh R) [(.setPolicy proofPolicy, _)] _ := .one rfl
  have hcontract : Runs (State.fresh R) ([(.setPolicy proofPolicy, _)] ++
    [(.addContract (proofContract R), _)]) _ := hpolicy.next trivial rfl
  have hscenario : Runs (State.fresh R) ([(.setPolicy proofPolicy, _)] ++
    [(.addContract (proofContract R), _)] ++ [(.activateContract ⟨1⟩ (nowDur now), _)])
    (setScenario (State.fresh R) now) := hcontract.next trivial rfl
  have hepoch : (setScenario (State.fresh R) now).epoch = ⟨1⟩ := by
    refine hscenario.epoch fun x hx file => ?_
    simp only [List.cons_append, List.nil_append, List.mem_cons, List.not_mem_nil, or_false] at hx
    rcases hx with rfl | rfl | rfl <;> simp
  cases file with
  | none => exact ⟨hepoch.symm, _, hscenario, rfl⟩
  | some file =>
    have hload := hscenario.next (o := .load file) trivial rfl
    refine ⟨?_, _, hload, rfl⟩
    show (if (load (setScenario (State.fresh R) now) file).2.isOk then
      (load (setScenario (State.fresh R) now) file).1.epoch else ⟨1⟩) =
        (load (setScenario (State.fresh R) now) file).1.epoch
    rcases load_cases (setScenario (State.fresh R) now) file with ⟨st, hst, hl⟩ | ⟨st, _, hl⟩
    · rw [hl, if_neg (by rw [loadState_error hst]; decide)]
      exact hepoch.symm
    · rw [hl]
      rfl

/-! ## 4. Without a state file -/

omit [Pod R] in
/-- The contract of the scenario, once it is active. -/
def activeContract (R : Type) [Double R] (now : Int64) : SloContract R :=
  { proofContract R with
    lifecycle := .active
    effectiveFrom := if nowDur now < 0 then nowDur now else 0 }

/-- The scenario's contract and policy, and no other, in the epoch of a fresh fabric. -/
structure Scheduled (now : Int64) (s : State R) : Prop where
  epoch : s.epoch = ⟨1⟩
  contracts : s.contracts.rows = [activeContract R now]
  policy : s.policies.find ⟨1⟩ = some proofPolicy

theorem scheduled_run {C : Coordinator R → Act → Prop} {now : Int64} {tr : List (Act × Effect R)}
    {c : Coordinator R} (h : Run Coordinator.step C (.start none now) tr c) :
    c.epoch = ⟨1⟩ ∧ Scheduled now c.fabric := by
  refine h.invariant (I := fun c => c.epoch = ⟨1⟩ ∧ Scheduled now c.fabric)
    ⟨rfl, ⟨rfl, rfl, rfl⟩⟩ ?_
  rintro c act c' e ⟨hepoch, hI⟩ _ hs
  obtain ⟨ftr, hperforms⟩ := Coordinator.coordinator_step hs
  obtain ⟨hfabric, hcontracts, hpolicies⟩ := hperforms.same
  refine ⟨hperforms.epoch.trans hepoch, hfabric.trans hI.epoch, ?_, ?_⟩
  · rw [hcontracts, hI.contracts]
  · rw [hpolicies, hI.policy]

omit [Pod R] [Platform R] in
/-- A record of the current epoch, of the objective's own generation and unit, is refused for none
    of these. -/
theorem ingest_current {s : State R} {e : EvidenceRecord R} {o : Objective R}
    (hdef : definitionOf s.contracts e.objectiveId = some o) (hepoch : e.epoch = s.epoch)
    (hgen : e.objectiveGen = o.gen) (hunit : unitCompatible o e = true) (now : Duration) :
    (ingest s e now).2.code ∉ [.staleAuthority, .objectiveInvalid, .unitMismatch] := by
  have hnote : (noteEvidence s e.id).2.code ∉
      [StatusCode.staleAuthority, .objectiveInvalid, .unitMismatch] := by
    unfold noteEvidence
    split
    · show StatusCode.invalidInput ∉ _
      decide
    · split
      · show StatusCode.cancelled ∉ _
        decide
      · show StatusCode.ok ∉ _
        decide
  have hwindow (x : IngestStatus) : (windowStatus x).code ∉
      [StatusCode.staleAuthority, .objectiveInvalid, .unitMismatch] := by
    cases x <;> decide
  have hframe := noteEvidence_frame s e.id
  unfold ingest
  generalize noteEvidence s e.id = n at hframe hnote
  obtain ⟨s₁, st⟩ := n
  simp only at hframe hnote ⊢
  rw [hframe]
  split
  · exact hnote
  · have hsame : (e.epoch.valid && e.epoch != s.epoch) = false := by simp [hepoch]
    have hsame' : (e.objectiveGen.valid && e.objectiveGen != o.gen) = false := by simp [hgen]
    simp only [hsame, hdef, hsame', Bool.false_eq_true, if_false]
    rcases offer_spec o (acquire s.accumulators o) e with ⟨_, h⟩ | ⟨_, hno, _⟩ | ⟨_, _, h⟩
    · rw [h]
      show (cancelled "duplicate evidence").code ∉ _
      decide
    · rw [hunit] at hno
      cases hno
    · rw [h]
      unfold storeEvidence
      split
      · exact hwindow _
      · exact hwindow _
      · exact hwindow _
      · show ok.code ∉ _
        decide
      · split <;> (show ok.code ∉ _) <;> decide
      · show (invalidInput _).code ∉ _
        simp [invalidInput]

namespace Scheduled

variable {now : Int64} {s : State R}

omit [Pod R] [Platform R] in
/-- The objectives are defined, in their first generation. -/
theorem definition (h : Scheduled now s) :
    (∃ o, definitionOf s.contracts kLatencyObjId = some o ∧ o.gen = ⟨1⟩ ∧ o.dim = .latency) ∧
    (∃ o, definitionOf s.contracts kAvailObjId = some o ∧ o.gen = ⟨1⟩ ∧ o.dim = .availability) ∧
      definitionOf s.contracts kRecoveryObjId ≠ none := by
  unfold definitionOf allObjectives
  rw [h.contracts]
  exact ⟨⟨_, rfl, rfl, rfl⟩, ⟨_, rfl, rfl, rfl⟩, Option.some_ne_none _⟩

omit [Pod R] [Platform R] in
/-- The contract is in force from the start on. -/
theorem selected (h : Scheduled now s) {t : Duration} (ht : nowDur now ≤ t ∨ 0 ≤ t) :
    selectContract s.contracts ⟨100⟩ ⟨200⟩ t = some (activeContract R now) := by
  have hfrom : ¬t < (activeContract R now).effectiveFrom := by
    show ¬t < if nowDur now < 0 then nowDur now else 0
    split
    · rename_i hneg
      rcases ht with ht | ht
      · exact Int64.not_lt.mpr ht
      · exact Int64.not_lt.mpr (Int64.le_trans (Int64.le_of_lt hneg) ht)
    · rename_i hpos
      rcases ht with ht | ht
      · exact Int64.not_lt.mpr (Int64.le_trans (Int64.not_lt.mp hpos) ht)
      · exact Int64.not_lt.mpr ht
  have hauth : (activeContract R now).canAuthorize t = true := by
    unfold SloContract.canAuthorize
    rw [decide_eq_false hfrom]
    rfl
  unfold selectContract
  rw [h.contracts, List.filter_cons, if_pos (by simpa using ⟨rfl, rfl, hauth⟩)]
  rfl

omit [Pod R] in
/-- A request is answered by a verdict on the contract. -/
theorem evaluated (h : Scheduled now s) {t : Duration} (ht : nowDur now ≤ t ∨ 0 ≤ t) :
    ∃ s' res, evaluate s ⟨100⟩ ⟨200⟩ t = some (s', .ok res) ∧
      res.explanation.contractGen = ⟨1⟩ ∧ res.explanation.policyGen = ⟨1⟩ := by
  have hlen := evaluateObjectives_length t (activeContract R now).objectives s.accumulators
  have hpolicy : (s.policies.find (activeContract R now).policyId).filter
      (·.gen = (activeContract R now).policyGen) = some proofPolicy := by
    rw [show (activeContract R now).policyId = ⟨1⟩ from rfl, h.policy]
    rfl
  cases hover : overallOf (evaluateObjectives s.accumulators t
    (activeContract R now).objectives).2.1 with
  | none =>
    have hnil := overallOf_eq_none.mp hover
    rw [hnil] at hlen
    cases hlen
  | some x =>
    unfold evaluate
    rw [h.selected ht]
    simp only [hpolicy, hover]
    exact ⟨_, _, rfl, rfl, rfl⟩

end Scheduled

omit [Platform R] in
/-- Every measurement is one of the current epoch, of its objective's generation and unit. -/
theorem measured_current {start : Int64} {c : Coordinator R} (hI : Scheduled start c.fabric)
    (hepoch : c.epoch = ⟨1⟩) {act : Act} {e : EvidenceRecord R} {t : Duration}
    (h : .ingest e t ∈ c.fabricOps act) :
    ∃ o, definitionOf c.fabric.contracts e.objectiveId = some o ∧ e.epoch = c.fabric.epoch ∧
      e.objectiveGen = o.gen ∧ unitCompatible o e = true := by
  obtain ⟨⟨o, ho, hgen, hdim⟩, ⟨o', ho', hgen', hdim'⟩, _⟩ := hI.definition
  have hcurrent : c.epoch = c.fabric.epoch := hepoch.trans hI.epoch.symm
  rcases Coordinator.fabricOps_cases h with ⟨_, _, h⟩ | ⟨x, _, h⟩ | ⟨bp, _, _, h⟩ | ⟨_, h⟩
  · cases h
  · cases h
    refine ⟨o, ho, hcurrent, hgen.symm, ?_⟩
    simp [unitCompatible, hdim, Coordinator.measurement, unitKindOf, expectedUnitFor]
  · cases h
    refine ⟨o', ho', hcurrent, hgen'.symm, ?_⟩
    simp [unitCompatible, hdim', Coordinator.measurement, unitKindOf]
  · cases h

/-- **Without a state file the coordinator always answers.** In every state of every run a request
    is answered by a verdict on the scenario's contract, recovery events are recorded, and no
    measurement is refused for its epoch, its objective, its generation or its unit. -/
theorem scenario_answers {start : Int64} {tr : List (Act × Effect R)} {c : Coordinator R}
    (h : Run Coordinator.step (fun _ _ => True) (.start none start) tr c) :
    (∀ sock f now, c.exited = false → c.threads sock = some .reading →
      f.kind = .evaluateRequest → (nowDur start ≤ nowDur now ∨ 0 ≤ nowDur now) →
      ∃ c' reply, c.step (.receive sock f now) = some (c', .replied reply) ∧ reply.epoch = ⟨1⟩ ∧
        reply.contractGen = ⟨1⟩ ∧ reply.policyGen = ⟨1⟩) ∧
    ∀ act c' e, c.step act = some (c', e) →
      (∀ phase st, e = .recorded phase st → st = ok) ∧
      (∀ evs, e = .ticked evs → ∀ x ∈ evs, x.2 = ok) ∧
      ∀ st, e = .ingested st → st.code ∉ [.staleAuthority, .objectiveInvalid, .unitMismatch] := by
  obtain ⟨hepoch, hI⟩ := scheduled_run h
  obtain ⟨hlatency, havail, hrecovery⟩ := hI.definition
  refine ⟨fun sock f now hexited hreading hkind hnow => ?_, fun act c' e hs => ⟨?_, ?_, ?_⟩⟩
  · obtain ⟨s', res, hres, hcontract, hpolicy⟩ := hI.evaluated hnow
    have hne : f.kind ≠ .hello ∧ f.kind ≠ .evidence ∧ f.kind ≠ .heartbeat := by
      rw [hkind]
      decide
    refine ⟨{ c with fabric := s' }, c.replyOf (.ok res), ?_, hepoch, hcontract, hpolicy⟩
    simp only [Coordinator.step, hexited, Bool.false_eq_true, if_false, hreading, if_true,
      Coordinator.receive, if_neg hne.1, if_neg hne.2.1, if_neg hne.2.2, if_pos hkind, hres,
      Option.map_some]
  · rintro phase st rfl
    obtain ⟨ftr, hperforms⟩ := Coordinator.coordinator_step hs
    obtain ⟨t, rfl⟩ := hperforms.tells
    obtain ⟨_, hst⟩ := Prod.ext_iff.mp (Option.some.inj hperforms.run.taken)
    cases hst
    exact recordRecoveryEvent_ok hrecovery phase (nowDur t)
  · rintro evs rfl x hx
    cases Coordinator.step_does hs with
    | work _ _ _ _ _ _ _ hquiet | stay _ _ _ hquiet => cases hquiet
    | @tick now =>
      rw [Coordinator.monitor_eq] at hx
      split at hx
      · rw [alarm_records now hrecovery] at hx
        simp only [List.mem_cons, List.not_mem_nil, or_false] at hx
        rcases hx with rfl | rfl <;> rfl
      · cases hx
  · rintro st rfl
    obtain ⟨ftr, hperforms⟩ := Coordinator.coordinator_step hs
    obtain ⟨x, t, rfl⟩ := hperforms.tells
    obtain ⟨_, hst⟩ := Prod.ext_iff.mp (Option.some.inj hperforms.run.taken)
    have hop : .ingest x t ∈ c.fabricOps act := by
      rw [← hperforms.ops]
      exact List.mem_singleton_self _
    obtain ⟨o, hdef, hcurrent, hgen, hunit⟩ := measured_current hI hepoch hop
    cases hst
    exact ingest_current hdef hcurrent hgen hunit t

/-- The first request. -/
theorem scenario_answers_small :
    ∃ (c c' : Coordinator Binary64) (reply : EvaluateReply Binary64),
      c.step (.receive 3 { kind := .evaluateRequest } 0) = some (c', .replied reply) ∧
        reply.contractGen = ⟨1⟩ := by
  have hopen : (Coordinator.start (R := Binary64) none 0).step (.accept 3) =
      some ((Coordinator.start none 0).goTo 3 (some .reading), .opened) := rfl
  have hrun := Run.next (C := fun _ _ => True) .start trivial hopen
  have hreading : ((Coordinator.start (R := Binary64) none 0).goTo 3 (some .reading)).threads 3 =
    some .reading := rfl
  obtain ⟨c', reply, hs, _, hgen, _⟩ := (scenario_answers hrun).1 3 { kind := .evaluateRequest } 0
    rfl hreading rfl (.inr (by decide))
  exact ⟨_, c', reply, hs, hgen⟩

end SloFabric
