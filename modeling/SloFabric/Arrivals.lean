/-
  File:      SloFabric/Arrivals.lean
  Subject:   That calls about different objectives can arrive in any order.

  * `Op.subject`: the objective a call is about; `Arrives`: the call is about one, and its record is
    not turned away as a repeated one;
  * `AlikeAt`: what the calls about an objective look at is the same in two states;
  * `arrives_separate`: such calls are answered alike where it is, and leave it alone for the other
    objectives;
  * `any_order_arrives`: so the order of calls about different objectives shows neither in the
    answers, nor in what the fabric holds, nor in what it decides.
-/
import SloFabric.Agreement
import SloFabric.Archive
import SloFabric.Library.AnyOrder

namespace SloFabric

variable {R : Type}

/-! ## 1. Calls and objectives -/

/-- The objective a call is about; the other calls are about none. -/
def Op.subject : Op R → Option ObjectiveId
  | .ingest e _ => some e.objectiveId
  | .recordRecoveryEvent id _ _ | .ingestViolationEvent id _ | .setObjectiveBudget id _ _ => some id
  | _ => none

/-- A call about an objective. A record has a valid id, and one that is not remembered. -/
structure Arrives (s : State R) (op : Op R) : Prop where
  subject : op.subject ≠ none
  unseen : ∀ e now, op = .ingest e now → Unseen s e.id

/-- What the calls about an objective look at is the same. -/
structure AlikeAt (k : Option ObjectiveId) (s t : State R) : Prop where
  epoch : s.epoch = t.epoch
  contracts : s.contracts = t.contracts
  accumulators : KeyedTable.AgreeOn {id | k = some id} s.accumulators t.accumulators

theorem alikeAt_equivalence (k : Option ObjectiveId) : Equivalence (AlikeAt (R := R) k) where
  refl _ := ⟨rfl, rfl, .refl _⟩
  symm h := ⟨h.epoch.symm, h.contracts.symm, h.accumulators.symm⟩
  trans h h' := ⟨h.epoch.trans h'.epoch, h.contracts.trans h'.contracts,
    h.accumulators.trans h'.accumulators⟩

/-- The scope of one objective, with every contract and policy. -/
def soleScope (k : Option ObjectiveId) : Scope where
  service := ⟨0⟩
  workload := ⟨0⟩
  contracts := Set.univ
  policies := Set.univ
  objectives := {id | k = some id}

theorem alikeAt_of_agree {k : Option ObjectiveId} {s t : State R} (h : Agree (soleScope k) s t) :
    AlikeAt k s t :=
  ⟨h.epoch, KeyedTable.ext_find fun id => h.contracts id trivial, h.accumulators⟩

/-! ## 2. Answers -/

/-- Two answers leave what the calls about `k` look at alike, and their statuses are the same. -/
def AnsweredAt (k : Option ObjectiveId) (x y : State R × Status) : Prop :=
  AlikeAt k x.1 y.1 ∧ x.2 = y.2

namespace AlikeAt

variable {k : Option ObjectiveId} {s t : State R} {o : Objective R}

theorem acquire (h : AlikeAt k s t) (ho : k = some o.id) :
    SloFabric.acquire s.accumulators o = SloFabric.acquire t.accumulators o := by
  have hagree : KeyedTable.AgreeOn (soleScope k).objectives s.accumulators t.accumulators :=
    h.accumulators
  exact acquire_agree hagree ho

theorem ingest [Double R] {e : EvidenceRecord R} (h : AlikeAt (some e.objectiveId) s t)
    (hs : Unseen s e.id) (ht : Unseen t e.id) (now : Duration) :
    AnsweredAt (some e.objectiveId) (SloFabric.ingest s e now) (SloFabric.ingest t e now) := by
  have hframe := noteEvidence_frame s e.id
  have hframe' := noteEvidence_frame t e.id
  have hok := hs.noted
  have hok' := ht.noted
  unfold SloFabric.ingest
  generalize noteEvidence s e.id = x at hframe hok
  generalize noteEvidence t e.id = y at hframe' hok'
  obtain ⟨s₁, st⟩ := x
  obtain ⟨t₁, st'⟩ := y
  simp only at hframe hframe' hok hok' ⊢
  have hnoted : AlikeAt (some e.objectiveId) s₁ t₁ := by
    rw [hframe, hframe']
    exact ⟨h.epoch, h.contracts, h.accumulators⟩
  rw [hok, hok', ← hnoted.epoch, ← hnoted.contracts]
  simp only [Bool.not_true, Bool.false_eq_true, if_false]
  split
  · exact ⟨hnoted, rfl⟩
  · cases hd : definitionOf s₁.contracts e.objectiveId with
    | none => exact ⟨hnoted, rfl⟩
    | some o =>
      simp only
      split
      · exact ⟨hnoted, rfl⟩
      · have hacc := hnoted.acquire (o := o) (by rw [(definitionOf_some hd).1])
        rw [hacc]
        exact ⟨⟨rfl, rfl, hnoted.accumulators.insert _⟩, rfl⟩

theorem recordRecoveryEvent {id : ObjectiveId} (h : AlikeAt (some id) s t)
    (phase : RecoveryEventPhase) (time : Duration) :
    AnsweredAt (some id) (SloFabric.recordRecoveryEvent s id phase time)
      (SloFabric.recordRecoveryEvent t id phase time) := by
  unfold SloFabric.recordRecoveryEvent
  rw [← h.contracts]
  cases hd : definitionOf s.contracts id with
  | none => exact ⟨h, rfl⟩
  | some o =>
    have hacc := h.acquire (o := o) (by rw [(definitionOf_some hd).1])
    simp only
    rw [hacc]
    exact ⟨⟨h.epoch, rfl, h.accumulators.insert _⟩, rfl⟩

theorem setObjectiveBudget {id : ObjectiveId} (h : AlikeAt (some id) s t) (total : Count)
    (window : Duration) : AnsweredAt (some id) (SloFabric.setObjectiveBudget s id total window)
      (SloFabric.setObjectiveBudget t id total window) := by
  unfold SloFabric.setObjectiveBudget
  rw [← h.contracts]
  cases hd : definitionOf s.contracts id with
  | none => exact ⟨h, rfl⟩
  | some o =>
    have hacc := h.acquire (o := o) (by rw [(definitionOf_some hd).1])
    simp only
    rw [hacc]
    split
    · exact ⟨⟨h.epoch, rfl, h.accumulators.insert _⟩, rfl⟩
    · exact ⟨⟨h.epoch, rfl, h.accumulators.insert _⟩, rfl⟩

theorem ingestViolationEvent {id : ObjectiveId} (h : AlikeAt (some id) s t) (now : Duration) :
    AnsweredAt (some id) (SloFabric.ingestViolationEvent s id now)
      (SloFabric.ingestViolationEvent t id now) := by
  have hagree : KeyedTable.AgreeOn (soleScope (some id)).objectives s.accumulators
      t.accumulators := h.accumulators
  have hall := getAccumulators_agree (violationDefinitions s.contracts id) _ _ hagree
    fun o ho => congrArg some (violationDefinitions_id ho).symm
  have hid : id ∈ (soleScope (some id)).objectives := rfl
  unfold SloFabric.ingestViolationEvent
  simp only
  rw [← h.contracts, ← hall id hid]
  have hvisited : AlikeAt (some id)
      { s with accumulators :=
          (violationDefinitions s.contracts id).foldl getAccumulator s.accumulators }
      { t with
        contracts := s.contracts
        accumulators :=
          (violationDefinitions s.contracts id).foldl getAccumulator t.accumulators } :=
    ⟨h.epoch, rfl, hall⟩
  cases (violationDefinitions s.contracts id).getLast? with
  | none => exact ⟨hvisited, rfl⟩
  | some o =>
    cases ((violationDefinitions s.contracts id).foldl getAccumulator s.accumulators).find id with
    | none => exact ⟨hvisited, rfl⟩
    | some acc =>
      simp only
      split
      · exact ⟨hvisited, rfl⟩
      · exact ⟨⟨h.epoch, rfl, hall.insert _⟩, rfl⟩

end AlikeAt

/-! ## 3. Runs -/

section Runs

variable [Pod R] [Double R] [Platform R]

/-- **The calls about an objective are about nothing else.** -/
theorem arrives_separate : Separate (apply (R := R)) Arrives Op.subject AlikeAt where
  equivalence := alikeAt_equivalence
  answer s t op s' t' a b hs ht h hstep hstep' := by
    have ofAnswered {x y : State R × Status} (hxy : AnsweredAt op.subject x y)
        (hx : answer x = some (s', a)) (hy : answer y = some (t', b)) :
        a = b ∧ AlikeAt op.subject s' t' := by
      cases hx
      cases hy
      exact ⟨by rw [hxy.2], hxy.1⟩
    cases op with
    | ingest e now =>
      exact ofAnswered (h.ingest (hs.unseen e now rfl) (ht.unseen e now rfl) now) hstep hstep'
    | recordRecoveryEvent id phase time =>
      exact ofAnswered (h.recordRecoveryEvent phase time) hstep hstep'
    | ingestViolationEvent id now => exact ofAnswered (h.ingestViolationEvent now) hstep hstep'
    | setObjectiveBudget id total window =>
      exact ofAnswered (h.setObjectiveBudget total window) hstep hstep'
    | _ => exact absurd rfl hs.subject
  frame s op s' a k hc hstep hk := by
    refine alikeAt_of_agree ?_
    cases op with
    | ingest e now => cases hstep; exact foreign_ingest s now hk
    | recordRecoveryEvent id phase time =>
      cases hstep
      exact foreign_recovery s id phase time hk
    | ingestViolationEvent id now => cases hstep; exact foreign_violation s id now hk
    | setObjectiveBudget id total window => cases hstep; exact foreign_grant s id total window hk
    | _ => exact absurd rfl hc.subject

/-- What the calls about objectives leave alone. -/
theorem arrives_frame {s s' : State R} {op : Op R} {r : Response R} (hc : Arrives s op)
    (h : apply s op = some (s', r)) :
    s' = { s with
      accumulators := s'.accumulators, globalEvidence := s'.globalEvidence
      globalEvidenceRing := s'.globalEvidenceRing } := by
  cases op with
  | ingest e now =>
    cases h
    obtain ⟨_, _, ⟨h', _⟩ | ⟨_, _, _, _, h', _⟩⟩ := ingest_cases s e now
    · rw [h']
    · rw [h']
  | recordRecoveryEvent id phase time =>
    cases h
    rcases recordRecoveryEvent_cases s id phase time with ⟨_, h'⟩ | ⟨_, _, h'⟩
    · rw [h']
    · rw [h']
  | ingestViolationEvent id now =>
    cases h
    rcases ingestViolationEvent_cases s id now with ⟨_, _, h'⟩ | ⟨_, _, _, _, _, h'⟩
    · rw [h']
    · rw [h']
  | setObjectiveBudget id total window =>
    cases h
    rcases setObjectiveBudget_cases s id total window with ⟨_, h', _⟩ | ⟨_, _, ⟨h', _⟩ | ⟨_, h', _⟩⟩
    · rw [h']
    · rw [h']
    · rw [h']
  | _ => exact absurd rfl hc.subject

/-- Only the accumulators and what is remembered of the evidence ids may differ. -/
def SameElsewhere (s t : State R) : Prop :=
  t = { s with
    accumulators := t.accumulators, globalEvidence := t.globalEvidence
    globalEvidenceRing := t.globalEvidenceRing }

omit [Pod R] [Double R] [Platform R] in
theorem SameElsewhere.trans {s t u : State R} (h : SameElsewhere s t) (h' : SameElsewhere t u) :
    SameElsewhere s u := by
  unfold SameElsewhere at h h' ⊢
  generalize t.accumulators = a at h
  generalize t.globalEvidence = ids at h
  generalize t.globalEvidenceRing = ring at h
  subst h
  exact h'

theorem arrives_run {s₀ s : State R} {tr : Trace R} (h : Run apply Arrives s₀ tr s) :
    SameElsewhere s₀ s :=
  h.invariant (I := fun s : State R => SameElsewhere s₀ s) rfl
    fun _ _ _ _ hi hc hs => hi.trans (arrives_frame hc hs)

omit [Pod R] in
/-- No decision looks at the evidence ids. -/
theorem evaluate_forgets (s : State R) (ids : Finset EvidenceId) (ring : List EvidenceId)
    (service : ServiceId) (workload : WorkloadId) (now : Duration) :
    (evaluate { s with globalEvidence := ids, globalEvidenceRing := ring } service workload
      now).map (·.2) = (evaluate s service workload now).map (·.2) := by
  unfold evaluate
  simp only
  split
  · rfl
  · split
    · rfl
    · split <;> rfl

/-- **Calls about different objectives can arrive in any order.** Where two runs make the same calls
    about every objective, in the same order, and differ in the order of calls about different
    ones, every call is answered the same in both; in the end the fabrics differ in nothing but
    the evidence ids they remember, and so decide the same. -/
theorem any_order_arrives {s₀ s t : State R} {tr tr' : Trace R} (h : Run apply Arrives s₀ tr s)
    (h' : Run apply Arrives s₀ tr' t)
    (hops : ∀ k, (about Op.subject k tr).map (·.1) = (about Op.subject k tr').map (·.1)) :
    (∀ k, about Op.subject k tr = about Op.subject k tr') ∧
      t = { s with
        globalEvidence := t.globalEvidence, globalEvidenceRing := t.globalEvidenceRing } ∧
      ∀ service workload now, (evaluate t service workload now).map (·.2) =
        (evaluate s service workload now).map (·.2) := by
  have hall := h.any_order arrives_separate h' hops
  have hacc : t.accumulators = s.accumulators :=
    KeyedTable.ext_find fun id => ((hall (some id)).2.accumulators id rfl).symm
  have hsame : t = { s with
      globalEvidence := t.globalEvidence, globalEvidenceRing := t.globalEvidenceRing } := by
    have hs := arrives_run h
    have ht := arrives_run h'
    unfold SameElsewhere at hs ht
    rw [hacc] at ht
    generalize t.globalEvidence = ids at ht
    generalize t.globalEvidenceRing = ring at ht
    generalize s.accumulators = a at hs ht
    generalize s.globalEvidence = ids' at hs
    generalize s.globalEvidenceRing = ring' at hs
    subst hs
    exact ht
  refine ⟨fun k => (hall k).1, hsame, fun service workload now => ?_⟩
  rw [hsame]
  exact evaluate_forgets s _ _ service workload now

end Runs

/-! ## 4. Two orders -/

/-- `Arrives`, as a test. -/
def arrivesTest (s : State Binary64) : Op Binary64 → Bool
  | .ingest e _ => e.id.valid && decide (e.id ∉ s.globalEvidence)
  | op => op.subject.isSome

theorem arrives_of_test {s : State Binary64} {op : Op Binary64} (h : arrivesTest s op = true) :
    Arrives s op := by
  constructor
  · intro hnone
    cases op <;> first | cases hnone; done | cases h
  · rintro e now rfl
    obtain ⟨hvalid, hnew⟩ := Bool.and_eq_true_iff.mp h
    exact ⟨hvalid, of_decide_eq_true hnew⟩

/-- A fabric with two objectives, the first of them with a budget. -/
def twoObjectives : State Binary64 :=
  after [.setPolicy smallPolicy,
    .addContract (smallContract 1 1 1 [smallObjective 1 1, smallObjective 2 1]),
    .setObjectiveBudget ⟨1⟩ 10 10]

/-- A latency and a violation of the first objective, and latencies of the second around them. -/
def orders : List (Op Binary64) × List (Op Binary64) :=
  let first : Op Binary64 := .ingest (smallEvidence 1 1 200000000) 0
  let violation : Op Binary64 := .ingestViolationEvent ⟨1⟩ 0
  let second : Op Binary64 := .ingest (smallEvidence 2 2 50000000) 0
  let third : Op Binary64 := .ingest (smallEvidence 3 2 60000000) 0
  ([first, violation, second, third], [second, first, third, violation])

theorem orders_agree (k : Option ObjectiveId) :
    orders.1.filter (fun op => decide (op.subject = k)) =
      orders.2.filter fun op => decide (op.subject = k) := by
  simp only [orders, List.filter_cons, List.filter_nil, Op.subject, smallEvidence]
  by_cases h₁ : some ⟨1⟩ = k
  · subst h₁
    rfl
  · by_cases h₂ : some ⟨2⟩ = k
    · subst h₂
      rfl
    · simp only [h₁, h₂, decide_false, Bool.false_eq_true, if_false]

theorem any_order_arrives_small :
    ∃ tr tr' s t, Run apply Arrives twoObjectives tr s ∧ Run apply Arrives twoObjectives tr' t ∧
      tr.map (·.1) = orders.1 ∧ tr'.map (·.1) = orders.2 ∧
      t = { s with
        globalEvidence := t.globalEvidence, globalEvidenceRing := t.globalEvidenceRing } ∧
      evaluate t ⟨1⟩ ⟨1⟩ 0 ≠ none ∧
      ∀ service workload now, (evaluate t service workload now).map (·.2) =
        (evaluate s service workload now).map (·.2) := by
  have htest : (execute apply arrivesTest twoObjectives orders.1).isSome = true := by
    decide +kernel
  have htest' : (execute apply arrivesTest twoObjectives orders.2).any
      (fun x => (evaluate x.1 ⟨1⟩ ⟨1⟩ 0).isSome) = true := by
    decide +kernel
  obtain ⟨⟨s, tr⟩, hx⟩ := Option.isSome_iff_exists.mp htest
  obtain ⟨⟨t, tr'⟩, hx', heval⟩ := (Option.any_eq_true _ _).mp htest'
  have hrun : Run apply Arrives twoObjectives tr s := .of_execute (fun _ _ => arrives_of_test) hx
  have hrun' : Run apply Arrives twoObjectives tr' t :=
    .of_execute (fun _ _ => arrives_of_test) hx'
  obtain ⟨_, hsame, hdecide⟩ := any_order_arrives hrun hrun' fun k => by
    rw [about_ops, about_ops, execute_ops hx, execute_ops hx']
    exact orders_agree k
  exact ⟨tr, tr', s, t, hrun, hrun', execute_ops hx, execute_ops hx', hsame,
    Option.isSome_iff_ne_none.mp heval, hdecide⟩

end SloFabric
