/-
  File:      SloFabric/Peers.lean
  Subject:   Two fabrics whose accumulators are related, and what the same call does to both.

  * `Kinship`: a relation between accumulators that says nothing about cooldowns, and that every
    use of an accumulator keeps, but evidence and a judgement;
  * `Kin`, `Peers`: tables whose accumulators are related, and states that are one but for these
    and for what is recorded of evaluations and enforcement;
  * `applyUnfiled`: a step of a fabric without files, and so over any numbers;
  * `Peers.settled`: peers take every call alike that brings no evidence, judges nothing and
    enforces nothing; `Peers.ingest`: evidence, if the accumulators take it alike;
  * `Peers.enforced`: a call of enforcement leaves them peers.
-/
import SloFabric.Accounts

namespace SloFabric

variable {R : Type}

/-! ## 1. Accumulators -/

/-- The calls of enforcement. `save` is with them: its file has the receipts and cooldowns. -/
def Op.enforces : Op R → Bool
  | .authorize _ _ | .dispatch | .transition _ _ _ | .completeEnforcement _ _ | .save _ => true
  | _ => false

/-- The accumulator, resting until `stop`. -/
def ObjectiveAccumulator.until (a : ObjectiveAccumulator R) (stop : Duration) :
    ObjectiveAccumulator R := { a with cooldownUntil := stop }

/-- A relation between accumulators of one definition and one budget, whatever their cooldowns,
    that the uses which neither bring evidence nor judge keep. -/
structure Kinship (E : ObjectiveAccumulator R → ObjectiveAccumulator R → Prop) : Prop where
  refl : ∀ a, E a a
  defn : ∀ a b, E a b → b.defn = a.defn
  hasBudget : ∀ a b, E a b → b.hasBudget = a.hasBudget
  budget : ∀ a b, E a b → b.budget = a.budget
  rest : ∀ a b stop stop', E a b → E (a.until stop) (b.until stop')
  recover : ∀ a b phase time, E a b →
    E { a with recovery := a.recovery.record phase time }
      { b with recovery := b.recovery.record phase time }
  fund : ∀ a b h x, E a b →
    E { a with hasBudget := h, budget := x } { b with hasBudget := h, budget := x }

/-- One event is charged to both budgets. -/
theorem Kinship.consume {E : ObjectiveAccumulator R → ObjectiveAccumulator R → Prop}
    (hE : Kinship E) {a b : ObjectiveAccumulator R} (h : E a b) :
    E { a with budget := a.budget.consume } { b with budget := b.budget.consume } := by
  have hfund := hE.fund a b a.hasBudget a.budget.consume h
  have heq : { b with budget := b.budget.consume } =
      { b with hasBudget := a.hasBudget, budget := a.budget.consume } := by
    rw [← hE.hasBudget a b h, ← hE.budget a b h]
  rw [heq]
  exact hfund

/-- The same relation from the other side. -/
theorem Kinship.flip {E : ObjectiveAccumulator R → ObjectiveAccumulator R → Prop}
    (hE : Kinship E) : Kinship (Function.swap E) where
  refl a := hE.refl a
  defn a b h := (hE.defn b a h).symm
  hasBudget a b h := (hE.hasBudget b a h).symm
  budget a b h := (hE.budget b a h).symm
  rest a b stop stop' h := hE.rest b a stop' stop h
  recover a b phase time h := hE.recover b a phase time h
  fund a b has x h := hE.fund b a has x h

/-- The accumulators of every objective are related, or there is none in either table. -/
def Kin (E : ObjectiveAccumulator R → ObjectiveAccumulator R → Prop) (t t' : Accumulators R) :
    Prop := ∀ k, Option.Rel E (t.find k) (t'.find k)

section Tables

variable {E : ObjectiveAccumulator R → ObjectiveAccumulator R → Prop} (hE : Kinship E)
  {t t' : Accumulators R}

include hE

theorem Kin.refl (t : Accumulators R) : Kin E t t := by
  intro k
  cases t.find k with
  | none => exact .none
  | some a => exact .some (hE.refl a)

theorem Kin.acquire (h : Kin E t t') (o : Objective R) :
    E (SloFabric.acquire t o) (SloFabric.acquire t' o) := by
  have hk := h o.id
  unfold SloFabric.acquire
  generalize t.find o.id = x at hk
  generalize t'.find o.id = y at hk
  cases hk with
  | none => exact hE.refl _
  | @some a b hab =>
    simp only [hE.defn a b hab]
    split
    · have hreset : a.resetForNewGen o = b.resetForNewGen o := by
        unfold ObjectiveAccumulator.resetForNewGen
        rw [hE.hasBudget a b hab, hE.budget a b hab]
      rw [hreset]
      exact hE.refl _
    · exact hab

theorem Kin.insert (h : Kin E t t') {a b : ObjectiveAccumulator R} (hab : E a b) :
    Kin E (t.insert a) (t'.insert b) := by
  intro k
  rw [KeyedTable.find_insert, KeyedTable.find_insert, hE.defn a b hab]
  split
  · exact .some hab
  · exact h k

theorem Kin.foldl_getAccumulator : ∀ (os : List (Objective R)) {t t' : Accumulators R},
    Kin E t t' → Kin E (os.foldl getAccumulator t) (os.foldl getAccumulator t')
  | [], _, _, h => h
  | o :: os, _, _, h => Kin.foldl_getAccumulator os (h.insert hE (h.acquire hE o))

/-- An authorization leaves nothing but a cooldown. -/
theorem Kin.setCooldown (h : Kin E t t') (id : ObjectiveId) (stop : Duration) :
    Kin E (SloFabric.setCooldown t id stop) t' := by
  intro k
  have hk := h k
  rw [setCooldown_find]
  generalize t.find k = x at hk
  generalize t'.find k = y at hk
  split
  · cases hk with
    | none => exact .none
    | @some a b hab => exact .some (hE.rest a b stop b.cooldownUntil hab)
  · exact hk

end Tables

/-! ## 2. States -/

/-- States that have the same configuration, have judged as often and noted the same evidence,
    with related accumulators. -/
structure Peers (E : ObjectiveAccumulator R → ObjectiveAccumulator R → Prop) (s t : State R) :
    Prop where
  epoch : s.epoch = t.epoch
  policies : s.policies = t.policies
  contracts : s.contracts = t.contracts
  evaluationCounter : s.evaluationCounter = t.evaluationCounter
  globalEvidence : s.globalEvidence = t.globalEvidence
  globalEvidenceRing : s.globalEvidenceRing = t.globalEvidenceRing
  accumulators : Kin E s.accumulators t.accumulators

theorem Peers.symm {E : ObjectiveAccumulator R → ObjectiveAccumulator R → Prop} {s t : State R}
    (h : Peers E s t) : Peers (Function.swap E) t s where
  epoch := h.epoch.symm
  policies := h.policies.symm
  contracts := h.contracts.symm
  evaluationCounter := h.evaluationCounter.symm
  globalEvidence := h.globalEvidence.symm
  globalEvidenceRing := h.globalEvidenceRing.symm
  accumulators k := by
    have hk := h.accumulators k
    generalize s.accumulators.find k = a at hk
    generalize t.accumulators.find k = b at hk
    cases hk with
    | none => exact .none
    | some hab => exact .some hab

/-- Two answers to a call leave peers, and their statuses are the same. -/
def AnsweredAlike (E : ObjectiveAccumulator R → ObjectiveAccumulator R → Prop)
    (x y : State R × Status) : Prop := Peers E x.1 y.1 ∧ x.2 = y.2

section Operations

variable {E : ObjectiveAccumulator R → ObjectiveAccumulator R → Prop} {s t : State R}

theorem Peers.refl (hE : Kinship E) (s : State R) : Peers E s s :=
  ⟨rfl, rfl, rfl, rfl, rfl, rfl, .refl hE _⟩

theorem Peers.setPolicy (h : Peers E s t) (policy : SloPolicy) :
    AnsweredAlike E (SloFabric.setPolicy s policy) (SloFabric.setPolicy t policy) := by
  unfold SloFabric.setPolicy
  rw [← h.policies]
  split
  · split
    · exact ⟨h, rfl⟩
    · exact ⟨{ h with policies := rfl }, rfl⟩
  · exact ⟨{ h with policies := rfl }, rfl⟩

theorem Peers.replaceContract (h : Peers E s t) (c : SloContract R) :
    AnsweredAlike E (SloFabric.replaceContract s c) (SloFabric.replaceContract t c) := by
  unfold SloFabric.replaceContract
  rw [← h.contracts]
  split
  · split
    · exact ⟨h, rfl⟩
    · exact ⟨{ h with contracts := rfl }, rfl⟩
  · exact ⟨{ h with contracts := rfl }, rfl⟩

theorem Peers.addContract (h : Peers E s t) (c : SloContract R) :
    AnsweredAlike E (SloFabric.addContract s c) (SloFabric.addContract t c) := by
  unfold SloFabric.addContract
  split
  · exact ⟨h, rfl⟩
  · split
    · exact ⟨h, rfl⟩
    · exact h.replaceContract c

theorem Peers.updateContract (h : Peers E s t) (id : SloContractId)
    (f : SloContract R → SloContract R) :
    AnsweredAlike E (SloFabric.updateContract s id f) (SloFabric.updateContract t id f) := by
  unfold SloFabric.updateContract
  rw [← h.contracts]
  split
  · exact ⟨h, rfl⟩
  · exact ⟨{ h with contracts := rfl }, rfl⟩

theorem Peers.noteEvidence (h : Peers E s t) (id : EvidenceId) :
    AnsweredAlike E (SloFabric.noteEvidence s id) (SloFabric.noteEvidence t id) := by
  unfold SloFabric.noteEvidence
  rw [← h.globalEvidence, ← h.globalEvidenceRing]
  split
  · exact ⟨h, rfl⟩
  · split
    · exact ⟨h, rfl⟩
    · exact ⟨{ h with globalEvidence := rfl, globalEvidenceRing := rfl }, rfl⟩

section Uses

variable (hE : Kinship E)

include hE

/-- Two records that differ in their values, if related accumulators take them alike. -/
theorem Peers.ingest [Double R] (h : Peers E s t) {e e' : EvidenceRecord R} (now : Duration)
    (hsame : e' = { e with value := e'.value })
    (hoffer : ∀ o a b, definitionOf s.contracts e.objectiveId = some o → a.defn.id = o.id →
      E a b → E (offer o a e).1 (offer o b e').1 ∧ (offer o a e).2 = (offer o b e').2) :
    AnsweredAlike E (SloFabric.ingest s e now) (SloFabric.ingest t e' now) := by
  obtain ⟨hnoted, hst⟩ := h.noteEvidence e.id
  have hframe := noteEvidence_frame s e.id
  have hid : e'.id = e.id := congrArg (·.id) hsame
  have hepoch : e'.epoch = e.epoch := congrArg (·.epoch) hsame
  have hobj : e'.objectiveId = e.objectiveId := congrArg (·.objectiveId) hsame
  have hgen : e'.objectiveGen = e.objectiveGen := congrArg (·.objectiveGen) hsame
  unfold SloFabric.ingest
  rw [hid, hepoch, hobj, hgen]
  generalize SloFabric.noteEvidence s e.id = x at hnoted hst hframe
  generalize SloFabric.noteEvidence t e.id = y at hnoted hst
  obtain ⟨s₁, st⟩ := x
  obtain ⟨t₁, st'⟩ := y
  cases hst
  simp only at hnoted hframe ⊢
  have hcontracts : s₁.contracts = s.contracts := congrArg (·.contracts) hframe
  rw [← hnoted.epoch, ← hnoted.contracts]
  split
  · exact ⟨hnoted, rfl⟩
  · split
    · exact ⟨hnoted, rfl⟩
    · cases hd : definitionOf s₁.contracts e.objectiveId with
      | none => exact ⟨hnoted, rfl⟩
      | some o =>
        simp only
        split
        · exact ⟨hnoted, rfl⟩
        · obtain ⟨hacc, hstatus⟩ := hoffer o _ _ (hcontracts ▸ hd) (acquire_id _ o)
            (hnoted.accumulators.acquire hE o)
          have htable := hnoted.accumulators.insert hE hacc
          exact ⟨{ hnoted with epoch := rfl, contracts := rfl, accumulators := htable }, hstatus⟩

theorem Peers.recordRecoveryEvent (h : Peers E s t) (id : ObjectiveId)
    (phase : RecoveryEventPhase) (time : Duration) :
    AnsweredAlike E (SloFabric.recordRecoveryEvent s id phase time)
      (SloFabric.recordRecoveryEvent t id phase time) := by
  unfold SloFabric.recordRecoveryEvent
  rw [← h.contracts]
  cases definitionOf s.contracts id with
  | none => exact ⟨h, rfl⟩
  | some o =>
    have hacc := h.accumulators.insert hE
      (hE.recover _ _ phase time (h.accumulators.acquire hE o))
    exact ⟨{ h with contracts := rfl, accumulators := hacc }, rfl⟩

theorem Peers.setObjectiveBudget (h : Peers E s t) (id : ObjectiveId) (total : Count)
    (window : Duration) : AnsweredAlike E (SloFabric.setObjectiveBudget s id total window)
      (SloFabric.setObjectiveBudget t id total window) := by
  unfold SloFabric.setObjectiveBudget
  rw [← h.contracts]
  cases definitionOf s.contracts id with
  | none => exact ⟨h, rfl⟩
  | some o =>
    have hgot := h.accumulators.acquire hE o
    simp only
    split
    · exact ⟨{ h with contracts := rfl, accumulators := h.accumulators.insert hE hgot }, rfl⟩
    · have hacc := h.accumulators.insert hE (hE.fund _ _ true (ErrorBudget.make total window) hgot)
      exact ⟨{ h with contracts := rfl, accumulators := hacc }, rfl⟩

theorem Peers.ingestViolationEvent (h : Peers E s t) (id : ObjectiveId) (now : Duration) :
    AnsweredAlike E (SloFabric.ingestViolationEvent s id now)
      (SloFabric.ingestViolationEvent t id now) := by
  have hall := h.accumulators.foldl_getAccumulator hE (violationDefinitions s.contracts id)
  have hsame : violationDefinitions t.contracts id = violationDefinitions s.contracts id := by
    rw [h.contracts]
  unfold SloFabric.ingestViolationEvent
  simp only
  rw [hsame]
  generalize (violationDefinitions s.contracts id).foldl getAccumulator s.accumulators = ts at hall
  generalize (violationDefinitions s.contracts id).foldl getAccumulator t.accumulators = tt at hall
  have hfound := hall id
  have hvisited : Peers E { s with accumulators := ts } { t with accumulators := tt } :=
    { h with accumulators := hall }
  cases (violationDefinitions s.contracts id).getLast? with
  | none => exact ⟨hvisited, rfl⟩
  | some o =>
    generalize ts.find id = x at hfound
    generalize tt.find id = y at hfound
    cases hfound with
    | none => exact ⟨hvisited, rfl⟩
    | @some a b hab =>
      have hboth := hE.hasBudget a b hab
      simp only
      by_cases hb : (!a.hasBudget) = true
      · rw [if_pos hb, if_pos (by rw [hboth]; exact hb)]
        exact ⟨hvisited, rfl⟩
      · rw [if_neg hb, if_neg (by rw [hboth]; exact hb)]
        exact ⟨{ h with accumulators := hall.insert hE (hE.consume hab) }, rfl⟩

end Uses

/-! ## 3. Steps -/

/-- A step of a fabric that has no files. Its numbers need not be such that a file can have
    them. -/
def applyUnfiled [Double R] [Platform R] (s : State R) : Op R → Option (State R × Response R)
  | .setPolicy policy => answer (SloFabric.setPolicy s policy)
  | .addContract contract => answer (SloFabric.addContract s contract)
  | .supersedeContract replacement now => answer (supersedeContract s replacement now)
  | .activateContract id now => answer (activateContract s id now)
  | .suspendContract id now => answer (suspendContract s id now)
  | .expireContract id now => answer (expireContract s id now)
  | .retireContract id now => answer (retireContract s id now)
  | .ingest e now => answer (SloFabric.ingest s e now)
  | .recordRecoveryEvent id phase time => answer (SloFabric.recordRecoveryEvent s id phase time)
  | .ingestViolationEvent id now => answer (SloFabric.ingestViolationEvent s id now)
  | .setObjectiveBudget id total window => answer (SloFabric.setObjectiveBudget s id total window)
  | .evaluate service workload now =>
    (evaluate s service workload now).map fun x => (x.1, .evaluated x.2)
  | .authorize intent now =>
    some ((authorize s intent now).1, .authorized (authorize s intent now).2)
  | .dispatch => some (noteDispatch s, .dispatched)
  | .transition id dst now => answer (transition s id dst now)
  | .completeEnforcement id now => answer (completeEnforcement s id now)
  | .save _ | .load _ => none

/-- But for files, it is a step of the fabric. -/
theorem apply_unfiled [Pod R] [Double R] [Platform R] {s : State R} {op : Op R}
    {x : State R × Response R} (h : applyUnfiled s op = some x) : apply s op = some x := by
  cases op with
  | save | load => cases h
  | _ => exact h

section Unfiled

variable [Double R] [Platform R] (hE : Kinship E) {s' t' : State R} {op : Op R} {r : Response R}

include hE

/-- **Peers take a call alike** that brings no evidence, judges nothing and enforces nothing. -/
theorem Peers.settledUnfiled (h : Peers E s t) (hop : op.enforces = false)
    (hing : ∀ e now, op ≠ .ingest e now)
    (heval : ∀ service workload now, op ≠ .evaluate service workload now)
    (hs : applyUnfiled s op = some (s', r)) :
    ∃ t', applyUnfiled t op = some (t', r) ∧ Peers E s' t' := by
  have ofAnswered {x y : State R × Status} (hxy : AnsweredAlike E x y)
      (hx : answer x = some (s', r)) : ∃ t', answer y = some (t', r) ∧ Peers E s' t' := by
    cases hx
    exact ⟨y.1, by rw [hxy.2]; rfl, hxy.1⟩
  cases op with
  | setPolicy policy => exact ofAnswered (h.setPolicy policy) hs
  | addContract contract => exact ofAnswered (h.addContract contract) hs
  | supersedeContract replacement now => exact ofAnswered (h.replaceContract replacement) hs
  | activateContract id now => exact ofAnswered (h.updateContract id _) hs
  | suspendContract id now => exact ofAnswered (h.updateContract id _) hs
  | expireContract id now => exact ofAnswered (h.updateContract id _) hs
  | retireContract id now => exact ofAnswered (h.updateContract id _) hs
  | ingest e now => exact absurd rfl (hing e now)
  | recordRecoveryEvent id phase time =>
    exact ofAnswered (h.recordRecoveryEvent hE id phase time) hs
  | ingestViolationEvent id now => exact ofAnswered (h.ingestViolationEvent hE id now) hs
  | setObjectiveBudget id total window =>
    exact ofAnswered (h.setObjectiveBudget hE id total window) hs
  | load file => cases hs
  | evaluate service workload now => exact absurd rfl (heval service workload now)
  | authorize | dispatch | transition | completeEnforcement | save => cases hop

/-- **A call of enforcement leaves peers.** -/
theorem Peers.enforcedUnfiled (h : Peers E s t) (hop : op.enforces = true)
    (hs : applyUnfiled s op = some (s', r)) : Peers E s' t := by
  cases op with
  | authorize intent now =>
    cases hs
    rcases authorize_cases s intent now with ⟨_, h'⟩ | ⟨_, _, _, _, _, _, _, _, _, h'⟩
    · rw [h']
      exact h
    · rw [h']
      exact { h with accumulators := h.accumulators.setCooldown hE _ _ }
  | dispatch => cases hs; exact { h with }
  | transition => cases hs; exact { h with }
  | completeEnforcement => cases hs; exact { h with }
  | save => cases hs
  | _ => cases hop

/-- On the other side, too. -/
theorem Peers.enforcedBesideUnfiled (h : Peers E s t) (hop : op.enforces = true)
    (ht : applyUnfiled t op = some (t', r)) : Peers E s t' :=
  (h.symm.enforcedUnfiled hE.flip hop ht).symm

end Unfiled

section Filed

variable [Pod R] [Double R] [Platform R] (hE : Kinship E) {s' t' : State R} {op : Op R}
  {r : Response R}

include hE

/-- A file is loaded alike, too. -/
theorem Peers.settled (h : Peers E s t) (hop : op.enforces = false)
    (hing : ∀ e now, op ≠ .ingest e now)
    (heval : ∀ service workload now, op ≠ .evaluate service workload now)
    (hs : apply s op = some (s', r)) : ∃ t', apply t op = some (t', r) ∧ Peers E s' t' := by
  cases op with
  | load file =>
    have hload : AnsweredAlike E (load s file) (load t file) := by
      unfold load
      cases loadState R file with
      | error e => exact ⟨h, rfl⟩
      | ok st =>
        exact ⟨⟨rfl, rfl, rfl, h.evaluationCounter, h.globalEvidence, h.globalEvidenceRing,
          .refl hE _⟩, rfl⟩
    cases hs
    exact ⟨(load t file).1, by rw [hload.2]; rfl, hload.1⟩
  | save => cases hop
  | _ =>
    obtain ⟨t', ht, hpeers⟩ := h.settledUnfiled hE hop hing heval hs
    exact ⟨t', apply_unfiled ht, hpeers⟩

/-- To save changes nothing. -/
theorem Peers.enforced (h : Peers E s t) (hop : op.enforces = true)
    (hs : apply s op = some (s', r)) : Peers E s' t := by
  cases op with
  | save order =>
    simp only [apply, Option.ite_none_right_eq_some] at hs
    cases hs.2
    exact h
  | load => cases hop
  | _ => exact h.enforcedUnfiled hE hop hs

end Filed

end Operations

end SloFabric
