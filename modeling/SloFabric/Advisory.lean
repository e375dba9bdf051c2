/-
  File:      SloFabric/Advisory.lean
  Subject:   Which enforcement classes gain an authorization.

  * `Enforceable`: the objective an intent names is Authorized or Mandatory in a contract;
  * `noteGrant`: an observer that notes every successful `authorize` with the contract it matched;
    `ClassKept`: all of them were for such objectives;
  * `enforcement_class_iff`: that holds along a run exactly if no call passes the checks there are
    with an intent for another objective -- the class is not among what is checked;
  * `enforcement_class_fails`: the intent an evaluation makes for an Advisory objective.
-/
import SloFabric.Authority

namespace SloFabric

variable {R : Type}

/-! ## 1. Classes -/

/-- May a request of this class be authorized? An Advisory one is a suggestion only. -/
def EnforcementClass.authorizes : EnforcementClass → Bool
  | .none | .advisory => false
  | .authorized | .mandatory => true

/-- The objective the intent names is of such a class in the contract. -/
def Enforceable (c : SloContract R) (intent : EnforcementIntent) : Prop :=
  ∀ o ∈ c.objectives, o.id = intent.objectiveId → o.enforcement.authorizes = true

instance (c : SloContract R) (intent : EnforcementIntent) : Decidable (Enforceable c intent) :=
  inferInstanceAs (Decidable (∀ o ∈ c.objectives, _))

/-! ## 2. Grants -/

/-- An authorization that was granted, with the contract it was checked against. -/
structure Grant (R : Type) where
  contract : SloContract R
  intent : EnforcementIntent

/-- What a step grants. -/
def grantOf (s : State R) : Op R × Response R → Option (Grant R)
  | (.authorize intent _, .authorized (.ok _)) =>
    (intentContract s.contracts intent).map fun c => ⟨c, intent⟩
  | _ => none

/-- The observer of the grants. -/
def noteGrant (s : State R) (granted : List (Grant R)) (x : Op R × Response R) :
    List (Grant R) := granted ++ (grantOf s x).toList

/-- A run with its grants. -/
abbrev Granting (R : Type) := Watched (State R) (List (Grant R))

/-- **Every grant is for an objective of a class that may be authorized.** -/
def ClassKept (w : Granting R) : Prop := ∀ g ∈ w.seen, Enforceable g.contract g.intent

/-- A call of `authorize` passes the checks there are only with such an intent. -/
def Enforcing (w : Granting R) : Op R → Prop
  | .authorize intent now => ∀ c, Checked w.state intent now c → Enforceable c intent
  | _ => True

/-- What a call of `authorize` grants: the contract of its checks, if they pass. -/
theorem grantOf_authorize {s s' : State R} {intent : EnforcementIntent} {now : Duration}
    {r : Except Status EnforcementReceipt} (h : authorize s intent now = (s', r))
    {g : Grant R} :
    grantOf s (.authorize intent now, .authorized r) = some g ↔
      Checked s intent now g.contract ∧ g.intent = intent := by
  have hok : (∃ rc, r = .ok rc) ↔ ∃ c, Checked s intent now c := by
    rw [← authorize_ok_iff]
    constructor
    · rintro ⟨rc, rfl⟩
      exact ⟨s', rc, h⟩
    · rintro ⟨s'', rc, h'⟩
      rw [h] at h'
      cases h'
      exact ⟨rc, rfl⟩
  constructor
  · intro hg
    cases r with
    | error st => cases hg
    | ok rc =>
      obtain ⟨c, hc⟩ := hok.mp ⟨rc, rfl⟩
      rw [grantOf, hc.found] at hg
      cases hg
      exact ⟨hc, rfl⟩
  · rintro ⟨hc, hi⟩
    obtain ⟨rc, rfl⟩ := hok.mpr ⟨_, hc⟩
    rw [grantOf, hc.found]
    cases g
    cases hi
    rfl

variable [Pod R] [Double R] [Platform R]

/-- **The step lemma**: a step keeps the classes exactly if it meets the condition. -/
theorem enforcing_step {w w' : Granting R} {op : Op R} {r : Response R} (hw : ClassKept w)
    (h : watch apply noteGrant w op = some (w', r)) : ClassKept w' ↔ Enforcing w op := by
  obtain ⟨hstep, hseen⟩ := watch_cases h
  have hkept : ClassKept w' ↔
      ∀ g, grantOf w.state (op, r) = some g → Enforceable g.contract g.intent := by
    unfold ClassKept
    rw [hseen, noteGrant]
    constructor
    · exact fun hall g hg => hall g (List.mem_append_right _ (Option.mem_toList.mpr hg))
    · intro hnew g hg
      rcases List.mem_append.mp hg with hg | hg
      · exact hw g hg
      · exact hnew g (Option.mem_toList.mp hg)
  rw [hkept]
  cases op with
  | authorize intent now =>
    obtain ⟨_, hr⟩ := Prod.mk.inj (Option.some.inj hstep)
    subst hr
    constructor
    · exact fun hall c hc => hall ⟨c, intent⟩ ((grantOf_authorize rfl).mpr ⟨hc, rfl⟩)
    · intro hall g hg
      obtain ⟨hc, hi⟩ := (grantOf_authorize rfl).mp hg
      rw [hi]
      exact hall _ hc
  | _ => exact iff_of_true (fun g hg => by cases hg) trivial

/-- **When no objective gains an authority its class does not give.** The runs along which every
    grant so far is for an Authorized or Mandatory objective of the contract it was checked against
    are those in which no call of `authorize` passes its checks -- epoch, action, contract
    generation, lifecycle, policy -- with an intent that names a None or Advisory one there. -/
theorem enforcement_class_iff {w : Granting R} {tr : Trace R} :
    Run (watch apply noteGrant) Enforcing ⟨State.fresh R, []⟩ tr w ↔
      Run (watch apply noteGrant) (fun w _ => ClassKept w) ⟨State.fresh R, []⟩ tr w ∧
        ClassKept w :=
  Run.kept_iff (fun _ hg => absurd hg List.not_mem_nil) fun _ _ _ _ hw hstep =>
    enforcing_step hw hstep

/-! ## 3. An Advisory objective -/

/-- A violated latency objective of a class, and the intent of its evaluation. -/
def classReported (cls : EnforcementClass) : List (Op Binary64) :=
  [.setPolicy smallPolicy,
    .addContract (smallContract 1 1 1 [{ smallObjective 1 1 with enforcement := cls }]),
    .ingest (smallEvidence 1 1 200000000) 0, .evaluate ⟨1⟩ ⟨1⟩ 0]

def intentReported (cls : EnforcementClass) : Option EnforcementIntent :=
  (reported (evaluate (after ((classReported cls).take 3)) ⟨1⟩ ⟨1⟩ 0)).map (·.2.intent)

/-- **The intent of an Advisory objective is authorized.** -/
theorem enforcement_class_fails :
    ¬∀ (w : Granting Binary64) (tr : Trace Binary64),
      Run (watch apply noteGrant) (fun _ _ => True) ⟨State.fresh Binary64, []⟩ tr w →
      ClassKept w := by
  intro hall
  have htest : (intentReported .advisory).any (fun intent =>
      (execute (watch apply noteGrant) (fun _ _ => true) ⟨State.fresh Binary64, []⟩
        (classReported .advisory ++ [.authorize intent 0])).any
        fun x => x.1.seen.any fun g => decide (¬Enforceable g.contract g.intent)) = true := by
    decide +kernel
  obtain ⟨intent, _, htest⟩ := (Option.any_eq_true _ _).mp htest
  obtain ⟨w, tr, hrun, hbad⟩ := Run.of_test (fun _ _ _ => trivial) htest
  obtain ⟨g, hg, hno⟩ := List.any_eq_true.mp hbad
  exact of_decide_eq_true hno (hall w tr hrun g hg)

end SloFabric
