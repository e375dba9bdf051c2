/-
  File:      SloFabric/Exhaustion.lean
  Subject:   When an evaluation finds the budget of an objective exhausted, and what it says then.

  * `exhausted_iff`: a budget is exhausted as soon as it was charged with its total;
  * `Funded`: a budget has a total that is not negative; `funded_run`: in every run;
  * `turn_funds`: every turn of an evaluation looks at the budget the evaluation leaves behind;
  * `exhausted_run`: so an evaluation finds a budget exhausted if and only if its window was charged
    with its total, and then neither the objective nor the contract is Compliant.
-/
import SloFabric.Archive
import SloFabric.Decision
import SloFabric.Rollover

namespace SloFabric

variable {R : Type}

/-! ## 1. Budgets -/

/-- **Exhausted means charged with the total.** -/
theorem exhausted_iff [Double R] {b : ErrorBudget} (htotal : 0 ≤ b.total)
    (hconsumed : 0 ≤ b.consumed) :
    b.state R = .exhausted ↔ b.total.toInt ≤ b.consumed.toInt := by
  have htotal' : (0 : Int) ≤ b.total.toInt := Int64.le_iff_toInt_le.mp htotal
  have hconsumed' : (0 : Int) ≤ b.consumed.toInt := Int64.le_iff_toInt_le.mp hconsumed
  have hlt := b.total.toInt_lt
  have hlt' := b.consumed.toInt_lt
  have hsub : (b.total - b.consumed).toInt = b.total.toInt - b.consumed.toInt :=
    toInt_sub_of_range (by omega) (by omega)
  unfold ErrorBudget.state
  by_cases hzero : b.total = 0
  · rw [if_pos hzero, hzero, Int64.toInt_zero]
    exact iff_of_true rfl hconsumed'
  · rw [if_neg hzero]
    dsimp only
    have hrem : b.total - b.consumed ≤ 0 ↔ b.total.toInt ≤ b.consumed.toInt := by
      rw [Int64.le_iff_toInt_le, hsub, Int64.toInt_zero]
      omega
    by_cases hle : b.total - b.consumed ≤ 0
    · rw [if_pos hle]
      exact iff_of_true rfl (hrem.mp hle)
    · rw [if_neg hle]
      refine iff_of_false ?_ fun h => hle (hrem.mpr h)
      split <;> exact BudgetState.noConfusion

/-- The budget of `k` has no negative total. -/
def Funded (k : ObjectiveId) (s : State R) : Prop := 0 ≤ (fundsOf s.accumulators k).2.total

section Runs

variable [Pod R] [Double R] [Platform R]

/-- A budget is set to a total that is not negative, and keeps it. -/
theorem funded_step {k : ObjectiveId} {s s' : State R} {op : Op R} {r : Response R}
    (hi : Funded k s) (hload : ∀ file, op ≠ .load file) (h : apply s op = some (s', r)) :
    Funded k s' := by
  have ofTotal {b : ErrorBudget} {has : Bool} (h' : fundsOf s'.accumulators k = (has, b))
      (htotal : 0 ≤ b.total) : Funded k s' := by
    rw [Funded, h']
    exact htotal
  cases funds_step k h fun file hop => absurd hop (hload file) with
  | charged _ _ _ h' => exact ofTotal h' hi
  | @granted total window hop hgrant h' =>
    refine ofTotal h' ?_
    rw [hop, grants, Bool.and_eq_true] at hgrant
    rcases setObjectiveBudget_cases s k total window with
      ⟨_, _, hst⟩ | ⟨_, _, ⟨_, hst⟩ | ⟨htotal, _⟩⟩
    · rw [hst] at hgrant
      cases hgrant.2
    · rw [hst] at hgrant
      cases hgrant.2
    · exact htotal
  | rolled _ _ h' => exact ofTotal h' hi
  | kept _ _ _ h' => exact ofTotal h' hi

theorem funded_run {k : ObjectiveId} {tr : Trace R} {w : Watched (State R) Tally}
    (h : Run (watch apply (Tally.note k)) InOrder ⟨State.fresh R, {}⟩ tr w) :
    Funded k w.state :=
  h.invariant (I := fun w : Watched (State R) Tally => Funded k w.state) (Int64.le_refl 0)
    fun _ _ _ _ hi hc hstep => funded_step hi hc.noLoad (watch_cases hstep).1

end Runs

/-! ## 2. Turns -/

section Turns

variable [Double R] [Platform R] {s s' : State R} {service : ServiceId} {workload : WorkloadId}
  {now : Duration} {res : EvaluationResult R} {c : SloContract R} {o : Objective R} {i : Nat}

/-- **Every turn looks at the budget the evaluation leaves behind**, whatever was judged before. -/
theorem turn_funds (h : evaluate s service workload now = some (s', .ok res))
    (hc : selectContract s.contracts service workload now = some c)
    (ho : c.objectives[i]? = some o) :
    (rollBudget (judgedOn s c now i o) now).funds = fundsOf s'.accumulators o.id := by
  have hleft : s'.accumulators = accumulatorsAfter s.accumulators now c.objectives := by
    rcases evaluate_cases h with ⟨_, hst, _⟩ | ⟨c', _, _, _, _, hc', _, _, _, _, h'⟩
    · cases hst
    · rw [hc] at hc'
      cases hc'
      rw [h']
  have hjudged : c.objectives.any (·.id = o.id) = true :=
    List.any_eq_true.mpr ⟨o, List.mem_of_getElem? ho, decide_eq_true rfl⟩
  rw [rollBudget_funds, judgedOn, acquire_funds, hleft, fundsOf_evaluate, fundsOf_evaluate,
    if_pos hjudged]
  split
  · exact rollFunds_idem now _
  · rfl

omit [Platform R] in
/-- What an entry says of its budget, and of a verdict that an exhausted one spoils. -/
theorem entry_of_exhausted {t : Accumulators R} {b : ErrorBudget}
    (hb : (rollBudget (acquire t o) now).funds = (true, b)) :
    (evaluateObjective t o now).2.1.st.budgetState = some (b.state R) ∧
      (b.state R = .exhausted → verdict t o now ≠ .compliant) := by
  obtain ⟨has, hbudget⟩ := Prod.mk.inj hb
  constructor
  · unfold evaluateObjective
    simp only [has, hbudget, if_true]
    split <;> rfl
  · intro hexhausted
    unfold verdict
    simp only
    split
    · unfold unmeasuredState
      split <;> exact ComplianceState.noConfusion
    · unfold measuredState
      simp only [has, hbudget, hexhausted, Bool.true_and, beq_self_eq_true]
      split
      · exact ComplianceState.noConfusion
      · rename_i hne
        simpa using hne

/-- A contract is Compliant only if all its objectives are. -/
theorem compliant_entries (h : evaluate s service workload now = some (s', .ok res))
    (hcompliant : res.explanation.compliance = .compliant) :
    ∀ st ∈ res.explanation.objectives, st.state = .compliant := by
  rcases evaluate_cases h with ⟨_, hst, _⟩ | ⟨c', _, _, _, _, _, _, _, hov, hr, _⟩
  · cases hst
  · rw [Except.ok.injEq] at hr
    subst hr
    intro st hst
    obtain ⟨ev, hev, rfl⟩ := List.mem_map.mp hst
    obtain ⟨_, _, _, _, hstate, _, hsaid⟩ := mem_evaluateObjectives hev
    have hall : ∀ e ∈ (evaluateObjectives s.accumulators now c'.objectives).2.1,
        e.state = .compliant := by
      rcases overallOf_cases hov with ⟨_, hov⟩ | ⟨_, hov⟩ | ⟨_, _, _, _, _, hall⟩
      · rw [hov] at hcompliant
        cases hcompliant
      · rw [hov] at hcompliant
        cases hcompliant
      · exact hall hcompliant
    rw [hsaid, ← hstate]
    exact hall ev hev

end Turns

/-! ## 3. Runs -/

section Runs

variable [Pod R] [Double R] [Platform R]

/-- **An exhausted budget is no compliance.** In every run without load in which the clock does not
    go back, an evaluation finds the budget of an objective exhausted if and only if as many
    violations as its total were reported since its window began; then it reports neither the
    objective nor the contract as Compliant. -/
theorem exhausted_run {tr : Trace R} {o : Objective R} {w w' : Watched (State R) Tally}
    {service : ServiceId} {workload : WorkloadId} {now : Duration} {res : EvaluationResult R}
    {c : SloContract R} {i : Nat} {b : ErrorBudget}
    (h : Run (watch apply (Tally.note o.id)) InOrder ⟨State.fresh R, {}⟩ tr w)
    (hc : InOrder w (.evaluate service workload now))
    (hstep : watch apply (Tally.note o.id) w (.evaluate service workload now) =
      some (w', .evaluated (.ok res)))
    (hsel : selectContract w.state.contracts service workload now = some c)
    (ho : c.objectives[i]? = some o) (hb : fundsOf w'.state.accumulators o.id = (true, b)) :
    ∃ st, res.explanation.objectives[i]? = some st ∧
      (st.budgetState = some .exhausted ↔ b.total.toInt ≤ w'.seen.charged.length) ∧
      (b.total.toInt ≤ w'.seen.charged.length →
        st.state ≠ .compliant ∧ res.explanation.compliance ≠ .compliant) := by
  obtain ⟨happly, _⟩ := watch_cases hstep
  obtain ⟨⟨s', r⟩, heval, hr⟩ := Option.map_eq_some_iff.mp happly
  obtain ⟨hs', hr⟩ := Prod.mk.inj hr
  cases hr
  simp only at hs'
  subst hs'
  have htally := tally_step (tally_run h) hc hstep
  have hfunded := funded_step (funded_run h) hc.noLoad happly
  have hcount : b.consumed.toInt = min (2 ^ 63 - 1) w'.seen.charged.length := by
    rw [← htally.consumed, consumedOf, hb]
  have htotal : 0 ≤ b.total := by
    rw [Funded, hb] at hfunded
    exact hfunded
  have hconsumed : 0 ≤ b.consumed := by
    rw [Int64.le_iff_toInt_le, hcount, Int64.toInt_zero]
    omega
  have hspent : b.state R = .exhausted ↔ b.total.toInt ≤ w'.seen.charged.length := by
    have hlt := b.total.toInt_lt
    rw [exhausted_iff htotal hconsumed, hcount]
    omega
  have hturn := evaluate_turn heval hsel ho
  have hentry := entry_of_exhausted ((turn_funds heval hsel ho).trans hb)
  obtain ⟨_, _, _, _, hsaid⟩ :=
    evaluateObjective_spec (accumulatorsAfter w.state.accumulators now (c.objectives.take i)) o now
  refine ⟨_, hturn, ?_, fun hcharged => ?_⟩
  · rw [hentry.1, Option.some.injEq]
    exact hspent
  · have hstate := hentry.2 (hspent.mpr hcharged)
    rw [← hsaid] at hstate
    exact ⟨hstate, fun hcompliant =>
      hstate (compliant_entries heval hcompliant _ (List.mem_of_getElem? hturn))⟩

end Runs

/-- A fast service whose only violation is spent. -/
def spentService : List (Op Binary64) :=
  [.setPolicy smallPolicy, .addContract (smallContract 1 1 1 [smallObjective 1 1]),
    .ingest (smallEvidence 1 1 50000000) 0, .setObjectiveBudget ⟨1⟩ 1 10,
    .ingestViolationEvent ⟨1⟩ 4]

theorem exhausted_run_small :
    ∃ (tr : Trace Binary64) (w w' : Watched (State Binary64) Tally)
      (res : EvaluationResult Binary64) (st : ObjectiveState Binary64),
      Run (watch apply (Tally.note ⟨1⟩)) InOrder ⟨.fresh Binary64, {}⟩ tr w ∧
      watch apply (Tally.note ⟨1⟩) w (.evaluate ⟨1⟩ ⟨1⟩ 5) = some (w', .evaluated (.ok res)) ∧
      res.explanation.objectives[0]? = some st ∧ st.budgetState = some .exhausted ∧
      st.state ≠ .compliant ∧ res.explanation.compliance ≠ .compliant := by
  have htest : (execute (watch apply (Tally.note ⟨1⟩)) inOrderTest
      ⟨State.fresh Binary64, {}⟩ spentService).any
      (fun x => inOrderTest x.1 (.evaluate ⟨1⟩ ⟨1⟩ 5) &&
        (selectContract x.1.state.contracts ⟨1⟩ ⟨1⟩ 5).any (fun c =>
          decide (c.objectives[0]? = some (smallObjective 1 1))) &&
        (watch apply (Tally.note ⟨1⟩) x.1 (.evaluate ⟨1⟩ ⟨1⟩ 5)).any fun y =>
          y.2.report.isSome && decide (y.1.seen.charged = [4]) &&
            decide (fundsOf y.1.state.accumulators ⟨1⟩ =
              (true, { ErrorBudget.make 1 10 with consumed := 1 }))) = true := by
    decide +kernel
  obtain ⟨w, tr, hrun, hlast⟩ := Run.of_test (fun _ _ => inOrder_of_test) htest
  simp only [Bool.and_eq_true] at hlast
  obtain ⟨⟨hc, hsel⟩, hlast⟩ := hlast
  obtain ⟨c, hsel, ho⟩ := (Option.any_eq_true _ _).mp hsel
  obtain ⟨⟨w', r⟩, hstep, hw'⟩ := (Option.any_eq_true _ _).mp hlast
  simp only [Bool.and_eq_true, decide_eq_true_eq] at hw'
  obtain ⟨⟨hreport, hcharged⟩, hb⟩ := hw'
  obtain ⟨res, rfl⟩ : ∃ res, r = .evaluated (.ok res) := by
    unfold Response.report at hreport
    split at hreport
    · exact ⟨_, rfl⟩
    · cases hreport
  obtain ⟨st, hst, hiff, hspoils⟩ := exhausted_run (o := smallObjective 1 1) hrun
    (inOrder_of_test hc) hstep hsel (of_decide_eq_true ho) hb
  have hspent : (({ ErrorBudget.make 1 10 with consumed := 1 } : ErrorBudget).total).toInt ≤
      w'.seen.charged.length := by
    rw [hcharged]
    decide
  exact ⟨tr, w, w', res, st, hrun, hstep, hst, hiff.mpr hspent, hspoils hspent⟩

end SloFabric
