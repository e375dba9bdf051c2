/-
  File:      SloFabric/Ledger.lean
  Subject:   The budget of an objective over a run, and over the calls of many threads.

  * `fundsOf`: whether an objective has a budget, and which; getting its accumulator changes
    neither (`fundsOf_getAccumulator`), whatever generation is asked for;
  * `charges`, `grants`, `rolls`: the steps that do change it, and `FundsStep`, `funds_step`: what
    a step does to it;
  * `Undisturbed`: the step neither sets the budget nor begins a new window nor loads a state;
  * `consumed_run`: a run of such steps consumes what it charges;
  * `consumed_interleaved`: over any interleaving, what its threads charge.
-/
import SloFabric.Accounts
import SloFabric.Library.Interleaving

namespace SloFabric

variable {R : Type}

/-! ## 1. The budget of an objective -/

/-- Has the objective a budget, and which? -/
def ObjectiveAccumulator.funds (a : ObjectiveAccumulator R) : Bool × ErrorBudget :=
  (a.hasBudget, a.budget)

/-- The budget stored for an objective: one without an accumulator has none. -/
def fundsOf (t : Accumulators R) (k : ObjectiveId) : Bool × ErrorBudget :=
  ((t.find k).map (·.funds)).getD (false, .make 0 0)

theorem fundsOf_insert (t : Accumulators R) (a : ObjectiveAccumulator R) (k : ObjectiveId) :
    fundsOf (t.insert a) k = if k = a.defn.id then a.funds else fundsOf t k := by
  unfold fundsOf
  rw [KeyedTable.find_insert]
  split <;> rfl

/-- **The budget survives `get_accumulator`**, whatever definition it is handed. -/
@[simp] theorem acquire_funds (t : Accumulators R) (o : Objective R) :
    (acquire t o).funds = fundsOf t o.id := by
  unfold fundsOf
  rcases acquire_cases t o with ⟨hn, h⟩ | ⟨a, ha, _, h⟩ | ⟨a, ha, _, h⟩
  · rw [hn, h]; rfl
  · rw [ha, h]; rfl
  · rw [ha, h]; rfl

/-- An accumulator is stored whose budget is the one stored before. -/
theorem fundsOf_store {t : Accumulators R} {a : ObjectiveAccumulator R}
    (h : a.funds = fundsOf t a.defn.id) (k : ObjectiveId) :
    fundsOf (t.insert a) k = fundsOf t k := by
  rw [fundsOf_insert]
  split
  · rename_i hk
    rw [hk, h]
  · rfl

theorem fundsOf_getAccumulator (t : Accumulators R) (o : Objective R) (k : ObjectiveId) :
    fundsOf (getAccumulator t o) k = fundsOf t k :=
  fundsOf_store (by rw [acquire_funds, acquire_id]) k

theorem fundsOf_foldl (k : ObjectiveId) : ∀ (os : List (Objective R)) (t : Accumulators R),
    fundsOf (os.foldl getAccumulator t) k = fundsOf t k
  | [], _ => rfl
  | o :: os, t => by
      rw [List.foldl_cons, fundsOf_foldl k os, fundsOf_getAccumulator]

theorem fundsOf_setCooldown (t : Accumulators R) (id : ObjectiveId) (stop : Duration)
    (k : ObjectiveId) : fundsOf (setCooldown t id stop) k = fundsOf t k := by
  unfold fundsOf
  rw [setCooldown_find]
  split
  · cases t.find k <;> rfl
  · rfl

/-! ## 2. Windows -/

/-- What an evaluation at `now` makes of a budget. -/
def rollFunds (now : Duration) (f : Bool × ErrorBudget) : Bool × ErrorBudget :=
  if f.1 && f.2.windowRolled now then (f.1, f.2.resetWindow now) else f

theorem rollBudget_funds (a : ObjectiveAccumulator R) (now : Duration) :
    (rollBudget a now).funds = rollFunds now a.funds := by
  unfold rollBudget rollFunds ObjectiveAccumulator.funds
  dsimp only
  split <;> rfl

/-- A window that begins now has not ended. -/
theorem windowRolled_resetWindow (b : ErrorBudget) (now : Duration) :
    (b.resetWindow now).windowRolled now = false := by
  unfold ErrorBudget.windowRolled ErrorBudget.resetWindow
  split
  · rfl
  · rename_i hpos
    simpa using hpos

theorem rollFunds_idem (now : Duration) (f : Bool × ErrorBudget) :
    rollFunds now (rollFunds now f) = rollFunds now f := by
  have hrest : ∀ b : Bool, (b && (f.2.resetWindow now).windowRolled now) = false := fun b => by
    rw [windowRolled_resetWindow, Bool.and_false]
  unfold rollFunds
  split
  · exact if_neg (by rw [hrest]; exact Bool.false_ne_true)
  · rfl

section Evaluate

variable [Double R]

theorem fundsOf_judged (t : Accumulators R) (o : Objective R) (now : Duration) (k : ObjectiveId) :
    fundsOf (t.insert (judged t o now)) k =
      if o.id = k then rollFunds now (fundsOf t k) else fundsOf t k := by
  have hid : (judged t o now).defn.id = o.id := by
    rw [judged, setLastState_defn, rollBudget_defn, acquire_id]
  have hfunds : (judged t o now).funds = rollFunds now (fundsOf t o.id) := by
    rw [← acquire_funds, ← rollBudget_funds]
    rfl
  rw [fundsOf_insert, hid]
  by_cases hk : o.id = k
  · rw [if_pos hk.symm, if_pos hk, hfunds, hk]
  · rw [if_neg (Ne.symm hk), if_neg hk]

/-- An evaluation rolls the window of every objective it judges, once. -/
theorem fundsOf_evaluate (now : Duration) (k : ObjectiveId) :
    ∀ (os : List (Objective R)) (t : Accumulators R),
    fundsOf (accumulatorsAfter t now os) k =
      if os.any (·.id = k) then rollFunds now (fundsOf t k) else fundsOf t k
  | [], _ => rfl
  | o :: os, t => by
      show fundsOf (accumulatorsAfter (t.insert (judged t o now)) now os) k = _
      rw [fundsOf_evaluate now k os, fundsOf_judged, List.any_cons]
      by_cases hk : o.id = k
      · simp only [hk, decide_true, Bool.true_or, if_true, rollFunds_idem, ite_self]
      · simp only [hk, decide_false, Bool.false_or, if_false]

end Evaluate

/-! ## 3. Steps -/

/-- A call of `ingest_violation_event` for `k` that was answered `ok`. -/
def charges (k : ObjectiveId) : Op R × Response R → Bool
  | (.ingestViolationEvent id _, .status st) => decide (id = k) && st.isOk
  | _ => false

/-- The call sets the budget of `k`. -/
def grants (k : ObjectiveId) (s : State R) : Op R → Bool
  | .setObjectiveBudget id total window =>
    decide (id = k) && (setObjectiveBudget s id total window).2.isOk
  | _ => false

/-- The call begins a new window of the budget of `k`. -/
def rolls (k : ObjectiveId) (s : State R) : Op R → Bool
  | .evaluate service workload now =>
    (acquires s (.evaluate service workload now)).any (·.id = k) &&
      ((fundsOf s.accumulators k).1 && (fundsOf s.accumulators k).2.windowRolled now)
  | _ => false

/-- **What a step does to the budget of `k`.** -/
inductive FundsStep (k : ObjectiveId) (s s' : State R) (op : Op R) (r : Response R) : Prop where
  | charged {now : Duration} (hop : op = .ingestViolationEvent k now) (hr : r = .status ok)
      (has : (fundsOf s.accumulators k).1 = true)
      (h : fundsOf s'.accumulators k = (true, (fundsOf s.accumulators k).2.consume))
  | granted {total : Count} {window : Duration} (hop : op = .setObjectiveBudget k total window)
      (hgrant : grants k s op = true)
      (h : fundsOf s'.accumulators k = (true, .make total window))
  | rolled {service : ServiceId} {workload : WorkloadId} {now : Duration}
      (hop : op = .evaluate service workload now) (hroll : rolls k s op = true)
      (h : fundsOf s'.accumulators k = (true, (fundsOf s.accumulators k).2.resetWindow now))
  | kept (hcharge : charges k (op, r) = false) (hgrant : grants k s op = false)
      (hroll : rolls k s op = false)
      (h : fundsOf s'.accumulators k = fundsOf s.accumulators k)

theorem funds_violation (k : ObjectiveId) (s : State R) (id : ObjectiveId) (now : Duration) :
    FundsStep k s (ingestViolationEvent s id now).1 (.ingestViolationEvent id now)
      (.status (ingestViolationEvent s id now).2) := by
  have hfold (k) := fundsOf_foldl k (violationDefinitions s.contracts id) s.accumulators
  rcases ingestViolationEvent_cases s id now with ⟨st, hst, h⟩ | ⟨_, acc, _, hacc, has, h⟩
  · rw [h]
    exact .kept (by rw [charges, hst, Bool.and_false]) rfl rfl (hfold k)
  · have hkey := KeyedTable.find_key hacc
    have hfunds : acc.funds = fundsOf s.accumulators id := by
      rw [← hfold, fundsOf, hacc]
      rfl
    rw [h]
    by_cases hk : id = k
    · subst hk
      have hhas : (fundsOf s.accumulators id).1 = true := by
        rw [← hfunds]
        exact has
      refine .charged rfl rfl hhas ?_
      show fundsOf (KeyedTable.insert _ _) id = _
      rw [fundsOf_insert, if_pos hkey.symm, ← hfunds]
      exact Prod.ext has rfl
    · refine .kept (by rw [charges, decide_eq_false hk, Bool.false_and]) rfl rfl ?_
      show fundsOf (KeyedTable.insert _ _) k = _
      rw [fundsOf_insert, if_neg (fun h => hk (h.trans hkey).symm), hfold]

theorem funds_grant (k : ObjectiveId) (s : State R) (id : ObjectiveId) (total : Count)
    (window : Duration) :
    FundsStep k s (setObjectiveBudget s id total window).1 (.setObjectiveBudget id total window)
      (.status (setObjectiveBudget s id total window).2) := by
  rcases setObjectiveBudget_cases s id total window with
    ⟨_, h, hst⟩ | ⟨o, hd, ⟨h, hst⟩ | ⟨_, h, hst⟩⟩
  · rw [h]
    exact .kept rfl (by rw [grants, hst, Bool.and_false]) rfl rfl
  · rw [h]
    exact .kept rfl (by rw [grants, hst, Bool.and_false]) rfl
      (fundsOf_getAccumulator s.accumulators o k)
  · have hfind := fundsOf_insert s.accumulators { acquire s.accumulators o with
      hasBudget := true, budget := ErrorBudget.make total window } k
    rw [acquire_id, (definitionOf_some hd).1] at hfind
    rw [h]
    by_cases hk : id = k
    · exact .granted (by rw [hk]) (by rw [grants, hst, decide_eq_true hk]; rfl)
        (hfind.trans (if_pos hk.symm))
    · exact .kept rfl (by rw [grants, decide_eq_false hk]; rfl) rfl
        (hfind.trans (if_neg (Ne.symm hk)))

section Steps

variable [Double R] [Platform R]

theorem funds_evaluate (k : ObjectiveId) {s s' : State R} {service : ServiceId}
    {workload : WorkloadId} {now : Duration} {r : Except Status (EvaluationResult R)}
    (h : evaluate s service workload now = some (s', r)) :
    FundsStep k s s' (.evaluate service workload now) (.evaluated r) := by
  have hafter : fundsOf s'.accumulators k =
      if (acquires s (.evaluate service workload now)).any (·.id = k) then
        rollFunds now (fundsOf s.accumulators k) else fundsOf s.accumulators k := by
    rw [acquires]
    rcases evaluate_judged h with ⟨hc, h'⟩ | ⟨c, hc, h'⟩
    · rw [hc, h']
      rfl
    · rw [hc, h', fundsOf_evaluate]
      rfl
  cases hroll : rolls k s (.evaluate service workload now) with
  | true =>
    obtain ⟨hjudged, hends⟩ := Bool.and_eq_true_iff.mp hroll
    rw [if_pos hjudged, rollFunds, if_pos hends, (Bool.and_eq_true_iff.mp hends).1] at hafter
    exact .rolled rfl hroll hafter
  | false =>
    refine .kept rfl rfl hroll ?_
    rcases Bool.and_eq_false_iff.mp hroll with hno | hno
    · rw [hafter, if_neg (by rw [hno]; exact Bool.false_ne_true)]
    · have hopen : rollFunds now (fundsOf s.accumulators k) = fundsOf s.accumulators k := by
        rw [rollFunds, hno]
        rfl
      rw [hafter, hopen, ite_self]

/-- **The step lemma**: only the three kinds of steps, and a load, change a budget. -/
theorem funds_step [Pod R] (k : ObjectiveId) {s s' : State R} {op : Op R} {r : Response R}
    (h : apply s op = some (s', r))
    (hload : ∀ file, op = .load file → ∃ st, loadState R file = .error st) :
    FundsStep k s s' op r := by
  cases frame_cases h with
  | policies h' | dispatched h' | saved h' | failed _ h' => rw [h']; exact .kept rfl rfl rfl rfl
  | @contracts _ st hop h' =>
    have hfree : charges k (op, .status st) = false ∧ grants k s op = false ∧
        rolls k s op = false := by
      cases op with
      | addContract | supersedeContract | activateContract | suspendContract | expireContract
      | retireContract => exact ⟨rfl, rfl, rfl⟩
      | _ => cases hop
    rw [h']
    exact .kept hfree.1 hfree.2.1 hfree.2.2 rfl
  | @ingested e now =>
    cases h
    refine .kept rfl rfl rfl ?_
    rcases ingest_offered s e now with ⟨_, h', _⟩ | ⟨o, _, h', _⟩
    · rw [h']
    · have hsame := offer_conduct o (acquire s.accumulators o) e
      rw [h']
      refine fundsOf_store ?_ k
      rw [hsame.defn, acquire_id, ← acquire_funds]
      exact Prod.ext hsame.hasBudget hsame.budget
  | objectives hop =>
    cases op with
    | recordRecoveryEvent id phase time =>
      cases h
      refine .kept rfl rfl rfl ?_
      rcases recordRecoveryEvent_cases s id phase time with ⟨_, h'⟩ | ⟨o, _, h'⟩
      · rw [h']
      · have hsame : (acquire s.accumulators o).funds =
            fundsOf s.accumulators (acquire s.accumulators o).defn.id := by
          rw [acquire_funds, acquire_id]
        rw [h']
        refine fundsOf_store ?_ k
        exact hsame
    | ingestViolationEvent id now => cases h; exact funds_violation k s id now
    | setObjectiveBudget id total window => cases h; exact funds_grant k s id total window
    | _ => cases hop
  | evaluated hx => exact funds_evaluate k hx
  | @authorized intent now x hx =>
    refine .kept rfl rfl rfl ?_
    rcases authorize_cases s intent now with ⟨_, h'⟩ | ⟨_, _, _, _, _, _, _, _, _, h'⟩
    · cases hx.symm.trans h'; rfl
    · cases hx.symm.trans h'; exact fundsOf_setCooldown _ _ _ k
  | transition hx | completed hx => cases hx; exact .kept rfl rfl rfl rfl
  | loaded hst =>
    obtain ⟨st, he⟩ := hload _ rfl
    rw [hst] at he
    cases he

/-! ## 4. Runs -/

/-- The count consumed of the budget of an objective. -/
def consumedOf (s : State R) (k : ObjectiveId) : Count := (fundsOf s.accumulators k).2.consumed

/-- The step begins no new window of the budget of `k`, does not set the budget and loads no
    state. -/
structure Undisturbed [Pod R] (k : ObjectiveId) (s : State R) (op : Op R) : Prop where
  noRoll : rolls k s op = false
  noGrant : grants k s op = false
  noLoad : ∀ file, op = .load file → ∃ st, loadState R file = .error st

/-- **A run without disturbance consumes what it charges**, up to the largest count. -/
theorem consumed_run [Pod R] {k : ObjectiveId} {s₀ s : State R} {tr : Trace R}
    (h : Run apply (Undisturbed k) s₀ tr s) :
    (consumedOf s k).toInt =
      min (2 ^ 63 - 1) ((consumedOf s₀ k).toInt + tr.countP (charges k)) := by
  have hmax (c : Count) : c.toInt ≤ 2 ^ 63 - 1 := by
    have := c.toInt_lt
    omega
  refine h.history (I := fun tr s => (consumedOf s k).toInt =
    min (2 ^ 63 - 1) ((consumedOf s₀ k).toInt + tr.countP (charges k))) ?_ ?_
  · have := hmax (consumedOf s₀ k)
    rw [List.countP_nil]
    omega
  · intro tr s op s' r hi hc hstep
    rw [List.countP_append, List.countP_singleton]
    cases funds_step k hstep hc.noLoad with
    | @charged now hop hr has h' =>
      have hone : charges k (op, r) = true := by
        rw [hop, hr, charges, decide_eq_true rfl]
        rfl
      have hbump : (consumedOf s' k).toInt =
          min (2 ^ 63 - 1) ((consumedOf s k).toInt + 1) := by
        rw [consumedOf, h']
        exact ErrorBudget.consume_toInt (fundsOf s.accumulators k).2
      rw [hbump, hi, if_pos hone]
      omega
    | granted _ hgrant _ => rw [hc.noGrant] at hgrant; cases hgrant
    | rolled _ hroll _ => rw [hc.noRoll] at hroll; cases hroll
    | kept hcharge _ _ h' =>
      have hsame : consumedOf s' k = consumedOf s k := by rw [consumedOf, h', consumedOf]
      rw [hsame, hi, hcharge]
      simp

/-- **No update of a budget is lost under concurrency.** Let any number of threads call the fabric
    in any order, from any state. If no evaluation begins a new window of the budget of an
    objective and no call sets it or loads a state, the count consumed at the end is the one at
    the start and the calls of `ingest_violation_event` for it that the threads saw succeed. -/
theorem consumed_interleaved [Pod R] {k : ObjectiveId} {s₀ s : State R} {ts : List (Trace R)}
    {tr : Trace R} (hcalls : Interleaving ts tr) (h : Run apply (Undisturbed k) s₀ tr s) :
    (consumedOf s k).toInt =
      min (2 ^ 63 - 1)
        ((consumedOf s₀ k).toInt + ((ts.map (List.countP (charges k))).sum : Nat)) := by
  rw [← hcalls.countP]
  exact consumed_run h

end Steps

/-- `Undisturbed`, as a test. -/
def undisturbedTest (k : ObjectiveId) (s : State Binary64) (op : Op Binary64) : Bool :=
  !op.isLoad && (!rolls k s op && !grants k s op)

theorem undisturbed_of_test {k : ObjectiveId} {s : State Binary64} {op : Op Binary64}
    (h : undisturbedTest k s op = true) : Undisturbed k s op := by
  obtain ⟨hload, h⟩ := Bool.and_eq_true_iff.mp h
  obtain ⟨hroll, hgrant⟩ := Bool.and_eq_true_iff.mp h
  exact ⟨by simpa using hroll, by simpa using hgrant,
    fun file hop => absurd hop (not_load hload file)⟩

/-- Objective `1` with a budget, in two contracts that define it at generations `1` and `2`. -/
def twoGenerations : List (Op Binary64) :=
  [.setPolicy smallPolicy, .addContract (smallContract 1 1 1 [smallObjective 1 1]),
    .addContract (smallContract 2 1 2 [smallObjective 1 2]), .setObjectiveBudget ⟨1⟩ 10 10]

/-- One thread reports two violations, the other one has the older contract judged between
    them. -/
theorem consumed_interleaved_small :
    ∃ (a b c : Op Binary64 × Response Binary64) (s : State Binary64),
      Run apply (Undisturbed ⟨1⟩) (after twoGenerations) [a, b, c] s ∧
      Interleaving [[a, c], [b]] [a, b, c] ∧ (consumedOf s ⟨1⟩).toInt = 2 := by
  have htest : (execute apply (undisturbedTest ⟨1⟩) (after twoGenerations)
      [.ingestViolationEvent ⟨1⟩ 3, .evaluate ⟨1⟩ ⟨1⟩ 4, .ingestViolationEvent ⟨1⟩ 5]).any
      (fun x => x.2.length = 3 && (x.2.countP (charges ⟨1⟩) = 2 &&
        consumedOf (after twoGenerations) ⟨1⟩ = 0)) = true := by
    decide +kernel
  obtain ⟨s, tr, hrun, htr⟩ := Run.of_test (fun _ _ => undisturbed_of_test) htest
  simp only [Bool.and_eq_true, decide_eq_true_eq] at htr
  obtain ⟨hlen, hcount, hstart⟩ := htr
  obtain ⟨a, b, c, rfl⟩ := List.length_eq_three.mp hlen
  have hcalls : Interleaving [[a, c], [b]] [a, b, c] :=
    @Interleaving.call _ [] [[b]] a [c] _ (@Interleaving.call _ [[c]] [] b [] _
      (@Interleaving.call _ [] [[]] c [] _ (.done (by simp))))
  refine ⟨a, b, c, s, hrun, hcalls, ?_⟩
  rw [consumed_interleaved hcalls hrun, ← hcalls.countP, hcount, hstart]
  rfl

end SloFabric
