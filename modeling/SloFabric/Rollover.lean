/-
  File:      SloFabric/Rollover.lean
  Subject:   Which violations the current window of a budget is charged with.

  `ingest_violation_event` discards the time of the event; the window is begun anew by the first
  evaluation of the objective that finds it ended, at the time of that evaluation.

  * `eventsOf`: the times of the successful reports of a trace;
  * `Tally`: an observer that keeps these times apart -- those before the budget was last set, those
    since then but before the window began, and those since then;
  * `TallyInv`, `tally_step`: the budget counts the last ones, and they lie in the window;
  * `budget_window_run`: what an evaluation finds in any run in which the clock does not go back;
  * `budget_window_fails`: counted by their time, other reports lie in the window, too.
-/
import SloFabric.Ledger

namespace SloFabric

variable {R : Type}

/-! ## 1. Reports and their times -/

/-- The clock value an event or an evaluation comes with. -/
def Op.clock : Op R → Option Duration
  | .ingestViolationEvent _ now | .evaluate _ _ now => some now
  | _ => none

/-- The time of a successful report of a violation of `k`. -/
def eventTime (k : ObjectiveId) (x : Op R × Response R) : Option Duration :=
  if charges k x then x.1.clock else none

def eventsOf (k : ObjectiveId) (tr : Trace R) : List Duration := tr.filterMap (eventTime k)

theorem eventsOf_append (k : ObjectiveId) (tr : Trace R) (x : Op R × Response R) :
    eventsOf k (tr ++ [x]) = eventsOf k tr ++ (eventTime k x).toList := by
  unfold eventsOf
  rw [List.filterMap_append]
  cases h : eventTime k x <;> simp [h]

/-- The times of the current window: from its start on, for as long as it is. -/
def inWindow (b : ErrorBudget) (t : Duration) : Bool :=
  decide (b.windowStart.toInt ≤ t.toInt) &&
    decide (t.toInt < b.windowStart.toInt + b.window.toInt)

/-- The latest clock value and the times of the successful reports: before the budget was last
    set, since then but before the current window began, and since that. -/
structure Tally where
  latest : Duration := 0
  forgotten : List Duration := []
  erased : List Duration := []
  charged : List Duration := []

/-- What the observer of `k` makes of a step. -/
def Tally.note (k : ObjectiveId) (s : State R) (h : Tally) (x : Op R × Response R) : Tally :=
  let now := x.1.clock.getD h.latest
  if charges k x then { h with latest := now, charged := h.charged ++ [now] }
  else if grants k s x.1 then
    { latest := now, forgotten := h.forgotten ++ h.erased ++ h.charged }
  else if rolls k s x.1 then
    { h with latest := now, erased := h.erased ++ h.charged, charged := [] }
  else { h with latest := now }

/-- The clock does not go back, and no state is loaded. -/
structure InOrder (w : Watched (State R) Tally) (op : Op R) : Prop where
  forward : ∀ now, op.clock = some now → w.seen.latest ≤ now
  noLoad : ∀ file, op ≠ .load file

/-! ## 2. The invariant -/

/-- The start of the current window of the budget of an objective. -/
def openedOf (s : State R) (k : ObjectiveId) : Duration := (fundsOf s.accumulators k).2.windowStart

/-- The budget counts what it was charged with since the window began, and all of it lies between
    the start of the window and now; what was erased does not lie behind the start. -/
structure TallyInv (k : ObjectiveId) (tr : Trace R) (s : State R) (h : Tally) : Prop where
  events : h.forgotten ++ h.erased ++ h.charged = eventsOf k tr
  consumed : (consumedOf s k).toInt = min (2 ^ 63 - 1) h.charged.length
  opened : 0 ≤ (openedOf s k).toInt ∧ (openedOf s k).toInt ≤ h.latest.toInt
  charged : ∀ t ∈ h.charged, (openedOf s k).toInt ≤ t.toInt ∧ t.toInt ≤ h.latest.toInt
  erased : ∀ t ∈ h.erased, t.toInt ≤ (openedOf s k).toInt

namespace TallyInv

variable {k : ObjectiveId} {tr : Trace R} {s s' : State R} {h : Tally} {x : Op R × Response R}
  {now : Duration}

theorem charge (hi : TallyInv k tr s h) (hlatest : h.latest.toInt ≤ now.toInt)
    (hx : eventTime k x = some now)
    (h' : fundsOf s'.accumulators k = (true, (fundsOf s.accumulators k).2.consume)) :
    TallyInv k (tr ++ [x]) s' { h with latest := now, charged := h.charged ++ [now] } := by
  have hsame : openedOf s' k = openedOf s k := by rw [openedOf, h']; rfl
  have hopened := hi.opened
  refine ⟨?_, ?_, ?_, fun t ht => ?_, fun t ht => ?_⟩
  · rw [eventsOf_append, ← hi.events, hx]
    simp
  · have hbump : (consumedOf s' k).toInt = min (2 ^ 63 - 1) ((consumedOf s k).toInt + 1) := by
      rw [consumedOf, h']
      exact ErrorBudget.consume_toInt (fundsOf s.accumulators k).2
    rw [hbump, hi.consumed, List.length_append, List.length_singleton]
    omega
  · rw [hsame]
    exact ⟨hopened.1, hopened.2.trans hlatest⟩
  · rw [hsame]
    rcases List.mem_append.mp ht with ht | ht
    · exact ⟨(hi.charged t ht).1, (hi.charged t ht).2.trans hlatest⟩
    · rw [List.mem_singleton.mp ht]
      exact ⟨hopened.2.trans hlatest, le_rfl⟩
  · rw [hsame]
    exact hi.erased t ht

theorem grant {total : Count} {window : Duration} (hi : TallyInv k tr s h)
    (hlatest : h.latest.toInt ≤ now.toInt) (hx : eventTime k x = none)
    (h' : fundsOf s'.accumulators k = (true, .make total window)) :
    TallyInv k (tr ++ [x]) s'
      { latest := now, forgotten := h.forgotten ++ h.erased ++ h.charged } := by
  have hzero : openedOf s' k = 0 := by rw [openedOf, h']; rfl
  have hopened := hi.opened
  refine ⟨?_, ?_, ?_, fun t ht => absurd ht List.not_mem_nil,
    fun t ht => absurd ht List.not_mem_nil⟩
  · rw [eventsOf_append, ← hi.events, hx]
    simp
  · rw [consumedOf, h']
    rfl
  · rw [hzero, Int64.toInt_zero]
    exact ⟨le_rfl, (hopened.1.trans hopened.2).trans hlatest⟩

theorem roll (hi : TallyInv k tr s h) (hlatest : h.latest.toInt ≤ now.toInt)
    (hx : eventTime k x = none)
    (h' : fundsOf s'.accumulators k = (true, (fundsOf s.accumulators k).2.resetWindow now)) :
    TallyInv k (tr ++ [x]) s'
      { h with latest := now, erased := h.erased ++ h.charged, charged := [] } := by
  have hstart : openedOf s' k = now := by rw [openedOf, h']; rfl
  have hopened := hi.opened
  refine ⟨?_, ?_, ?_, fun t ht => absurd ht List.not_mem_nil, fun t ht => ?_⟩
  · rw [eventsOf_append, ← hi.events, hx]
    simp
  · rw [consumedOf, h']
    rfl
  · rw [hstart]
    exact ⟨(hopened.1.trans hopened.2).trans hlatest, le_rfl⟩
  · rw [hstart]
    rcases List.mem_append.mp ht with ht | ht
    · exact ((hi.erased t ht).trans hopened.2).trans hlatest
    · exact (hi.charged t ht).2.trans hlatest

theorem keep (hi : TallyInv k tr s h) (hlatest : h.latest.toInt ≤ now.toInt)
    (hx : eventTime k x = none) (h' : fundsOf s'.accumulators k = fundsOf s.accumulators k) :
    TallyInv k (tr ++ [x]) s' { h with latest := now } := by
  have hsame : openedOf s' k = openedOf s k := by rw [openedOf, h', openedOf]
  refine ⟨?_, ?_, ?_, fun t ht => ?_, fun t ht => ?_⟩
  · rw [eventsOf_append, ← hi.events, hx]
    simp
  · rw [consumedOf, h']
    exact hi.consumed
  · rw [hsame]
    exact ⟨hi.opened.1, hi.opened.2.trans hlatest⟩
  · rw [hsame]
    exact ⟨(hi.charged t ht).1, (hi.charged t ht).2.trans hlatest⟩
  · rw [hsame]
    exact hi.erased t ht

end TallyInv

/-- The clock value noted with a step is not before the last one. -/
theorem noted_latest {w : Watched (State R) Tally} {op : Op R} (h : InOrder w op) :
    w.seen.latest.toInt ≤ (op.clock.getD w.seen.latest).toInt := by
  cases hc : op.clock with
  | none => exact le_rfl
  | some now => exact Int64.le_iff_toInt_le.mp (h.forward now hc)

section Runs

variable [Pod R] [Double R] [Platform R]

/-- **The step lemma.** -/
theorem tally_step {k : ObjectiveId} {tr : Trace R} {w w' : Watched (State R) Tally} {op : Op R}
    {r : Response R} (hi : TallyInv k tr w.state w.seen) (hc : InOrder w op)
    (h : watch apply (Tally.note k) w op = some (w', r)) :
    TallyInv k (tr ++ [(op, r)]) w'.state w'.seen := by
  obtain ⟨hstep, hseen⟩ := watch_cases h
  have hlatest := noted_latest hc
  rw [hseen, Tally.note]
  cases funds_step k hstep fun file hop => absurd hop (hc.noLoad file) with
  | @charged now hop hr has h' =>
    have hone : charges k (op, r) = true := by
      rw [hop, hr, charges, decide_eq_true rfl]
      rfl
    have hnow : op.clock = some now := by rw [hop]; rfl
    rw [hnow] at hlatest
    simp only [hone, if_true, hnow, Option.getD_some]
    exact hi.charge hlatest (by rw [eventTime, if_pos hone, hnow]) h'
  | granted hop hgrant h' =>
    have hnone : charges k (op, r) = false := by rw [hop]; rfl
    simp only [hnone, hgrant, Bool.false_eq_true, if_false, if_true]
    exact hi.grant hlatest (by rw [eventTime, hnone]; rfl) h'
  | @rolled service workload now hop hroll h' =>
    have hnone : charges k (op, r) = false := by rw [hop]; rfl
    have hgrant : grants k w.state op = false := by rw [hop]; rfl
    have hnow : op.clock = some now := by rw [hop]; rfl
    rw [hnow] at hlatest
    simp only [hnone, hgrant, hroll, Bool.false_eq_true, if_false, if_true, hnow,
      Option.getD_some]
    exact hi.roll hlatest (by rw [eventTime, hnone]; rfl) h'
  | kept hcharge hgrant hroll h' =>
    simp only [hcharge, hgrant, hroll, Bool.false_eq_true, if_false]
    exact hi.keep hlatest (by rw [eventTime, hcharge]; rfl) h'

theorem tally_run {k : ObjectiveId} {tr : Trace R} {w : Watched (State R) Tally}
    (h : Run (watch apply (Tally.note k)) InOrder ⟨State.fresh R, {}⟩ tr w) :
    TallyInv k tr w.state w.seen :=
  h.history (I := fun tr w => TallyInv k tr w.state w.seen)
    ⟨rfl, rfl, ⟨le_rfl, le_rfl⟩, fun _ ht => absurd ht List.not_mem_nil,
      fun _ ht => absurd ht List.not_mem_nil⟩
    fun _ _ _ _ _ hi hc hstep => tally_step hi hc hstep

/-! ## 3. After an evaluation -/

omit [Pod R] in
/-- The window an evaluation of `k` leaves has not ended. -/
theorem evaluate_open {k : ObjectiveId} {s s' : State R} {service : ServiceId}
    {workload : WorkloadId} {now : Duration} {r : Except Status (EvaluationResult R)}
    (h : evaluate s service workload now = some (s', r))
    (hjudged : (acquires s (.evaluate service workload now)).any (·.id = k) = true)
    (has : (fundsOf s'.accumulators k).1 = true) :
    (fundsOf s'.accumulators k).2.windowRolled now = false := by
  cases funds_evaluate k h with
  | charged hop | granted hop => cases hop
  | rolled hop _ h' =>
    cases hop
    rw [h']
    exact windowRolled_resetWindow _ now
  | kept _ _ hroll h' =>
    rw [h'] at has ⊢
    rw [rolls, hjudged, has] at hroll
    exact hroll

/-- What lies between the start of an open window and now lies in it. -/
theorem inWindow_of_open {b : ErrorBudget} {now t : Duration} (hw : 0 < b.window)
    (hstart : 0 ≤ b.windowStart.toInt) (hopen : b.windowRolled now = false)
    (ht : b.windowStart.toInt ≤ t.toInt) (hnow : t.toInt ≤ now.toInt) :
    inWindow b t = true := by
  have hpos : ¬b.window ≤ 0 := Int64.not_le.mpr hw
  have hlt := now.toInt_lt
  have hsub : (now - b.windowStart).toInt = now.toInt - b.windowStart.toInt :=
    toInt_sub_of_range (by omega) (by omega)
  rw [ErrorBudget.windowRolled, if_neg hpos, decide_eq_false_iff_not, Int64.le_iff_toInt_le,
    hsub] at hopen
  rw [inWindow, decide_eq_true ht, Bool.true_and]
  exact decide_eq_true (by omega)

/-- **What an evaluation finds the window charged with.** In every run without load in which the
    clock starts at `0` and does not go back, the count is that of the successful reports made
    since the window began; they lie in the window, if the evaluation judged the objective; of
    the reports made since the budget was set, none behind the start of the window is missing. -/
theorem budget_window_run {k : ObjectiveId} {tr : Trace R} {w w' : Watched (State R) Tally}
    {service : ServiceId} {workload : WorkloadId} {now : Duration} {r : Response R}
    {b : ErrorBudget}
    (h : Run (watch apply (Tally.note k)) InOrder ⟨State.fresh R, {}⟩ tr w)
    (hc : InOrder w (.evaluate service workload now))
    (hstep : watch apply (Tally.note k) w (.evaluate service workload now) = some (w', r))
    (hb : fundsOf w'.state.accumulators k = (true, b)) (hw : 0 < b.window) :
    eventsOf k tr = w'.seen.forgotten ++ w'.seen.erased ++ w'.seen.charged ∧
      b.consumed.toInt = min (2 ^ 63 - 1) w'.seen.charged.length ∧
      (∀ t ∈ w'.seen.charged, b.windowStart.toInt ≤ t.toInt) ∧
      ((acquires w.state (.evaluate service workload now)).any (·.id = k) = true →
        ∀ t ∈ w'.seen.charged, inWindow b t = true) ∧
      ∀ t ∈ w'.seen.erased, t.toInt ≤ b.windowStart.toInt := by
  have hi := tally_step (tally_run h) hc hstep
  have hstart : openedOf w'.state k = b.windowStart := by rw [openedOf, hb]
  have hcount : consumedOf w'.state k = b.consumed := by rw [consumedOf, hb]
  obtain ⟨happly, hseen⟩ := watch_cases hstep
  obtain ⟨x, hx, hr⟩ := Option.map_eq_some_iff.mp happly
  have hnone : eventsOf k (tr ++ [(.evaluate service workload now, r)]) = eventsOf k tr := by
    rw [eventsOf_append]
    exact List.append_nil _
  have hlatest : w'.seen.latest = now := by
    rw [hseen, Tally.note]
    dsimp only
    split <;> [rfl; split <;> [rfl; split <;> rfl]]
  have hopened := hi.opened
  have hcharged := hi.charged
  rw [hstart] at hopened hcharged
  rw [hlatest] at hcharged
  refine ⟨hnone.symm.trans hi.events.symm, hcount ▸ hi.consumed, fun t ht => (hcharged t ht).1,
    fun hjudged t ht => ?_, fun t ht => hstart ▸ hi.erased t ht⟩
  have hopen := evaluate_open hx hjudged
  rw [(Prod.mk.inj hr).1, hb] at hopen
  exact inWindow_of_open hw hopened.1 (hopen rfl) (hcharged t ht).1 (hcharged t ht).2

end Runs

/-- Objective `1` with a budget of ten violations in ten nanoseconds. -/
def tenWithinTen : List (Op Binary64) :=
  [.setPolicy smallPolicy, .addContract (smallContract 1 1 1 [smallObjective 1 1]),
    .setObjectiveBudget ⟨1⟩ 10 10]

/-- `InOrder`, as a test. -/
def inOrderTest (w : Watched (State Binary64) Tally) (op : Op Binary64) : Bool :=
  !op.isLoad && op.clock.all fun now => decide (w.seen.latest ≤ now)

theorem inOrder_of_test {w : Watched (State Binary64) Tally} {op : Op Binary64}
    (h : inOrderTest w op = true) : InOrder w op := by
  obtain ⟨hload, hclock⟩ := Bool.and_eq_true_iff.mp h
  refine ⟨fun now hnow => ?_, not_load hload⟩
  rw [hnow] at hclock
  exact of_decide_eq_true hclock

/-- One report in the first window, two in the second. -/
theorem budget_window_run_small :
    ∃ (tr : Trace Binary64) (w w' : Watched (State Binary64) Tally) (r : Response Binary64)
      (b : ErrorBudget), Run (watch apply (Tally.note ⟨1⟩)) InOrder ⟨.fresh Binary64, {}⟩ tr w ∧
      watch apply (Tally.note ⟨1⟩) w (.evaluate ⟨1⟩ ⟨1⟩ 20) = some (w', r) ∧
      fundsOf w'.state.accumulators ⟨1⟩ = (true, b) ∧ w'.seen.erased = [4] ∧
      w'.seen.charged = [12, 15] ∧ b.consumed.toInt = 2 ∧
      ∀ t ∈ w'.seen.charged, inWindow b t = true := by
  have htest : (execute (watch apply (Tally.note ⟨1⟩)) inOrderTest
      ⟨State.fresh Binary64, {}⟩ (tenWithinTen ++ [.ingestViolationEvent ⟨1⟩ 4,
        .evaluate ⟨1⟩ ⟨1⟩ 12, .ingestViolationEvent ⟨1⟩ 12, .ingestViolationEvent ⟨1⟩ 15])).any
      (fun x => inOrderTest x.1 (.evaluate ⟨1⟩ ⟨1⟩ 20) &&
        (acquires x.1.state (.evaluate ⟨1⟩ ⟨1⟩ 20)).any (·.id = ⟨1⟩) &&
        (watch apply (Tally.note ⟨1⟩) x.1 (.evaluate ⟨1⟩ ⟨1⟩ 20)).any fun y =>
          (fundsOf y.1.state.accumulators ⟨1⟩).1 &&
            decide (0 < (fundsOf y.1.state.accumulators ⟨1⟩).2.window) &&
            decide (y.1.seen.erased = [4] ∧ y.1.seen.charged = [12, 15])) = true := by
    decide +kernel
  obtain ⟨w, tr, hrun, hlast⟩ := Run.of_test (fun _ _ => inOrder_of_test) htest
  simp only [Bool.and_eq_true] at hlast
  obtain ⟨⟨hc, hjudged⟩, hlast⟩ := hlast
  obtain ⟨⟨w', r⟩, hstep, hw'⟩ := (Option.any_eq_true _ _).mp hlast
  simp only [Bool.and_eq_true, decide_eq_true_eq] at hw'
  obtain ⟨⟨has, hpos⟩, herased, hcharged⟩ := hw'
  have hb : fundsOf w'.state.accumulators ⟨1⟩ = (true, (fundsOf w'.state.accumulators ⟨1⟩).2) :=
    Prod.ext has rfl
  obtain ⟨_, hcount, _, hin, _⟩ := budget_window_run hrun (inOrder_of_test hc) hstep hb hpos
  refine ⟨tr, w, w', r, _, hrun, hstep, hb, herased, hcharged, ?_, hin hjudged⟩
  rw [hcount, hcharged]
  rfl

/-- Runs that end in an evaluation: a report at the instant of the rollover; a report before the
    first window; a budget that is set again; an evaluation of another objective. -/
def strays : List (List (Op Binary64)) :=
  [tenWithinTen ++ [.ingestViolationEvent ⟨1⟩ 10, .evaluate ⟨1⟩ ⟨1⟩ 10],
    tenWithinTen ++ [.ingestViolationEvent ⟨1⟩ (-5), .evaluate ⟨1⟩ ⟨1⟩ (-5)],
    tenWithinTen ++ [.ingestViolationEvent ⟨1⟩ 5, .setObjectiveBudget ⟨1⟩ 10 10,
      .evaluate ⟨1⟩ ⟨1⟩ 5],
    tenWithinTen ++ [.addContract (smallContract 2 1 2 [smallObjective 2 1]),
      .ingestViolationEvent ⟨1⟩ 15, .evaluate ⟨1⟩ ⟨2⟩ 15]]

/-- The count consumed after some operations, and the number of successful reports whose time lies
    in the window. -/
def consumedAndReported (ops : List (Op Binary64)) : Int × Nat :=
  ((consumedOf (after ops) ⟨1⟩).toInt,
    (eventsOf ⟨1⟩ (traceAfter ops)).countP
      (inWindow (fundsOf (after ops).accumulators ⟨1⟩).2))

/-- **The count is not that of the reports whose time lies in the window.** -/
theorem budget_window_fails :
    (∀ ops ∈ strays, Runs (State.fresh Binary64) (traceAfter ops) (after ops)) ∧
      strays.map consumedAndReported = [(0, 1), (1, 0), (0, 1), (1, 0)] :=
  ⟨fun ops _ => run_after ops, by decide +kernel⟩

end SloFabric
