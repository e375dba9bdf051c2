/-
  File:      SloFabric/Recovery.lean
  Subject:   The recovery duration of an objective, and the one of its latest failure.

  * `latestFailure`, `recoverySpec`: the time from the latest Authoritative event to the latest
    Verified one after it, else the latest Restored one, else now;
  * `Tracks`: what the tracker holds of the events recorded;
  * `leftBehind`: the boundary of an earlier recovery that the tracker takes for the end;
  * `duration_iff`: when the tracker gives the duration of the latest failure;
  * `recovery_measured_iff`: when an evaluation measures it, in every run;
  * `recovery_measured_fails`: a second failure ends before it has begun.
-/
import SloFabric.ActiveDefinition
import SloFabric.Journal
import SloFabric.Revalidation

namespace SloFabric

variable {R : Type}

/-! ## 1. The law -/

abbrev RecoveryEvent := RecoveryEventPhase × Duration

/-- The time of the latest event of a phase. -/
def latestOf (phase : RecoveryEventPhase) (events : List RecoveryEvent) : Option Duration :=
  events.foldl (fun t e => if e.1 = phase then some e.2 else t) none

/-- The time of the latest Authoritative event, and the events recorded after it. -/
def latestFailure (events : List RecoveryEvent) : Option (Duration × List RecoveryEvent) :=
  events.foldl (fun f e =>
    if e.1 = .authoritative then some (e.2, []) else f.map fun x => (x.1, x.2 ++ [e])) none

/-- Where a recovery ends: at the latest Verified event, else at the latest Restored one, else
    not yet. -/
def endOf (events : List RecoveryEvent) (now : Duration) : Duration :=
  ((latestOf .verified events).or (latestOf .restored events)).getD now

/-- **The recovery duration** at `now`: that of the latest failure. -/
def recoverySpec (events : List RecoveryEvent) (now : Duration) : Int :=
  match latestFailure events with
  | none => 0
  | some (t, after) => (endOf after now).toInt - t.toInt

theorem latestOf_push (phase : RecoveryEventPhase) (events : List RecoveryEvent)
    (e : RecoveryEvent) :
    latestOf phase (events ++ [e]) = if e.1 = phase then some e.2 else latestOf phase events := by
  unfold latestOf
  rw [List.foldl_append]
  rfl

theorem latestFailure_push (events : List RecoveryEvent) (e : RecoveryEvent) :
    latestFailure (events ++ [e]) =
      if e.1 = .authoritative then some (e.2, [])
      else (latestFailure events).map fun x => (x.1, x.2 ++ [e]) := by
  unfold latestFailure
  rw [List.foldl_append]
  rfl

/-- The latest event of a phase is one of the events. -/
theorem latestOf_mem {phase : RecoveryEventPhase} {events : List RecoveryEvent} {t : Duration}
    (h : latestOf phase events = some t) : (phase, t) ∈ events := by
  induction events using List.reverseRecOn with
  | nil => cases h
  | append_singleton events e ih =>
    rw [latestOf_push] at h
    split at h
    · rename_i hphase
      cases h
      exact List.mem_append_right _ (List.mem_singleton.mpr (by rw [← hphase]))
    · exact List.mem_append_left _ (ih h)

/-- Later events come before earlier ones. -/
theorem latestOf_append {phase : RecoveryEventPhase} {before after : List RecoveryEvent}
    {t : Duration} (h : latestOf phase after = some t) :
    latestOf phase (before ++ after) = some t := by
  induction after using List.reverseRecOn with
  | nil => cases h
  | append_singleton after e ih =>
    rw [latestOf_push] at h
    rw [← List.append_assoc, latestOf_push]
    by_cases hphase : e.1 = phase
    · rwa [if_pos hphase] at h ⊢
    · rw [if_neg hphase] at h ⊢
      exact ih h

/-- The latest failure splits the events. -/
theorem latestFailure_split {events after : List RecoveryEvent} {t : Duration}
    (h : latestFailure events = some (t, after)) :
    ∃ before, events = before ++ (.authoritative, t) :: after := by
  induction events using List.reverseRecOn generalizing after with
  | nil => cases h
  | append_singleton events e ih =>
    rw [latestFailure_push] at h
    split at h
    · rename_i hphase
      cases h
      exact ⟨events, by rw [← hphase]⟩
    · obtain ⟨⟨t', after'⟩, hf, he⟩ := Option.map_eq_some_iff.mp h
      cases he
      obtain ⟨before, rfl⟩ := ih hf
      exact ⟨before, by simp⟩

/-! ## 2. The tracker -/

/-- **What the tracker holds of the events**: the time of the latest one of each phase, whatever
    came after it. -/
structure Tracks (events : List RecoveryEvent) (t : RecoveryTracker) : Prop where
  authoritative : t.authoritative = (latestFailure events).isSome
  authoritativeAt : ∀ x, latestFailure events = some x → t.authoritativeAt = x.1
  restored : t.restored = (latestOf .restored events).isSome
  restoredAt : ∀ v, latestOf .restored events = some v → t.restoredAt = v
  verified : t.verified = (latestOf .verified events).isSome
  verifiedAt : ∀ v, latestOf .verified events = some v → t.verifiedAt = v

theorem tracks_nil : Tracks [] {} := ⟨rfl, nofun, rfl, nofun, rfl, nofun⟩

/-- An event of another phase leaves the failure where it was. -/
theorem latestFailure_other {events : List RecoveryEvent} {phase : RecoveryEventPhase}
    (hphase : phase ≠ .authoritative) (time : Duration) :
    (latestFailure (events ++ [(phase, time)])).map (·.1) = (latestFailure events).map (·.1) := by
  rw [latestFailure_push, if_neg hphase, Option.map_map]
  rfl

theorem Tracks.push {events : List RecoveryEvent} {t : RecoveryTracker} (h : Tracks events t)
    (phase : RecoveryEventPhase) (time : Duration) :
    Tracks (events ++ [(phase, time)]) (t.record phase time) := by
  have hother (hphase : phase ≠ .authoritative) :
      t.authoritative = (latestFailure (events ++ [(phase, time)])).isSome ∧
        ∀ x, latestFailure (events ++ [(phase, time)]) = some x → t.authoritativeAt = x.1 := by
    have hsame : _ = (latestFailure events).map (·.1) := latestFailure_other hphase time
    constructor
    · rw [h.authoritative, ← Option.isSome_map (f := fun x => x.1), ← hsame, Option.isSome_map]
    · intro x hx
      rw [hx] at hsame
      obtain ⟨y, hy, heq⟩ := Option.map_eq_some_iff.mp hsame.symm
      rw [h.authoritativeAt y hy, heq]
  cases phase with
  | authoritative =>
    refine ⟨?_, fun x hx => ?_, ?_, ?_, ?_, ?_⟩
    · rw [latestFailure_push]
      rfl
    · rw [latestFailure_push] at hx
      cases hx
      rfl
    all_goals
      rw [latestOf_push, if_neg nofun]
    · exact h.restored
    · exact h.restoredAt
    · exact h.verified
    · exact h.verifiedAt
  | restored =>
    obtain ⟨hauth, hauthAt⟩ := hother nofun
    refine ⟨hauth, hauthAt, ?_, fun v hv => ?_, ?_, ?_⟩
    · rw [latestOf_push]
      rfl
    · rw [latestOf_push] at hv
      cases hv
      rfl
    all_goals
      rw [latestOf_push, if_neg nofun]
    · exact h.verified
    · exact h.verifiedAt
  | verified =>
    obtain ⟨hauth, hauthAt⟩ := hother nofun
    refine ⟨hauth, hauthAt, ?_, ?_, ?_, fun v hv => ?_⟩
    · rw [latestOf_push, if_neg nofun]
      exact h.restored
    · rw [latestOf_push, if_neg nofun]
      exact h.restoredAt
    · rw [latestOf_push]
      rfl
    · rw [latestOf_push] at hv
      cases hv
      rfl
  | observed | initiated =>
    obtain ⟨hauth, hauthAt⟩ := hother nofun
    refine ⟨hauth, hauthAt, ?_, ?_, ?_, ?_⟩
    all_goals
      rw [latestOf_push, if_neg nofun]
    · exact h.restored
    · exact h.restoredAt
    · exact h.verified
    · exact h.verifiedAt

/-- The tracker after some events. -/
def tracked (events : List RecoveryEvent) : RecoveryTracker :=
  events.foldl (fun t e => t.record e.1 e.2) {}

theorem tracked_tracks (events : List RecoveryEvent) : Tracks events (tracked events) := by
  induction events using List.reverseRecOn with
  | nil => exact tracks_nil
  | append_singleton events e ih =>
    unfold tracked
    rw [List.foldl_append]
    exact ih.push e.1 e.2

/-- The duration the tracker gives ends at the latest boundary of all. -/
theorem tracked_duration (events : List RecoveryEvent) (now : Duration) :
    (tracked events).currentRecoveryDuration now =
      match latestFailure events with
      | none => 0
      | some (t, _) => endOf events now - t := by
  have h := tracked_tracks events
  generalize tracked events = t at h
  unfold RecoveryTracker.currentRecoveryDuration
  rw [h.authoritative]
  cases hf : latestFailure events with
  | none => rfl
  | some x =>
    have hend : (if t.verified then t.verifiedAt else if t.restored then t.restoredAt else now) =
        endOf events now := by
      unfold endOf
      rw [h.verified, h.restored]
      cases hv : latestOf .verified events with
      | some v => exact h.verifiedAt v hv
      | none =>
        cases hr : latestOf .restored events with
        | some v => exact h.restoredAt v hr
        | none => rfl
    simp only [Option.isSome_some, Bool.not_true, Bool.false_eq_true, if_false, hend,
      h.authoritativeAt x hf]

/-! ## 3. A boundary that was left behind -/

/-- The boundary of an earlier recovery that stands for the end of this one: a Verified event before
    the failure where none came after it, or a Restored one where neither came after it. -/
def leftBehind (events after : List RecoveryEvent) : Option Duration :=
  if (latestOf .verified after).isSome then none
  else if (latestOf .verified events).isSome then latestOf .verified events
  else if (latestOf .restored after).isSome then none
  else latestOf .restored events

/-- **Nothing is left behind** by an earlier recovery, but perhaps at the very time this one ends;
    and the recovery has not taken 292 years. -/
def MeasuresAfresh (events : List RecoveryEvent) (now : Duration) : Prop :=
  ∀ t after, latestFailure events = some (t, after) →
    (∀ v, leftBehind events after = some v → v = endOf after now) ∧
    (endOf after now).toInt - t.toInt < 2 ^ 63

theorem endOf_eq_iff {events before after : List RecoveryEvent} {e : RecoveryEvent}
    (h : events = before ++ e :: after) (now : Duration) :
    endOf events now = endOf after now ↔
      ∀ v, leftBehind events after = some v → v = endOf after now := by
  have hlater {phase : RecoveryEventPhase} {v : Duration} (hv : latestOf phase after = some v) :
      latestOf phase events = some v := by
    have happ : before ++ e :: after = (before ++ [e]) ++ after := by simp
    rw [h, happ]
    exact latestOf_append hv
  unfold leftBehind endOf
  cases hv : latestOf .verified after with
  | some v => simp [hlater hv]
  | none =>
    cases hv' : latestOf .verified events with
    | some v => simp
    | none =>
      cases hr : latestOf .restored after with
      | some v => simp [hlater hr]
      | none =>
        cases hr' : latestOf .restored events with
        | some v => simp
        | none => simp

/-- The times of the events never go back, and are not after `now`. -/
structure InTime (events : List RecoveryEvent) (now : Duration) : Prop where
  sorted : events.Pairwise fun a b => a.2.toInt ≤ b.2.toInt
  past : ∀ e ∈ events, e.2.toInt ≤ now.toInt

/-- A recovery does not end before the failure. -/
theorem failure_le_end {events after : List RecoveryEvent} {t now : Duration}
    (h : InTime events now) (hf : latestFailure events = some (t, after)) :
    t.toInt ≤ (endOf after now).toInt := by
  obtain ⟨before, rfl⟩ := latestFailure_split hf
  have hafter : ∀ e ∈ after, t.toInt ≤ e.2.toInt :=
    (List.pairwise_cons.mp (List.pairwise_append.mp h.sorted).2.1).1
  unfold endOf
  cases hv : (latestOf .verified after).or (latestOf .restored after) with
  | none => exact h.past (.authoritative, t) (by simp)
  | some v =>
    rcases Option.or_eq_some_iff.mp hv with hv | ⟨_, hv⟩
    · exact hafter _ (latestOf_mem hv)
    · exact hafter _ (latestOf_mem hv)

/-- A 64-bit difference is the difference of the numbers, when it fits. -/
theorem sub_toInt_iff {a b t : Duration} (h : t.toInt ≤ b.toInt) :
    (a - t).toInt = b.toInt - t.toInt ↔ a = b ∧ b.toInt - t.toInt < 2 ^ 63 := by
  have ha₁ := Int64.le_toInt a
  have ha₂ := Int64.toInt_lt a
  have hb₁ := Int64.le_toInt b
  have hb₂ := Int64.toInt_lt b
  rw [← Int64.toInt_inj, Int64.toInt_sub, Int.bmod_def]
  omega

/-- **When the tracker gives the duration of the latest failure.** -/
theorem duration_iff {events : List RecoveryEvent} {now : Duration} (h : InTime events now) :
    ((tracked events).currentRecoveryDuration now).toInt = recoverySpec events now ↔
      MeasuresAfresh events now := by
  rw [tracked_duration]
  unfold recoverySpec MeasuresAfresh
  cases hf : latestFailure events with
  | none => exact ⟨fun _ => nofun, fun _ => rfl⟩
  | some x =>
    obtain ⟨t, after⟩ := x
    obtain ⟨before, hsplit⟩ := latestFailure_split hf
    simp only [Option.some.injEq, Prod.mk.injEq]
    rw [sub_toInt_iff (failure_le_end h hf), endOf_eq_iff hsplit]
    constructor
    · rintro hok _ _ ⟨rfl, rfl⟩
      exact hok
    · exact fun hok => hok t after ⟨rfl, rfl⟩

theorem recoverySpec_nonneg {events : List RecoveryEvent} {now : Duration} (h : InTime events now) :
    0 ≤ recoverySpec events now := by
  unfold recoverySpec
  cases hf : latestFailure events with
  | none => exact le_rfl
  | some x => exact Int.sub_nonneg_of_le (failure_le_end h hf)

/-! ## 4. Runs -/

/-- The events recorded for an objective since its accumulator was wiped or loaded, after one more
    step. -/
def noteRecovery [Pod R] [Double R] (k : ObjectiveId) (s : State R) (events : List RecoveryEvent)
    (x : Op R × Response R) : List RecoveryEvent :=
  (if resets k s x.1 then [] else events) ++ (recoveryOf k s x.1).toList

/-- The accumulator's tracker is that of the events; without an accumulator there are none. -/
def Remembered (events : List RecoveryEvent) : Option (ObjectiveAccumulator R) → Prop
  | none => events = []
  | some a => a.recovery = tracked events

theorem Remembered.retained {events : List RecoveryEvent} {a b : Option (ObjectiveAccumulator R)}
    (h : Remembered events a) (hab : Retained a b) : Remembered events b := by
  cases hab with
  | none => exact h
  | some hab => exact hab.recovery.trans h

/-- Another generation starts without events. -/
theorem Remembered.handedOver {events : List RecoveryEvent} : ∀ (os : List (Objective R))
    {a : Option (ObjectiveAccumulator R)}, Remembered events a →
    Remembered (if wiped os a then [] else events) (handedOver a os)
  | [], a, h => by
      have hkeep : wiped [] a = false := by cases a <;> rfl
      rw [hkeep]
      exact h
  | o :: os, none, h => by
      have hnil : events = [] := h
      subst hnil
      have hfirst : Remembered [] (some (acquireFrom none o)) := rfl
      have hrest := hfirst.handedOver os
      simp only [ite_self] at hrest ⊢
      exact hrest
  | o :: os, some a, h => by
      by_cases hgen : o.gen = a.defn.gen
      · have hsame : acquireFrom (some a) o = a := if_neg (fun hne => hne hgen.symm)
        have hwiped : wiped (o :: os) (some a) = wiped os (some a) := by simp [wiped, hgen]
        have hrest := Remembered.handedOver os h
        rw [hwiped]
        show Remembered _ (SloFabric.handedOver (some (acquireFrom (some a) o)) os)
        rwa [hsame]
      · have hnew : acquireFrom (some a) o = a.resetForNewGen o := if_pos fun heq => hgen heq.symm
        have hwiped : wiped (o :: os) (some a) = true := by simp [wiped, hgen]
        have hfirst : Remembered [] (some (a.resetForNewGen o)) := rfl
        have hrest := hfirst.handedOver os
        rw [hwiped]
        show Remembered _ (SloFabric.handedOver (some (acquireFrom (some a) o)) os)
        rw [hnew]
        simpa using hrest

section Runs

variable [Pod R] [Double R] [Platform R]

omit [Pod R] [Double R] [Platform R] in
/-- A recovery boundary is noted in the accumulator of its definition. -/
theorem recoveryOf_handed {k : ObjectiveId} {s : State R} {op : Op R} {x : RecoveryEvent}
    (h : recoveryOf k s op = some x) : ∃ o, handed k s op = [o] := by
  unfold recoveryOf at h
  split at h
  · rename_i id phase time
    split at h
    · rename_i hk
      obtain ⟨o, ho⟩ := Option.isSome_iff_exists.mp hk.2
      have hid : o.id = k := (definitionOf_some ho).1.trans hk.1
      refine ⟨o, ?_⟩
      show (definitionOf s.contracts id).toList.filter _ = _
      rw [ho]
      simp [hid]
    · cases h
  · cases h

/-- **The step lemma.** -/
theorem remembered_step {k : ObjectiveId} {s s' : State R} {op : Op R} {r : Response R}
    {events : List RecoveryEvent} (hs : Remembered events (s.accumulators.find k))
    (h : apply s op = some (s', r)) :
    Remembered (noteRecovery k s events (op, r)) (s'.accumulators.find k) := by
  by_cases hload : ∃ file, op = .load file
  · obtain ⟨file, rfl⟩ := hload
    cases h
    rcases load_cases s file with ⟨e, he, h'⟩ | ⟨st, hst, h'⟩
    · have hkeep : noteRecovery k s events (.load file, .status (load s file).2) = events := by
        simp [noteRecovery, resets, he, recoveryOf, Except.toBool]
      rw [hkeep, h']
      exact hs
    · have hnil : noteRecovery k s events (.load file, .status (load s file).2) = [] := by
        simp [noteRecovery, resets, hst, recoveryOf, Except.toBool]
      have hfresh : ∀ a ∈ (restart s st).accumulators.rows, a.recovery = {} :=
        restoreStates_of (fun _ _ => rfl) (fun _ _ _ _ => rfl) fun a ps _ ha => by
          unfold restore
          simp only
          split <;> exact ha
      rw [hnil, h']
      cases hfind : (restart s st).accumulators.find k with
      | none => rfl
      | some a => exact hfresh a (KeyedTable.find_mem hfind)
  · have hload' : ∀ file, op ≠ .load file := fun file heq => hload ⟨file, heq⟩
    have hresets : resets k s op = wiped (handed k s op) (s.accumulators.find k) := by
      cases op with
      | load file => exact absurd rfl (hload' file)
      | _ => rfl
    have hhanded := hs.handedOver (handed k s op)
    have hafter := handover_step h hload' k
    unfold noteRecovery
    rw [hresets]
    unfold handoverOf at hafter
    cases hrec : recoveryOf k s op with
    | none =>
      rw [hrec] at hafter
      rw [Option.toList_none, List.append_nil]
      exact hhanded.retained hafter
    | some x =>
      obtain ⟨o, ho⟩ := recoveryOf_handed hrec
      rw [hrec, ho] at hafter
      rw [ho] at hhanded ⊢
      refine Remembered.retained ?_ hafter
      have htracked : (acquireFrom (s.accumulators.find k) o).recovery = tracked _ := hhanded
      show RecoveryTracker.record _ x.1 x.2 = tracked _
      rw [htracked, tracked, tracked, Option.toList_some, List.foldl_append]
      rfl

/-- **The run lemma.** -/
theorem remembered_run {k : ObjectiveId} {w : Watched (State R) (List RecoveryEvent)}
    {tr : Trace R} (h : Run (watch apply (noteRecovery k)) (fun _ _ => True)
      ⟨State.fresh R, []⟩ tr w) : Remembered w.seen (w.state.accumulators.find k) := by
  refine h.invariant (I := fun w : Watched (State R) (List RecoveryEvent) =>
    Remembered w.seen (w.state.accumulators.find k)) rfl fun w op w' r hw _ hstep => ?_
  obtain ⟨hs, hseen⟩ := watch_cases hstep
  rw [hseen]
  exact remembered_step hw hs

/-- The events recorded in the accumulator objective `obj` at place `i` of a contract is judged on:
    the evaluation wipes it for another generation, too. -/
def recordedFor (w : Watched (State R) (List RecoveryEvent)) (c : SloContract R) (i : Nat)
    (obj : Objective R) : List RecoveryEvent :=
  if wiped ((c.objectives.take i ++ [obj]).filter (·.id = obj.id))
      (w.state.accumulators.find obj.id) then [] else w.seen

theorem judgedOn_recovery {w : Watched (State R) (List RecoveryEvent)} {tr : Trace R}
    {obj : Objective R} (h : Run (watch apply (noteRecovery obj.id)) (fun _ _ => True)
      ⟨State.fresh R, []⟩ tr w) (c : SloContract R) (now : Duration) (i : Nat) :
    (judgedOn w.state c now i obj).recovery = tracked (recordedFor w c i obj) := by
  have happ : (c.objectives.take i ++ [obj]).filter (·.id = obj.id) =
      (c.objectives.take i).filter (·.id = obj.id) ++ [obj] := by simp
  have hall := (remembered_run h).handedOver
    ((c.objectives.take i).filter (·.id = obj.id) ++ [obj])
  rw [(judgedOn_retains w.state c now i obj).recovery, recordedFor, happ]
  rw [handedOver_append] at hall
  exact hall

/-! ## 5. Evaluations -/

/-- The recovery duration an objective is measured by, if it is measured as a recovery time. -/
def measuredDuration (a : ObjectiveAccumulator R) (now : Duration) : Option Int :=
  if a.defn.dim = .recoveryTime then some (a.recovery.currentRecoveryDuration now).toInt else none

omit [Pod R] [Platform R] in
theorem measured_recovery {a : ObjectiveAccumulator R} (hdim : a.defn.dim = .recoveryTime)
    (now : Duration) :
    (computeMeasured a now).value = ofInt64 (a.recovery.currentRecoveryDuration now) := by
  unfold computeMeasured
  simp only [hdim]
  cases hauth : a.recovery.authoritative with
  | true => rfl
  | false =>
    have hzero : a.recovery.currentRecoveryDuration now = 0 := by
      simp [RecoveryTracker.currentRecoveryDuration, hauth]
    rw [hzero]
    simp [ofInt64]

omit [Pod R] in
/-- The value of an objective that is measured as a recovery time is that duration. -/
theorem evaluate_recovery {s s' : State R} {service : ServiceId} {workload : WorkloadId}
    {now : Duration} {res : EvaluationResult R} {c : SloContract R}
    (h : evaluate s service workload now = some (s', .ok res))
    (hc : selectContract s.contracts service workload now = some c) {i : Nat} {obj : Objective R}
    (hobj : c.objectives[i]? = some obj) :
    ∃ st, res.explanation.objectives[i]? = some st ∧ st.id = obj.id ∧
      ((judgedOn s c now i obj).defn.dim = .recoveryTime → st.currentValue =
        some (makeValue (expectedUnitFor obj.dim)
          (ofInt64 ((judgedOn s c now i obj).recovery.currentRecoveryDuration now)))) := by
  obtain ⟨st, hst, hid, hvalue⟩ := evaluate_value h hc hobj
  refine ⟨st, hst, hid, fun hdim => ?_⟩
  rw [hvalue, measured_of_recoveryTime hdim now, measured_recovery hdim]
  rfl

/-- **When recovery time is measured from the latest failure.** In every run, for every evaluation
    that succeeds and every objective of recovery time, where the events recorded for it since its
    accumulator was last wiped are in order and not after `now`: the objective is measured by the
    duration of the latest failure if and only if the definition held for it at its turn is one of
    recovery time, and no boundary of an earlier recovery stands for the end of this one. That
    duration is never negative. -/
theorem recovery_measured_iff {w : Watched (State R) (List RecoveryEvent)} {tr : Trace R}
    {obj : Objective R} (h : Run (watch apply (noteRecovery obj.id)) (fun _ _ => True)
      ⟨State.fresh R, []⟩ tr w)
    {s' : State R} {service : ServiceId} {workload : WorkloadId} {now : Duration}
    {res : EvaluationResult R} {c : SloContract R}
    (hev : evaluate w.state service workload now = some (s', .ok res))
    (hc : selectContract w.state.contracts service workload now = some c) {i : Nat}
    (hobj : c.objectives[i]? = some obj) (hdim : obj.dim = .recoveryTime)
    (htime : InTime (recordedFor w c i obj) now) :
    (∃ st, res.explanation.objectives[i]? = some st ∧ st.id = obj.id ∧
      ((judgedOn w.state c now i obj).defn.dim = .recoveryTime → st.currentValue =
        some (makeValue .nanoseconds
          (ofInt64 ((judgedOn w.state c now i obj).recovery.currentRecoveryDuration now))))) ∧
    (measuredDuration (judgedOn w.state c now i obj) now =
        some (recoverySpec (recordedFor w c i obj) now) ↔
      (∀ a, heldAt w.state c i obj = some a → a.defn.gen = obj.gen → a.defn.dim = .recoveryTime) ∧
        MeasuresAfresh (recordedFor w c i obj) now) ∧
    0 ≤ recoverySpec (recordedFor w c i obj) now := by
  have hheld : (judgedOn w.state c now i obj).defn.dim = .recoveryTime ↔
      ∀ a, heldAt w.state c i obj = some a → a.defn.gen = obj.gen →
        a.defn.dim = .recoveryTime := by
    rw [(judgedOn_retains w.state c now i obj).defn]
    exact acquireFrom_defn_iff (P := fun o => o.dim = .recoveryTime) hdim _
  have hreport := evaluate_recovery hev hc hobj
  rw [hdim] at hreport
  refine ⟨hreport, ?_, recoverySpec_nonneg htime⟩
  rw [← hheld, ← duration_iff htime, measuredDuration, judgedOn_recovery h]
  split
  · rename_i hd
    simp [hd]
  · rename_i hd
    simp [hd]

end Runs

/-! ## 6. A second failure -/

/-- A failure at `0` that is over at `10`; then perhaps another one at `20`. -/
def failures (again : Bool) : List (Op Binary64) :=
  [.setPolicy smallPolicy, .addContract (smallContract 1 1 1 [recoveryObjective]),
    .recordRecoveryEvent ⟨1⟩ .authoritative 0, .recordRecoveryEvent ⟨1⟩ .verified 10] ++
    if again then [.recordRecoveryEvent ⟨1⟩ .authoritative 20] else []

/-- What an evaluation at `30` measures, of which events. -/
def measuresAt (w : Watched (State Binary64) (List RecoveryEvent)) (events : List RecoveryEvent)
    (duration : Int) : Bool :=
  evaluatedOn w.state 30 recoveryObjective fun _ a =>
    measuredDuration a 30 = some duration &&
    (selectContract w.state.contracts ⟨1⟩ ⟨1⟩ 30).any fun c =>
      recordedFor w c 0 recoveryObjective = events

theorem of_measuresAt {w : Watched (State Binary64) (List RecoveryEvent)}
    {events : List RecoveryEvent} {duration : Int} (h : measuresAt w events duration = true) :
    ∃ s' res c, evaluate w.state ⟨1⟩ ⟨1⟩ 30 = some (s', .ok res) ∧
      selectContract w.state.contracts ⟨1⟩ ⟨1⟩ 30 = some c ∧
      c.objectives[0]? = some recoveryObjective ∧
      measuredDuration (judgedOn w.state c 30 0 recoveryObjective) 30 = some duration ∧
      recordedFor w c 0 recoveryObjective = events := by
  obtain ⟨s', res, c, hev, hc, hobj, h⟩ := of_evaluatedOn h
  rw [hc] at h
  obtain ⟨hmeasured, hevents⟩ := Bool.and_eq_true_iff.mp h
  exact ⟨s', res, c, hev, hc, hobj, of_decide_eq_true hmeasured, of_decide_eq_true hevents⟩

/-- **A second failure ends before it has begun**: it is measured to the boundary of the first. -/
theorem recovery_measured_fails :
    ¬∀ (obj : Objective Binary64) (w : Watched (State Binary64) (List RecoveryEvent))
      (tr : Trace Binary64) (s' : State Binary64) (service : ServiceId) (workload : WorkloadId)
      (now : Duration) (res : EvaluationResult Binary64) (c : SloContract Binary64) (i : Nat),
      Run (watch apply (noteRecovery obj.id)) (fun _ _ => True) ⟨State.fresh Binary64, []⟩ tr w →
      evaluate w.state service workload now = some (s', .ok res) →
      selectContract w.state.contracts service workload now = some c →
      c.objectives[i]? = some obj → obj.dim = .recoveryTime → InTime (recordedFor w c i obj) now →
      measuredDuration (judgedOn w.state c now i obj) now =
        some (recoverySpec (recordedFor w c i obj) now) := by
  intro hall
  have htest : (execute (watch apply (noteRecovery ⟨1⟩)) (fun _ _ => true)
      ⟨State.fresh Binary64, []⟩ (failures true)).any (fun x =>
        measuresAt x.1 [(.authoritative, 0), (.verified, 10), (.authoritative, 20)] (-10)) =
      true := by
    decide +kernel
  obtain ⟨w, tr, hrun, hw⟩ := Run.of_test (fun _ _ _ => trivial) htest
  obtain ⟨s', res, c, hev, hc, hobj, hmeasured, hevents⟩ := of_measuresAt hw
  have htime : InTime (recordedFor w c 0 recoveryObjective) 30 := by
    rw [hevents]
    exact ⟨by decide, by decide⟩
  have hspec := hall recoveryObjective w tr s' _ _ 30 res c 0 hrun hev hc hobj rfl htime
  rw [hmeasured, hevents] at hspec
  exact absurd hspec (by decide)

/-- The first one took its ten nanoseconds. -/
theorem recovery_measured_iff_small :
    ∃ (tr : Trace Binary64) (w : Watched (State Binary64) (List RecoveryEvent))
      (c : SloContract Binary64),
      Run (watch apply (noteRecovery ⟨1⟩)) (fun _ _ => True) ⟨State.fresh Binary64, []⟩ tr w ∧
      c.objectives[0]? = some recoveryObjective ∧
      recoverySpec (recordedFor w c 0 recoveryObjective) 30 = 10 ∧
      MeasuresAfresh (recordedFor w c 0 recoveryObjective) 30 := by
  have htest : (execute (watch apply (noteRecovery ⟨1⟩)) (fun _ _ => true)
      ⟨State.fresh Binary64, []⟩ (failures false)).any (fun x =>
        measuresAt x.1 [(.authoritative, 0), (.verified, 10)] 10) = true := by
    decide +kernel
  obtain ⟨w, tr, hrun, hw⟩ := Run.of_test (fun _ _ _ => trivial) htest
  obtain ⟨s', res, c, hev, hc, hobj, hmeasured, hevents⟩ := of_measuresAt hw
  have hrun' : Run (watch apply (noteRecovery recoveryObjective.id)) (fun _ _ => True)
    ⟨State.fresh Binary64, []⟩ tr w := hrun
  have htime : InTime (recordedFor w c 0 recoveryObjective) 30 := by
    rw [hevents]
    exact ⟨by decide, by decide⟩
  have hspec : recoverySpec (recordedFor w c 0 recoveryObjective) 30 = 10 := by
    rw [hevents]
    decide
  obtain ⟨_, hiff, _⟩ := recovery_measured_iff hrun' hev hc hobj rfl htime
  exact ⟨tr, w, c, hrun, hobj, hspec, (hiff.mp (by rw [hspec, hmeasured])).2⟩

end SloFabric
