/-
  File:      SloFabric/FutureDates.lean
  Subject:   Records that are dated after the call that brings them.

  * `Settled`: the bucket of a window is not past its last time; so no sample is ever late
    (`not_late`), and the last time is that of the last sample taken (`ingest_clock`);
  * `Dated`: a record that a window takes is not dated after the `now` of its own call;
  * `NoneAhead`, `NoneTurnedAway`: no window is ahead of the calls so far; no record dated at its
    `now` would be refused for its time;
  * `honest_evidence_iff`: with calls in order, the runs of such records are those in which this
    holds all along;
  * `honest_evidence_fails`: one record from the future, and one from now.
-/
import SloFabric.ActiveDefinition
import SloFabric.Admission
import SloFabric.Counting

namespace SloFabric

/-! ## 1. The time of a window -/

theorem toInt_div_pos {a c : Int64} (hc : 0 < c) : (a / c).toInt = a.toInt.tdiv c.toInt := by
  have hpos : 0 < c.toInt := Int64.lt_iff_toInt_lt.mp hc
  refine Int64.toInt_div_of_ne_right a c fun h => ?_
  rw [h] at hpos
  exact absurd hpos (by decide)

theorem div_le_div_right {a b c : Int64} (hc : 0 < c) (h : a ≤ b) : a / c ≤ b / c := by
  rw [Int64.le_iff_toInt_le, toInt_div_pos hc, toInt_div_pos hc]
  exact Int.tdiv_le_tdiv (Int64.lt_iff_toInt_lt.mp hc) (Int64.le_iff_toInt_le.mp h)

/-- The multiple of the divisor next to a number, towards zero, is no larger than the number. -/
theorem div_mul_range {a c : Int64} (hc : 0 < c) : -2 ^ 63 ≤ a.toInt.tdiv c.toInt * c.toInt ∧
    a.toInt.tdiv c.toInt * c.toInt < 2 ^ 63 := by
  have hpos : 0 < c.toInt := Int64.lt_iff_toInt_lt.mp hc
  have hlow := Int64.le_toInt a
  have hhigh := Int64.toInt_lt a
  have hnat : (a.toInt.tdiv c.toInt * c.toInt).natAbs ≤ a.toInt.natAbs := by
    rw [Int.natAbs_mul, Int.natAbs_tdiv]
    exact Nat.div_mul_le_self _ _
  rcases le_total 0 a.toInt with ha | ha
  · have hquot := mul_nonneg (Int.tdiv_nonneg ha hpos.le) hpos.le
    omega
  · have hneg := Int.tdiv_nonneg (neg_nonneg.mpr ha) hpos.le
    rw [Int.neg_tdiv] at hneg
    have hquot := mul_nonneg hneg hpos.le
    rw [neg_mul] at hquot
    omega

/-- It is in the same place among the multiples. -/
theorem div_mul_div {a c : Int64} (hc : 0 < c) : a / c * c / c = a / c := by
  have hpos : 0 < c.toInt := Int64.lt_iff_toInt_lt.mp hc
  have hrange := @div_mul_range a c hc
  have hprod : (a / c * c).toInt = a.toInt.tdiv c.toInt * c.toInt := by
    rw [Int64.toInt_mul, toInt_div_pos hc]
    exact Int.bmod_eq_of_le (by omega) (by omega)
  apply Int64.toInt_inj.mp
  rw [toInt_div_pos hc, hprod, toInt_div_pos hc, Int.mul_tdiv_cancel _ hpos.ne']

namespace SampleWindow

variable {R : Type}

/-- The bucket is not past the last time. -/
def Settled (w : SampleWindow R) : Prop :=
  w.hasBucket = true → 0 < w.interval → w.bucketStart / w.interval ≤ w.lastTime / w.interval

variable [Double R]

/-- **What an ingest does to the clock of a window**: it moves to the time of a sample that is
    taken, and stays where it is otherwise -- in particular no sample is late. -/
theorem ingest_clock {w : SampleWindow R} (h : w.Settled) (time : Duration) (value : R)
    (seq : UInt64) : (w.ingest time value seq).1.Settled ∧
      (((w.ingest time value seq).2 = .accepted ∧ (w.ingest time value seq).1.hasBucket = true ∧
        (w.ingest time value seq).1.lastTime = time) ∨
      ((w.ingest time value seq).2 ≠ .accepted ∧ (w.ingest time value seq).2 ≠ .late ∧
        (w.ingest time value seq).1.hasBucket = w.hasBucket ∧
        (w.ingest time value seq).1.lastTime = w.lastTime)) := by
  unfold ingest
  split
  · exact ⟨h, Or.inr ⟨nofun, nofun, rfl, rfl⟩⟩
  · split
    · exact ⟨h, Or.inr ⟨nofun, nofun, rfl, rfl⟩⟩
    · simp only
      split
      · exact ⟨fun _ _ => Int64.le_refl _, Or.inl ⟨rfl, rfl, rfl⟩⟩
      · rename_i hbucket
        have hbucket : w.hasBucket = true := by simpa using hbucket
        split
        · exact ⟨h, Or.inr ⟨nofun, nofun, rfl, rfl⟩⟩
        · rename_i hforth
          have hforth : w.lastTime ≤ time := Int64.not_lt.mp hforth
          -- A later time is in no earlier bucket.
          have hsettled : 0 < w.interval → w.bucketStart / w.interval ≤ time / w.interval :=
            fun hpos => Int64.le_trans (h hbucket hpos) (div_le_div_right hpos hforth)
          split
          · exact ⟨fun _ => hsettled, Or.inl ⟨rfl, hbucket, rfl⟩⟩
          · exact ⟨fun _ => hsettled, Or.inl ⟨rfl, hbucket, rfl⟩⟩
          · exact ⟨fun _ => hsettled, Or.inl ⟨rfl, hbucket, rfl⟩⟩
          all_goals
            split
            · exact ⟨h, Or.inr ⟨nofun, nofun, rfl, rfl⟩⟩
            · rename_i hinterval
              have hpos : 0 < w.interval := Int64.not_le.mp hinterval
              split
              · rename_i hlate
                exact absurd hlate (Int64.not_lt.mpr (hsettled hpos))
              · split
                · refine ⟨fun _ _ => ?_, Or.inl ⟨rfl, hbucket, rfl⟩⟩
                  rw [div_mul_div hpos]
                  exact Int64.le_refl _
                · exact ⟨fun _ => hsettled, Or.inl ⟨rfl, hbucket, rfl⟩⟩

/-- Only a sample before the last time is a rollback. -/
theorem of_rollback {w : SampleWindow R} {time : Duration} {value : R} {seq : UInt64}
    (h : (w.ingest time value seq).2 = .rollback) : w.hasBucket = true ∧ time < w.lastTime := by
  unfold ingest at h
  split at h
  · cases h
  · split at h
    · cases h
    · simp only at h
      split at h
      · cases h
      · rename_i hbucket
        split at h
        · rename_i hback
          exact ⟨by simpa using hbucket, hback⟩
        · repeat' split at h
          all_goals cases h

end SampleWindow

/-! ## 2. Records for a window -/

section Records

variable {R : Type}

/-- The store of the record is the window. -/
def ForWindow (o : Objective R) (e : EvidenceRecord R) : Prop :=
  match e.dimension with
  | .latency | .throughput | .memoryPressure => True
  | .cost => o.kind ≠ .costWindowBudget
  | .availability | .recoveryTime => False

/-- The answers of `ingest` to a record that is refused for its time. -/
def RefusedForTime (st : Status) : Prop := st = windowStatus .rollback ∨ st = windowStatus .late

variable [Double R]

/-- What becomes of the window. -/
theorem storeEvidence_window (o : Objective R) (a : ObjectiveAccumulator R)
    (e : EvidenceRecord R) :
    (ForWindow o e ∧ (storeEvidence o a e).1 = (a.sample e).1) ∨
    (¬ForWindow o e ∧ (storeEvidence o a e).1.window = a.window) := by
  unfold ForWindow
  cases h : e.dimension with
  | cost =>
    by_cases hk : o.kind = .costWindowBudget
    · refine Or.inr ⟨fun hne => hne hk, ?_⟩
      simp only [storeEvidence, h, if_pos hk]
    · refine Or.inl ⟨hk, ?_⟩
      simp only [storeEvidence, h, if_neg hk]
  | availability | recoveryTime =>
    refine Or.inr ⟨not_false, ?_⟩
    simp only [storeEvidence, h]
  | latency | throughput | memoryPressure =>
    refine Or.inl ⟨trivial, ?_⟩
    simp only [storeEvidence, h]

/-- A window refuses for its time only a sample it calls a rollback or late. -/
theorem storeEvidence_refused {o : Objective R} {a : ObjectiveAccumulator R} {e : EvidenceRecord R}
    (h : RefusedForTime (storeEvidence o a e).2) :
    ForWindow o e ∧ ((a.sample e).2 = .rollback ∨ (a.sample e).2 = .late) := by
  have hok : ¬RefusedForTime ok := by
    rintro (h | h) <;> exact absurd h (by decide)
  have hwindow : ∀ st, RefusedForTime (windowStatus st) → st = .rollback ∨ st = .late := by
    intro st hst
    unfold RefusedForTime at hst
    revert hst
    cases st <;> decide
  unfold ForWindow
  cases hd : e.dimension with
  | cost =>
    by_cases hk : o.kind = .costWindowBudget
    · simp only [storeEvidence, hd, if_pos hk] at h
      exact absurd h hok
    · simp only [storeEvidence, hd, if_neg hk] at h
      exact absurd h hok
  | availability =>
    simp only [storeEvidence, hd] at h
    exact absurd h hok
  | recoveryTime =>
    simp only [storeEvidence, hd] at h
    rcases h with h | h <;> exact absurd h (by decide)
  | latency | throughput | memoryPressure =>
    simp only [storeEvidence, hd] at h
    exact ⟨trivial, hwindow _ h⟩

/-- Nothing but a window refuses a record for its time. -/
theorem ingest_refused {s : State R} {e : EvidenceRecord R} {now : Duration}
    (h : RefusedForTime (ingest s e now).2) :
    ∃ o, Reaches s e o ∧ ForWindow o e ∧ (((receiving s e o).sample e).2 = .rollback ∨
      ((receiving s e o).sample e).2 = .late) := by
  by_cases hreach : ∃ o, Reaches s e o
  · obtain ⟨o, ho⟩ := hreach
    rw [(ingest_reaching ho now).2] at h
    exact ⟨o, ho, storeEvidence_refused h⟩
  · have hno : ∀ st ∈ refusals, ¬RefusedForTime st := by
      unfold RefusedForTime
      decide
    exact absurd h (hno _ (ingest_refusal (fun o ho => hreach ⟨o, ho⟩) now))

end Records

/-! ## 3. Runs -/

section Runs

variable {R : Type}

/-- The fabric with the `now` of the last call of `ingest`. -/
abbrev Clocked (R : Type) := Watched (State R) (Option Duration)

def noteNow (_s : State R) (last : Option Duration) (x : Op R × Response R) : Option Duration :=
  match x.1 with
  | .ingest _ now => some now
  | _ => last

/-- The calls of `ingest` are in order. -/
def Forward (w : Clocked R) : Op R → Prop
  | .ingest _ now => ∀ t, w.seen = some t → t ≤ now
  | _ => True

/-- No window is ahead of the calls so far. -/
def NoneAhead (w : Clocked R) : Prop :=
  ∀ a ∈ w.state.accumulators.rows, a.window.hasBucket = true →
    ∃ t, w.seen = some t ∧ a.window.lastTime ≤ t

variable [Double R]

/-- A record that a window takes is not dated after its own call. -/
def Dated (w : Clocked R) : Op R → Prop
  | .ingest e now => ∀ o, Reaches w.state e o → ForWindow o e →
      (receiving w.state e o).window.Takes e.time (numericOf e.value)
        (receiving w.state e o).nextSeq → e.time ≤ now
  | _ => True

/-- No record dated at its own call would be refused for its time, by `ingest` or, where `ingest`
    does not ask, by the window. -/
def NoneTurnedAway (w : Clocked R) : Prop :=
  ∀ e now, Forward w (.ingest e now) → e.time = now →
    ¬RefusedForTime (ingest w.state e now).2 ∧
    ∀ o, Reaches w.state e o → ForWindow o e →
      ((receiving w.state e o).sample e).2 ≠ .rollback ∧
      ((receiving w.state e o).sample e).2 ≠ .late

omit [Double R] in
theorem settledRule : StoreRule fun a : ObjectiveAccumulator R => a.window.Settled where
  make o := fun hbucket => by cases hbucket
  same a b hsame h := by rwa [← hsame.window] at h

omit [Double R] in
/-- A bound on the time of the windows. -/
theorem behindRule (P : Duration → Prop) : StoreRule fun a : ObjectiveAccumulator R =>
    a.window.hasBucket = true → P a.window.lastTime where
  make o := fun hbucket => by cases hbucket
  same a b hsame h := by rwa [← hsame.window] at h

theorem storeEvidence_settled (o : Objective R) {a : ObjectiveAccumulator R}
    (h : a.window.Settled) (e : EvidenceRecord R) : (storeEvidence o a e).1.window.Settled := by
  rcases storeEvidence_window o a e with ⟨_, hs⟩ | ⟨_, hs⟩
  · rw [hs]
    exact (SampleWindow.ingest_clock h _ _ _).1
  · rwa [hs]

/-- A sample that is taken moves the clock of the window to its time. -/
theorem sample_taken {a : ObjectiveAccumulator R} (h : a.window.Settled) {e : EvidenceRecord R}
    (hok : (a.sample e).2 = .accepted) : (a.sample e).1.window.hasBucket = true ∧
      (a.sample e).1.window.lastTime = e.time := by
  rcases (SampleWindow.ingest_clock h e.time (numericOf e.value) a.nextSeq).2 with
    ⟨_, hclock⟩ | ⟨hno, _⟩
  · exact hclock
  · exact absurd hok hno

/-- One that is not leaves it where it is, and is not late. -/
theorem sample_untaken {a : ObjectiveAccumulator R} (h : a.window.Settled) {e : EvidenceRecord R}
    (hno : (a.sample e).2 ≠ .accepted) : (a.sample e).2 ≠ .late ∧
      (a.sample e).1.window.hasBucket = a.window.hasBucket ∧
      (a.sample e).1.window.lastTime = a.window.lastTime := by
  rcases (SampleWindow.ingest_clock h e.time (numericOf e.value) a.nextSeq).2 with
    ⟨hok, _⟩ | ⟨_, hclock⟩
  · exact absurd hok hno
  · exact hclock

/-- **Honest records are heard**, where no window is ahead. -/
theorem heard_of_noneAhead {w : Clocked R}
    (hs : ∀ a ∈ w.state.accumulators.rows, a.window.Settled) (hw : NoneAhead w) :
    NoneTurnedAway w := by
  intro e now hforward htime
  have hsample : ∀ o, Reaches w.state e o → ForWindow o e →
      ((receiving w.state e o).sample e).2 ≠ .rollback ∧
      ((receiving w.state e o).sample e).2 ≠ .late := by
    intro o _ _
    constructor
    · intro hback
      obtain ⟨hbucket, hlt⟩ := SampleWindow.of_rollback hback
      have hrow := (behindRule fun t => ∃ last, w.seen = some last ∧ t ≤ last).received hw e o
      obtain ⟨last, hlast, hle⟩ := hrow hbucket
      rw [htime] at hlt
      exact Int64.lt_irrefl (Int64.lt_of_lt_of_le hlt (Int64.le_trans hle (hforward last hlast)))
    · intro hlate
      exact (sample_untaken (settledRule.received hs e o) (by rw [hlate]; nofun)).1 hlate
  refine ⟨fun hrefused => ?_, hsample⟩
  obtain ⟨o, ho, hfor, hbad⟩ := ingest_refused hrefused
  exact hbad.elim (hsample o ho hfor).1 (hsample o ho hfor).2

/-- An `ingest` puts no window ahead of its call exactly if its record is not dated after it. -/
theorem noneAhead_ingest {w : Clocked R} (hs : ∀ a ∈ w.state.accumulators.rows, a.window.Settled)
    {e : EvidenceRecord R} {now : Duration}
    (hbehind : ∀ a ∈ w.state.accumulators.rows, a.window.hasBucket = true →
      a.window.lastTime ≤ now) :
    (∀ a ∈ (ingest w.state e now).1.accumulators.rows, a.window.hasBucket = true →
      a.window.lastTime ≤ now) ↔ Dated w (.ingest e now) := by
  constructor
  · intro hall o ho hfor htakes
    have hrow := hall (storeEvidence o (receiving w.state e o) e).1
      (by rw [(ingest_reaching ho now).1]; exact KeyedTable.mem_insert.mpr (Or.inl rfl))
    rcases storeEvidence_window o (receiving w.state e o) e with ⟨_, hstore⟩ | ⟨hno, _⟩
    · rw [hstore] at hrow
      obtain ⟨hbucket, hlast⟩ := sample_taken (settledRule.received hs e o)
        ((accepted_iff_takes _ _ _ _).mpr htakes)
      exact hlast ▸ hrow hbucket
    · exact absurd hfor hno
  · intro hdated
    refine (behindRule (· ≤ now)).ingested hbehind fun o ho hbucket => ?_
    have hreceived := (behindRule (· ≤ now)).received hbehind e o
    rcases storeEvidence_window o (receiving w.state e o) e with ⟨hfor, hstore⟩ | ⟨_, hstore⟩
    · rw [hstore] at hbucket ⊢
      by_cases hok : ((receiving w.state e o).sample e).2 = .accepted
      · obtain ⟨_, hlast⟩ := sample_taken (settledRule.received hs e o) hok
        exact hlast.symm ▸ hdated o ho hfor ((accepted_iff_takes _ _ _ _).mp hok)
      · obtain ⟨_, hsame, hlast⟩ := sample_untaken (settledRule.received hs e o) hok
        exact hlast.symm ▸ hreceived (hsame ▸ hbucket)
    · rw [hstore] at hbucket ⊢
      exact hreceived hbucket

variable [Pod R]

/-- **The step lemma**: among calls in order, a step puts no window ahead exactly if the record it
    brings is not dated after it. -/
theorem noneAhead_step [Platform R] {w w' : Clocked R} {op : Op R} {r : Response R}
    (hs : ∀ a ∈ w.state.accumulators.rows, a.window.Settled) (hw : NoneAhead w)
    (hforward : Forward w op) (h : watch apply noteNow w op = some (w', r)) :
    NoneAhead w' ↔ Dated w op := by
  obtain ⟨hstep, hseen⟩ := watch_cases h
  by_cases hing : ∃ e now, op = .ingest e now
  · obtain ⟨e, now, rfl⟩ := hing
    obtain ⟨hstate, -⟩ := Prod.mk.inj (Option.some.inj hstep)
    have hnow : w'.seen = some now := hseen
    have hahead : NoneAhead w' ↔ ∀ a ∈ w'.state.accumulators.rows, a.window.hasBucket = true →
        a.window.lastTime ≤ now := by
      refine forall_congr' fun a => forall_congr' fun _ => forall_congr' fun _ => ?_
      rw [hnow]
      exact ⟨fun ⟨t, ht, hle⟩ => Option.some.inj ht ▸ hle, fun hle => ⟨now, rfl, hle⟩⟩
    rw [hahead, ← hstate]
    -- Behind the last call, and so behind this one.
    refine noneAhead_ingest hs fun a ha hbucket => ?_
    obtain ⟨t, ht, hle⟩ := hw a ha hbucket
    exact Int64.le_trans hle (hforward t ht)
  · have hkeep : w'.seen = w.seen := by
      rw [hseen]
      cases op with
      | ingest e now => exact absurd ⟨e, now, rfl⟩ hing
      | _ => rfl
    have hdated : Dated w op := by
      cases op with
      | ingest e now => exact absurd ⟨e, now, rfl⟩ hing
      | _ => trivial
    refine iff_of_true ?_ hdated
    unfold NoneAhead
    rw [hkeep]
    exact (behindRule fun t => ∃ last, w.seen = some last ∧ t ≤ last).step hstep hw
      fun e now o heq _ => absurd ⟨e, now, heq⟩ hing

theorem settled_step [Platform R] {w w' : Clocked R} {op : Op R} {r : Response R}
    (hs : ∀ a ∈ w.state.accumulators.rows, a.window.Settled)
    (h : watch apply noteNow w op = some (w', r)) :
    ∀ a ∈ w'.state.accumulators.rows, a.window.Settled :=
  settledRule.step (watch_cases h).1 hs fun e _ o _ _ =>
    storeEvidence_settled o (settledRule.received hs e o) e

/-- **When honest records are heard.** Of all runs in which the calls of `ingest` are in order: no
    record that a window takes is dated after its own call if and only if no window is ahead of the
    calls all along; and then no record dated at its own call is ever refused for its time. -/
theorem honest_evidence_iff [Platform R] {w : Clocked R} {tr : Trace R} :
    Run (watch apply noteNow) (fun w op => Forward w op ∧ Dated w op) ⟨State.fresh R, none⟩ tr w ↔
      Run (watch apply noteNow) (fun w op => Forward w op ∧ NoneAhead w ∧ NoneTurnedAway w)
        ⟨State.fresh R, none⟩ tr w ∧ NoneAhead w ∧ NoneTurnedAway w := by
  have hfresh : NoneAhead (⟨State.fresh R, none⟩ : Clocked R) :=
    fun a ha => absurd ha List.not_mem_nil
  have hsettled : ∀ a ∈ (State.fresh R).accumulators.rows, a.window.Settled :=
    fun a ha => absurd ha List.not_mem_nil
  rw [Run.kept_under_iff
    (I := fun w : Clocked R => NoneAhead w ∧ ∀ a ∈ w.state.accumulators.rows, a.window.Settled)
    ⟨hfresh, hsettled⟩ fun w op w' r hi hb hs =>
      (and_iff_left (settled_step hi.2 hs)).trans (noneAhead_step hi.2 hi.1 hb hs)]
  constructor
  · rintro ⟨hrun, hahead, hs⟩
    exact ⟨hrun.mono fun w op h => ⟨h.1, h.2.1, heard_of_noneAhead h.2.2 h.2.1⟩, hahead,
      heard_of_noneAhead hs hahead⟩
  · rintro ⟨hrun, hahead, _⟩
    obtain ⟨halong, hs⟩ := hrun.along (J := fun w : Clocked R =>
      ∀ a ∈ w.state.accumulators.rows, a.window.Settled) hsettled
      fun w op w' r hs _ hstep => settled_step hs hstep
    exact ⟨halong.mono fun w op h => ⟨h.1.1, h.1.2.1, h.2⟩, hahead, hs⟩

end Runs

/-! ## 4. One record from the future -/

/-- `Forward`, as a test. -/
def forwardTest (w : Clocked Binary64) : Op Binary64 → Bool
  | .ingest _ now => w.seen.all fun t => decide (t ≤ now)
  | _ => true

theorem forward_of_test {w : Clocked Binary64} {op : Op Binary64} (h : forwardTest w op = true) :
    Forward w op := by
  cases op with
  | ingest e now =>
    intro t ht
    rw [forwardTest, ht] at h
    exact of_decide_eq_true h
  | _ => trivial

/-- A latency at a time. -/
def latencyAt (id : UInt64) (time : Duration) : EvidenceRecord Binary64 :=
  { smallEvidence id 1 50000000 with time := time }

/-- **A record of time 100 arrives at 0, and the one of time 10 is refused at 10.** -/
theorem honest_evidence_fails :
    ¬∀ (w : Clocked Binary64) (tr : Trace Binary64),
      Run (watch apply noteNow) Forward ⟨State.fresh Binary64, none⟩ tr w → NoneTurnedAway w := by
  intro hall
  have htest : (execute (watch apply noteNow) forwardTest ⟨State.fresh Binary64, none⟩
      [.setPolicy smallPolicy, .addContract (smallContract 1 1 1 [smallObjective 1 1]),
        .ingest (latencyAt 1 100) 0]).any (fun x => x.1.seen = some 0 &&
          (ingest x.1.state (latencyAt 2 10) 10).2 = windowStatus .rollback) = true := by
    decide +kernel
  obtain ⟨w, tr, hrun, hbad⟩ := Run.of_test (fun _ _ => forward_of_test) htest
  obtain ⟨hseen, hrefused⟩ := Bool.and_eq_true_iff.mp hbad
  refine (hall w tr hrun (latencyAt 2 10) 10 ?_ rfl).1 (Or.inl (of_decide_eq_true hrefused))
  intro t ht
  rw [of_decide_eq_true hseen] at ht
  cases ht
  decide

end SloFabric
