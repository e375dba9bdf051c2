/-
  File:      SloFabric/Counting.lean
  Subject:   Whether an accepted record counts for the objective it was reported for.

  A record is checked against its objective, but routed by its own dimension.

  * `readStore`: the store an objective is measured from, with `measured_reads`: nothing else is
    read;
  * `put`: an accumulator with a record put into a store; `put_inj`: into which, is seen from it;
  * `SampleWindow.Takes`, `ingest_last`, `add_last`: what a store takes is the last it holds;
  * `RoutesToRead`: the record's dimension selects the store that is read, and a cost is taken by
    the window it is offered to;
  * `accepted_counts_iff`: when an accepted record counts;
  * `accepted_counts_fails`: a cost that came late is accepted and dropped.
-/
import SloFabric.Minimum
import SloFabric.ActiveDefinition
import Mathlib.Data.List.TakeWhile

namespace SloFabric

variable {R : Type}

/-! ## 1. The store that is read -/

/-- The store an objective is measured from, by the definition held. -/
def readStore (a : ObjectiveAccumulator R) : Option Store :=
  match a.defn.dim with
  | .availability => some (.availability a.avail.mode)
  | .recoveryTime => none
  | .cost => if a.defn.kind = .costWindowBudget then some .cost else some .window
  | .latency | .throughput | .memoryPressure => some .window

/-- The totals an account's ratio is computed from. -/
def AvailabilityAccount.totals (a : AvailabilityAccount) : Int64 × Int64 :=
  match a.mode with
  | .time => (a.eligibleTime, a.servingTime)
  | .requests => (a.eligible, a.successful)

/-- What is in the store that is read -- the recovery record, if none is -- is the same. -/
def SameRead (a b : ObjectiveAccumulator R) : Prop :=
  match readStore a with
  | some .window => b.window.samples = a.window.samples
  | some (.availability _) => b.avail.mode = a.avail.mode ∧ b.avail.totals = a.avail.totals
  | some .cost => b.cost.items = a.cost.items
  | none => b.recovery = a.recovery

section Stores

variable [Double R]

/-- **A measurement reads one store.** -/
theorem measured_reads {a b : ObjectiveAccumulator R} (hdefn : b.defn = a.defn)
    (hread : SameRead a b) (now : Duration) : computeMeasured b now = computeMeasured a now := by
  have hwindow (h : b.window.samples = a.window.samples) : b.window.size = a.window.size ∧
      b.window.isEmpty = a.window.isEmpty ∧ b.window.mean = a.window.mean ∧
      (∀ p, b.window.quantileSufficient p = a.window.quantileSufficient p) ∧
      windowValue b = windowValue a := by
    simp [windowValue, SampleWindow.quantile, SampleWindow.quantileSufficient, SampleWindow.mean,
      SampleWindow.max, SampleWindow.min, SampleWindow.sum, SampleWindow.values, SampleWindow.size,
      SampleWindow.isEmpty, h, hdefn]
  unfold SameRead readStore at hread
  unfold computeMeasured
  simp only [hdefn]
  cases hd : a.defn.dim with
  | availability =>
    simp only [hd] at hread ⊢
    obtain ⟨hmode, htotals⟩ := hread
    unfold AvailabilityAccount.totals at htotals
    rw [hmode] at htotals
    unfold AvailabilityAccount.hasDenominator AvailabilityAccount.ratio
    rw [hmode]
    cases hm : a.avail.mode with
    | time | requests =>
      simp only [hm, Prod.mk.injEq] at htotals ⊢
      simp only [htotals.1, htotals.2, if_true]
  | recoveryTime =>
    simp only [hd] at hread ⊢
    rw [hread]
  | cost =>
    simp only [hd] at hread ⊢
    by_cases hk : a.defn.kind = .costWindowBudget
    · rw [if_pos hk] at hread
      simp only [hk, if_true, CostWindow.sum, hread]
    · rw [if_neg hk] at hread
      obtain ⟨hsize, hempty, hmean, _⟩ := hwindow hread
      simp only [hk, if_false, hsize, hempty, hmean]
  | latency | throughput | memoryPressure =>
    simp only [hd] at hread ⊢
    obtain ⟨hsize, hempty, _, hrank, hvalue⟩ := hwindow hread
    simp only [hsize, hempty, hrank, hvalue]

/-! ## 2. Putting a record into a store -/

/-- The accumulator with a record put into a store. -/
def put (st : Store) (o : Objective R) (a : ObjectiveAccumulator R) (e : EvidenceRecord R) :
    ObjectiveAccumulator R :=
  match st with
  | .window => (a.sample e).1
  | .availability mode =>
    { a with avail := a.avail.add mode (evidenceWeight e) (servingUnits e) }
  | .cost => { a with cost := a.cost.add e.time (numericOf e.value) o.windowDuration }

omit [Double R] in
/-- Another cost window leaves everything else alone. -/
theorem withCost_keeps (a : ObjectiveAccumulator R) (cost : CostWindow R) :
    { a with cost := cost }.nextSeq = a.nextSeq ∧ { a with cost := cost }.avail = a.avail ∧
      { a with cost := cost }.defn = a.defn ∧ { a with cost := cost }.window = a.window ∧
      { a with cost := cost }.recovery = a.recovery :=
  ⟨rfl, rfl, rfl, rfl, rfl⟩

theorem put_nextSeq (st : Store) (o : Objective R) (a : ObjectiveAccumulator R)
    (e : EvidenceRecord R) :
    (put st o a e).nextSeq = if st = .window then a.nextSeq + 1 else a.nextSeq := by
  cases st with
  | window | availability => rfl
  | cost => exact (withCost_keeps a _).1

theorem put_avail (st : Store) (o : Objective R) (a : ObjectiveAccumulator R)
    (e : EvidenceRecord R) : (put st o a e).avail = a.avail.count (st, e) := by
  cases st with
  | window | availability => rfl
  | cost => exact (withCost_keeps a _).2.1

omit [Double R] in
theorem add_weight_ne (x : Int64) (e : EvidenceRecord R) : x + evidenceWeight e ≠ x := by
  intro heq
  have hzero : evidenceWeight e = 0 := by simpa using heq
  have hpos := evidenceWeight_pos e
  rw [hzero] at hpos
  exact absurd hpos (by decide)

/-- What a record is counted under is seen from the totals. -/
theorem count_ne {a : AvailabilityAccount} {e : EvidenceRecord R} {mode : AvailabilityMode}
    {st : Store} (hst : st ≠ .availability mode) :
    a.count (.availability mode, e) ≠ a.count (st, e) := by
  intro h
  have htime := congrArg AvailabilityAccount.eligibleTime h
  have hrequests := congrArg AvailabilityAccount.eligible h
  cases mode with
  | time =>
    refine add_weight_ne a.eligibleTime e (htime.trans ?_)
    cases st with
    | window | cost => rfl
    | availability mode =>
      cases mode with
      | time => exact absurd rfl hst
      | requests => rfl
  | requests =>
    refine add_weight_ne a.eligible e (hrequests.trans ?_)
    cases st with
    | window | cost => rfl
    | availability mode =>
      cases mode with
      | time => rfl
      | requests => exact absurd rfl hst

/-- What a record is put into is seen from the accumulator. -/
theorem put_inj {st st' : Store} {o : Objective R} {a : ObjectiveAccumulator R}
    {e : EvidenceRecord R} (h : put st o a e = put st' o a e) : st = st' := by
  have hnext := congrArg ObjectiveAccumulator.nextSeq h
  have havail := congrArg ObjectiveAccumulator.avail h
  rw [put_nextSeq, put_nextSeq] at hnext
  rw [put_avail, put_avail] at havail
  by_contra hne
  cases st with
  | availability mode => exact count_ne (Ne.symm hne) havail
  | window =>
    rw [if_pos rfl, if_neg (Ne.symm hne)] at hnext
    simp at hnext
  | cost =>
    cases st' with
    | availability mode => exact count_ne hne havail.symm
    | window => simp at hnext
    | cost => exact hne rfl

/-- A record that enters a store is put into it. -/
theorem storeEvidence_put {o : Objective R} {a : ObjectiveAccumulator R} {e : EvidenceRecord R}
    {st : Store} (h : storeOf o a e = some st) : (storeEvidence o a e).1 = put st o a e := by
  unfold storeOf at h
  cases hd : e.dimension with
  | availability =>
    rw [hd] at h
    cases h
    simp only [storeEvidence, hd, put]
  | cost =>
    simp only [hd] at h
    by_cases hk : o.kind = .costWindowBudget
    · rw [if_pos hk] at h
      cases h
      simp only [storeEvidence, hd, if_pos hk, put]
    · rw [if_neg hk] at h
      split at h
      · cases h
        simp only [storeEvidence, hd, if_neg hk, put]
      · cases h
  | recoveryTime => rw [hd] at h; cases h
  | _ =>
    simp only [hd] at h
    split at h
    · cases h
      simp only [storeEvidence, hd, put]
    · cases h

/-! ## 3. What is put into a store is there -/

/-- When a window takes a sample: it is a number in range, and it is late neither by its number nor
    by its time. -/
def SampleWindow.Takes (w : SampleWindow R) (time : Duration) (value : R) (seq : UInt64) : Prop :=
  (Double.eq value value = true ∧ Double.lt (Double.ofRat (10 ^ 300)) value = false) ∧
    w.lastSeq < seq ∧
    (w.hasBucket = true → w.lastTime ≤ time ∧
      (w.type = .tumbling ∨ w.type = .fixedInterval →
        0 < w.interval ∧ w.bucketStart / w.interval ≤ time / w.interval))

theorem SampleWindow.Takes.forth {w : SampleWindow R} {time : Duration} {value : R} {seq : UInt64}
    (h : w.Takes time value seq) (hbucket : w.hasBucket = true) : w.lastTime ≤ time :=
  (h.2.2 hbucket).1

theorem accepted_iff_takes (w : SampleWindow R) (time : Duration) (value : R) (seq : UInt64) :
    (w.ingest time value seq).2 = .accepted ↔ w.Takes time value seq := by
  unfold SampleWindow.ingest SampleWindow.Takes
  split
  · rename_i hvalue
    refine ⟨nofun, fun h => ?_⟩
    obtain ⟨⟨hnumber, hrange⟩, _⟩ := h
    simp [hnumber, hrange] at hvalue
  · rename_i hvalue
    have hnumber : Double.eq value value = true ∧
        Double.lt (Double.ofRat (10 ^ 300)) value = false := by simpa using hvalue
    split
    · rename_i hseq
      exact ⟨nofun, fun h => absurd h.2.1 (UInt64.not_lt.mpr hseq)⟩
    · rename_i hseq
      have hnew : w.lastSeq < seq := UInt64.not_le.mp hseq
      simp only
      split
      · rename_i hfirst
        have hnone : w.hasBucket = false := by simpa using hfirst
        simp [hnumber, hnew, hnone]
      · rename_i hlater
        have hbucket : w.hasBucket = true := by simpa using hlater
        split
        · rename_i hback
          exact ⟨nofun, fun h => absurd (h.2.2 hbucket).1 (Int64.not_le.mpr hback)⟩
        · rename_i hforth
          have htime : w.lastTime ≤ time := Int64.not_lt.mp hforth
          cases htype : w.type with
          | instantaneous | sliding | rollingCount => simp [hnumber, hnew, htime]
          | tumbling | fixedInterval =>
            simp only [hnumber, hnew, hbucket, htime, true_and, true_implies]
            by_cases hinterval : w.interval ≤ 0
            · rw [if_pos hinterval]
              exact ⟨nofun, fun h => absurd (h (by simp)).1 (Int64.not_lt.mpr hinterval)⟩
            · rw [if_neg hinterval]
              have hpos : 0 < w.interval := Int64.not_le.mp hinterval
              by_cases hearlier : time / w.interval < w.bucketStart / w.interval
              · rw [if_pos hearlier]
                exact ⟨nofun, fun h => absurd (h (by simp)).2 (Int64.not_le.mpr hearlier)⟩
              · rw [if_neg hearlier]
                have hle := Int64.not_lt.mp hearlier
                split
                · exact ⟨fun _ _ => ⟨hpos, hle⟩, fun _ => rfl⟩
                · exact ⟨fun _ _ => ⟨hpos, hle⟩, fun _ => rfl⟩

omit [Double R] in
/-- Nothing older than itself drops a sample. -/
theorem evictByAge_ne_nil (interval : Duration) (l : List (WindowSample R)) (x : WindowSample R) :
    SampleWindow.evictByAge interval x.time (l ++ [x]) ≠ [] := by
  unfold SampleWindow.evictByAge
  split
  · simp
  · rename_i hpos
    intro hnil
    have hall := List.dropWhile_eq_nil_iff.mp hnil x (by simp)
    rw [decide_eq_true_eq, Int64.sub_self] at hall
    exact hpos hall

omit [Double R] in
theorem evictOver_ne_nil {capacity : Nat} (hcap : 1 ≤ capacity) {l : List (WindowSample R)}
    (hl : l ≠ []) : SampleWindow.evictOver capacity l ≠ [] := by
  have hlen := List.length_pos_iff.mpr hl
  intro hnil
  have hshort := List.drop_eq_nil_iff.mp hnil
  omega

/-- **A sample that is accepted is the last one held**, whatever goes for it. -/
theorem ingest_last {w : SampleWindow R} {time : Duration} {value : R} {seq : UInt64}
    (hcap : 1 ≤ w.capacity) (h : (w.ingest time value seq).2 = .accepted) :
    (w.ingest time value seq).1.samples.getLast? = some ⟨time, value, seq⟩ := by
  unfold SampleWindow.ingest at h ⊢
  split at h
  · cases h
  · rename_i hvalue
    rw [if_neg hvalue]
    split at h
    · cases h
    · rename_i hseq
      rw [if_neg hseq]
      simp only at h ⊢
      split at h
      · rename_i hfirst
        rw [if_pos hfirst]
        exact List.getLast?_concat
      · rename_i hlater
        rw [if_neg hlater]
        split at h
        · cases h
        · rename_i hforth
          rw [if_neg hforth]
          cases htype : w.type with
          | instantaneous => rfl
          | sliding =>
            exact suffix_last ((evictOver_suffix _ _).trans (evictByAge_suffix _ _ _))
              (evictOver_ne_nil hcap (evictByAge_ne_nil _ _ ⟨time, value, seq⟩))
          | rollingCount =>
            exact suffix_last (evictOver_suffix _ _) (evictOver_ne_nil hcap (by simp))
          | tumbling | fixedInterval =>
            simp only [htype] at h ⊢
            split at h
            · cases h
            · rename_i hinterval
              rw [if_neg hinterval]
              split at h
              · cases h
              · rename_i hearlier
                rw [if_neg hearlier]
                split
                · rfl
                · exact List.getLast?_concat

omit [Double R] in
/-- A cost that is added is the last one held. -/
theorem add_last (w : CostWindow R) (t : Duration) (cost : R) (windowNs : Int64) :
    (w.add t cost windowNs).items.getLast? = some (t, cost) := by
  refine suffix_last (add_suffix w t cost windowNs) ?_
  unfold CostWindow.add CostWindow.evict
  have hcap : 1 ≤ costWindowCap := by decide
  generalize costWindowCap = cap at hcap
  simp only
  intro hnil
  have hshort := List.drop_eq_nil_iff.mp hnil
  split at hshort
  · rename_i hpos
    have hleft : (w.items ++ [(t, cost)]).dropWhile
        (fun p => decide (windowNs < t - p.1)) ≠ [] := by
      intro hnone
      have hall := List.dropWhile_eq_nil_iff.mp hnone (t, cost) (by simp)
      rw [decide_eq_true_eq, Int64.sub_self] at hall
      exact absurd hall (Int64.not_lt.mpr (Int64.le_of_lt hpos))
    have hlen := List.length_pos_iff.mpr hleft
    omega
  · rw [List.length_append, List.length_singleton] at hshort
    omega

/-! ## 4. When an accepted record counts -/

/-- The record's dimension selects the store the objective is measured from, and a cost is taken by
    the window it is offered to. -/
def RoutesToRead (o : Objective R) (a : ObjectiveAccumulator R) (e : EvidenceRecord R) : Prop :=
  match e.dimension with
  | .latency | .throughput | .memoryPressure => readStore a = some .window
  | .availability => readStore a = some (.availability o.availabilityMode)
  | .cost =>
    if o.kind = .costWindowBudget then readStore a = some .cost
    else readStore a = some .window ∧ a.window.Takes e.time (numericOf e.value) a.nextSeq
  | .recoveryTime => False

/-- What is there of a record that was put into a store. -/
def Contributed (st : Store) (a b : ObjectiveAccumulator R) (e : EvidenceRecord R) : Prop :=
  match st with
  | .window => b.window.samples.getLast? = some ⟨e.time, numericOf e.value, a.nextSeq⟩
  | .availability mode => b.avail = a.avail.add mode (evidenceWeight e) (servingUnits e)
  | .cost => b.cost.items.getLast? = some (e.time, numericOf e.value)

/-- **The record counts**: `b` is `a` with the record put into the store that is read. -/
def Counted (o : Objective R) (a b : ObjectiveAccumulator R) (e : EvidenceRecord R) : Prop :=
  ∃ st, readStore b = some st ∧ b = put st o (a.remember e.id) e ∧
    (st = .window → a.window.Takes e.time (numericOf e.value) a.nextSeq)

theorem sample_accepted_iff (a : ObjectiveAccumulator R) (e : EvidenceRecord R) :
    (a.sample e).2 = .accepted ↔ a.window.Takes e.time (numericOf e.value) a.nextSeq :=
  accepted_iff_takes _ _ _ _

/-- A record that is accepted enters a store, or is a cost the window does not take. -/
theorem storeOf_cases {o : Objective R} {a : ObjectiveAccumulator R} {e : EvidenceRecord R}
    (h : (storeEvidence o a e).2.isOk = true) :
    (∃ st, storeOf o a e = some st ∧
      (st = .window → a.window.Takes e.time (numericOf e.value) a.nextSeq) ∧
      (RoutesToRead o a e ↔ readStore a = some st)) ∨
    (storeOf o a e = none ∧ (storeEvidence o a e).1 = put .window o a e ∧
      ¬a.window.Takes e.time (numericOf e.value) a.nextSeq ∧ ¬RoutesToRead o a e) := by
  cases hd : e.dimension with
  | availability =>
    refine Or.inl ⟨.availability o.availabilityMode, by simp only [storeOf, hd],
      (fun h => by cases h), ?_⟩
    simp only [RoutesToRead, hd]
  | cost =>
    simp only [storeOf, storeEvidence, RoutesToRead, hd]
    by_cases hk : o.kind = .costWindowBudget
    · simp only [if_pos hk]
      exact Or.inl ⟨_, rfl, (fun h => by cases h), Iff.rfl⟩
    · simp only [if_neg hk]
      by_cases htakes : a.window.Takes e.time (numericOf e.value) a.nextSeq
      · rw [if_pos ((sample_accepted_iff a e).mpr htakes)]
        exact Or.inl ⟨_, rfl, fun _ => htakes, and_iff_left htakes⟩
      · rw [if_neg (mt (sample_accepted_iff a e).mp htakes)]
        exact Or.inr ⟨rfl, rfl, htakes, fun hroutes => htakes hroutes.2⟩
  | recoveryTime =>
    simp only [storeEvidence, hd] at h
    cases h
  | latency | throughput | memoryPressure =>
    simp only [storeEvidence, hd] at h
    have haccepted := (windowStatus_isOk _).mp h
    refine Or.inl ⟨.window, by simp only [storeOf, hd, if_pos haccepted],
      fun _ => (sample_accepted_iff a e).mp haccepted, ?_⟩
    simp only [RoutesToRead, hd]

/-- A record does not change what is read. -/
theorem put_readStore (st : Store) (o : Objective R) (a : ObjectiveAccumulator R)
    (e : EvidenceRecord R) : readStore (put st o a e) = readStore a := by
  have hmode : (put st o a e).avail.mode = a.avail.mode := by
    rw [put_avail]
    cases st with
    | window | cost => rfl
    | availability mode => exact add_mode _ _ _ _
  have hdefn : (put st o a e).defn = a.defn := by
    cases st with
    | window | availability => rfl
    | cost => exact (withCost_keeps a _).2.2.1
  unfold readStore
  rw [hdefn, hmode]

/-- **An accepted record counts if it is routed to the store that is read.** -/
theorem counted_iff {o : Objective R} {a b : ObjectiveAccumulator R} {e : EvidenceRecord R}
    (hok : (storeEvidence o (a.remember e.id) e).2.isOk = true)
    (hb : b = (storeEvidence o (a.remember e.id) e).1) :
    Counted o a b e ↔ RoutesToRead o a e := by
  subst hb
  rcases storeOf_cases hok with ⟨st, hst, htakes, hroutes⟩ | ⟨_, hput, htakes, hroutes⟩
  · have hput := storeEvidence_put hst
    rw [hput]
    refine Iff.trans ⟨?_, fun hread => ?_⟩ hroutes.symm
    · rintro ⟨st', hread, heq, _⟩
      rw [put_inj heq, ← hread, put_readStore]
    · exact ⟨st, (put_readStore _ _ _ _).trans hread, rfl, htakes⟩
  · rw [hput]
    refine ⟨?_, fun h => absurd h hroutes⟩
    rintro ⟨st', _, heq, htakes'⟩
    exact absurd (htakes' (put_inj heq).symm) htakes

/-- What counts for a window is taken by it. -/
theorem Counted.taken {o : Objective R} {a b : ObjectiveAccumulator R} {e : EvidenceRecord R}
    (h : Counted o a b e) (hwindow : readStore a = some .window) :
    a.window.Takes e.time (numericOf e.value) a.nextSeq := by
  obtain ⟨st, hread, rfl, htakes⟩ := h
  rw [put_readStore] at hread
  exact htakes (Option.some.inj (hread.symm.trans hwindow))

/-- A record that counts is there. -/
theorem Counted.contributed {o : Objective R} {a b : ObjectiveAccumulator R} {e : EvidenceRecord R}
    (hcap : 1 ≤ a.window.capacity) (h : Counted o a b e) :
    ∃ st, readStore b = some st ∧ Contributed st a b e := by
  obtain ⟨st, hread, rfl, htakes⟩ := h
  refine ⟨st, hread, ?_⟩
  cases st with
  | window => exact ingest_last hcap ((accepted_iff_takes _ _ _ _).mpr (htakes rfl))
  | availability mode => rfl
  | cost => exact add_last _ _ _ _

omit [Double R] in
/-- The mode of the store that is read is that of the account. -/
theorem readStore_mode {a : ObjectiveAccumulator R} {mode : AvailabilityMode}
    (h : readStore a = some (.availability mode)) : mode = a.avail.mode := by
  unfold readStore at h
  split at h
  · cases h
    rfl
  · cases h
  · split at h <;> cases h
  all_goals cases h

/-- The totals of another mode are not read. -/
theorem add_totals (a : AvailabilityAccount) {mode : AvailabilityMode} (h : mode ≠ a.mode)
    (weight serving : Int64) : (a.add mode weight serving).totals = a.totals := by
  obtain ⟨amode, _, _, _, _⟩ := a
  cases mode <;> cases amode <;> first | exact absurd rfl h | rfl

/-- Another store is not read. -/
theorem put_sameRead {st : Store} {o : Objective R} {a : ObjectiveAccumulator R}
    {e : EvidenceRecord R} (hst : readStore a ≠ some st) : SameRead a (put st o a e) := by
  have havail := put_avail st o a e
  unfold SameRead
  cases st with
  | window =>
    split
    · rename_i hread
      exact absurd hread hst
    · rw [havail]
      exact ⟨rfl, rfl⟩
    · rfl
    · rfl
  | availability mode =>
    split
    · rfl
    · rename_i mode' hread
      have hother : mode ≠ a.avail.mode := fun heq =>
        hst (hread.trans (by rw [heq, readStore_mode hread]))
      rw [havail]
      exact ⟨add_mode _ _ _ _, add_totals _ hother _ _⟩
    · rfl
    · rfl
  | cost =>
    obtain ⟨_, _, _, hwindow, hrecovery⟩ :=
      withCost_keeps a (a.cost.add e.time (numericOf e.value) o.windowDuration)
    split
    · exact congrArg SampleWindow.samples hwindow
    · rw [havail]
      exact ⟨rfl, rfl⟩
    · rename_i hread
      exact absurd hread hst
    · exact hrecovery

/-- A record that does not count changes nothing that is read. -/
theorem not_counted_sameRead {o : Objective R} {a b : ObjectiveAccumulator R}
    {e : EvidenceRecord R} (hok : (storeEvidence o (a.remember e.id) e).2.isOk = true)
    (hb : b = (storeEvidence o (a.remember e.id) e).1) (h : ¬RoutesToRead o a e) :
    SameRead (a.remember e.id) b := by
  subst hb
  rcases storeOf_cases hok with ⟨st, hst, _, hroutes⟩ | ⟨hnone, hput, htakes, _⟩
  · rw [storeEvidence_put hst]
    exact put_sameRead fun hread => h (hroutes.mpr hread)
  · rw [hput]
    by_cases hread : readStore (a.remember e.id) = some .window
    · have hsamples : (put .window o (a.remember e.id) e).window.samples = a.window.samples := by
        rcases ingest_samples a.window e.time (numericOf e.value) a.nextSeq with ⟨hyes, _⟩ | ⟨_, hs⟩
        · exact absurd ((accepted_iff_takes _ _ _ _).mp hyes) htakes
        · exact hs
      unfold SameRead
      rw [hread]
      exact hsamples
    · exact put_sameRead hread

/-- An offer that is accepted is put into a store. -/
theorem offer_accepted {o : Objective R} {a : ObjectiveAccumulator R} {e : EvidenceRecord R}
    (h : (offer o a e).2.isOk = true) :
    (offer o a e).1 = (storeEvidence o (a.remember e.id) e).1 ∧
      (storeEvidence o (a.remember e.id) e).2.isOk = true := by
  rcases offer_spec o a e with ⟨_, hoffer⟩ | ⟨_, _, hoffer⟩ | ⟨_, _, hoffer⟩ <;> rw [hoffer] at h ⊢
  · cases h
  · cases h
  · exact ⟨rfl, h⟩

omit [Double R] in
theorem make_capacity (type : WindowType) (duration : Duration) (capacity : Nat) :
    1 ≤ (SampleWindow.make type duration capacity : SampleWindow R).capacity := by
  show 1 ≤ if capacity = 0 then 1 else capacity
  split
  · exact le_rfl
  · omega

omit [Double R] in
/-- A window set up for a definition has room for a sample. -/
theorem Equipped.capacity {a : ObjectiveAccumulator R} (h : Equipped a) :
    1 ≤ a.window.capacity := by
  have hcap : a.window.capacity = (ObjectiveAccumulator.windowFor a.defn).capacity :=
    congrArg (fun x : WindowType × Duration × Nat => x.2.2) h.window
  rw [hcap]
  exact make_capacity _ _ _

/-- **When accepted evidence counts.** In every run, a record that is accepted counts for its
    objective if and only if it is routed to the store that is read; then it is the last sample or
    the last cost there, or it is in the totals, and else no measurement sees it. -/
theorem accepted_counts_iff [Platform R] [Pod R] {s : State R} {tr : Trace R}
    (h : Runs (State.fresh R) tr s) (e : EvidenceRecord R) (now : Duration)
    (hok : (ingest s e now).2.isOk = true) :
    ∃ o a b, definitionOf s.contracts e.objectiveId = some o ∧ a = acquire s.accumulators o ∧
      (ingest s e now).1.accumulators.find e.objectiveId = some b ∧
      (Counted o a b e ↔ RoutesToRead o a e) ∧
      (Counted o a b e → ∃ st, readStore b = some st ∧ Contributed st a b e) ∧
      (¬Counted o a b e → ∀ now, computeMeasured b now = computeMeasured a now) := by
  rcases ingest_offered s e now with ⟨_, _, hno⟩ | ⟨o, ho, hacc, hst⟩
  · rw [hok] at hno
    cases hno
  · rw [hst] at hok
    obtain ⟨hb, hstored⟩ := offer_accepted hok
    have hcounted := counted_iff hstored hb
    have hid : (offer o (acquire s.accumulators o) e).1.defn.id = e.objectiveId := by
      rw [(offer_conduct _ _ _).defn, acquire_id, offeredTo_id ho]
    have hfind := s.accumulators.find_insert_key hid
    have hequipped := equipped_rule.acquired (equipped_run h) o
    refine ⟨o, _, _, offeredTo_definition ho, rfl, by rw [hacc]; exact hfind, hcounted,
      fun hc => hc.contributed ?_, fun hc later => ?_⟩
    · exact hequipped.capacity
    · have hsame := not_counted_sameRead hstored hb (mt hcounted.mpr hc)
      have hdefn := (offer_conduct o (acquire s.accumulators o) e).defn
      exact measured_reads hdefn hsame later

end Stores

/-! ## 5. A cost that came late -/

/-- At most a hundred micros for a request. -/
def perRequest : Objective Binary64 :=
  { smallObjective 1 1 with dim := .cost, kind := .costPerRequest, target := .costMicros 100 }

/-- A request that cost `micros` at `time`. -/
def requestCost (id : UInt64) (micros : Int64) (time : Duration) : EvidenceRecord Binary64 :=
  { id := ⟨id⟩, objectiveId := ⟨1⟩, dimension := .cost, value := .costMicros micros, time := time }

/-- The cost of a request was reported for time `10`. -/
def costReported : List (Op Binary64) :=
  [.setPolicy smallPolicy, .addContract (smallContract 1 1 1 [perRequest]),
    .ingest (requestCost 1 50 10) 10]

/-- The window read for the costs of requests, and its last time. -/
def lastRead (s : State Binary64) (o : Objective Binary64) : Bool :=
  let a := acquire s.accumulators o
  readStore a = some .window && a.window.hasBucket && decide (a.window.lastTime = 10)

theorem of_lastRead {s : State Binary64} {o : Objective Binary64} (h : lastRead s o = true) :
    readStore (acquire s.accumulators o) = some .window ∧
      (acquire s.accumulators o).window.hasBucket = true ∧
      (acquire s.accumulators o).window.lastTime = 10 := by
  unfold lastRead at h
  simp only [Bool.and_eq_true, decide_eq_true_eq] at h
  exact ⟨h.1.1, h.1.2, h.2⟩

/-- **The cost of an earlier request is accepted, and dropped.** -/
theorem accepted_counts_fails :
    ¬∀ (s : State Binary64) (tr : Trace Binary64) (e : EvidenceRecord Binary64) (now : Duration),
      Runs (State.fresh Binary64) tr s → (ingest s e now).2.isOk = true →
      ∃ o b, definitionOf s.contracts e.objectiveId = some o ∧
        (ingest s e now).1.accumulators.find e.objectiveId = some b ∧
        Counted o (acquire s.accumulators o) b e := by
  intro hall
  obtain ⟨tr, hrun⟩ := reachable_after costReported
  have hok : (ingest (after costReported) (requestCost 2 500 5) 10).2.isOk = true := by
    decide +kernel
  obtain ⟨o, b, ho, _, hcounted⟩ := hall _ tr (requestCost 2 500 5) 10 hrun hok
  have hdefn : definitionOf (after costReported).contracts ⟨1⟩ = some perRequest := by
    decide +kernel
  have hsame : o = perRequest := Option.some.inj (ho.symm.trans hdefn)
  subst hsame
  have hlast : lastRead (after costReported) perRequest = true := by decide +kernel
  obtain ⟨hwindow, hbucket, htime⟩ := of_lastRead hlast
  have hforth := (hcounted.taken hwindow).forth hbucket
  rw [htime] at hforth
  exact absurd hforth (by decide)

/-- One of a later request counts. -/
theorem accepted_counts_iff_small :
    ∃ o b, definitionOf (after costReported).contracts ⟨1⟩ = some o ∧
      (ingest (after costReported) (requestCost 2 500 15) 15).1.accumulators.find ⟨1⟩ = some b ∧
      Counted o (acquire (after costReported).accumulators o) b (requestCost 2 500 15) := by
  obtain ⟨tr, hrun⟩ := reachable_after costReported
  obtain ⟨o, a, b, ho, rfl, hb, hiff, _⟩ := accepted_counts_iff hrun (requestCost 2 500 15) 15
    (by decide +kernel)
  refine ⟨o, b, ho, hb, hiff.mpr ?_⟩
  have hdefn : definitionOf (after costReported).contracts ⟨1⟩ = some perRequest := by
    decide +kernel
  have hsame : o = perRequest := Option.some.inj (ho.symm.trans hdefn)
  subst hsame
  have hlast : lastRead (after costReported) perRequest = true := by decide +kernel
  obtain ⟨hwindow, _, _⟩ := of_lastRead hlast
  refine ⟨hwindow, (accepted_iff_takes _ _ _ _).mp ?_⟩
  decide +kernel

end SloFabric
