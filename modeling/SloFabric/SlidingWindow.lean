/-
  File:      SloFabric/SlidingWindow.lean
  Subject:   Which samples a sliding window is measured on.

  * `Objective.windowValued`: the objectives that are measured by their samples;
  * `Slid`, `slid_rule`: the samples accepted are in order of time, and a sliding window holds the
    queue of them;
  * `youngerThan`, `aggregated`: the samples of an age, and those a value is the aggregate of;
  * `Slides`, `NoneAged`: a value is the aggregate of exactly the young ones of the last samples;
    what it takes of the samples held;
  * `sliding_window_iff`: when a sliding window slides with the time of the evaluation;
  * `sliding_window_fails`: a sample that has aged out since the last one came is measured.
-/
import SloFabric.FutureDates
import SloFabric.Library.Expiry

namespace SloFabric

variable {R : Type}

/-! ## 1. The samples that are held -/

/-- Latency, throughput, memory pressure, and costs that are no cost window. -/
def Objective.windowValued (o : Objective R) : Bool :=
  match o.dim with
  | .latency | .throughput | .memoryPressure => true
  | .cost => o.kind != .costWindowBudget
  | .availability | .recoveryTime => false

/-- Does `y` age out of a window of this length when `x` comes? -/
def agedOut (interval : Duration) (x y : EvidenceRecord R) : Bool :=
  decide (0 < interval) && decide (interval ≤ x.time - y.time)

theorem agedOut_self (interval : Duration) (x : EvidenceRecord R) :
    agedOut interval x x = false := by
  by_contra h
  obtain ⟨hpos, hle⟩ := Bool.and_eq_true_iff.mp (Bool.not_eq_false _ ▸ h)
  rw [decide_eq_true_eq, Int64.sub_self] at hle
  exact absurd (of_decide_eq_true hpos) (Int64.not_lt.mpr hle)

section Samples

variable [Double R]

/-- A sample that a sliding window takes. -/
theorem ingest_sliding {w : SampleWindow R} (htype : w.type = .sliding) {time : Duration}
    {value : R} {seq : UInt64} (h : (w.ingest time value seq).2 = .accepted) :
    (w.ingest time value seq).1.samples =
      if w.hasBucket then
        SampleWindow.evictOver w.capacity
          (SampleWindow.evictByAge w.interval time (w.samples ++ [⟨time, value, seq⟩]))
      else w.samples ++ [⟨time, value, seq⟩] := by
  unfold SampleWindow.ingest at h ⊢
  split at h
  · cases h
  · rename_i hvalue
    rw [if_neg hvalue]
    split at h
    · cases h
    · rename_i hseq
      rw [if_neg hseq]
      simp only at h ⊢
      cases hbucket : w.hasBucket with
      | false => simp
      | true =>
        simp only [hbucket, Bool.not_true, Bool.false_eq_true, if_false, if_true] at h ⊢
        split at h
        · cases h
        · rename_i hforth
          rw [if_neg hforth]
          simp only [htype]

/-- What leaves a window, in the records behind the samples. -/
theorem evict_items {samples : List (WindowSample R)} {q : List (EvidenceRecord R)}
    (h : samples.map (fun x => (x.time, x.value)) = q.map sampleOf) (interval : Duration)
    (capacity : Nat) (e : EvidenceRecord R) :
    (SampleWindow.evictOver capacity (SampleWindow.evictByAge interval e.time samples)).map
        (fun x => (x.time, x.value)) =
      (recent capacity (q.dropWhile (agedOut interval e))).map sampleOf := by
  have hage : (SampleWindow.evictByAge interval e.time samples).map (fun x => (x.time, x.value)) =
      (q.dropWhile (agedOut interval e)).map sampleOf := by
    unfold SampleWindow.evictByAge
    by_cases hpos : 0 < interval
    · have hold : agedOut interval e =
          (fun p : Duration × R => decide (interval ≤ e.time - p.1)) ∘ sampleOf := by
        funext y
        unfold agedOut
        rw [decide_eq_true hpos, Bool.true_and]
        rfl
      rw [if_neg (Int64.not_le.mpr hpos), hold, ← List.dropWhile_map, ← h, List.dropWhile_map]
      rfl
    · have hnone : agedOut interval e = fun _ => false := by
        funext y
        simp [agedOut, hpos]
      rw [if_pos (Int64.not_lt.mp hpos), h, hnone]
      cases q <;> rfl
  rw [← recent_map, ← hage, recent_map]
  rfl

/-- **What was accepted and what is held.** The samples accepted are in order of time, none after
    the last time of the window; and a sliding window holds the queue of them. -/
structure Slid (l : List (Store × EvidenceRecord R)) (a : ObjectiveAccumulator R) : Prop where
  room : 1 ≤ a.window.capacity
  settled : a.window.Settled
  ordered : (into .window l).Pairwise fun x y => x.time ≤ y.time
  clock : ∀ x ∈ into .window l, a.window.hasBucket = true ∧ x.time ≤ a.window.lastTime
  held : a.window.type = .sliding → a.window.samples.map (fun x => (x.time, x.value)) =
    (queue (agedOut a.window.interval) a.window.capacity (into .window l)).map sampleOf

theorem make_slid (o : Objective R) : Slid [] (.make o) where
  room := make_capacity _ _ _
  settled := settledRule.make o
  ordered := List.Pairwise.nil
  clock _ hx := absurd hx List.not_mem_nil
  held _ := rfl

/-- Nothing is offered to the window. -/
theorem Slid.skip {l l' : List (Store × EvidenceRecord R)} {a b : ObjectiveAccumulator R}
    (h : Slid l a) (hl : into .window l' = into .window l) (hw : b.window = a.window) :
    Slid l' b where
  room := by rw [hw]; exact h.room
  settled := by rw [hw]; exact h.settled
  ordered := by rw [hl]; exact h.ordered
  clock := by rw [hl, hw]; exact h.clock
  held := by rw [hl, hw]; exact h.held

theorem sample_shape (a : ObjectiveAccumulator R) (e : EvidenceRecord R) :
    (a.sample e).1.window.type = a.window.type ∧
      (a.sample e).1.window.interval = a.window.interval ∧
      (a.sample e).1.window.capacity = a.window.capacity := by
  have hshape := ingest_shape a.window e.time (numericOf e.value) a.nextSeq
  simpa [SampleWindow.shape, ObjectiveAccumulator.sample] using hshape

/-- A sample is taken. -/
theorem Slid.taken {l : List (Store × EvidenceRecord R)} {a : ObjectiveAccumulator R}
    (h : Slid l a) {e : EvidenceRecord R} (hok : (a.sample e).2 = .accepted) :
    Slid (l ++ [(.window, e)]) (a.sample e).1 := by
  obtain ⟨htype, hinterval, hcapacity⟩ := sample_shape a e
  have hsettled : (a.sample e).1.window.Settled := (SampleWindow.ingest_clock h.settled _ _ _).1
  obtain ⟨hbucket, hlast⟩ := sample_taken h.settled hok
  have hforth : ∀ x ∈ into .window l, x.time ≤ e.time := fun x hx =>
    Int64.le_trans (h.clock x hx).2
      (((sample_accepted_iff a e).mp hok).forth (h.clock x hx).1)
  have hinto : into .window (l ++ [(.window, e)]) = into .window l ++ [e] := by
    rw [into_push, if_pos rfl]
  refine ⟨by rw [hcapacity]; exact h.room, hsettled, ?_, fun x hx => ⟨hbucket, ?_⟩, fun hs => ?_⟩
  · rw [hinto]
    exact pairwise_push.mpr ⟨h.ordered, hforth⟩
  · rw [hinto, List.mem_append, List.mem_singleton] at hx
    rw [hlast]
    rcases hx with hx | rfl
    · exact hforth x hx
    · exact Int64.le_refl _
  · rw [htype] at hs
    have hsamples : (a.sample e).1.window.samples = _ := ingest_sliding hs hok
    rw [hsamples, hinterval, hcapacity, hinto, queue_push]
    cases hfirst : a.window.hasBucket with
    | true =>
      rw [if_pos rfl]
      refine evict_items ?_ _ _ e
      rw [List.map_append, h.held hs, List.map_append]
      rfl
    | false =>
      -- the first sample since the last reset
      have hnone : into .window l = [] := List.eq_nil_iff_forall_not_mem.mpr fun x hx => by
        have hbucket := (h.clock x hx).1
        rw [hfirst] at hbucket
        cases hbucket
      have hempty : a.window.samples = [] := by
        have hheld := h.held hs
        rw [hnone] at hheld
        exact List.map_eq_nil_iff.mp hheld
      have halone : expire (agedOut a.window.interval) a.window.capacity [] e = [e] := by
        have hroom := h.room
        unfold expire recent
        rw [List.nil_append, List.dropWhile_cons, agedOut_self, if_neg Bool.false_ne_true,
          List.length_singleton, Nat.sub_eq_zero_of_le hroom, List.drop_zero]
      rw [if_neg Bool.false_ne_true, hempty, hnone]
      exact congrArg (List.map sampleOf) halone.symm

/-- A sample is turned away. -/
theorem Slid.rejected {l : List (Store × EvidenceRecord R)} {a : ObjectiveAccumulator R}
    (h : Slid l a) {e : EvidenceRecord R} (hno : (a.sample e).2 ≠ .accepted) :
    Slid l (a.sample e).1 := by
  have hsamples : (a.sample e).1.window.samples = a.window.samples := by
    rcases ingest_samples a.window e.time (numericOf e.value) a.nextSeq with ⟨hok, _⟩ | ⟨_, hs⟩
    · exact absurd hok hno
    · exact hs
  obtain ⟨htype, hinterval, hcapacity⟩ := sample_shape a e
  have hsettled : (a.sample e).1.window.Settled := (SampleWindow.ingest_clock h.settled _ _ _).1
  obtain ⟨_, hbucket, hlast⟩ := sample_untaken h.settled hno
  exact ⟨by rw [hcapacity]; exact h.room, hsettled, h.ordered,
    by rw [hbucket, hlast]; exact h.clock,
    by rw [hsamples, htype, hinterval, hcapacity]; exact h.held⟩

theorem Slid.sample {l : List (Store × EvidenceRecord R)} {a : ObjectiveAccumulator R}
    (h : Slid l a) (e : EvidenceRecord R) :
    Slid (l ++ ((if (a.sample e).2 = .accepted then some Store.window else none).map
      fun st => (st, e)).toList) (a.sample e).1 := by
  by_cases hok : (a.sample e).2 = .accepted
  · rw [if_pos hok]
    exact h.taken hok
  · rw [if_neg hok]
    exact (List.append_nil l).symm ▸ h.rejected hok

/-- The switch over the record's dimension offers the window a sample, or none. -/
theorem Slid.store {l : List (Store × EvidenceRecord R)} {a : ObjectiveAccumulator R}
    (h : Slid l a) (o : Objective R) (e : EvidenceRecord R) :
    Slid (l ++ ((storeOf o a e).map fun st => (st, e)).toList) (storeEvidence o a e).1 := by
  have hother {st : Store} (hst : st ≠ .window) :
      into .window (l ++ [(st, e)]) = into .window l := by
    rw [into_push, if_neg hst, List.append_nil]
  cases hd : e.dimension with
  | availability =>
    simp only [storeOf, storeEvidence, hd]
    exact h.skip (hother (fun h => by cases h)) rfl
  | cost =>
    simp only [storeOf, storeEvidence, hd]
    by_cases hk : o.kind = .costWindowBudget
    · rw [if_pos hk, if_pos hk]
      exact h.skip (hother (fun h => by cases h)) (withCost_keeps a _).2.2.2.1
    · rw [if_neg hk, if_neg hk]
      exact h.sample e
  | recoveryTime =>
    simp only [storeOf, storeEvidence, hd]
    exact (List.append_nil l).symm ▸ h
  | latency | throughput | memoryPressure =>
    simp only [storeOf, storeEvidence, hd]
    exact h.sample e

/-- **What was accepted since the last reset is in order, and held as a queue.** -/
theorem slid_rule : IntakeRule (Offering.stored (R := R)) Slid :=
  .ofStore make_slid (fun _ _ _ h hl => hl.skip rfl h.window)
    (fun _ _ _ hl => hl.skip rfl rfl) fun _ o _ e hl => hl.store o e

end Samples

/-! ## 2. The samples that are young -/

/-- Is a sample younger than `width` at `now`? -/
def youngerThan (width now : Duration) (x : EvidenceRecord R) : Bool :=
  decide (now.toInt - x.time.toInt < width.toInt)

/-- The samples accepted last, as many as the window of an objective has room for. -/
def lastSamples (o : Objective R) (l : List (Store × EvidenceRecord R)) : List (EvidenceRecord R) :=
  recent (if o.windowCount < 1 then 1 else o.windowCount.toInt.toNat) (into .window l)

/-- What has aged out for a later sample is not young at a later time. -/
theorem agedOut_old {width now : Duration} {x z : EvidenceRecord R} (hxz : x.time ≤ z.time)
    (hz : z.time ≤ now) (h : agedOut width z x = true) : youngerThan width now x = false := by
  obtain ⟨hpos, hage⟩ := Bool.and_eq_true_iff.mp h
  have hpos := Int64.lt_iff_toInt_lt.mp (of_decide_eq_true hpos)
  have hage := Int64.le_iff_toInt_le.mp (of_decide_eq_true hage)
  have hxz := Int64.le_iff_toInt_le.mp hxz
  have hz := Int64.le_iff_toInt_le.mp hz
  have hzero := Int64.toInt_zero
  -- a difference of 2^63 or more would come out negative
  have hsub : (z.time - x.time).toInt ≤ z.time.toInt - x.time.toInt := by
    rw [Int64.toInt_sub, Int.bmod_def]
    split <;> omega
  have hold : ¬now.toInt - x.time.toInt < width.toInt := by omega
  exact decide_eq_false hold

/-- Up to 2^63 nanoseconds apart, what has not aged out is young. -/
theorem youngerThan_of {width : Duration} {x z : EvidenceRecord R} (hpos : 0 < width)
    (hxz : x.time ≤ z.time) (hnear : z.time.toInt - x.time.toInt < 2 ^ 63)
    (h : agedOut width z x = false) : youngerThan width z.time x = true := by
  have hxz := Int64.le_iff_toInt_le.mp hxz
  have hsub : (z.time - x.time).toInt = z.time.toInt - x.time.toInt :=
    toInt_sub_of_range (by omega) hnear
  have hage : ¬width ≤ z.time - x.time := by
    intro hle
    unfold agedOut at h
    rw [decide_eq_true hpos, decide_eq_true hle] at h
    cases h
  rw [Int64.not_le, Int64.lt_iff_toInt_lt, hsub] at hage
  exact decide_eq_true hage

section Young

variable [Double R]

/-- The samples a value is the aggregate of. -/
def aggregated (l : List (Store × EvidenceRecord R)) (a : ObjectiveAccumulator R) :
    Option (List (EvidenceRecord R)) :=
  if a.defn.windowValued then some (recent a.window.size (into .window l)) else none

/-- **The window slides**: a value is the aggregate of exactly those among the last samples that are
    young at `now`. -/
def Slides (o : Objective R) (l : List (Store × EvidenceRecord R)) (a : ObjectiveAccumulator R)
    (now : Duration) : Prop :=
  GivesValue a now →
    aggregated l a = some ((lastSamples o l).filter (youngerThan o.windowDuration now))

/-- **None has aged out**: where there is a value, it is one of samples, and all that are held are
    young at `now`. A window of another shape may also be too long, or have given up a young one. -/
def NoneAged (o : Objective R) (l : List (Store × EvidenceRecord R)) (a : ObjectiveAccumulator R)
    (now : Duration) : Prop :=
  GivesValue a now → a.defn.windowValued = true ∧
    (∀ x ∈ recent a.window.size (into .window l), youngerThan o.windowDuration now x = true) ∧
    (a.window.shape ≠ (ObjectiveAccumulator.windowFor o).shape →
      a.window.size ≤ (ObjectiveAccumulator.windowFor o).capacity ∧
      ∀ x ∈ (lastSamples o l).take ((lastSamples o l).length - a.window.size),
        youngerThan o.windowDuration now x = false)

omit [Double R] in
theorem lastSamples_eq (o : Objective R) (l : List (Store × EvidenceRecord R)) :
    lastSamples o l =
      recent (ObjectiveAccumulator.windowFor o).capacity (into .window l) := by
  have hcap : (ObjectiveAccumulator.windowFor o).capacity =
      if o.windowCount < 1 then 1 else o.windowCount.toInt.toNat := by
    unfold ObjectiveAccumulator.windowFor SampleWindow.make
    refine if_neg ?_
    split
    · decide
    · rename_i hone
      have hone := Int64.le_iff_toInt_le.mp (Int64.not_lt.mp hone)
      have hint := Int64.toInt_one
      omega
  rw [hcap]
  rfl

/-- A sliding window of the objective's shape holds the queue of the samples. -/
theorem Slid.recent_eq {l : List (Store × EvidenceRecord R)} {a : ObjectiveAccumulator R}
    (h : Slid l a) {o : Objective R} (htype : o.windowType = .sliding)
    (hshape : a.window.shape = (ObjectiveAccumulator.windowFor o).shape) :
    recent a.window.size (into .window l) = queue (agedOut o.windowDuration)
      (ObjectiveAccumulator.windowFor o).capacity (into .window l) := by
  simp only [SampleWindow.shape, Prod.mk.injEq] at hshape
  obtain ⟨hsliding, hinterval, hcapacity⟩ := hshape
  have hheld := h.held (hsliding.trans htype)
  rw [hinterval, hcapacity] at hheld
  have hsize := congrArg List.length hheld
  rw [List.length_map, List.length_map] at hsize
  have hlast : queue (agedOut o.windowDuration) (ObjectiveAccumulator.windowFor o).capacity
      (into .window l) <:+ into .window l := queue_suffix _
  have hcount : a.window.size = _ := hsize
  rw [hcount]
  exact (suffix_recent hlast).symm

/-- What leaves the queue has aged out by `now`. -/
theorem Slid.left_old {l : List (Store × EvidenceRecord R)} {a : ObjectiveAccumulator R}
    (h : Slid l a) {now : Duration} (hnow : ∀ x ∈ into .window l, x.time ≤ now)
    (width : Duration) : ∀ front x back, into .window l = front ++ x :: back →
      (∃ z ∈ x :: back, agedOut width z x = true) → youngerThan width now x = false := by
  rintro front x back hl ⟨z, hz, hold⟩
  have hzl : z ∈ into .window l := by
    rw [hl]
    exact List.mem_append_right _ hz
  have hordered := h.ordered
  rw [hl, List.pairwise_append, List.pairwise_cons] at hordered
  rcases List.mem_cons.mp hz with rfl | hback
  · rw [agedOut_self] at hold
    cases hold
  · exact agedOut_old (hordered.2.1.1 z hback) (hnow z hzl) hold

/-- **When the window slides.** -/
theorem slides_iff {l : List (Store × EvidenceRecord R)} {a : ObjectiveAccumulator R}
    (h : Slid l a) (hfrom : ComputedFrom l a) {o : Objective R} (htype : o.windowType = .sliding)
    {now : Duration} (hnow : ∀ x ∈ into .window l, x.time ≤ now) :
    Slides o l a now ↔ NoneAged o l a now := by
  have hsize : (recent a.window.size (into .window l)).length = a.window.size := by
    have hlen := congrArg List.length hfrom.samples
    rw [List.length_map, List.length_map] at hlen
    exact hlen.symm
  have hfilter := suffix_eq_filter_iff (recent_suffix a.window.size (into .window l))
    (youngerThan o.windowDuration now) (ObjectiveAccumulator.windowFor o).capacity
  rw [hsize, ← lastSamples_eq] at hfilter
  unfold Slides NoneAged aggregated
  refine forall_congr' fun _ => ?_
  cases hvalued : a.defn.windowValued with
  | false => simp
  | true =>
    rw [if_pos rfl, Option.some.injEq, hfilter]
    refine ⟨fun ⟨hall, hrest⟩ => ⟨rfl, hall, fun _ => hrest⟩, fun ⟨_, hall, hrest⟩ => ⟨hall, ?_⟩⟩
    by_cases hshape : a.window.shape = (ObjectiveAccumulator.windowFor o).shape
    · have hqueue := h.recent_eq htype hshape
      refine ⟨?_, ?_⟩
      · rw [← hsize, hqueue]
        exact length_queue_le _
      · rw [← hsize, hqueue, lastSamples_eq]
        exact queue_left_out (h.left_old hnow o.windowDuration)
    · exact hrest hshape

/-- **What is held is what was young when the last sample came**, if no time is 2^63 nanoseconds
    before that. -/
theorem Slid.young_at_last {l : List (Store × EvidenceRecord R)} {a : ObjectiveAccumulator R}
    (h : Slid l a) {o : Objective R} (htype : o.windowType = .sliding)
    (hpos : 0 < o.windowDuration)
    (hshape : a.window.shape = (ObjectiveAccumulator.windowFor o).shape)
    {e : EvidenceRecord R} (hlast : (into .window l).getLast? = some e)
    (hnear : ∀ x ∈ into .window l, e.time.toInt - x.time.toInt < 2 ^ 63) :
    recent a.window.size (into .window l) =
      (lastSamples o l).filter (youngerThan o.windowDuration e.time) := by
  obtain ⟨front, hfront⟩ := List.getLast?_eq_some_iff.mp hlast
  have hforth : ∀ x ∈ into .window l, x.time ≤ e.time := by
    have hordered := h.ordered
    rw [hfront, List.pairwise_append] at hordered
    intro x hx
    rw [hfront, List.mem_append, List.mem_singleton] at hx
    rcases hx with hx | rfl
    · exact hordered.2.2 x hx e (List.mem_singleton.mpr rfl)
    · exact Int64.le_refl _
  rw [h.recent_eq htype hshape, lastSamples_eq,
    queue_eq_filter_iff (h.left_old hforth o.windowDuration)]
  have hless : (front ++ [e]).Pairwise fun x y =>
      agedOut o.windowDuration e x = false → agedOut o.windowDuration e y = false := by
    rw [← hfront]
    refine h.ordered.imp_of_mem fun {x y} hx hy hxy hyoung => ?_
    by_contra hold
    have hyoung := youngerThan_of hpos (hforth x hx) (hnear x hx) hyoung
    have hold := agedOut_old (hforth y hy) (Int64.le_refl _) (Bool.not_eq_false _ ▸ hold)
    have hxy := Int64.le_iff_toInt_le.mp hxy
    have hyoung := of_decide_eq_true hyoung
    have hold := of_decide_eq_false hold
    omega
  intro y hy
  rw [hfront] at hy
  have hmem : y ∈ into .window l := by
    rw [hfront]
    exact (queue_suffix _).mem hy
  exact youngerThan_of hpos (hforth y hmem) (hnear y hmem) (queue_not_old hless y hy)

end Young

/-! ## 3. Evaluations -/

section Evaluations

variable [Double R] [Platform R]

omit [Platform R] in
/-- What is measured of samples is their aggregate. -/
theorem measured_windowValue {a : ObjectiveAccumulator R} {now : Duration}
    (hvalued : a.defn.windowValued = true) (h : (computeMeasured a now).got = true) :
    (computeMeasured a now).value = windowValue a := by
  unfold Objective.windowValued at hvalued
  cases hd : a.defn.dim with
  | availability | recoveryTime =>
    rw [hd] at hvalued
    cases hvalued
  | cost =>
    simp only [hd, bne_iff_ne] at hvalued
    simp only [computeMeasured, hd, if_neg hvalued] at h ⊢
    simp only [windowValue, hd]
    split at h
    · cases h
    · rename_i hempty
      rw [if_neg hempty]
  | latency | throughput | memoryPressure =>
    rw [computeMeasured_samples a now (by simp [hd])] at h ⊢
    split at h
    · cases h
    · rename_i hempty
      rw [if_neg hempty]
      split at h
      · cases h
      · rename_i hfew
        rw [if_neg hfew]
        split at h
        · cases h
        · rename_i hrank
          rw [if_neg hrank]

variable [Pod R]

/-- **When a sliding window slides with the time of the evaluation.** In every run, for every
    evaluation that succeeds and every objective with a sliding window, at a time not before any
    sample accepted since its accumulator was last wiped: there is a verdict if there is a value,
    the value reported is the aggregate of the samples held, and these are the last that were
    accepted. The value is the aggregate of exactly those among the last `windowCount` samples that
    are younger than the window at that time, if and only if none that is held has aged out. And
    what a window of the objective's shape holds are those that were young when the last sample
    came: the time since then makes the difference. -/
theorem sliding_window_iff {w : Journaled R} {tr : Trace R} {obj : Objective R}
    (h : Run (watch apply (noteEntry obj.id)) (fun _ _ => True) ⟨State.fresh R, []⟩ tr w)
    {s' : State R} {service : ServiceId} {workload : WorkloadId} {now : Duration}
    {res : EvaluationResult R} {c : SloContract R}
    (hev : evaluate w.state service workload now = some (s', .ok res))
    (hc : selectContract w.state.contracts service workload now = some c) {i : Nat}
    (hobj : c.objectives[i]? = some obj) (htype : obj.windowType = .sliding)
    (hpos : 0 < obj.windowDuration)
    (hnow : ∀ x ∈ into .window (takenBy w c i obj), x.time ≤ now) :
    (∃ st, res.explanation.objectives[i]? = some st ∧ st.id = obj.id ∧
      (st.state.isVerdict = true ↔ GivesValue (judgedOn w.state c now i obj) now) ∧
      (GivesValue (judgedOn w.state c now i obj) now →
        (judgedOn w.state c now i obj).defn.windowValued = true →
        st.currentValue = some (makeValue (expectedUnitFor obj.dim)
          (windowValue (judgedOn w.state c now i obj))))) ∧
    (judgedOn w.state c now i obj).window.samples.map (fun x => (x.time, x.value)) =
      (recent (judgedOn w.state c now i obj).window.size
        (into .window (takenBy w c i obj))).map sampleOf ∧
    (Slides obj (takenBy w c i obj) (judgedOn w.state c now i obj) now ↔
      NoneAged obj (takenBy w c i obj) (judgedOn w.state c now i obj) now) ∧
    (∀ e, (judgedOn w.state c now i obj).window.shape =
        (ObjectiveAccumulator.windowFor obj).shape →
      (into .window (takenBy w c i obj)).getLast? = some e →
      (∀ x ∈ into .window (takenBy w c i obj), e.time.toInt - x.time.toInt < 2 ^ 63) →
      recent (judgedOn w.state c now i obj).window.size (into .window (takenBy w c i obj)) =
        (lastSamples obj (takenBy w c i obj)).filter (youngerThan obj.windowDuration e.time)) := by
  have hslid : Slid (takenBy w c i obj) (judgedOn w.state c now i obj) := slid_rule.judged h c now i
  have hfrom := judgedOn_computedFrom h c now i
  have hrun := (Run.watched (noteEntry obj.id) []).mpr ⟨w, h, rfl⟩
  obtain ⟨st, hst, hid, hverdict⟩ := evaluate_verdict hrun hev hc hobj
  refine ⟨⟨st, hst, hid, hverdict, fun hgives hwindow => ?_⟩, hfrom.samples,
    slides_iff hslid hfrom htype hnow,
    fun e hshape hlast hnear => hslid.young_at_last htype hpos hshape hlast hnear⟩
  obtain ⟨st', hst', _, hvalue⟩ := evaluate_value hev hc hobj
  rw [hst, Option.some.injEq] at hst'
  subst hst'
  have hhas := (hasValue_iff _ now).mpr hgives
  rw [hvalue, hhas, measured_windowValue hwindow ((hasValue_measured _ now).mp hhas).1]
  rfl

end Evaluations

/-! ## 4. A sample that has aged out -/

/-- A latency over a sliding window of ten nanoseconds, fresh as long as that. -/
def tenSliding : Objective Binary64 :=
  { smallObjective 1 1 with windowType := .sliding, windowDuration := 10, freshnessTtl := 0 }

/-- Two latencies came, at times `0` and `9`. -/
def twoLatencies : List (Op Binary64) :=
  [.setPolicy smallPolicy, .addContract (smallContract 1 1 1 [tenSliding]),
    .ingest (smallEvidence 1 1 200000000) 0,
    .ingest { smallEvidence 2 1 50000000 with time := 9 } 9]

/-- Does the window slide with the evaluation at `now`, as `slides` says? -/
def slidesAt (w : Journaled Binary64) (now : Duration) (slides : Bool) : Bool :=
  evaluatedOn w.state now tenSliding fun res a =>
    (res.explanation.objectives[0]?).any (·.state.isVerdict) &&
    (selectContract w.state.contracts ⟨1⟩ ⟨1⟩ now).any fun c =>
      (into .window (takenBy w c 0 tenSliding)).all (fun x => decide (x.time ≤ now)) &&
        decide (aggregated (takenBy w c 0 tenSliding) a =
          some ((lastSamples tenSliding (takenBy w c 0 tenSliding)).filter (youngerThan 10 now)))
          == slides

theorem of_slidesAt {w : Journaled Binary64} {tr : Trace Binary64} {now : Duration} {slides : Bool}
    (hrun : Run (watch apply (noteEntry tenSliding.id)) (fun _ _ => True)
      ⟨State.fresh Binary64, []⟩ tr w) (h : slidesAt w now slides = true) :
    ∃ s' res c, evaluate w.state ⟨1⟩ ⟨1⟩ now = some (s', .ok res) ∧
      selectContract w.state.contracts ⟨1⟩ ⟨1⟩ now = some c ∧ c.objectives[0]? = some tenSliding ∧
      (∀ x ∈ into .window (takenBy w c 0 tenSliding), x.time ≤ now) ∧
      GivesValue (judgedOn w.state c now 0 tenSliding) now ∧
      (Slides tenSliding (takenBy w c 0 tenSliding) (judgedOn w.state c now 0 tenSliding) now ↔
        slides = true) := by
  obtain ⟨s', res, c, hev, hc, hobj, h⟩ := of_evaluatedOn h
  rw [hc] at h
  obtain ⟨hverdict, h⟩ := Bool.and_eq_true_iff.mp h
  obtain ⟨htimes, hslides⟩ := Bool.and_eq_true_iff.mp h
  have hgives : GivesValue (judgedOn w.state c now 0 tenSliding) now := by
    obtain ⟨st, hst, _, hiff⟩ := evaluate_verdict
      ((Run.watched (noteEntry tenSliding.id) []).mpr ⟨w, hrun, rfl⟩) hev hc hobj
    rw [hst] at hverdict
    exact hiff.mp hverdict
  refine ⟨s', res, c, hev, hc, hobj, fun x hx => ?_, hgives, ?_⟩
  · exact of_decide_eq_true (List.all_eq_true.mp htimes x hx)
  · rw [← eq_of_beq hslides, decide_eq_true_eq]
    exact ⟨fun hall => hall hgives, fun heq _ => heq⟩

/-- **A sample that has aged out is measured**: nothing came in that would have dropped it. -/
theorem sliding_window_fails :
    ¬∀ (obj : Objective Binary64) (w : Journaled Binary64) (tr : Trace Binary64)
      (s' : State Binary64) (service : ServiceId) (workload : WorkloadId) (now : Duration)
      (res : EvaluationResult Binary64) (c : SloContract Binary64) (i : Nat),
      Run (watch apply (noteEntry obj.id)) (fun _ _ => True) ⟨State.fresh Binary64, []⟩ tr w →
      evaluate w.state service workload now = some (s', .ok res) →
      selectContract w.state.contracts service workload now = some c →
      c.objectives[i]? = some obj → obj.windowValued = true → obj.windowType = .sliding →
      0 < obj.windowDuration → (∀ x ∈ into .window (takenBy w c i obj), x.time ≤ now) →
      Slides obj (takenBy w c i obj) (judgedOn w.state c now i obj) now := by
  intro hall
  have htest : (execute (watch apply (noteEntry ⟨1⟩)) (fun _ _ => true)
      ⟨State.fresh Binary64, []⟩ twoLatencies).any (fun x => slidesAt x.1 15 false) = true := by
    decide +kernel
  obtain ⟨w, tr, hrun, hw⟩ := Run.of_test (fun _ _ _ => trivial) htest
  obtain ⟨s', res, c, hev, hc, hobj, htimes, _, hslides⟩ := of_slidesAt hrun hw
  exact Bool.false_ne_true (hslides.mp
    (hall tenSliding w tr s' _ _ 15 res c 0 hrun hev hc hobj rfl rfl (by decide) htimes))

/-- At the time of the last sample none has. -/
theorem sliding_window_iff_small :
    ∃ (tr : Trace Binary64) (w : Journaled Binary64) (c : SloContract Binary64),
      Run (watch apply (noteEntry ⟨1⟩)) (fun _ _ => True) ⟨State.fresh Binary64, []⟩ tr w ∧
      c.objectives[0]? = some tenSliding ∧
      GivesValue (judgedOn w.state c 9 0 tenSliding) 9 ∧
      NoneAged tenSliding (takenBy w c 0 tenSliding) (judgedOn w.state c 9 0 tenSliding) 9 := by
  have htest : (execute (watch apply (noteEntry ⟨1⟩)) (fun _ _ => true)
      ⟨State.fresh Binary64, []⟩ twoLatencies).any (fun x => slidesAt x.1 9 true) = true := by
    decide +kernel
  obtain ⟨w, tr, hrun, hw⟩ := Run.of_test (fun _ _ _ => trivial) htest
  obtain ⟨s', res, c, hev, hc, hobj, htimes, hgives, hslides⟩ := of_slidesAt hrun hw
  have hrun' : Run (watch apply (noteEntry tenSliding.id)) (fun _ _ => True)
    ⟨State.fresh Binary64, []⟩ tr w := hrun
  obtain ⟨_, _, hiff, _⟩ := sliding_window_iff hrun' hev hc hobj rfl (by decide) htimes
  exact ⟨tr, w, c, hrun, hobj, hgives, hiff.mp (hslides.mpr rfl)⟩

end SloFabric
