/-
  File:      SloFabric/Bounds.lean
  Subject:   How many samples a window holds, and how far apart they are.

  * `Narrow`, `Bounded`: the samples held, from the newest to the oldest, are less than one interval
    apart; they are not more than the capacity, and where the policy goes by time they are narrow;
  * `narrow_of_bucket`: two samples of one bucket are less than an interval apart, but for the
    bucket of 0 with a sample before 0;
  * `Fits`, `bounded_iff`: which sample keeps a window bounded;
  * `bounded_store_iff`: so the runs of such samples are those that stay bounded;
  * `bounded_store_fails`: a bucket takes more than the capacity, and that of 0 is too long.
-/
import SloFabric.Batch

namespace SloFabric.SampleWindow

variable {R : Type}

/-! ## 1. Bounds -/

/-- The newest and the oldest sample are less than one interval apart. -/
def Narrow (interval : Duration) (l : List (WindowSample R)) : Prop :=
  ∀ a ∈ l.getLast?, ∀ y ∈ l.head?, a.time.toInt - y.time.toInt < interval.toInt

/-- Does the policy go by time? -/
def byTime : WindowType → Bool
  | .sliding | .tumbling | .fixedInterval => true
  | .instantaneous | .rollingCount => false

/-- **The store is bounded.** -/
def Bounded (w : SampleWindow R) : Prop :=
  w.samples.length ≤ w.capacity ∧ (byTime w.type = true → Narrow w.interval w.samples)

theorem narrow_nil (interval : Duration) : Narrow interval ([] : List (WindowSample R)) :=
  fun a ha => by simp at ha

theorem narrow_push (interval : Duration) (l : List (WindowSample R)) (x : WindowSample R) :
    Narrow interval (l ++ [x]) ↔
      ∀ y ∈ (l ++ [x]).head?, x.time.toInt - y.time.toInt < interval.toInt := by
  unfold Narrow
  simp

theorem narrow_singleton {interval : Duration} (hpos : 0 < interval) (x : WindowSample R) :
    Narrow interval [x] := by
  have hpos := Int64.lt_iff_toInt_lt.mp hpos
  have hzero := Int64.toInt_zero
  refine (narrow_push interval [] x).mpr fun y hy => ?_
  cases hy
  omega

/-- **Two samples of one bucket** are less than an interval apart -- but for the bucket of `0`, that
    has the length of two. -/
theorem narrow_of_bucket {interval s t : Duration} (hpos : 0 < interval)
    (hsame : t / interval = s / interval) (h : t / interval = 0 → 0 ≤ s) :
    t.toInt - s.toInt < interval.toInt := by
  have hint : 0 < interval.toInt := Int64.lt_iff_toInt_lt.mp hpos
  have hquot : t.toInt.tdiv interval.toInt = s.toInt.tdiv interval.toInt := by
    rw [← toInt_div_pos hpos, ← toInt_div_pos hpos, hsame]
  have ht := Int.tmod_add_mul_tdiv t.toInt interval.toInt
  have hs := Int.tmod_add_mul_tdiv s.toInt interval.toInt
  have htop := Int.tmod_lt_of_pos t.toInt hint
  have hbottom := Int.lt_tmod_of_pos s.toInt hint
  rcases le_or_gt 0 s.toInt with hforth | hback
  · have hrest := Int.tmod_nonneg interval.toInt hforth
    rw [hquot] at ht
    omega
  · -- before 0, and not in its bucket: both rests are towards 0
    have hother : t.toInt.tdiv interval.toInt ≠ 0 := by
      intro hzero
      have hnot : t / interval = 0 := Int64.toInt_inj.mp ((toInt_div_pos hpos).trans hzero)
      have hle : 0 ≤ s.toInt := Int64.le_iff_toInt_le.mp (h hnot)
      omega
    have hneg := Int.tdiv_nonneg (a := -s.toInt) (by omega) hint.le
    rw [Int.neg_tdiv, ← hquot] at hneg
    have hprod : interval.toInt * t.toInt.tdiv interval.toInt ≤ interval.toInt * -1 :=
      Int.mul_le_mul_of_nonneg_left (by omega) hint.le
    have hrest := Int.tmod_nonneg interval.toInt (a := -t.toInt) (by omega)
    rw [Int.neg_tmod] at hrest
    rw [hquot] at ht
    omega

/-! ## 2. The samples that fit -/

/-- **Does a sample fit?** If it is taken, then a sliding window has its oldest sample within 2^63
    nanoseconds, or is full and gives up that one only; and a bucket that it joins has room, and if
    it is that of `0`, its oldest sample is not too far before `0`. -/
def Fits [Double R] (w : SampleWindow R) (x : WindowSample R) : Prop :=
  w.Takes x.time x.value x.seq → w.hasBucket = true →
    match w.type with
    | .instantaneous | .rollingCount => True
    | .sliding =>
      (∀ y ∈ w.samples.head?, x.time.toInt - y.time.toInt < 2 ^ 63) ∨
        (w.samples.length = w.capacity ∧
          ∀ z ∈ w.samples.tail.head?, x.time.toInt - z.time.toInt < w.interval.toInt)
    | .tumbling | .fixedInterval =>
      x.time / w.interval = w.bucketStart / w.interval →
        w.samples.length < w.capacity ∧
          (x.time / w.interval = 0 → ∀ y ∈ w.samples.head?, y.time < 0 →
            x.time.toInt - y.time.toInt < w.interval.toInt)

/-- From 2^63 nanoseconds on, the age comes out negative. -/
theorem oldFor_far {interval : Duration} {x y : WindowSample R}
    (hfar : 2 ^ 63 ≤ x.time.toInt - y.time.toInt) : oldFor interval x y = false := by
  have hlow := Int64.le_toInt y.time
  have hhigh := Int64.toInt_lt x.time
  have hneg : (x.time - y.time).toInt < 0 := by
    rw [Int64.toInt_sub, Int.bmod_def]
    split <;> omega
  unfold oldFor
  by_cases hpos : 0 < interval
  · have hint : 0 < interval.toInt := Int64.lt_iff_toInt_lt.mp hpos
    have hyoung : ¬interval ≤ x.time - y.time := fun hle => by
      have hle := Int64.le_iff_toInt_le.mp hle
      omega
    rw [decide_eq_false hyoung, Bool.and_false]
  · rw [decide_eq_false hpos, Bool.false_and]

/-- Young samples that end in `x` are narrow. -/
theorem narrow_of_young {interval : Duration} {l q : List (WindowSample R)} {x : WindowSample R}
    (hl : l <:+ q ++ [x]) (hyoung : ∀ y ∈ l, x.time.toInt - y.time.toInt < interval.toInt) :
    Narrow interval l := by
  intro a ha y hy
  have hne : l ≠ [] := fun hnil => by simp [hnil] at ha
  rw [suffix_last hl hne, Option.mem_some_iff] at ha
  rw [← ha]
  exact hyoung y (List.mem_of_mem_head? hy)

/-- The loop over the ages reaches every sample that is too old. -/
theorem narrow_expire {interval : Duration} (hpos : 0 < interval) (capacity : Nat)
    {q : List (WindowSample R)} {x : WindowSample R}
    (hordered : (q ++ [x]).Pairwise fun y z => y.time ≤ z.time)
    (hnear : ∀ y ∈ q.head?, x.time.toInt - y.time.toInt < 2 ^ 63) :
    Narrow interval (expire (oldFor interval) capacity q x) := by
  have hrange : ∀ y ∈ q ++ [x], 0 ≤ x.time.toInt - y.time.toInt ∧
      x.time.toInt - y.time.toInt < 2 ^ 63 := by
    refine forall_mem_push.mpr ⟨fun y hy => ?_, by omega⟩
    have hyx := Int64.le_iff_toInt_le.mp ((pairwise_push.mp hordered).2 y hy)
    cases q with
    | nil => cases hy
    | cons z q =>
      have hz := hnear z rfl
      rcases List.mem_cons.mp hy with rfl | hy
      · omega
      · have hzy := Int64.le_iff_toInt_le.mp
          ((List.pairwise_cons.mp hordered).1 y (List.mem_append_left _ hy))
        omega
  have hold {y : WindowSample R} (hy : y ∈ q ++ [x]) : oldFor interval x y = false ↔
      x.time.toInt - y.time.toInt < interval.toInt := by
    obtain ⟨hback, hforth⟩ := hrange y hy
    rw [← Bool.not_eq_true, oldFor_iff (by omega) hforth, not_and, Int.not_le]
    exact ⟨fun h => h hpos, fun h _ => h⟩
  have hsuffix := List.dropWhile_suffix (l := q ++ [x]) (oldFor interval x)
  have hkept : expire (oldFor interval) capacity q x <:+ (q ++ [x]).dropWhile (oldFor interval x) :=
    recent_suffix capacity _
  refine narrow_of_young (hkept.trans hsuffix) fun y hy => ?_
  refine (hold (hsuffix.mem (hkept.mem hy))).mp (dropWhile_all ?_ y (hkept.mem hy))
  refine hordered.imp_of_mem fun {y z} hy hz hyz hyoung => ?_
  have hyz := Int64.le_iff_toInt_le.mp hyz
  have hage := (hold hy).mp hyoung
  exact (hold hz).mpr (by omega)

/-- **The queue of a sliding window stays narrow** when its oldest sample is within 2^63
    nanoseconds, or it is full and gives up that one only. -/
theorem narrow_expire_iff {interval : Duration} (hpos : 0 < interval) {capacity : Nat}
    {q : List (WindowSample R)} {x : WindowSample R} (hlen : q.length ≤ capacity)
    (hordered : (q ++ [x]).Pairwise fun y z => y.time ≤ z.time) :
    Narrow interval (expire (oldFor interval) capacity q x) ↔
      (∀ y ∈ q.head?, x.time.toInt - y.time.toInt < 2 ^ 63) ∨ (q.length = capacity ∧
        ∀ z ∈ q.tail.head?, x.time.toInt - z.time.toInt < interval.toInt) := by
  have hint : 0 < interval.toInt := Int64.lt_iff_toInt_lt.mp hpos
  have hmax := Int64.toInt_lt interval
  by_cases hnear : ∀ y ∈ q.head?, x.time.toInt - y.time.toInt < 2 ^ 63
  · exact iff_of_true (narrow_expire hpos capacity hordered hnear) (Or.inl hnear)
  · cases q with
    | nil => exact absurd (fun y hy => by simp at hy) hnear
    | cons y q =>
      have hfar : 2 ^ 63 ≤ x.time.toInt - y.time.toInt := by simpa using hnear
      -- the loop over the ages stops at the first sample
      have hstay : expire (oldFor interval) capacity (y :: q) x =
          ((y :: q) ++ [x]).drop (q.length + 2 - capacity) := by
        rw [expire, List.cons_append, List.dropWhile_cons, oldFor_far hfar,
          if_neg Bool.false_ne_true, recent]
        simp
      rw [hstay, or_iff_right hnear, List.tail_cons, List.length_cons]
      by_cases hfull : q.length + 1 = capacity
      · have hone : q.length + 2 - capacity = 1 := by omega
        rw [hone, List.cons_append, List.drop_succ_cons, List.drop_zero, narrow_push,
          and_iff_right hfull]
        cases q with
        | nil => simp [hint]
        | cons z q => rfl
      · rw [List.length_cons] at hlen
        have hnone : q.length + 2 - capacity = 0 := by omega
        rw [hnone, List.drop_zero, narrow_push, List.cons_append]
        refine iff_of_false (fun h => ?_) (fun h => hfull h.1)
        have hyx := h y rfl
        omega

/-- **A bucket that a sample joins stays narrow** if it is not that of `0`, or has its oldest sample
    not too far before `0`. -/
theorem narrow_join_iff {interval : Duration} (hpos : 0 < interval) {q : List (WindowSample R)}
    {x : WindowSample R} (hsame : ∀ y ∈ q, x.time / interval = y.time / interval) :
    Narrow interval (q ++ [x]) ↔ (x.time / interval = 0 → ∀ y ∈ q.head?, y.time < 0 →
      x.time.toInt - y.time.toInt < interval.toInt) := by
  have hint : 0 < interval.toInt := Int64.lt_iff_toInt_lt.mp hpos
  rw [narrow_push]
  cases q with
  | nil => simp [hint]
  | cons z q =>
    simp only [List.cons_append, List.head?_cons, Option.mem_def, Option.some.injEq, forall_eq']
    refine ⟨fun h _ _ => h, fun h => ?_⟩
    by_cases hzero : x.time / interval = 0 ∧ z.time < 0
    · exact h hzero.1 hzero.2
    · refine narrow_of_bucket hpos (hsame z List.mem_cons_self) fun h0 => ?_
      exact Int64.not_lt.mp fun hneg => hzero ⟨h0, hneg⟩

/-! ## 3. Runs of calls -/

section Calls

variable [Double R] [Platform R]

/-- The samples held, and one that is taken, are in the order of their times. -/
theorem Kept.ordered_push {type : WindowType} {interval : Duration} {capacity : Nat}
    {l : List (WindowSample R)} {w : SampleWindow R} (h : Kept type interval capacity l w)
    {x : WindowSample R} (hx : w.Takes x.time x.value x.seq) (hsuffix : w.samples <:+ l) :
    (w.samples ++ [x]).Pairwise fun y z => y.time ≤ z.time :=
  pairwise_push.mpr ⟨h.ordered.sublist hsuffix.sublist,
    fun y hy => h.forth hx y (hsuffix.mem hy)⟩

omit [Double R] [Platform R] in
/-- The samples held are of the bucket. -/
theorem Kept.inBucket {type : WindowType} {interval : Duration} {capacity : Nat}
    {l : List (WindowSample R)} {w : SampleWindow R} (h : Kept type interval capacity l w)
    (hbucket : w.hasBucket = true) (htype : type = .tumbling ∨ type = .fixedInterval)
    (hpos : 0 < interval) :
    ∀ y ∈ w.samples, y.time / interval = w.bucketStart / interval := by
  obtain ⟨hsuffix, hfilter⟩ := h.bucketed htype hpos
  intro y hy
  obtain ⟨a, ha⟩ : ∃ a, l.getLast? = some a :=
    ⟨_, List.getLast?_eq_some_getLast (List.ne_nil_of_mem (hsuffix.mem hy))⟩
  rw [hfilter a ha] at hy
  rw [h.bucket hbucket htype hpos a ha]
  exact of_decide_eq_true (List.mem_filter.mp hy).2

/-- **Which sample keeps a window bounded.** -/
theorem bounded_iff {type : WindowType} {interval : Duration} {capacity : Nat}
    (hpos : 0 < interval) (hcap : 1 ≤ capacity) {l : List (WindowSample R)} {w : SampleWindow R}
    (hw : Kept type interval capacity l w) (hb : w.Bounded) (x : WindowSample R) :
    (w.ingest x.time x.value x.seq).1.Bounded ↔ w.Fits x := by
  by_cases hx : w.Takes x.time x.value x.seq
  · obtain ⟨rfl, rfl, rfl⟩ := hw.shape
    rw [ingest_taken hx]
    unfold Bounded Fits
    simp only [hx, true_implies]
    unfold kept
    cases hbucket : w.hasBucket with
    | false =>
      rw [if_neg Bool.false_ne_true, (hw.fresh hbucket).2]
      exact iff_of_true ⟨hcap, fun _ => narrow_singleton hpos x⟩ (fun h => by cases h)
    | true =>
      rw [if_pos rfl]
      simp only [true_implies]
      cases htype : w.type with
      | instantaneous => exact iff_of_true ⟨hcap, fun h => by cases h⟩ trivial
      | rollingCount =>
        refine iff_of_true ⟨?_, fun h => by cases h⟩ trivial
        exact (length_recent w.capacity _).trans_le (Nat.min_le_right _ _)
      | sliding =>
        have hheld := hw.held
        rw [htype, Policy] at hheld
        have hordered := hw.ordered_push hx (hheld ▸ queue_suffix l)
        have hlen : (expire (oldFor w.interval) w.capacity w.samples x).length ≤ w.capacity :=
          (length_recent w.capacity _).trans_le (Nat.min_le_right _ _)
        simp only [evict_eq, byTime, true_implies]
        rw [and_iff_right hlen, narrow_expire_iff hpos hb.1 hordered]
      | tumbling | fixedInterval =>
        have hopen := ((hx.2.2 hbucket).2 (by simp [htype])).2
        simp only [byTime, true_implies]
        split
        · rename_i hlater
          refine iff_of_true ⟨hcap, narrow_singleton hpos x⟩ fun hsame => ?_
          rw [hsame] at hlater
          exact absurd hlater Int64.lt_irrefl
        · rename_i hsame
          have hjoin : x.time / w.interval = w.bucketStart / w.interval :=
            Int64.le_antisymm (Int64.not_lt.mp hsame) hopen
          have hbuckets : ∀ y ∈ w.samples, x.time / w.interval = y.time / w.interval :=
            fun y hy => hjoin.trans (hw.inBucket hbucket (by simp [htype]) hpos y hy).symm
          rw [List.length_append, List.length_singleton, narrow_join_iff hpos hbuckets]
          simp only [hjoin, true_implies]
          rfl
  · obtain ⟨hkept, hsamples⟩ := hw.untaken hx
    refine iff_of_true ?_ (fun h => absurd h hx)
    unfold Bounded at hb ⊢
    rwa [hsamples, hkept.shape.1, hkept.shape.2.1, hkept.shape.2.2, ← hw.shape.1, ← hw.shape.2.1,
      ← hw.shape.2.2]

/-- **Bounded stores.** The runs of samples that fit are those in which the window is bounded all
    along. -/
theorem bounded_store_iff {type : WindowType} {interval : Duration} {capacity : Nat}
    (hpos : 0 < interval) (hcap : 1 ≤ capacity) {tr : List (WindowSample R × IngestStatus)}
    {w : SampleWindow R} :
    Run call Fits (make type interval capacity) tr w ↔
      Run call (fun w _ => w.Bounded) (make type interval capacity) tr w ∧ w.Bounded := by
  refine Run.kept_along_iff (J := fun w => ∃ l, Kept type interval capacity l w)
    ⟨Nat.zero_le _, fun _ => narrow_nil _⟩ ⟨[], make_kept type interval hcap⟩ ?_ ?_
  · rintro w x w' s ⟨l, hl⟩ hs
    obtain ⟨rfl, rfl⟩ := of_call hs
    by_cases hx : w.Takes x.time x.value x.seq
    · exact ⟨_, hl.taken hcap hx⟩
    · exact ⟨l, (hl.untaken hx).1⟩
  · rintro w x w' s ⟨l, hl⟩ hb hs
    obtain ⟨rfl, rfl⟩ := of_call hs
    exact bounded_iff hpos hcap hl hb x

end Calls

/-- Two samples of one bucket, for a window with room for one. -/
def crowded : List (WindowSample Binary64) := [⟨1, Double.ofRat 1, 1⟩, ⟨2, Double.ofRat 1, 2⟩]

/-- Two samples of the bucket of `0`, one before and one after it. -/
def astride : List (WindowSample Binary64) := [⟨-9, Double.ofRat 1, 1⟩, ⟨9, Double.ofRat 1, 2⟩]

/-- **The store is not bounded, and a bucket may be too long.** -/
theorem bounded_store_fails :
    (¬∀ (type : WindowType) (interval : Duration) (capacity : Nat)
      (tr : List (WindowSample Binary64 × IngestStatus)) (w : SampleWindow Binary64),
      0 < interval → 1 ≤ capacity →
      Run call (fun _ _ => True) (make type interval capacity) tr w →
      w.samples.length ≤ w.capacity) ∧
    ¬∀ (type : WindowType) (interval : Duration) (capacity : Nat)
      (tr : List (WindowSample Binary64 × IngestStatus)) (w : SampleWindow Binary64),
      0 < interval → 1 ≤ capacity →
      Run call (fun _ _ => True) (make type interval capacity) tr w →
      byTime w.type = true → Narrow w.interval w.samples := by
  constructor
  · intro hall
    have htest : (execute call (fun _ _ => true) (make .tumbling 10 1) crowded).any
        (fun x => decide (x.1.capacity < x.1.samples.length)) = true := by
      decide +kernel
    obtain ⟨w, tr, hrun, hlong⟩ := Run.of_test (fun _ _ _ => trivial) htest
    exact absurd (hall .tumbling 10 1 tr w (by decide) (by decide) hrun)
      (Nat.not_le.mpr (of_decide_eq_true hlong))
  · intro hall
    have htest : (execute call (fun _ _ => true) (make .tumbling 10 8) astride).any
        (fun x => x.1.type == .tumbling && x.1.interval == 10 &&
          x.1.samples == [⟨-9, Double.ofRat 1, 1⟩, ⟨9, Double.ofRat 1, 2⟩]) = true := by
      decide +kernel
    obtain ⟨w, tr, hrun, hlong⟩ := Run.of_test (fun _ _ _ => trivial) htest
    simp only [Bool.and_eq_true, beq_iff_eq] at hlong
    obtain ⟨⟨htype, hinterval⟩, hsamples⟩ := hlong
    have hnarrow := hall .tumbling 10 8 tr w (by decide) (by decide) hrun (by rw [htype]; rfl)
    rw [hinterval, hsamples] at hnarrow
    exact absurd (hnarrow ⟨9, Double.ofRat 1, 2⟩ rfl ⟨-9, Double.ofRat 1, 1⟩ rfl) (by decide)

/-- Two buckets, one after the other, with room for one sample. -/
def oneEach : List (WindowSample Binary64) := [⟨1, Double.ofRat 1, 1⟩, ⟨12, Double.ofRat 1, 2⟩]

theorem bounded_store_iff_two : ∃ tr, ∃ w : SampleWindow Binary64,
    (Run call (fun _ _ => True) (make .tumbling 10 1) tr w ∧ tr.length = 2) ∧
      (Run call Fits (make .tumbling 10 1) tr w ↔
        Run call (fun w _ => w.Bounded) (make .tumbling 10 1) tr w ∧ w.Bounded) := by
  have htest : (execute call (fun _ _ => true) (make .tumbling 10 1) oneEach).any
      (fun x => x.2.length == 2) = true := by
    decide +kernel
  obtain ⟨w, tr, hrun, hlen⟩ := Run.of_test (fun _ _ _ => trivial) htest
  exact ⟨tr, w, ⟨hrun, eq_of_beq hlen⟩, bounded_store_iff (by decide) (by decide)⟩

end SloFabric.SampleWindow
