/-
  File:      SloFabric/Batch.lean
  Subject:   What a window holds, as a function of the samples it accepted.

  * `call`, `accepted`: the calls of `ingest` as steps, and the samples that were accepted;
  * `kept`, `ingest_taken`, `ingest_untaken`: one call;
  * `Kept`, `kept_run`: what is held after a run of calls is what the policies keep of the samples
    accepted, one after the other;
  * `Batch`, `window_eq_batch`: that is the suffix of them each policy is meant to keep.
-/
import SloFabric.FutureDates
import SloFabric.Library.Expiry
import SloFabric.Library.Runs
import SloFabric.Exact

namespace SloFabric.SampleWindow

variable {R : Type}

/-! ## 1. One call -/

/-- What is held after a sample was taken. -/
def kept (w : SampleWindow R) (x : WindowSample R) : List (WindowSample R) :=
  if w.hasBucket then
    match w.type with
    | .instantaneous => [x]
    | .sliding => evictOver w.capacity (evictByAge w.interval x.time (w.samples ++ [x]))
    | .rollingCount => evictOver w.capacity (w.samples ++ [x])
    | .tumbling | .fixedInterval =>
      if w.bucketStart / w.interval < x.time / w.interval then [x] else w.samples ++ [x]
  else w.samples ++ [x]

/-- Where the bucket starts after a sample was taken. -/
def startAfter (w : SampleWindow R) (x : WindowSample R) : Duration :=
  if w.hasBucket then
    match w.type with
    | .instantaneous | .sliding | .rollingCount => w.bucketStart
    | .tumbling | .fixedInterval =>
      if w.bucketStart / w.interval < x.time / w.interval then x.time / w.interval * w.interval
      else w.bucketStart
  else x.time

section Calls

variable [Double R]

/-- A sample that is taken. -/
theorem ingest_taken {w : SampleWindow R} {x : WindowSample R}
    (h : w.Takes x.time x.value x.seq) : w.ingest x.time x.value x.seq =
      ({ w with samples := w.kept x, lastTime := x.time, lastSeq := x.seq,
                bucketStart := w.startAfter x, hasBucket := true }, .accepted) := by
  obtain ⟨⟨hnumber, hrange⟩, hseq, hlater⟩ := h
  unfold ingest kept startAfter
  rw [if_neg (by simp [hnumber, hrange]), if_neg (UInt64.not_le.mpr hseq)]
  cases hbucket : w.hasBucket with
  | false => simp
  | true =>
    obtain ⟨hforth, hopen⟩ := hlater hbucket
    simp only [Bool.not_true, Bool.false_eq_true, if_false, if_true]
    rw [if_neg (Int64.not_lt.mpr hforth)]
    cases htype : w.type with
    | instantaneous | sliding | rollingCount => simp
    | tumbling | fixedInterval =>
      obtain ⟨hpos, hle⟩ := hopen (by simp [htype])
      simp only
      rw [if_neg (Int64.not_le.mpr hpos), if_neg (Int64.not_lt.mpr hle)]
      split <;> simp

/-- A sample that is not taken. -/
theorem ingest_untaken {w : SampleWindow R} (hs : w.Settled) {x : WindowSample R}
    (h : ¬w.Takes x.time x.value x.seq) :
    (w.ingest x.time x.value x.seq).2 ≠ .accepted ∧ (w.ingest x.time x.value x.seq).2 ≠ .late ∧
      ∃ s, w.lastSeq ≤ s ∧ (w.ingest x.time x.value x.seq).1 = { w with lastSeq := s } := by
  have hno : (w.ingest x.time x.value x.seq).2 ≠ .accepted := fun hok =>
    h ((accepted_iff_takes w _ _ _).mp hok)
  rcases (ingest_clock hs x.time x.value x.seq).2 with ⟨hok, _⟩ | ⟨_, hlate, _⟩
  · exact absurd hok hno
  · refine ⟨hno, hlate, ?_⟩
    unfold ingest at hno hlate ⊢
    split
    · exact ⟨_, UInt64.le_refl _, rfl⟩
    · rename_i hvalue
      rw [if_neg hvalue] at hno hlate
      split
      · exact ⟨_, UInt64.le_refl _, rfl⟩
      · rename_i hseq
        have hnew : w.lastSeq < x.seq := UInt64.not_le.mp hseq
        rw [if_neg hseq] at hno hlate
        simp only at hno hlate ⊢
        split
        · rename_i hfirst
          rw [if_pos hfirst] at hno
          exact absurd rfl hno
        · rename_i hfirst
          rw [if_neg hfirst] at hno hlate
          split
          · exact ⟨_, UInt64.le_refl _, rfl⟩
          · rename_i hforth
            rw [if_neg hforth] at hno hlate
            cases htype : w.type with
            | instantaneous | sliding | rollingCount =>
              simp only [htype] at hno
              exact absurd rfl hno
            | tumbling | fixedInterval =>
              simp only [htype] at hno hlate ⊢
              split
              · exact ⟨_, UInt64.le_of_lt hnew, rfl⟩
              · rename_i hpos
                rw [if_neg hpos] at hno hlate
                split
                · rename_i hearly
                  rw [if_pos hearly] at hlate
                  exact absurd rfl hlate
                · rename_i hearly
                  rw [if_neg hearly] at hno
                  split at hno <;> exact absurd rfl hno

end Calls

/-! ## 2. What the policies keep -/

/-- Is `y` too old for the window when `x` comes? -/
def oldFor (interval : Duration) (x y : WindowSample R) : Bool :=
  decide (0 < interval) && decide (interval ≤ x.time - y.time)

theorem oldFor_self (interval : Duration) (x : WindowSample R) : oldFor interval x x = false := by
  unfold oldFor
  rw [Int64.sub_self]
  by_cases hpos : 0 < interval
  · rw [decide_eq_false (Int64.not_le.mpr hpos), Bool.and_false]
  · rw [decide_eq_false hpos, Bool.false_and]

/-- The two eviction loops of a sliding window. -/
theorem evict_eq (interval : Duration) (capacity : Nat) (l : List (WindowSample R))
    (x : WindowSample R) :
    evictOver capacity (evictByAge interval x.time (l ++ [x])) =
      expire (oldFor interval) capacity l x := by
  have hage : evictByAge interval x.time (l ++ [x]) = (l ++ [x]).dropWhile (oldFor interval x) := by
    unfold evictByAge oldFor
    by_cases hpos : 0 < interval
    · simp only [if_neg (Int64.not_le.mpr hpos), decide_eq_true hpos, Bool.true_and]
    · simp only [if_pos (Int64.not_lt.mp hpos), decide_eq_false hpos, Bool.false_and]
      cases l <;> rfl
  rw [hage]
  rfl

/-- Are two samples in one bucket? -/
def sameBucket (interval : Duration) (x y : WindowSample R) : Bool :=
  decide (y.time / interval = x.time / interval)

/-- What each policy keeps of the samples accepted, as the loops of `ingest` compute it. -/
def Policy (type : WindowType) (interval : Duration) (capacity : Nat)
    (l held : List (WindowSample R)) : Prop :=
  match type with
  | .instantaneous => held = l.getLast?.toList
  | .rollingCount => held = recent capacity l
  | .sliding => held = queue (oldFor interval) capacity l
  | .tumbling | .fixedInterval =>
    0 < interval → held <:+ l ∧ ∀ a ∈ l.getLast?, held = l.filter (sameBucket interval a)

theorem policy_nil (type : WindowType) (interval : Duration) (capacity : Nat) :
    Policy (R := R) type interval capacity [] [] := by
  cases type with
  | instantaneous => rfl
  | sliding => rfl
  | rollingCount => exact List.drop_nil.symm
  | tumbling | fixedInterval => exact fun _ => ⟨List.suffix_refl _, fun a ha => by simp at ha⟩

/-- A sample of the bucket joins it. -/
theorem filter_join {interval : Duration} {a x : WindowSample R}
    (h : a.time / interval = x.time / interval) (l : List (WindowSample R)) :
    (l ++ [x]).filter (sameBucket interval x) = l.filter (sameBucket interval a) ++ [x] := by
  have hsame : sameBucket interval x = sameBucket interval a := by
    funext y
    unfold sameBucket
    rw [h]
  have hself : sameBucket interval a x = true := decide_eq_true h.symm
  rw [List.filter_append, hsame, List.filter_cons_of_pos hself, List.filter_nil]

/-- A sample of a later bucket is the first of its own. -/
theorem filter_fresh {interval : Duration} {l : List (WindowSample R)} {x : WindowSample R}
    (h : ∀ y ∈ l, y.time / interval < x.time / interval) :
    (l ++ [x]).filter (sameBucket interval x) = [x] := by
  have hself : sameBucket interval x x = true := decide_eq_true rfl
  have hnone : l.filter (sameBucket interval x) = [] := by
    refine List.filter_eq_nil_iff.mpr fun y hy hyx => ?_
    have hlt := h y hy
    rw [of_decide_eq_true hyx] at hlt
    exact Int64.lt_irrefl hlt
  rw [List.filter_append, hnone, List.filter_cons_of_pos hself, List.filter_nil, List.nil_append]

/-- The samples accepted so far, in a window of this shape. -/
structure Kept (type : WindowType) (interval : Duration) (capacity : Nat)
    (l : List (WindowSample R)) (w : SampleWindow R) : Prop where
  shape : w.type = type ∧ w.interval = interval ∧ w.capacity = capacity
  settled : w.Settled
  fresh : w.hasBucket = false → l = [] ∧ w.samples = []
  clock : ∀ x ∈ l, x.time ≤ w.lastTime ∧ x.seq ≤ w.lastSeq
  numbered : l.Pairwise fun x y => x.seq < y.seq
  ordered : l.Pairwise fun x y => x.time ≤ y.time
  bucket : w.hasBucket = true → type = .tumbling ∨ type = .fixedInterval → 0 < interval →
    ∀ a ∈ l.getLast?, w.bucketStart / interval = a.time / interval
  held : Policy type interval capacity l w.samples

theorem make_kept (type : WindowType) (interval : Duration) {capacity : Nat} (h : 1 ≤ capacity) :
    Kept type interval capacity [] (make type interval capacity : SampleWindow R) where
  shape := ⟨rfl, rfl, if_neg (by omega)⟩
  settled := fun h => by cases h
  fresh _ := ⟨rfl, rfl⟩
  clock _ hx := absurd hx List.not_mem_nil
  numbered := List.Pairwise.nil
  ordered := List.Pairwise.nil
  bucket h := by cases h
  held := policy_nil type interval capacity

/-- The samples taken before are not later. -/
theorem Kept.forth [Double R] [Platform R] {type : WindowType} {interval : Duration}
    {capacity : Nat}
    {l : List (WindowSample R)} {w : SampleWindow R} (h : Kept type interval capacity l w)
    {x : WindowSample R} (hx : w.Takes x.time x.value x.seq) : ∀ y ∈ l, y.time ≤ x.time := by
  intro y hy
  cases hbucket : w.hasBucket with
  | false => exact absurd ((h.fresh hbucket).1 ▸ hy) List.not_mem_nil
  | true => exact Int64.le_trans (h.clock y hy).1 (hx.forth hbucket)

/-- The first sample is kept. -/
theorem policy_first (type : WindowType) (interval : Duration) {capacity : Nat} (h : 1 ≤ capacity)
    (x : WindowSample R) : Policy type interval capacity [x] [x] := by
  cases type with
  | instantaneous => rfl
  | rollingCount => simp [Policy, recent, h]
  | sliding => simp [Policy, queue, expire, recent, oldFor_self, h]
  | tumbling | fixedInterval =>
    refine fun _ => ⟨List.suffix_refl _, fun a ha => ?_⟩
    cases ha
    exact (filter_fresh (l := []) fun y hy => absurd hy List.not_mem_nil).symm

/-- The last sample is the latest one. -/
theorem Kept.latest {type : WindowType} {interval : Duration} {capacity : Nat}
    {l : List (WindowSample R)} {w : SampleWindow R} (h : Kept type interval capacity l w)
    {a y : WindowSample R} (ha : a ∈ l.getLast?) (hy : y ∈ l) : y.time ≤ a.time := by
  rcases List.eq_nil_or_concat' l with rfl | ⟨l', z, rfl⟩
  · cases hy
  · have hza : a = z := by simpa using ha.symm
    rw [hza]
    exact pairwise_last (fun x => Int64.le_refl x.time) h.ordered y hy

theorem Kept.bucketed {type : WindowType} {interval : Duration} {capacity : Nat}
    {l : List (WindowSample R)} {w : SampleWindow R} (h : Kept type interval capacity l w)
    (htype : type = .tumbling ∨ type = .fixedInterval) (hpos : 0 < interval) :
    w.samples <:+ l ∧ ∀ a ∈ l.getLast?, w.samples = l.filter (sameBucket interval a) := by
  rcases htype with rfl | rfl <;> exact h.held hpos

/-- A window of buckets keeps the samples of the bucket of the last one. -/
theorem Kept.bucket_policy [Double R] {type : WindowType} {interval : Duration} {capacity : Nat}
    {l : List (WindowSample R)} {w : SampleWindow R} (h : Kept type interval capacity l w)
    (htype : type = .tumbling ∨ type = .fixedInterval) (hbucket : w.hasBucket = true)
    (hpos : 0 < interval) {x : WindowSample R} (hx : w.Takes x.time x.value x.seq) :
    let held := if w.bucketStart / interval < x.time / interval then [x] else w.samples ++ [x]
    held <:+ l ++ [x] ∧ held = (l ++ [x]).filter (sameBucket interval x) := by
  obtain ⟨hsuffix, hfilter⟩ := h.bucketed htype hpos
  have hopen := (hx.2.2 hbucket).2 (by rwa [h.shape.1])
  rw [h.shape.2.1] at hopen
  cases hbefore : l.getLast? with
  | none =>
    rw [List.getLast?_eq_none_iff] at hbefore
    subst hbefore
    have hnone : w.samples = [] := List.suffix_nil.mp hsuffix
    have halone : [x] = [x].filter (sameBucket interval x) :=
      (filter_fresh (l := []) fun y hy => absurd hy List.not_mem_nil).symm
    simp only [hnone, List.nil_append, ite_self]
    exact ⟨List.suffix_refl _, halone⟩
  | some a =>
    have hstart : w.bucketStart / interval = a.time / interval :=
      h.bucket hbucket htype hpos a hbefore
    simp only
    split
    · rename_i hlater
      refine ⟨List.suffix_append l [x], (filter_fresh fun y hy => ?_).symm⟩
      exact Int64.lt_of_le_of_lt (div_le_div_right hpos (h.latest hbefore hy)) (hstart ▸ hlater)
    · rename_i hsame
      have hjoin : a.time / interval = x.time / interval :=
        hstart ▸ Int64.le_antisymm hopen.2 (Int64.not_lt.mp hsame)
      exact ⟨suffix_push hsuffix x, by rw [filter_join hjoin, ← hfilter a hbefore]⟩

/-- **One sample more**: each policy keeps what it is meant to. -/
theorem Kept.policy [Double R] {type : WindowType} {interval : Duration} {capacity : Nat}
    {l : List (WindowSample R)} {w : SampleWindow R} (h : Kept type interval capacity l w)
    (hcap : 1 ≤ capacity) {x : WindowSample R} (hx : w.Takes x.time x.value x.seq) :
    Policy type interval capacity (l ++ [x]) (w.kept x) := by
  obtain ⟨htype, hinterval, hcapacity⟩ := h.shape
  unfold kept
  rw [htype, hinterval, hcapacity]
  have hheld := h.held
  cases hbucket : w.hasBucket with
  | false =>
    obtain ⟨rfl, hnone⟩ := h.fresh hbucket
    rw [if_neg Bool.false_ne_true, hnone]
    exact policy_first type interval hcap x
  | true =>
    rw [if_pos rfl]
    cases type with
    | instantaneous => simp [Policy]
    | rollingCount =>
      rw [Policy] at hheld ⊢
      rw [hheld, ← recent_push]
      rfl
    | sliding =>
      rw [Policy] at hheld ⊢
      rw [hheld, queue_push, ← evict_eq]
    | tumbling | fixedInterval =>
      intro hpos
      have hlast : (l ++ [x]).getLast? = some x := by simp
      simp only [hlast, Option.mem_def, Option.some.injEq, forall_eq']
      exact h.bucket_policy (by simp) hbucket hpos hx

/-- The bucket after a sample is that of the sample. -/
theorem bucket_startAfter [Double R] {w : SampleWindow R} {x : WindowSample R}
    (hx : w.Takes x.time x.value x.seq) (htype : w.type = .tumbling ∨ w.type = .fixedInterval)
    (hpos : 0 < w.interval) : w.startAfter x / w.interval = x.time / w.interval := by
  unfold startAfter
  cases hbucket : w.hasBucket with
  | false => rfl
  | true =>
    have hopen := (hx.2.2 hbucket).2 htype
    rw [if_pos rfl]
    rcases htype with htype | htype
    all_goals
      simp only [htype]
      split
      · exact div_mul_div hpos
      · rename_i hsame
        exact Int64.le_antisymm hopen.2 (Int64.not_lt.mp hsame)

section Runs

variable [Double R]

/-- **A sample is taken.** -/
theorem Kept.taken [Platform R] {type : WindowType} {interval : Duration} {capacity : Nat}
    {l : List (WindowSample R)} {w : SampleWindow R} (h : Kept type interval capacity l w)
    (hcap : 1 ≤ capacity) {x : WindowSample R} (hx : w.Takes x.time x.value x.seq) :
    Kept type interval capacity (l ++ [x]) (w.ingest x.time x.value x.seq).1 := by
  have hforth := h.forth hx
  have hsettled := (ingest_clock h.settled x.time x.value x.seq).1
  have hnew : ∀ y ∈ l, y.seq < x.seq := fun y hy =>
    UInt64.lt_of_le_of_lt (h.clock y hy).2 hx.2.1
  rw [ingest_taken hx] at hsettled ⊢
  refine ⟨h.shape, hsettled, (fun hno => by cases hno), ?_, pairwise_push.mpr ⟨h.numbered, hnew⟩,
    pairwise_push.mpr ⟨h.ordered, hforth⟩, ?_, h.policy hcap hx⟩
  · exact forall_mem_push.mpr ⟨fun y hy => ⟨hforth y hy, UInt64.le_of_lt (hnew y hy)⟩,
      Int64.le_refl _, UInt64.le_refl _⟩
  · intro _ htype hpos a ha
    obtain ⟨htype', rfl, _⟩ := h.shape
    have hax : a = x := by simpa using ha.symm
    rw [hax]
    exact bucket_startAfter hx (htype'.symm ▸ htype) hpos

/-- **A sample is turned away.** -/
theorem Kept.untaken {type : WindowType} {interval : Duration} {capacity : Nat}
    {l : List (WindowSample R)} {w : SampleWindow R} (h : Kept type interval capacity l w)
    {x : WindowSample R} (hx : ¬w.Takes x.time x.value x.seq) :
    Kept type interval capacity l (w.ingest x.time x.value x.seq).1 ∧
      (w.ingest x.time x.value x.seq).1.samples = w.samples := by
  obtain ⟨_, _, s, hs, heq⟩ := ingest_untaken h.settled hx
  have hsettled := (ingest_clock h.settled x.time x.value x.seq).1
  rw [heq] at hsettled ⊢
  exact ⟨⟨h.shape, hsettled, h.fresh,
    fun y hy => ⟨(h.clock y hy).1, UInt64.le_trans (h.clock y hy).2 hs⟩,
    h.numbered, h.ordered, h.bucket, h.held⟩, rfl⟩

/-! ## 3. Runs of calls -/

/-- A call of `ingest`, as a step. -/
def call (w : SampleWindow R) (x : WindowSample R) : Option (SampleWindow R × IngestStatus) :=
  some (w.ingest x.time x.value x.seq)

theorem of_call {w w' : SampleWindow R} {x : WindowSample R} {s : IngestStatus}
    (h : w.call x = some (w', s)) :
    w' = (w.ingest x.time x.value x.seq).1 ∧ s = (w.ingest x.time x.value x.seq).2 := by
  have heq : w.ingest x.time x.value x.seq = (w', s) := Option.some.inj h
  rw [heq]
  exact ⟨rfl, rfl⟩

/-- The samples that were accepted, in order. -/
def accepted (tr : List (WindowSample R × IngestStatus)) : List (WindowSample R) :=
  (tr.filter fun x => x.2 = .accepted).map (·.1)

omit [Double R] in
theorem accepted_push (tr : List (WindowSample R × IngestStatus)) (x : WindowSample R)
    (s : IngestStatus) :
    accepted (tr ++ [(x, s)]) = if s = .accepted then accepted tr ++ [x] else accepted tr := by
  unfold accepted
  rw [List.filter_append, List.map_append]
  by_cases hs : s = .accepted
  · rw [if_pos hs, List.filter_cons_of_pos (by simpa using hs)]
    rfl
  · rw [if_neg hs, List.filter_cons_of_neg (by simpa using hs), List.filter_nil, List.map_nil,
      List.append_nil]

/-- One call, whatever comes of it. -/
theorem Kept.call [Platform R] {type : WindowType} {interval : Duration} {capacity : Nat}
    {tr : List (WindowSample R × IngestStatus)} {w w' : SampleWindow R} {x : WindowSample R}
    {s : IngestStatus} (h : Kept type interval capacity (accepted tr) w) (hcap : 1 ≤ capacity)
    (hs : w.call x = some (w', s)) :
    Kept type interval capacity (accepted (tr ++ [(x, s)])) w' := by
  obtain ⟨rfl, rfl⟩ := of_call hs
  rw [accepted_push]
  by_cases hx : w.Takes x.time x.value x.seq
  · rw [if_pos ((accepted_iff_takes w _ _ _).mpr hx)]
    exact h.taken hcap hx
  · rw [if_neg fun hok => hx ((accepted_iff_takes w _ _ _).mp hok)]
    exact (h.untaken hx).1

/-- **A run of calls.** -/
theorem kept_run [Platform R] {C : SampleWindow R → WindowSample R → Prop} {type : WindowType}
    {interval : Duration} {capacity : Nat} (hcap : 1 ≤ capacity)
    {tr : List (WindowSample R × IngestStatus)} {w : SampleWindow R}
    (h : Run call C (make type interval capacity) tr w) :
    Kept type interval capacity (accepted tr) w :=
  h.history (I := fun tr w => Kept type interval capacity (accepted tr) w)
    (make_kept type interval hcap) fun _ _ _ _ _ hI _ hs => hI.call hcap hs

/-! ## 4. The batch definition -/

/-- The times of the samples are less than 2^63 nanoseconds apart. -/
def Near (l : List (WindowSample R)) : Prop :=
  ∀ x ∈ l, ∀ y ∈ l, x.time.toInt - y.time.toInt < 2 ^ 63

/-- At most `capacity` samples, all younger than the interval at the last of `l`; an interval that
    is not positive limits no age. -/
def Young (interval : Duration) (capacity : Nat) (l q : List (WindowSample R)) : Prop :=
  q.length ≤ capacity ∧
    (0 < interval → ∀ a ∈ l.getLast?, ∀ y ∈ q, a.time.toInt - y.time.toInt < interval.toInt)

/-- **What a window is to hold** of the samples accepted. -/
def Batch (type : WindowType) (interval : Duration) (capacity : Nat)
    (l held : List (WindowSample R)) : Prop :=
  match type with
  | .instantaneous => held = l.getLast?.toList
  | .rollingCount => held <:+ l ∧ held.length = Nat.min l.length capacity
  | .sliding => Near l → LongestSuffix (Young interval capacity l) l held
  | .tumbling | .fixedInterval =>
    0 < interval → held <:+ l ∧ ∀ a ∈ l.getLast?, held = l.filter (sameBucket interval a)

end Runs

/-- Less than 2^63 nanoseconds apart, a sample is too old by its age. -/
theorem oldFor_iff {interval : Duration} {x y : WindowSample R}
    (hback : -2 ^ 63 ≤ x.time.toInt - y.time.toInt)
    (hforth : x.time.toInt - y.time.toInt < 2 ^ 63) :
    oldFor interval x y = true ↔
      0 < interval ∧ interval.toInt ≤ x.time.toInt - y.time.toInt := by
  unfold oldFor
  rw [Bool.and_eq_true, decide_eq_true_eq, decide_eq_true_eq, Int64.le_iff_toInt_le,
    toInt_sub_of_range hback hforth]

theorem Near.oldFor_iff {l : List (WindowSample R)} (h : Near l) {interval : Duration}
    {x y : WindowSample R} (hx : x ∈ l) (hy : y ∈ l) : oldFor interval x y = true ↔
      0 < interval ∧ interval.toInt ≤ x.time.toInt - y.time.toInt := by
  have hback := h y hy x hx
  exact SampleWindow.oldFor_iff (by omega) (h x hx y hy)

/-- **The queue of a sliding window** is the longest suffix that is young. -/
theorem sliding_longest (interval : Duration) (capacity : Nat) {l : List (WindowSample R)}
    (hordered : l.Pairwise fun x y => x.time ≤ y.time) (hnear : Near l) :
    LongestSuffix (Young interval capacity l) l (queue (oldFor interval) capacity l) := by
  rcases List.eq_nil_or_concat' l with rfl | ⟨l, x, rfl⟩
  · refine ⟨List.suffix_refl _, ⟨Nat.zero_le _, fun _ a ha => by simp at ha⟩, fun q hq _ => ?_⟩
    rw [List.suffix_nil.mp hq]
    exact Nat.zero_le _
  · have hlatest : ∀ y ∈ l ++ [x], y.time ≤ x.time :=
      pairwise_last (fun x => Int64.le_refl x.time) hordered
    have hx : x ∈ l ++ [x] := by simp
    have hold {y : WindowSample R} (hy : y ∈ l ++ [x]) : oldFor interval x y = false ↔
        (0 < interval → x.time.toInt - y.time.toInt < interval.toInt) := by
      rw [← Bool.not_eq_true, hnear.oldFor_iff hx hy]
      exact ⟨fun h hpos => Int.not_le.mp fun hle => h ⟨hpos, hle⟩,
        fun h hage => absurd (h hage.1) (Int.not_lt.mpr hage.2)⟩
    refine (queue_longest (fun y hy z hz hzy => ?_) ?_).congr fun q hq => ?_
    · -- the last sample is the latest
      have hzx := Int64.le_iff_toInt_le.mp (hlatest z hz)
      obtain ⟨hpos, hage⟩ := (hnear.oldFor_iff hz hy).mp hzy
      exact (hnear.oldFor_iff hx hy).mpr ⟨hpos, by omega⟩
    · refine hordered.imp_of_mem fun hy hz hyz hyoung => ?_
      have hyz := Int64.le_iff_toInt_le.mp hyz
      rw [hold hz]
      intro hpos
      have hage := (hold hy).mp hyoung hpos
      omega
    · have hlast : (l ++ [x]).getLast? = some x := by simp
      unfold Young
      simp only [hlast, Option.mem_def, Option.some.injEq, forall_eq']
      refine and_congr_right fun _ => ?_
      exact ⟨fun h hpos y hy => (hold (hq.mem hy)).mp (h y hy) hpos,
        fun h y hy => (hold (hq.mem hy)).mpr fun hpos => h hpos y hy⟩

/-- **What the policies keep is what the window is to hold.** -/
theorem Kept.batch {type : WindowType} {interval : Duration} {capacity : Nat}
    {l : List (WindowSample R)} {w : SampleWindow R} (h : Kept type interval capacity l w) :
    Batch type interval capacity l w.samples := by
  have hheld := h.held
  cases type with
  | instantaneous => exact hheld
  | rollingCount =>
    rw [Policy] at hheld
    exact hheld ▸ ⟨recent_suffix capacity l, length_recent capacity l⟩
  | sliding =>
    rw [Policy] at hheld
    exact fun hnear => hheld ▸ sliding_longest interval capacity h.ordered hnear
  | tumbling | fixedInterval => exact hheld

/-- **The incremental window equals its batch definition.** -/
theorem window_eq_batch [Double R] [Platform R] {type : WindowType} {interval : Duration}
    {capacity : Nat}
    (hcap : 1 ≤ capacity) {tr : List (WindowSample R × IngestStatus)} {w : SampleWindow R}
    (h : Run call (fun _ _ => True) (make type interval capacity) tr w) :
    ((accepted tr).Pairwise fun x y => x.seq < y.seq ∧ x.time ≤ y.time) ∧
      (∀ x ∈ tr, x.2 ≠ .late) ∧
      (∀ x w' s, w.call x = some (w', s) → s ≠ .accepted → w'.samples = w.samples) ∧
      Batch type interval capacity (accepted tr) w.samples := by
  have hkept := kept_run hcap h
  refine ⟨hkept.numbered.and hkept.ordered, fun x hx => ?_, fun x w' s hs hno => ?_, hkept.batch⟩
  · obtain ⟨before, after, rfl⟩ := List.append_of_mem hx
    obtain ⟨w₁, w₂, hrun, hs, _⟩ := h.split
    rw [(of_call hs).2]
    have hsettled := (kept_run hcap hrun).settled
    by_cases htakes : w₁.Takes x.1.time x.1.value x.1.seq
    · rw [ingest_taken htakes]
      exact (fun h => by cases h)
    · exact (ingest_untaken hsettled htakes).2.1
  · obtain ⟨rfl, rfl⟩ := of_call hs
    exact (hkept.untaken fun htakes => hno ((accepted_iff_takes w _ _ _).mpr htakes)).2

/-- A sliding window of ten nanoseconds and four calls, the third with a number already used. -/
def fourCalls : List (WindowSample ℚ) := [⟨-7, 1, 1⟩, ⟨2, 5, 2⟩, ⟨3, 5, 2⟩, ⟨4, 9, 7⟩]

theorem window_eq_batch_four : ∃ tr, ∃ w : SampleWindow ℚ,
    (Run call (fun _ _ => True) (make .sliding 10 3) tr w ∧
      (accepted tr).map (·.seq) = [1, 2, 7] ∧ w.samples.map (·.seq) = [2, 7]) ∧
    Batch .sliding 10 3 (accepted tr) w.samples := by
  have htest : (execute call (fun _ _ => true) (make .sliding 10 3) fourCalls).any
      (fun x => (accepted x.2).map (·.seq) == [1, 2, 7] && x.1.samples.map (·.seq) == [2, 7]) =
        true := by
    decide +kernel
  obtain ⟨w, tr, hrun, htest⟩ := Run.of_test (fun _ _ _ => trivial) htest
  obtain ⟨haccepted, hheld⟩ := Bool.and_eq_true_iff.mp htest
  exact ⟨tr, w, ⟨hrun, eq_of_beq haccepted, eq_of_beq hheld⟩,
    (window_eq_batch (by decide) hrun).2.2.2⟩

end SloFabric.SampleWindow
