/-
  File:      SloFabric/Worse.lean
  Subject:   Two runs that differ in the evidence alone, over exact numbers.

  * `Comparison.Worse`: a value is at least as bad as another one; the mean, the least, the
    greatest value, the quantiles and the sum of worse values are worse;
  * `WorseWindow`, `WorseAcc`: windows and accumulators with worse values at the same times;
  * `AsSevere`: a verdict is at least as severe as another one; `verdict_worse`: worse values have
    such a verdict;
  * `worse_step`, `worse_never_looks_better`: so, over whole runs, worse evidence never makes an
    objective, or a contract, look better.
-/
import SloFabric.Archive
import SloFabric.Digest
import SloFabric.Peers
import SloFabric.Severity
import SloFabric.Quantiles
import SloFabric.Trend
import SloFabric.Library.Pairs
import SloFabric.Library.Pointwise

namespace SloFabric

open Double

/-! ## 1. Values -/

/-- `y` is at least as bad as `x` where the comparison is to hold. -/
def Comparison.Worse (c : Comparison) (x y : ℚ) : Prop :=
  match c with
  | .atMost => x ≤ y
  | .atLeast => y ≤ x

theorem Comparison.Worse.refl (c : Comparison) (x : ℚ) : c.Worse x x := by
  cases c <;> exact le_rfl

theorem asBad_iff {obj : Objective ℚ} {x y : ℚ} : AsBad obj x y ↔ obj.comparison.Worse x y := by
  unfold AsBad Comparison.Worse
  cases obj.comparison <;> rfl

/-- What grows with the values of a list gets worse with them. -/
theorem worse_of_mono {f : List ℚ → ℚ}
    (hf : ∀ l l', List.Forall₂ (· ≤ ·) l l' → f l ≤ f l') {c : Comparison} {l l' : List ℚ}
    (h : List.Forall₂ c.Worse l l') : c.Worse (f l) (f l') := by
  cases c with
  | atMost => exact hf l l' h
  | atLeast => exact hf l' l h.flip

theorem added_mono (l l' : List ℚ) (h : List.Forall₂ (· ≤ ·) l l') :
    l.foldl add (ofRat 0) ≤ l'.foldl add (ofRat 0) :=
  foldl_mono (fun _ _ _ _ hb ha => add_le_add hb ha) h le_rfl

/-- The fold of `max` and of `min` is the one of the code. -/
theorem extremum_mono {better : ℚ → ℚ → Bool} (pick : ℚ → ℚ → ℚ)
    (hpick : ∀ m x, (if better x m then x else m) = pick m x)
    (hmono : ∀ m m' x x', m ≤ m' → x ≤ x' → pick m x ≤ pick m' x') (l l' : List ℚ)
    (h : List.Forall₂ (· ≤ ·) l l') :
    SampleWindow.extremum better l ≤ SampleWindow.extremum better l' := by
  cases h with
  | nil => exact le_rfl
  | cons hab hl =>
    unfold SampleWindow.extremum
    simp only [hpick]
    exact foldl_mono hmono hl hab

theorem min_mono (l l' : List ℚ) (h : List.Forall₂ (· ≤ ·) l l') :
    SampleWindow.extremum (fun x m => lt x m) l ≤
      SampleWindow.extremum (fun x m => lt x m) l' := by
  refine extremum_mono (fun m x => min x m) (fun m x => ?_)
    (fun _ _ _ _ hm hx => min_le_min hx hm) l l' h
  simp only [lt, decide_eq_true_eq, min_def_lt]

theorem max_mono (l l' : List ℚ) (h : List.Forall₂ (· ≤ ·) l l') :
    SampleWindow.extremum (fun x m => lt m x) l ≤
      SampleWindow.extremum (fun x m => lt m x) l' := by
  refine extremum_mono (fun m x => max m x) (fun m x => ?_)
    (fun _ _ _ _ hm hx => max_le_max hm hx) l l' h
  simp only [lt, decide_eq_true_eq, max_def_lt]

/-- The place of a quantile is the same, and the value there is no smaller. -/
theorem nearestRank_mono (p : ℚ) (l l' : List ℚ) (h : List.Forall₂ (· ≤ ·) l l') :
    nearestRank l p ≤ nearestRank l' p := by
  have hlen := h.length_eq
  unfold nearestRank
  simp only [sort_eq, List.length_insertionSort, ← hlen]
  rcases Nat.eq_zero_or_pos l.length with hzero | hpos
  · have hl : l = [] := List.length_eq_zero_iff.mp hzero
    have hl' : l' = [] := List.length_eq_zero_iff.mp (hlen ▸ hzero)
    rw [hl, hl']
  · have hlt := rankIndex_lt hpos p
    have hplace {m : List ℚ} (hm : rankIndex l.length p < m.length) :
        (m.insertionSort (· ≤ ·))[rankIndex l.length p]? =
          some ((m.insertionSort (· ≤ ·)).getD (rankIndex l.length p) (ofRat 0)) := by
      have hin : rankIndex l.length p < (m.insertionSort (· ≤ ·)).length := by
        rwa [List.length_insertionSort]
      rw [List.getD_eq_getElem?_getD, List.getElem?_eq_getElem hin, Option.getD_some]
    exact (isKthSmallest_sorted (hplace hlt)).pointwise
      (isKthSmallest_sorted (hplace (hlen ▸ hlt))) h

/-! ## 2. Windows -/

/-- The samples were taken at the same time, and the second one is worse. -/
structure WorseSample (c : Comparison) (x y : WindowSample ℚ) : Prop where
  time : y.time = x.time
  seq : y.seq = x.seq
  value : c.Worse x.value y.value

/-- Windows that differ in their values only, which are worse in the second one. -/
structure WorseWindow (c : Comparison) (w w' : SampleWindow ℚ) : Prop where
  same : w' = { w with samples := w'.samples }
  samples : List.Forall₂ (WorseSample c) w.samples w'.samples

namespace WorseWindow

variable {c : Comparison} {w w' : SampleWindow ℚ}

theorem refl (c : Comparison) (w : SampleWindow ℚ) : WorseWindow c w w :=
  ⟨rfl, List.forall₂_same.mpr fun x _ => ⟨rfl, rfl, .refl c x.value⟩⟩

theorem values (h : WorseWindow c w w') : List.Forall₂ c.Worse w.values w'.values := by
  unfold SampleWindow.values
  rw [List.forall₂_map_left_iff, List.forall₂_map_right_iff]
  exact h.samples.imp fun _ _ hxy => hxy.value

theorem size (h : WorseWindow c w w') : w'.size = w.size := h.samples.length_eq.symm

theorem isEmpty (h : WorseWindow c w w') : w'.isEmpty = w.isEmpty := by
  have hsamples := h.samples
  unfold SampleWindow.isEmpty
  generalize w.samples = l at hsamples
  generalize w'.samples = l' at hsamples
  cases hsamples <;> rfl

theorem mean (h : WorseWindow c w w') : c.Worse w.mean w'.mean := by
  unfold SampleWindow.mean
  rw [h.isEmpty, h.size]
  split
  · exact .refl c _
  · have hsum : c.Worse w.sum w'.sum := worse_of_mono added_mono h.values
    have hn : (0 : ℚ) ≤ ofSize w.size := Nat.cast_nonneg _
    generalize w.sum = x at hsum
    generalize w'.sum = y at hsum
    cases c with
    | atMost => exact div_le_div_of_nonneg_right hsum hn
    | atLeast => exact div_le_div_of_nonneg_right hsum hn

theorem min (h : WorseWindow c w w') : c.Worse w.min w'.min := worse_of_mono min_mono h.values

theorem max (h : WorseWindow c w w') : c.Worse w.max w'.max := worse_of_mono max_mono h.values

theorem quantile (h : WorseWindow c w w') (p : ℚ) : c.Worse (w.quantile p) (w'.quantile p) := by
  rw [window_quantile, window_quantile]
  exact worse_of_mono (nearestRank_mono p) h.values

/-- **A window takes a worse value alike.** -/
theorem ingest (h : WorseWindow c w w') (time : Duration) {x y : ℚ} (seq : UInt64)
    (hxy : c.Worse x y) (hbound : 10 ^ 300 < x ↔ 10 ^ 300 < y) :
    WorseWindow c (w.ingest time x seq).1 (w'.ingest time y seq).1 ∧
      (w'.ingest time y seq).2 = (w.ingest time x seq).2 := by
  obtain ⟨hsame, hsamples⟩ := h
  generalize w'.samples = l at hsame hsamples
  subst hsame
  have hvalid : (!eq y y || lt (ofRat (10 ^ 300)) y) = (!eq x x || lt (ofRat (10 ^ 300)) x) := by
    simp [eq, lt, ofRat, hbound]
  have hone : WorseSample c ⟨time, x, seq⟩ ⟨time, y, seq⟩ := ⟨rfl, rfl, hxy⟩
  have hlong := List.rel_append hsamples (.cons hone .nil)
  have hover {k : Nat} {l l' : List (WindowSample ℚ)} (h : List.Forall₂ (WorseSample c) l l') :
      List.Forall₂ (WorseSample c) (SampleWindow.evictOver k l) (SampleWindow.evictOver k l') := by
    unfold SampleWindow.evictOver
    rw [h.length_eq]
    exact List.forall₂_drop _ h
  have hage {interval : Duration} {l l' : List (WindowSample ℚ)}
      (h : List.Forall₂ (WorseSample c) l l') :
      List.Forall₂ (WorseSample c) (SampleWindow.evictByAge interval time l)
        (SampleWindow.evictByAge interval time l') := by
    unfold SampleWindow.evictByAge
    split
    · exact h
    · exact forall₂_dropWhile (fun a b hab => by rw [hab.time]) h
  unfold SampleWindow.ingest
  rw [hvalid]
  split
  · exact ⟨⟨rfl, hsamples⟩, rfl⟩
  split
  · exact ⟨⟨rfl, hsamples⟩, rfl⟩
  simp only
  split
  · exact ⟨⟨rfl, hlong⟩, rfl⟩
  split
  · exact ⟨⟨rfl, hsamples⟩, rfl⟩
  cases w.type with
  | instantaneous => exact ⟨⟨rfl, .cons hone .nil⟩, rfl⟩
  | sliding => exact ⟨⟨rfl, hover (hage hlong)⟩, rfl⟩
  | rollingCount => exact ⟨⟨rfl, hover hlong⟩, rfl⟩
  | tumbling | fixedInterval =>
    simp only
    split
    · exact ⟨⟨rfl, hsamples⟩, rfl⟩
    · split
      · exact ⟨⟨rfl, hsamples⟩, rfl⟩
      · split
        · exact ⟨⟨rfl, .cons hone .nil⟩, rfl⟩
        · exact ⟨⟨rfl, hlong⟩, rfl⟩

end WorseWindow

/-- Costs of the same times, worse in the second window. -/
structure WorseCosts (c : Comparison) (w w' : CostWindow ℚ) : Prop where
  cap : w'.capNs = w.capNs
  items : List.Forall₂ (fun p q => q.1 = p.1 ∧ c.Worse p.2 q.2) w.items w'.items

namespace WorseCosts

variable {c : Comparison} {w w' : CostWindow ℚ}

theorem refl (c : Comparison) (w : CostWindow ℚ) : WorseCosts c w w :=
  ⟨rfl, List.forall₂_same.mpr fun p _ => ⟨rfl, .refl c p.2⟩⟩

theorem sum (h : WorseCosts c w w') : c.Worse w.sum w'.sum := by
  have hsum (w : CostWindow ℚ) : w.sum = (w.items.map (·.2)).foldl add (ofRat 0) := by
    rw [List.foldl_map]
    rfl
  rw [hsum, hsum]
  refine worse_of_mono added_mono ?_
  rw [List.forall₂_map_left_iff, List.forall₂_map_right_iff]
  exact h.items.imp fun _ _ hpq => hpq.2

theorem isEmpty (h : WorseCosts c w w') : w'.items.isEmpty = w.items.isEmpty := by
  have hitems := h.items
  generalize w.items = l at hitems
  generalize w'.items = l' at hitems
  cases hitems <;> rfl

theorem add (h : WorseCosts c w w') (t : Duration) {x y : ℚ} (hxy : c.Worse x y)
    (windowNs : Int64) : WorseCosts c (w.add t x windowNs) (w'.add t y windowNs) := by
  have hlong := List.rel_append h.items (.cons ⟨rfl, hxy⟩ .nil : List.Forall₂ _ [(t, x)] [(t, y)])
  refine ⟨rfl, ?_⟩
  unfold CostWindow.add CostWindow.evict
  simp only
  split
  · have haged := forall₂_dropWhile (p := fun p => decide (windowNs < t - p.1))
      (q := fun p => decide (windowNs < t - p.1)) (fun a b hab => by rw [hab.1]) hlong
    rw [haged.length_eq]
    exact List.forall₂_drop _ haged
  · rw [hlong.length_eq]
    exact List.forall₂_drop _ hlong

end WorseCosts

/-! ## 3. Verdicts -/

/-- `y` is at least as severe as `x`: the same, or both are verdicts on a value and `y` ranks no
    lower. -/
def AsSevere (x y : ComplianceState) : Prop :=
  x = y ∨ severityRankOf y ≤ severityRankOf x ∧ severityRankOf x ≤ severityRankOf .compliant

theorem AsSevere.refl (x : ComplianceState) : AsSevere x x := Or.inl rfl

/-- Where a verdict is held in the Near zone, a more severe one is. -/
theorem held_mono {x y : ComplianceState} (h : AsSevere x y) :
    severityRankOf (if y = .violating ∨ y = .recovering then y else .nearLimit) ≤
      severityRankOf (if x = .violating ∨ x = .recovering then x else .nearLimit) := by
  rcases h with rfl | ⟨h, _⟩
  · exact le_rfl
  · cases x <;> cases y <;> first | exact absurd h (by decide) | decide

theorem stepState_rank (o : Objective ℚ) (m : ℚ) (last : ComplianceState) :
    severityRankOf (stepState o m last) ≤ severityRankOf .compliant := by
  unfold stepState
  split
  · decide
  · decide
  · split
    · rename_i h
      rcases h with rfl | rfl <;> decide
    · decide

/-- **A worse value, after a verdict as severe, leads to a verdict as severe.** -/
theorem stepState_worse {o : Objective ℚ} {m m' : ℚ} (hm : o.comparison.Worse m m')
    {last last' : ComplianceState} (hlast : AsSevere last last') :
    severityRankOf (stepState o m' last') ≤ severityRankOf (stepState o m last) := by
  have hzone := zone_mono (asBad_iff.mpr hm)
  have hheld := held_mono hlast
  unfold stepState
  generalize classifyZone o m = z at hzone
  generalize classifyZone o m' = z' at hzone
  have hviolating (s : ComplianceState) : severityRankOf .violating ≤ severityRankOf s :=
    Nat.zero_le _
  have hnear : severityRankOf (if last' = .violating ∨ last' = .recovering then last'
      else .nearLimit) ≤ severityRankOf .compliant := by
    refine hheld.trans ?_
    split
    · rename_i h
      rcases h with rfl | rfl <;> decide
    · decide
  cases z <;> cases z'
  all_goals first
    | exact hviolating _
    | exact hheld
    | exact hnear
    | exact le_rfl
    | exact absurd hzone (by decide)

/-! ## 4. Accumulators -/

/-- The direction every objective is compared in. -/
abbrev Directions := ObjectiveId → Comparison

/-- Accumulators that differ in the values of their evidence, which are worse in the second one,
    in the last verdict, which is as severe there, and in the cooldown. -/
def WorseAcc (dir : Directions) (a b : ObjectiveAccumulator ℚ) : Prop :=
  ∃ w cost last stop,
    b = { a with window := w, cost := cost, lastState := last, cooldownUntil := stop } ∧
      WorseWindow (dir a.defn.id) a.window w ∧ WorseCosts (dir a.defn.id) a.cost cost ∧
      AsSevere a.lastState last

theorem worse_kinship (dir : Directions) : Kinship (WorseAcc dir) where
  refl a := ⟨a.window, a.cost, a.lastState, a.cooldownUntil, rfl, .refl _ _, .refl _ _, .refl _⟩
  defn _ _ h := by obtain ⟨_, _, _, _, rfl, _⟩ := h; rfl
  hasBudget _ _ h := by obtain ⟨_, _, _, _, rfl, _⟩ := h; rfl
  budget _ _ h := by obtain ⟨_, _, _, _, rfl, _⟩ := h; rfl
  rest _ _ _ stop h := by
    obtain ⟨w, cost, last, _, rfl, hrest⟩ := h
    exact ⟨w, cost, last, stop, rfl, hrest⟩
  recover _ _ _ _ h := by
    obtain ⟨w, cost, last, stop, rfl, hrest⟩ := h
    exact ⟨w, cost, last, stop, rfl, hrest⟩
  fund _ _ _ _ h := by
    obtain ⟨w, cost, last, stop, rfl, hrest⟩ := h
    exact ⟨w, cost, last, stop, rfl, hrest⟩

/-- The same record with a value of the same unit that is worse for the objective. What is
    reported of an availability is the same, and windows refuse both values as too large or
    neither. -/
structure WorseRecord (dir : Directions) (e e' : EvidenceRecord ℚ) : Prop where
  same : e' = { e with value := e'.value }
  unit : unitKindOf e'.value = unitKindOf e.value
  worse : (dir e.objectiveId).Worse (numericOf e.value) (numericOf e'.value)
  bounded : 10 ^ 300 < (numericOf e.value : ℚ) ↔ 10 ^ 300 < (numericOf e'.value : ℚ)
  availability : e.dimension = .availability → e'.value = e.value

theorem WorseRecord.refl (dir : Directions) (e : EvidenceRecord ℚ) : WorseRecord dir e e :=
  ⟨rfl, rfl, .refl _ _, Iff.rfl, fun _ => rfl⟩

section Evidence

variable {dir : Directions} {a b : ObjectiveAccumulator ℚ} {e e' : EvidenceRecord ℚ}

theorem WorseAcc.sample (h : WorseAcc dir a b) (he : WorseRecord dir e e')
    (hid : a.defn.id = e.objectiveId) :
    WorseAcc dir (a.sample e).1 (b.sample e').1 ∧ (b.sample e').2 = (a.sample e).2 := by
  obtain ⟨w, cost, last, stop, rfl, hw, hcost, hlast⟩ := h
  have htime : e'.time = e.time := congrArg (·.time) he.same
  obtain ⟨hwindow, hstatus⟩ := hw.ingest e.time a.nextSeq (hid ▸ he.worse) he.bounded
  unfold ObjectiveAccumulator.sample
  rw [htime]
  exact ⟨⟨_, cost, last, stop, rfl, hwindow, hcost, hlast⟩, hstatus⟩

theorem WorseAcc.costs (h : WorseAcc dir a b) : WorseCosts (dir a.defn.id) a.cost b.cost := by
  obtain ⟨_, _, _, _, rfl, _, hcost, _⟩ := h
  exact hcost

theorem WorseAcc.withCosts (h : WorseAcc dir a b) {x y : CostWindow ℚ}
    (hxy : WorseCosts (dir a.defn.id) x y) :
    WorseAcc dir { a with cost := x } { b with cost := y } := by
  obtain ⟨w, _, last, stop, rfl, hw, _, hlast⟩ := h
  exact ⟨w, y, last, stop, rfl, hw, hxy, hlast⟩

theorem WorseAcc.store (h : WorseAcc dir a b) (he : WorseRecord dir e e')
    (hid : a.defn.id = e.objectiveId) (o : Objective ℚ) :
    WorseAcc dir (storeEvidence o a e).1 (storeEvidence o b e').1 ∧
      (storeEvidence o a e).2 = (storeEvidence o b e').2 := by
  have hdim : e'.dimension = e.dimension := congrArg (·.dimension) he.same
  have htime : e'.time = e.time := congrArg (·.time) he.same
  obtain ⟨hsample, hstatus⟩ := h.sample he hid
  cases hd : e.dimension with
  | latency | throughput | memoryPressure =>
    simp only [storeEvidence, hdim, hd, hstatus]
    exact ⟨hsample, trivial⟩
  | availability =>
    obtain rfl : e' = e := by
      have hsame := he.same
      rwa [he.availability hd] at hsame
    obtain ⟨w, cost, last, stop, rfl, hrest⟩ := h
    simp only [storeEvidence, hd]
    exact ⟨⟨w, cost, last, stop, rfl, hrest⟩, trivial⟩
  | cost =>
    simp only [storeEvidence, hdim, hd]
    by_cases hkind : o.kind = .costWindowBudget
    · have hworse := he.worse
      rw [← hid] at hworse
      rw [if_pos hkind, if_pos hkind]
      rw [htime]
      exact ⟨h.withCosts (h.costs.add e.time hworse o.windowDuration), (rfl : ok = ok)⟩
    · rw [if_neg hkind, if_neg hkind]
      exact ⟨hsample, (rfl : ok = ok)⟩
  | recoveryTime =>
    simp only [storeEvidence, hdim, hd]
    exact ⟨h, trivial⟩

/-- **Both records are taken, or refused alike.** -/
theorem WorseAcc.offer (h : WorseAcc dir a b) (he : WorseRecord dir e e')
    (hid : a.defn.id = e.objectiveId) (o : Objective ℚ) :
    WorseAcc dir (SloFabric.offer o a e).1 (SloFabric.offer o b e').1 ∧
      (SloFabric.offer o a e).2 = (SloFabric.offer o b e').2 := by
  have hids : e'.id = e.id := congrArg (·.id) he.same
  have hcompatible : unitCompatible o e' = unitCompatible o e := by
    unfold unitCompatible
    rw [he.unit]
  have hseen : b.seen e.id = a.seen e.id := by
    obtain ⟨_, _, _, _, rfl, _⟩ := h
    rfl
  have hremember : WorseAcc dir (a.remember e.id) (b.remember e.id) := by
    obtain ⟨w, cost, last, stop, rfl, hrest⟩ := h
    exact ⟨w, cost, last, stop, rfl, hrest⟩
  unfold SloFabric.offer
  rw [hids, hcompatible, hseen]
  split
  · exact ⟨h, rfl⟩
  · simp only
    split
    · exact ⟨hremember, rfl⟩
    · exact hremember.store he hid o

/-! ## 5. Judging -/

/-- The aggregate of the samples is worse. -/
theorem WorseAcc.valued (h : WorseAcc dir a b) :
    (dir a.defn.id).Worse (windowValue a) (windowValue b) := by
  obtain ⟨w, cost, last, stop, rfl, hw, _⟩ := h
  unfold windowValue
  simp only
  split
  · split
    · exact hw.quantile _
    · split
      · exact hw.mean
      · exact hw.max
  · exact hw.mean
  · split
    · exact hw.min
    · exact hw.max
  · exact hw.mean

/-- **What is measured is worse**, or in neither. -/
theorem WorseAcc.measured (h : WorseAcc dir a b) (now : Duration) :
    (computeMeasured b now).got = (computeMeasured a now).got ∧
      (computeMeasured b now).sufficient = (computeMeasured a now).sufficient ∧
      (dir a.defn.id).Worse (computeMeasured a now).value (computeMeasured b now).value := by
  have hvalue := h.valued
  obtain ⟨w, cost, last, stop, rfl, hw, hcost, hlast⟩ := h
  cases hd : a.defn.dim with
  | availability =>
    simp only [computeMeasured, hd]
    split <;> exact ⟨trivial, trivial, .refl _ _⟩
  | recoveryTime =>
    simp only [computeMeasured, hd]
    split <;> exact ⟨trivial, trivial, .refl _ _⟩
  | cost =>
    simp only [computeMeasured, hd, hcost.isEmpty, hw.isEmpty, hw.size, ← hcost.items.length_eq]
    split
    · split
      · exact ⟨rfl, rfl, .refl _ _⟩
      · exact ⟨rfl, rfl, hcost.sum⟩
    · split
      · exact ⟨rfl, rfl, .refl _ _⟩
      · exact ⟨rfl, rfl, hw.mean⟩
  | latency | throughput | memoryPressure =>
    have hrank : w.quantileSufficient a.defn.percentileRank =
        a.window.quantileSufficient a.defn.percentileRank := by
      unfold SampleWindow.quantileSufficient
      rw [hw.isEmpty, hw.size]
    simp only [computeMeasured, hd, hw.isEmpty, hw.size, hrank]
    by_cases hempty : a.window.isEmpty = true
    · simp only [hempty, if_true]
      exact ⟨trivial, trivial, .refl _ _⟩
    · simp only [hempty, Bool.false_eq_true, if_false]
      repeat' split
      all_goals first
        | exact ⟨rfl, rfl, .refl _ _⟩
        | exact ⟨rfl, rfl, hvalue⟩

theorem WorseAcc.freshness (h : WorseAcc dir a b) (now : Duration) :
    evaluateFreshness b now = evaluateFreshness a now := by
  obtain ⟨w, cost, last, stop, rfl, hw, hcost, hlast⟩ := h
  have hlatest := forall₂_getLast? hw.samples
  unfold evaluateFreshness ObjectiveAccumulator.usesAvailability ObjectiveAccumulator.usesRecovery
    ObjectiveAccumulator.usesCost
  simp only [hcost.isEmpty]
  generalize a.window.samples.getLast? = x at hlatest
  generalize w.samples.getLast? = y at hlatest
  cases hlatest with
  | none => rfl
  | some hxy => simp only [hxy.time]

theorem WorseAcc.roll (h : WorseAcc dir a b) (now : Duration) :
    WorseAcc dir (rollBudget a now) (rollBudget b now) := by
  unfold rollBudget
  rw [(worse_kinship dir).hasBudget a b h, (worse_kinship dir).budget a b h]
  split
  · exact (worse_kinship dir).fund a b a.hasBudget (a.budget.resetWindow now) h
  · exact h

/-- An exhausted budget spoils a Compliant verdict, on both sides. -/
theorem spoil_mono (x : Bool) {s s' : ComplianceState}
    (h : severityRankOf s' ≤ severityRankOf s) (hs : severityRankOf s ≤ severityRankOf .compliant) :
    AsSevere (if x && s == .compliant then .nearLimit else s)
      (if x && s' == .compliant then .nearLimit else s') := by
  cases x with
  | false => exact Or.inr ⟨h, hs⟩
  | true =>
    cases s <;> cases s' <;> first
      | exact absurd h (by decide)
      | exact absurd hs (by decide)
      | exact Or.inr (by decide)

/-- **Worse values have a verdict as severe.** -/
theorem verdict_worse {t t' : Accumulators ℚ} {o : Objective ℚ}
    (h : WorseAcc dir (acquire t o) (acquire t' o)) (ho : o.comparison = dir o.id)
    (now : Duration) : AsSevere (verdict t o now) (verdict t' o now) := by
  obtain ⟨hgot, hsufficient, hvalue⟩ := h.measured now
  have hfresh := h.freshness now
  have hrolled := h.roll now
  rw [acquire_id, ← ho] at hvalue
  unfold verdict unmeasured
  simp only [hgot, hsufficient, hfresh]
  split
  · exact .refl _
  · have hlast : AsSevere (rollBudget (acquire t o) now).lastState
        (rollBudget (acquire t' o) now).lastState := by
      obtain ⟨_, _, _, _, heq, _, _, hlast⟩ := hrolled
      rw [heq]
      exact hlast
    unfold measuredState
    simp only [(worse_kinship dir).hasBudget _ _ hrolled, (worse_kinship dir).budget _ _ hrolled]
    exact spoil_mono _ (stepState_worse hvalue hlast) (stepState_rank _ _ _)

theorem judged_worse {t t' : Accumulators ℚ} {o : Objective ℚ}
    (h : WorseAcc dir (acquire t o) (acquire t' o)) (ho : o.comparison = dir o.id)
    (now : Duration) : WorseAcc dir (judged t o now) (judged t' o now) := by
  have hverdict := verdict_worse h ho now
  obtain ⟨w, cost, _, stop, heq, hw, hcost, _⟩ := h.roll now
  unfold judged
  rw [heq]
  exact ⟨w, cost, _, stop, rfl, hw, hcost, hverdict⟩

end Evidence

/-! ## 6. Decisions -/

/-- A verdict on a value is ranked by its severity, and is no state of a missing value. -/
def Ranked (e : ObjEval ℚ) : Prop :=
  e.state.isMeasured = true → e.severityRank = severityRankOf e.state ∧
    severityRankOf e.state ≤ severityRankOf .compliant

theorem ranked (t : Accumulators ℚ) (o : Objective ℚ) (now : Duration) :
    Ranked (evaluateObjective t o now).2.1 := by
  intro h
  refine ⟨evaluateObjective_rank h, ?_⟩
  rw [(evaluateObjective_spec t o now).2.2.1] at h ⊢
  have hm : unmeasured (computeMeasured (acquire t o) now)
      (evaluateFreshness (acquire t o) now) = false := by
    by_contra hm
    rcases verdict_of_unmeasured (by simpa using hm) with h' | h' <;> rw [h'] at h <;> cases h
  unfold verdict
  simp only [hm, Bool.false_eq_true, if_false, measuredState]
  split
  · decide
  · exact stepState_rank _ _ _

/-- Entries about the same objective, of which the second is as severe. -/
structure WorseEntry (x y : ObjEval ℚ) : Prop where
  id : y.st.id = x.st.id
  state : AsSevere x.state y.state
  said : x.st.state = x.state ∧ y.st.state = y.state
  ranked : Ranked x ∧ Ranked y

section Decisions

variable {dir : Directions}

theorem evaluateObjectives_worse (now : Duration) : ∀ (os : List (Objective ℚ))
    {t t' : Accumulators ℚ}, Kin (WorseAcc dir) t t' → (∀ o ∈ os, o.comparison = dir o.id) →
    List.Forall₂ WorseEntry (evaluateObjectives t now os).2.1 (evaluateObjectives t' now os).2.1 ∧
      Kin (WorseAcc dir) (evaluateObjectives t now os).1 (evaluateObjectives t' now os).1
  | [], _, _, h, _ => ⟨.nil, h⟩
  | o :: os, t, t', h, hos => by
      have ho := hos o List.mem_cons_self
      have hacc := h.acquire (worse_kinship dir) o
      obtain ⟨htable, _, hstate, hid, hsaid⟩ := evaluateObjective_spec t o now
      obtain ⟨htable', _, hstate', hid', hsaid'⟩ := evaluateObjective_spec t' o now
      have hnext : Kin (WorseAcc dir) (evaluateObjective t o now).1
          (evaluateObjective t' o now).1 := by
        rw [htable, htable']
        exact h.insert (worse_kinship dir) (judged_worse hacc ho now)
      obtain ⟨hrest, hkin⟩ := evaluateObjectives_worse now os hnext
        fun o' ho' => hos o' (List.mem_cons_of_mem _ ho')
      have hsevere : AsSevere (evaluateObjective t o now).2.1.state
          (evaluateObjective t' o now).2.1.state := by
        rw [hstate, hstate']
        exact verdict_worse hacc ho now
      exact ⟨.cons ⟨hid'.trans hid.symm, hsevere,
        ⟨hsaid.trans hstate.symm, hsaid'.trans hstate'.symm⟩,
        ⟨ranked t o now, ranked t' o now⟩⟩ hrest, hkin⟩

/-- A state that is not measured is in both lists of entries, or in neither. -/
theorem any_unmeasured {evals evals' : List (ObjEval ℚ)}
    (h : List.Forall₂ WorseEntry evals evals') {state : ComplianceState}
    (hstate : severityRankOf .compliant < severityRankOf state) :
    evals'.any (·.state == state) = evals.any (·.state == state) := by
  induction h with
  | nil => rfl
  | @cons x y _ _ hxy _ ih =>
    rw [List.any_cons, List.any_cons, ih]
    congr 1
    rcases hxy.state with heq | ⟨hle, hx⟩
    · rw [heq]
    · rw [beq_eq_false_iff_ne.mpr, beq_eq_false_iff_ne.mpr]
      · rintro rfl
        omega
      · rintro rfl
        omega

variable [Platform ℚ]

/-- Where all entries are verdicts on a value, none ranks before the overall state, and that is
    such a verdict. -/
theorem overallOf_least {evals : List (ObjEval ℚ)} {overall : ComplianceState}
    {binding : Option (Objective ℚ)} (hm : ∀ e ∈ evals, e.state.isMeasured = true)
    (hrank : ∀ e ∈ evals, e.severityRank = severityRankOf e.state)
    (hle : ∀ e ∈ evals, severityRankOf e.state ≤ severityRankOf .compliant)
    (h : overallOf evals = some (overall, binding)) :
    (∀ e ∈ evals, severityRankOf overall ≤ severityRankOf e.state) ∧
      severityRankOf overall ≤ severityRankOf .compliant := by
  by_cases hnone : nonCompliant evals = []
  · have hall : ∀ e ∈ evals, e.state = .compliant := fun e he => by
      by_contra hne
      have hmem : e ∈ nonCompliant evals := List.mem_filter.mpr ⟨he, by simpa using hne⟩
      rw [hnone] at hmem
      exact absurd hmem List.not_mem_nil
    cases evals with
    | nil =>
      rw [overallOf_eq_none.mpr rfl] at h
      cases h
    | cons e rest =>
      rw [overallOf_compliant hall] at h
      cases h
      exact ⟨fun x hx => by rw [hall x hx], le_rfl⟩
  · obtain ⟨e, he, hfirst, hov⟩ :=
      overallOf_first hm (fun a _ b _ => moreSevere_exact a b) hnone
    rw [h] at hov
    cases hov
    have he := (List.mem_filter.mp he).1
    refine ⟨fun x hx => ?_, hle e he⟩
    by_cases hx' : x.state = .compliant
    · rw [hx']
      exact hle e he
    · have hmem : x ∈ nonCompliant evals := List.mem_filter.mpr ⟨hx, by simpa using hx'⟩
      have hkey := hfirst x hmem
      rw [← hrank e he, ← hrank x hx]
      rcases Prod.Lex.toLex_le_toLex.mp hkey with hlt | ⟨heq, _⟩
      · exact hlt.le
      · exact heq.le

/-- **The overall state is as severe, too.** -/
theorem overallOf_worse {evals evals' : List (ObjEval ℚ)}
    (h : List.Forall₂ WorseEntry evals evals') {x y : ComplianceState}
    {b b' : Option (Objective ℚ)} (hx : overallOf evals = some (x, b))
    (hy : overallOf evals' = some (y, b')) : AsSevere x y := by
  have hrev := any_unmeasured h (by decide : _ < severityRankOf .revalidationRequired)
  have hins := any_unmeasured h (by decide : _ < severityRankOf .insufficientEvidence)
  by_cases hr : evals.any (·.state == .revalidationRequired) = true
  · rw [overallOf, if_pos hr] at hx
    rw [overallOf, hrev, if_pos hr] at hy
    cases hx
    cases hy
    exact .refl _
  by_cases hi : evals.any (·.state == .insufficientEvidence) = true
  · rw [overallOf, if_neg hr, if_pos hi] at hx
    rw [overallOf, hrev, hins, if_neg hr, if_pos hi] at hy
    cases hx
    cases hy
    exact .refl _
  -- Every objective is measured, in both lists.
  have hm := all_measured hr hi
  have hm' := all_measured (hrev ▸ hr) (hins ▸ hi)
  have hranked : ∀ e ∈ evals, Ranked e := fun e he => by
    obtain ⟨_, _, he⟩ := forall₂_mem h he
    exact he.ranked.1
  have hranked' : ∀ e ∈ evals', Ranked e := fun e he => by
    obtain ⟨_, _, he⟩ := forall₂_mem h.flip he
    exact he.ranked.2
  have hleast := overallOf_least hm (fun e he => (hranked e he (hm e he)).1)
    (fun e he => (hranked e he (hm e he)).2) hx
  have hleast' := overallOf_least hm' (fun e he => (hranked' e he (hm' e he)).1)
    (fun e he => (hranked' e he (hm' e he)).2) hy
  refine Or.inr ⟨?_, hleast.2⟩
  -- The overall state is that of an entry, and there is one as severe in the other list.
  rcases overallOf_cases hx with ⟨_, rfl⟩ | ⟨_, rfl⟩ | ⟨e, he, _, rfl, _⟩
  · exact absurd hleast.2 (by decide)
  · exact absurd hleast.2 (by decide)
  · obtain ⟨e', he', hee'⟩ := forall₂_mem h he
    refine (hleast'.1 e' he').trans ?_
    rcases hee'.state with heq | ⟨hle, _⟩
    · rw [heq]
    · exact hle

end Decisions

/-! ## 7. Runs -/

/-- Reports on the same objectives; every verdict and the overall one are as severe in the second
    one. -/
structure NoBetterReport (res res' : EvaluationResult ℚ) : Prop where
  objectives : List.Forall₂ (fun st st' => st'.id = st.id ∧ AsSevere st.state st'.state)
    res.explanation.objectives res'.explanation.objectives
  compliance : AsSevere res.explanation.compliance res'.explanation.compliance

/-- The same answer, or a report that looks no better. -/
inductive NoBetter : Response ℚ → Response ℚ → Prop where
  | same (r : Response ℚ) : NoBetter r r
  | report {res res' : EvaluationResult ℚ} (h : NoBetterReport res res') :
      NoBetter (.evaluated (.ok res)) (.evaluated (.ok res'))

/-- The same call on both sides, but for evidence that is worse, and for enforcement. -/
inductive WorseCall (dir : Directions) : Op ℚ → Op ℚ → Prop where
  | same (op : Op ℚ) : WorseCall dir op op
  | evidence {e e' : EvidenceRecord ℚ} (now : Duration) (h : WorseRecord dir e e') :
      WorseCall dir (.ingest e now) (.ingest e' now)
  | enforcement {op op' : Op ℚ} (h : op.enforces = true) (h' : op'.enforces = true) :
      WorseCall dir op op'

/-- Every stored objective is compared in its direction. -/
def Directed (dir : Directions) (s : State ℚ) : Prop :=
  ∀ o ∈ allObjectives s.contracts, o.comparison = dir o.id

/-- The steps of the two runs. -/
def Worsened (dir : Directions) (q : State ℚ × State ℚ) (op : Op ℚ × Op ℚ) : Prop :=
  WorseCall dir op.1 op.2 ∧ Directed dir q.1

section Runs

variable [Platform ℚ] {dir : Directions} {s t s' t' : State ℚ}

/-- **Peers evaluate, and the second one looks no better.** -/
theorem evaluate_worse (h : Peers (WorseAcc dir) s t) (hdir : Directed dir s)
    {service : ServiceId} {workload : WorkloadId} {now : Duration}
    {x y : Except Status (EvaluationResult ℚ)}
    (hx : evaluate s service workload now = some (s', x))
    (hy : evaluate t service workload now = some (t', y)) :
    Peers (WorseAcc dir) s' t' ∧ NoBetter (.evaluated x) (.evaluated y) := by
  unfold evaluate at hx hy
  rw [← h.contracts, ← h.policies] at hy
  cases hc : selectContract s.contracts service workload now with
  | none =>
    rw [hc] at hx hy
    cases hx
    cases hy
    exact ⟨h, .same _⟩
  | some c =>
    rw [hc] at hx hy
    cases hp : (s.policies.find c.policyId).filter (·.gen = c.policyGen) with
    | none =>
      simp only [hp] at hx hy
      cases hx
      cases hy
      exact ⟨h, .same _⟩
    | some policy =>
      have hrow : c ∈ s.contracts.rows := (List.mem_filter.mp (newest_some hc).1).1
      obtain ⟨hevals, htable⟩ := evaluateObjectives_worse now c.objectives h.accumulators
        fun o ho => hdir o (List.mem_flatMap.mpr ⟨c, hrow, ho⟩)
      simp only [hp] at hx hy
      generalize evaluateObjectives s.accumulators now c.objectives = loop at hx hevals htable
      generalize evaluateObjectives t.accumulators now c.objectives = loop' at hy hevals htable
      obtain ⟨ts, evals, digests⟩ := loop
      obtain ⟨tt, evals', digests'⟩ := loop'
      simp only at hx hy hevals htable
      cases ho : overallOf evals with
      | none => rw [ho] at hx; cases hx
      | some b =>
        cases ho' : overallOf evals' with
        | none => rw [ho'] at hy; cases hy
        | some b' =>
          rw [ho] at hx
          rw [ho'] at hy
          have hoverall := overallOf_worse hevals ho ho'
          have hstates : List.Forall₂
              (fun st st' => st'.id = st.id ∧ AsSevere st.state st'.state)
              (evals.map (·.st)) (evals'.map (·.st)) := by
            rw [List.forall₂_map_left_iff, List.forall₂_map_right_iff]
            refine hevals.imp fun e e' he => ⟨he.id, ?_⟩
            rw [he.said.1, he.said.2]
            exact he.state
          cases hx
          cases hy
          refine ⟨?_, .report ⟨hstates, hoverall⟩⟩
          exact { h with
            policies := rfl, contracts := rfl, accumulators := htable
            evaluationCounter := by rw [h.evaluationCounter] }

/-- **The step lemma.** -/
theorem worse_step (h : Peers (WorseAcc dir) s t) (hdir : Directed dir s) {op op' : Op ℚ}
    (hcall : WorseCall dir op op') {r r' : Response ℚ} (hs : applyUnfiled s op = some (s', r))
    (ht : applyUnfiled t op' = some (t', r')) :
    Peers (WorseAcc dir) s' t' ∧ (op.enforces = false → NoBetter r r') := by
  have hE := worse_kinship dir
  have ofEvidence {e e' : EvidenceRecord ℚ} {now : Duration} (he : WorseRecord dir e e')
      (hs : applyUnfiled s (.ingest e now) = some (s', r))
      (ht : applyUnfiled t (.ingest e' now) = some (t', r')) :
      Peers (WorseAcc dir) s' t' ∧ NoBetter r r' := by
    obtain ⟨hpeers, hst⟩ := h.ingest hE now he.same fun o a b ho hid hab =>
      hab.offer he (hid.trans (definitionOf_some ho).1) o
    cases hs
    cases ht
    rw [hst]
    exact ⟨hpeers, .same _⟩
  cases hcall with
  | evidence now he => exact ⟨(ofEvidence he hs ht).1, fun _ => (ofEvidence he hs ht).2⟩
  | enforcement hop hop' =>
    exact ⟨(h.enforcedUnfiled hE hop hs).enforcedBesideUnfiled hE hop' ht,
      fun hno => by simp [hop] at hno⟩
  | same =>
    cases hop : op.enforces with
    | true =>
      exact ⟨(h.enforcedUnfiled hE hop hs).enforcedBesideUnfiled hE hop ht, fun hno => by cases hno⟩
    | false =>
      by_cases heval : ∃ service workload now, op = .evaluate service workload now
      · obtain ⟨service, workload, now, rfl⟩ := heval
        obtain ⟨⟨s₁, x⟩, hx, hr⟩ := Option.map_eq_some_iff.mp hs
        obtain ⟨⟨t₁, y⟩, hy, hr'⟩ := Option.map_eq_some_iff.mp ht
        cases hr
        cases hr'
        have hboth := evaluate_worse h hdir hx hy
        exact ⟨hboth.1, fun _ => hboth.2⟩
      · by_cases hing : ∃ e now, op = .ingest e now
        · obtain ⟨e, now, rfl⟩ := hing
          have hboth := ofEvidence (.refl dir e) hs ht
          exact ⟨hboth.1, fun _ => hboth.2⟩
        · obtain ⟨t₁, ht₁, hpeers⟩ := h.settledUnfiled hE hop
            (fun e now heq => hing ⟨e, now, heq⟩)
            (fun service workload now heq => heval ⟨service, workload, now, heq⟩) hs
          obtain ⟨rfl, rfl⟩ := Prod.mk.inj (Option.some.inj (ht₁.symm.trans ht))
          exact ⟨hpeers, fun _ => .same _⟩

/-- **Worse evidence never looks better.** Two runs take the same calls, but for evidence that is
    worse in the second one, and for enforcement, of which each has its own. While the objectives
    keep their directions, every call that is not of enforcement is answered alike in both, but
    the reports of the evaluations: every verdict of the second run, and every overall state, is
    as severe as that of the first. -/
theorem worse_never_looks_better {p : State ℚ × State ℚ}
    {tr : List ((Op ℚ × Op ℚ) × (Response ℚ × Response ℚ))}
    (h : Run (both applyUnfiled) (Worsened dir) (State.fresh ℚ, State.fresh ℚ) tr p) :
    ∀ x ∈ tr, x.1.1.enforces = false → NoBetter x.2.1 x.2.2 := by
  have hall : Peers (WorseAcc dir) p.1 p.2 ∧
      ∀ x ∈ tr, x.1.1.enforces = false → NoBetter x.2.1 x.2.2 := by
    refine h.history (I := fun tr q => Peers (WorseAcc dir) q.1 q.2 ∧
      ∀ x ∈ tr, x.1.1.enforces = false → NoBetter x.2.1 x.2.2)
      ⟨.refl (worse_kinship dir) _, fun x hx => absurd hx List.not_mem_nil⟩ ?_
    rintro tr q op q' r ⟨hpeers, hold⟩ ⟨hcall, hdir⟩ hstep
    obtain ⟨hs, ht⟩ := both_cases hstep
    obtain ⟨hpeers', hnew⟩ := worse_step hpeers hdir hcall hs ht
    refine ⟨hpeers', fun x hx => ?_⟩
    rcases List.mem_append.mp hx with hx | hx
    · exact hold x hx
    · rw [List.mem_singleton.mp hx]
      exact hnew
  exact hall.2

end Runs

/-! ## 8. A slower service -/

/-- A latency measured at time `0`. -/
def latency (ns : Int64) : Op ℚ :=
  .ingest { id := ⟨1⟩, objectiveId := ⟨1⟩, value := .duration ns } 0

/-- The same service, measured at 50 and at 200 ms. -/
def slower : List (Op ℚ × Op ℚ) :=
  [(.setPolicy smallPolicy, .setPolicy smallPolicy),
   (.addContract meanContract, .addContract meanContract),
   (latency 50000000, latency 200000000),
   (.evaluate ⟨1⟩ ⟨1⟩ 0, .evaluate ⟨1⟩ ⟨1⟩ 0)]

theorem worse_slower : ∀ op ∈ slower, WorseCall (fun _ => .atMost) op.1 op.2 := by
  simp only [slower, List.forall_mem_cons, List.not_mem_nil, false_implies, implies_true,
    and_true]
  refine ⟨.same _, .same _, .evidence 0 ⟨rfl, rfl, ?_, ?_, fun h => by cases h⟩, .same _⟩
  · show (numericOf (.duration 50000000) : ℚ) ≤ numericOf (.duration 200000000)
    decide +kernel
  · decide +kernel

/-- What the evaluations of both runs find. -/
def compliances (tr : List ((Op ℚ × Op ℚ) × (Response ℚ × Response ℚ))) :
    List (ComplianceState × ComplianceState) :=
  tr.filterMap fun x => x.2.1.report.bind fun res => x.2.2.report.map fun res' =>
    (res.explanation.compliance, res'.explanation.compliance)

theorem worse_never_looks_better_small :
    ∃ tr p, Run (both applyUnfiled) (Worsened fun _ => .atMost) (State.fresh ℚ, State.fresh ℚ)
        tr p ∧ compliances tr = [(.compliant, .violating)] ∧
      ∀ x ∈ tr, x.1.1.enforces = false → NoBetter x.2.1 x.2.2 := by
  have htest : (execute (both applyUnfiled)
      (fun q _ => (allObjectives q.1.contracts).all fun o => decide (o.comparison = .atMost))
      (State.fresh ℚ, State.fresh ℚ) slower).any
      (fun x => decide (compliances x.2 = [(.compliant, .violating)])) = true := by
    decide +kernel
  obtain ⟨⟨p, tr⟩, hx, hp⟩ := (Option.any_eq_true _ _).mp htest
  have hrun : Run (both applyUnfiled) (fun q _ => Directed (fun _ => .atMost) q.1)
      (State.fresh ℚ, State.fresh ℚ) tr p :=
    .of_execute (fun q _ hq o ho => of_decide_eq_true (List.all_eq_true.mp hq o ho)) hx
  have hcalls : ∀ x ∈ tr, WorseCall (fun _ => .atMost) x.1.1 x.1.2 := fun x hx' =>
    worse_slower x.1 (execute_ops hx ▸ List.mem_map_of_mem hx')
  have hworse : Run (both applyUnfiled) (Worsened fun _ => .atMost)
      (State.fresh ℚ, State.fresh ℚ) tr p :=
    (hrun.restrict (P := fun op => WorseCall (fun _ => .atMost) op.1 op.2) hcalls).mono
      fun q op h => ⟨h.2, h.1⟩
  exact ⟨tr, p, hworse, of_decide_eq_true hp, worse_never_looks_better hworse⟩

end SloFabric
