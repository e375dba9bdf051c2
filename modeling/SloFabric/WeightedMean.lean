/-
  File:      SloFabric/WeightedMean.lean
  Subject:   Availability against the weighted mean of its records.

  * `Gathered`: the availability records an accumulator has accepted since it held none, whatever
    else happened that left its stores alone;
  * `gathered_totals`: its totals, in exact arithmetic: of every record the weight, and the whole
    units of its share;
  * `weighted_mean_iff`: the measured basis points are within one of the weighted mean exactly if
    what is cut off the shares comes to less than the weights;
  * `weighted_mean_fails`: one sample at 9999 basis points measures nothing.
-/
import SloFabric.Exact
import SloFabric.ActiveDefinition
import SloFabric.Admission
import SloFabric.Minimum
import SloFabric.Library.WholeParts

namespace SloFabric

/-! ## 1. Records -/

/-- The basis points a record reports, times its weight. -/
def weighted (e : EvidenceRecord ℚ) : ℤ :=
  match e.value with
  | .basisPoints b => b.toInt * (evidenceWeight e).toInt
  | _ => 0

/-- **The weighted mean** of some records. -/
def weightedMean (l : List (EvidenceRecord ℚ)) : ℚ := (l.map weighted).sum / weightOf l

theorem weightOf_push {R : Type} (l : List (EvidenceRecord R)) (e : EvidenceRecord R) :
    weightOf (l ++ [e]) = weightOf l + (evidenceWeight e).toInt := by
  simp [weightOf]

theorem weightOf_pos {R : Type} {l : List (EvidenceRecord R)} (h : l ≠ []) : 0 < weightOf l := by
  have hlen := length_le_weightOf l
  have := List.length_pos_of_ne_nil h
  omega

/-- In exact arithmetic a record serves the whole ten-thousandths of what it weighs in. -/
theorem servingUnits_exact {e : EvidenceRecord ℚ} {b : Int64} (hv : e.value = .basisPoints b)
    (h0 : 0 ≤ b) (h1 : b ≤ 10000) :
    (servingUnits e).toInt = weighted e / 10000 ∧ 0 ≤ weighted e / 10000 ∧
      weighted e / 10000 ≤ (evidenceWeight e).toInt := by
  have hb0 : 0 ≤ b.toInt := Int64.le_iff_toInt_le.mp h0
  have hb1 : b.toInt ≤ 10000 := Int64.le_iff_toInt_le.mp h1
  have hw := evidenceWeight_pos e
  have hmax := Int64.toInt_lt (evidenceWeight e)
  have hnum : weighted e = b.toInt * (evidenceWeight e).toInt := by rw [weighted, hv]
  have hnum0 : 0 ≤ weighted e := by
    rw [hnum]
    exact mul_nonneg hb0 (by omega)
  have hnum1 : weighted e ≤ 10000 * (evidenceWeight e).toInt := by
    rw [hnum]
    exact mul_le_mul_of_nonneg_right hb1 (by omega)
  have hexact : exactUnits e = (weighted e : ℚ) / (10000 : ℕ) := by
    rw [exactUnits, hv, hnum]
    show (b.toInt : ℚ) / 10000 * ((evidenceWeight e).toInt : ℚ) = _
    push_cast
    ring
  have hpos : (0 : ℚ) ≤ (weighted e : ℚ) / (10000 : ℕ) := by
    have : (0 : ℚ) ≤ weighted e := by exact_mod_cast hnum0
    positivity
  have hcast : castable ((weighted e : ℚ) / (10000 : ℕ)) = true := by
    have hle : (weighted e : ℚ) / (10000 : ℕ) ≤ (evidenceWeight e).toInt := by
      rw [div_le_iff₀ (by norm_num), mul_comm]
      exact_mod_cast hnum1
    have hlt : ((evidenceWeight e).toInt : ℚ) < 2 ^ 63 := by exact_mod_cast hmax
    unfold castable
    rw [Bool.and_eq_true]
    refine ⟨decide_eq_true ?_, decide_eq_true (hle.trans_lt hlt)⟩
    exact (show (-2 ^ 63 : ℚ) ≤ 0 by norm_num).trans hpos
  have htrunc : Double.trunc ((weighted e : ℚ) / (10000 : ℕ)) = weighted e / 10000 := by
    show (if (weighted e : ℚ) / (10000 : ℕ) < 0 then _
      else ⌊(weighted e : ℚ) / (10000 : ℕ)⌋) = _
    rw [if_neg (not_lt.mpr hpos), Rat.floor_intCast_div_natCast]
    rfl
  refine ⟨?_, by omega, by omega⟩
  rw [servingUnits, hexact, toInt64, if_pos hcast, htrunc,
    Int64.toInt_ofInt_of_le (by omega) (by omega)]

/-! ## 2. What an accumulator has gathered -/

/-- The records of basis points that the accumulator of `o` has accepted for its availability since
    it held none. -/
inductive Gathered (o : Objective ℚ) : State ℚ → List (EvidenceRecord ℚ) → Prop where
  | start {s : State ℚ} (hdim : (acquire s.accumulators o).defn.dim = .availability)
    (hnone : (acquire s.accumulators o).avail = { mode := o.availabilityMode }) : Gathered o s []
  | accepted {s : State ℚ} {l : List (EvidenceRecord ℚ)} {e : EvidenceRecord ℚ} {now : Duration}
    {b : Int64} (h : Gathered o s l) (hdef : definitionOf s.contracts e.objectiveId = some o)
    (hok : (ingest s e now).2.isOk = true) (hdim : e.dimension = .availability)
    (hv : e.value = .basisPoints b) (h0 : 0 ≤ b) (h1 : b ≤ 10000) :
    Gathered o (ingest s e now).1 (l ++ [e])
  | elsewhere {s s' : State ℚ} {l : List (EvidenceRecord ℚ)} (h : Gathered o s l)
    (hdefn : (acquire s'.accumulators o).defn = (acquire s.accumulators o).defn)
    (havail : (acquire s'.accumulators o).avail = (acquire s.accumulators o).avail) :
    Gathered o s' l

/-- The totals of an accumulator are those of the records. -/
structure TotalsOf (o : Objective ℚ) (a : ObjectiveAccumulator ℚ) (l : List (EvidenceRecord ℚ)) :
    Prop where
  dim : a.defn.dim = .availability
  mode : a.avail.mode = o.availabilityMode
  eligible : (a.avail.eligibleIn o.availabilityMode).toInt = weightOf l
  served : (a.avail.servedIn o.availabilityMode).toInt = wholes 10000 weighted l
  range : 0 ≤ wholes 10000 weighted l ∧ wholes 10000 weighted l ≤ weightOf l

/-- **The totals**: of every record the weight, and the whole units of its share. -/
theorem gathered_totals {o : Objective ℚ} {s : State ℚ} {l : List (EvidenceRecord ℚ)}
    (h : Gathered o s l) (hroom : weightOf l < 2 ^ 63) :
    TotalsOf o (acquire s.accumulators o) l := by
  induction h with
  | start hdim hnone =>
    refine ⟨hdim, by rw [hnone], ?_, ?_, le_rfl, le_rfl⟩
    · rw [hnone]
      cases o.availabilityMode <;> rfl
    · rw [hnone]
      cases o.availabilityMode <;> rfl
  | elsewhere h hdefn havail ih =>
    obtain ⟨hdim, hmode, heligible, hserved, hrange⟩ := ih hroom
    exact ⟨by rw [hdefn]; exact hdim, by rw [havail]; exact hmode,
      by rw [havail]; exact heligible, by rw [havail]; exact hserved, hrange⟩
  | @accepted s l e now b h hdef hok hdim hv h0 h1 ih =>
    rw [weightOf_push] at hroom
    have hw := evidenceWeight_pos e
    obtain ⟨hadim, hmode, heligible, hserved, hlow, hhigh⟩ := ih (by omega)
    obtain ⟨o', ho'⟩ := (availability_ok_iff s hdim now).mp hok
    have ho : o' = o := by
      have := offeredTo_definition ho'.offered
      rw [hdef] at this
      exact (Option.some.inj this).symm
    subst ho
    obtain ⟨hunits, hunits0, hunits1⟩ := servingUnits_exact hv h0 h1
    have hdefn : (storeEvidence o' (receiving s e o') e).1.defn =
        (acquire s.accumulators o').defn := (storeEvidence_conduct _ _ _).defn
    have havail : (storeEvidence o' (receiving s e o') e).1.avail =
        (acquire s.accumulators o').avail.add o'.availabilityMode (evidenceWeight e)
          (servingUnits e) := by
      simp only [storeEvidence, hdim]
      rfl
    have hrange : 0 ≤ wholes 10000 weighted (l ++ [e]) ∧
        wholes 10000 weighted (l ++ [e]) ≤ weightOf (l ++ [e]) := by
      rw [wholes_push, weightOf_push]
      omega
    rw [acquire_ingested ho' now]
    refine ⟨by rw [hdefn]; exact hadim, ?_, ?_, ?_, hrange⟩ <;> rw [havail]
    · exact (add_mode _ _ _ _).trans hmode
    · rw [AvailabilityAccount.eligibleIn_add, if_pos rfl, toInt_add_of_range (by omega) (by omega),
        heligible, weightOf_push]
    · rw [AvailabilityAccount.servedIn_add, if_pos rfl, toInt_add_of_range (by omega) (by omega),
        hserved, hunits, wholes_push]

/-! ## 3. The measured value -/

/-- The ratio of the totals of the account's mode. -/
theorem ratio_eq {R : Type} [Double R] {a : AvailabilityAccount} (h : 0 < a.eligibleIn a.mode) :
    a.hasDenominator = true ∧
      (a.ratio : R) = Double.div (ofInt64 (a.servedIn a.mode)) (ofInt64 (a.eligibleIn a.mode)) := by
  unfold AvailabilityAccount.hasDenominator AvailabilityAccount.ratio
  cases hmode : a.mode <;> rw [hmode] at h <;>
    exact ⟨decide_eq_true h, if_neg (Int64.not_le.mpr h)⟩

/-- What is measured of some totals. -/
theorem measured_totals {o : Objective ℚ} {a : ObjectiveAccumulator ℚ}
    {l : List (EvidenceRecord ℚ)} (h : TotalsOf o a l) (hne : l ≠ []) (now : Duration) :
    (computeMeasured a now).value = (wholes 10000 weighted l : ℚ) / weightOf l * (10000 : ℤ) := by
  have hpos : 0 < a.avail.eligibleIn a.avail.mode := by
    rw [h.mode, Int64.lt_iff_toInt_lt, h.eligible]
    exact weightOf_pos hne
  obtain ⟨hden, hratio⟩ := ratio_eq (R := ℚ) hpos
  have hvalue : (computeMeasured a now).value = Double.mul a.avail.ratio (Double.ofRat 10000) := by
    unfold computeMeasured
    simp only [h.dim, hden, Bool.not_true, Bool.false_eq_true, if_false]
  rw [hvalue, hratio, h.mode]
  show ((a.avail.servedIn o.availabilityMode).toInt : ℚ) /
    ((a.avail.eligibleIn o.availabilityMode).toInt : ℚ) * 10000 = _
  rw [h.served, h.eligible]
  rfl

/-- **When availability is the weighted mean.** The measured basis points differ from the weighted
    mean of the records by less than one if and only if what is cut off the shares of the records,
    in ten-thousandths, comes to less than their weights. -/
theorem weighted_mean_iff {o : Objective ℚ} {s : State ℚ} {l : List (EvidenceRecord ℚ)}
    (h : Gathered o s l) (hne : l ≠ []) (hroom : weightOf l < 2 ^ 63) (now : Duration) :
    |(computeMeasured (acquire s.accumulators o) now).value - weightedMean l| < 1 ↔
      cuts 10000 weighted l < weightOf l := by
  rw [measured_totals (gathered_totals h hroom) hne now, weightedMean]
  exact mean_near_iff (by norm_num) (weightOf_pos hne) l

/-! ## 4. One record -/

/-- At least 99 % availability. -/
def exactAvailability : Objective ℚ where
  id := ⟨1⟩
  gen := ⟨1⟩
  dim := .availability
  kind := .availabilityRequest
  target := .basisPoints 9900
  availabilityMode := .requests
  allowedUncertainty := 0
  percentileRank := 99 / 100

/-- A fabric with the objective. -/
def availabilityFabric : State ℚ :=
  let s := (setPolicy (State.fresh ℚ) smallPolicy).1
  (addContract s { id := ⟨1⟩, gen := ⟨1⟩, service := ⟨1⟩, workload := ⟨1⟩,
                   objectives := [exactAvailability], policyId := ⟨1⟩, policyGen := ⟨1⟩,
                   lifecycle := .active }).1

/-- An availability by some samples. -/
def sampled (id : UInt64) (bp : Int64) (n : Count) : EvidenceRecord ℚ :=
  { id := ⟨id⟩, objectiveId := ⟨1⟩, dimension := .availability, sampleCount := n
    value := .basisPoints bp }

/-- The fabric after some of these. -/
def availabilityAfter (l : List (EvidenceRecord ℚ)) : State ℚ :=
  l.foldl (fun s e => (ingest s e 0).1) availabilityFabric

/-- Before the first one nothing is held. -/
theorem gathered_fabric : Gathered exactAvailability availabilityFabric [] := by
  have hnone : acquire availabilityFabric.accumulators exactAvailability =
      .make exactAvailability := rfl
  refine .start ?_ ?_
  · rw [hnone]
    rfl
  · rw [hnone]
    rfl

/-- One more, with the objective as it is in the contract. -/
theorem Gathered.sampled {s : State ℚ} {l : List (EvidenceRecord ℚ)} {id : UInt64} {bp : Int64}
    {n : Count} (h : Gathered exactAvailability s l)
    (hdef : definitionOf s.contracts ⟨1⟩ = some exactAvailability) (h0 : 0 ≤ bp) (h1 : bp ≤ 10000)
    (hok : (ingest s (sampled id bp n) 0).2.isOk = true) :
    Gathered exactAvailability (ingest s (SloFabric.sampled id bp n) 0).1
      (l ++ [SloFabric.sampled id bp n]) :=
  .accepted h hdef hok rfl rfl h0 h1

/-- **One sample at 9999 basis points measures nothing.** -/
theorem weighted_mean_fails :
    ¬∀ (o : Objective ℚ) (s : State ℚ) (l : List (EvidenceRecord ℚ)) (now : Duration),
      Gathered o s l → l ≠ [] → weightOf l < 2 ^ 63 →
      |(computeMeasured (acquire s.accumulators o) now).value - weightedMean l| < 1 := by
  intro hall
  have hne : [sampled 1 9999 1] ≠ [] := List.cons_ne_nil _ _
  have hroom : weightOf [sampled 1 9999 1] < 2 ^ 63 := by decide
  have hgathered : Gathered exactAvailability (availabilityAfter [sampled 1 9999 1])
      [sampled 1 9999 1] :=
    gathered_fabric.sampled (by decide +kernel) (by decide) (by decide) (by decide +kernel)
  have hnear := hall _ _ _ 0 hgathered hne hroom
  rw [measured_totals (gathered_totals hgathered hroom) hne 0, weightedMean,
    mean_near_iff (by norm_num) (weightOf_pos hne)] at hnear
  exact absurd hnear (by decide)

/-- 9900 basis points of a thousand and 9551 of three thousand. The second share is no whole number
    of units. -/
theorem weighted_mean_iff_small :
    let l := [sampled 1 9900 1000, sampled 2 9551 3000]
    |(computeMeasured (acquire (availabilityAfter l).accumulators exactAvailability) 0).value -
      weightedMean l| < 1 := by
  intro l
  have hone : Gathered exactAvailability (availabilityAfter [sampled 1 9900 1000])
      [sampled 1 9900 1000] :=
    gathered_fabric.sampled (by decide +kernel) (by decide) (by decide) (by decide +kernel)
  have htwo : Gathered exactAvailability (availabilityAfter l) l :=
    hone.sampled (by decide +kernel) (by decide) (by decide) (by decide +kernel)
  exact (weighted_mean_iff htwo (List.cons_ne_nil _ _) (by decide) 0).mpr (by decide)

end SloFabric
