/-
  File:      SloFabric/ValidValues.lean
  Subject:   The values that enter the accumulators.

  * `inDomain`: the values of a unit that make sense, none of which a decoder refuses;
  * `Enters`: the record reaches a store that takes it;
  * `Fit`: its value is in its domain, and if it is availability, it is at most 10000 parts of a
    weight that doubles do not round up and the totals have room for;
  * `Sound`: what is served is within what is eligible, and no cost is negative;
  * `valid_values_run`: in a run whose accepted records fit, every accumulator is sound, and a cost
    sum decreases only where costs are given up;
  * `valid_values_fails`: 20000 basis points are accepted.
-/
import SloFabric.Admission
import SloFabric.Counting
import SloFabric.Doubles

namespace SloFabric

open Binary64

/-! ## 1. The domains -/

/-- The values of a unit that make sense. -/
def inDomain : ObjectiveValue Binary64 → Bool
  | .duration i | .byteCount i | .costMicros i | .energyJoules i => nonneg i
  | .count _ => true
  | .basisPoints i => decide (0 ≤ i ∧ i ≤ 10000)
  | .percentage x => percentageValid x
  | .pressureRatio x => pressureRatioValid x && !x.isInf
  | .requestsPerSecond x | .tokensPerSecond x | .bytesPerSecond x | .operationsPerSecond x =>
    rateValid x

/-- The decoder lets them all through. -/
theorem valueValid_of_inDomain {v : ObjectiveValue Binary64} (h : inDomain v = true) :
    valueValid v = true := by
  cases v with
  | pressureRatio x => exact (Bool.and_eq_true_iff.mp h).1
  | duration | byteCount | count | basisPoints => rfl
  | _ => exact h

theorem nonneg_iff {i : Int64} : nonneg i = true ↔ 0 ≤ i.toInt := by
  rw [nonneg, decide_eq_true_iff, Int64.le_iff_toInt_le]
  rfl

/-- Their numbers are finite and not negative. -/
theorem numericOf_inDomain {v : ObjectiveValue Binary64} (h : inDomain v = true)
    (hcount : unitKindOf v ≠ .count) : (numericOf v).Finite ∧ 0 ≤ (numericOf v).value := by
  have hint {i : Int64} (hi : 0 ≤ i.toInt) :
      (ofInt64 i : Binary64).Finite ∧ 0 ≤ (ofInt64 i : Binary64).value :=
    ⟨(ofInt64_finite hi).1, (ofInt64_finite hi).2.1⟩
  have hrate {x : Binary64} (hx : rateValid x = true) : x.Finite ∧ 0 ≤ x.value := by
    obtain ⟨hx, htop⟩ := Bool.and_eq_true_iff.mp hx
    obtain ⟨_, hlow⟩ := Bool.and_eq_true_iff.mp hx
    have hlarge : (ofRat (10 ^ 300)).Finite := by
      unfold Binary64.Finite
      decide +kernel
    obtain ⟨hfin, hpos, _⟩ := finite_of_le hlow htop hlarge
    exact ⟨hfin, hpos⟩
  cases v with
  | count => exact absurd rfl hcount
  | basisPoints i => exact hint (Int64.le_iff_toInt_le.mp (of_decide_eq_true h).1)
  | percentage x =>
    obtain ⟨hlow, htop⟩ := Bool.and_eq_true_iff.mp h
    obtain ⟨hfin, hpos, _⟩ := finite_of_le hlow htop (ofRat_natCast (n := 100) (by norm_num)).1
    exact ⟨hfin, hpos⟩
  | pressureRatio x =>
    obtain ⟨hvalid, hinf⟩ := Bool.and_eq_true_iff.mp h
    obtain ⟨hlow, _⟩ := Bool.and_eq_true_iff.mp hvalid
    exact finite_of_nonneg (x := x) hlow (by simpa using hinf)
  | duration i | byteCount i | costMicros i | energyJoules i => exact hint (nonneg_iff.mp h)
  | _ => exact hrate h

/-- No objective takes plain counts. -/
theorem unitCompatible_count {R : Type} {o : Objective R} {e : EvidenceRecord R}
    (h : unitCompatible o e = true) : unitKindOf e.value ≠ .count := by
  intro hcount
  unfold unitCompatible at h
  rw [hcount] at h
  cases hdim : o.dim <;> cases htag : o.rateTag <;>
    simp [hdim, htag, rateUnit, expectedUnitFor] at h

/-! ## 2. What is accepted -/

section Accepting

variable {R : Type} [Double R]

/-- The record reaches a store, which takes it. -/
structure Enters (s : State R) (e : EvidenceRecord R) (o : Objective R) : Prop where
  reaches : Reaches s e o
  boundary : e.dimension ≠ .recoveryTime
  takes : e.dimension = .latency ∨ e.dimension = .throughput ∨ e.dimension = .memoryPressure →
    (receiving s e o).window.Takes e.time (numericOf e.value) (receiving s e o).nextSeq

theorem storeEvidence_ok_iff (o : Objective R) (a : ObjectiveAccumulator R)
    (e : EvidenceRecord R) : (storeEvidence o a e).2.isOk = true ↔
      e.dimension ≠ .recoveryTime ∧
      (e.dimension = .latency ∨ e.dimension = .throughput ∨ e.dimension = .memoryPressure →
        a.window.Takes e.time (numericOf e.value) a.nextSeq) := by
  have hstatus : ∀ st, (windowStatus st).isOk = true ↔ st = .accepted := by
    intro st
    cases st <;> decide
  rw [← sample_accepted_iff, ← hstatus]
  cases h : e.dimension with
  | cost =>
    have hok : (storeEvidence o a e).2.isOk = true := by
      simp only [storeEvidence, h]
      split <;> rfl
    simp [hok]
  | availability =>
    have hok : (storeEvidence o a e).2.isOk = true := by
      simp only [storeEvidence, h]
      rfl
    simp [hok]
  | recoveryTime =>
    have hno : (storeEvidence o a e).2.isOk = false := by
      simp only [storeEvidence, h]
      rfl
    simp [hno]
  | latency | throughput | memoryPressure =>
    have hwindow : (storeEvidence o a e).2 = windowStatus (a.sample e).2 := by
      simp only [storeEvidence, h]
    simp [hwindow]

theorem enters_iff (s : State R) (e : EvidenceRecord R) (now : Duration) :
    (ingest s e now).2.isOk = true ↔ ∃ o, Enters s e o := by
  rw [ingest_ok_iff]
  refine exists_congr fun o => ?_
  rw [storeEvidence_ok_iff]
  exact ⟨fun h => ⟨h.1, h.2.1, h.2.2⟩, fun h => ⟨h.reaches, h.boundary, h.takes⟩⟩

end Accepting

/-! ## 3. Sound accumulators -/

/-- Every cost held is finite and not negative. -/
def CostsNonneg (l : List (Duration × Binary64)) : Prop := ∀ p ∈ l, p.2.Finite ∧ 0 ≤ p.2.value

/-- Adding such costs to a sum. -/
theorem foldl_add_nonneg : ∀ (l : List (Duration × Binary64)) (x : Binary64), CostsNonneg l →
    le (ofRat 0) x = true → le x (l.foldl (fun s p => add s p.2) x) = true
  | [], x, _, hx =>
    le_iff_ordinal.mpr ⟨(le_iff_ordinal.mp hx).2.1, (le_iff_ordinal.mp hx).2.1, le_rfl⟩
  | p :: l, x, hl, hx => by
      obtain ⟨hfin, hpos⟩ := hl p List.mem_cons_self
      have hstep := le_add hx hfin hpos
      have hrest := foldl_add_nonneg l (add x p.2) (fun q hq => hl q (List.mem_cons_of_mem _ hq))
        (le_of_le_of_le hx hstep)
      exact le_of_le_of_le hstep hrest

theorem zero_le_zero : le (ofRat 0) (ofRat 0) = true := by decide +kernel

theorem sum_nonneg {w : CostWindow Binary64} (h : CostsNonneg w.items) :
    le (ofRat 0) w.sum = true :=
  foldl_add_nonneg w.items (ofRat 0) h zero_le_zero

/-- **A sum decreases only where costs are given up.** -/
theorem sum_mono {w w' : CostWindow Binary64} (h : CostsNonneg w'.items)
    (hkept : w.items <+: w'.items) : le w.sum w'.sum = true := by
  obtain ⟨new, hnew⟩ := hkept
  rw [← hnew] at h
  have hold : le (ofRat 0) w.sum = true := sum_nonneg fun p hp => h p (List.mem_append_left _ hp)
  have hsum : w'.sum = new.foldl (fun s p => add s p.2) w.sum := by
    rw [CostWindow.sum, ← hnew, List.foldl_append]
    rfl
  rw [hsum]
  exact foldl_add_nonneg new w.sum (fun p hp => h p (List.mem_append_right _ hp)) hold

/-- What is served is within what is eligible, in both modes, and no cost is negative. -/
structure Sound (a : ObjectiveAccumulator Binary64) : Prop where
  totals : ∀ mode, 0 ≤ (a.avail.servedIn mode).toInt ∧
    (a.avail.servedIn mode).toInt ≤ (a.avail.eligibleIn mode).toInt
  costs : CostsNonneg a.cost.items

theorem soundRule : StoreRule Sound where
  make o := by
    refine ⟨fun mode => ?_, fun p hp => absurd hp List.not_mem_nil⟩
    cases mode <;> exact ⟨le_rfl, le_rfl⟩
  same a b hsame h := by
    obtain ⟨htotals, hcosts⟩ := h
    rw [← hsame.avail] at htotals
    rw [← hsame.cost] at hcosts
    exact ⟨htotals, hcosts⟩

/-- The value is in its domain, and availability is at most 10000 parts of a weight that doubles do
    not round up and the totals have room for. -/
structure Fit (o : Objective Binary64) (a : ObjectiveAccumulator Binary64)
    (e : EvidenceRecord Binary64) : Prop where
  value : inDomain e.value = true
  availability : e.dimension = .availability →
    le (numericOf e.value) (ofRat 10000) = true ∧
    trunc (ofInt64 (evidenceWeight e)) ≤ (evidenceWeight e).toInt ∧
    (a.avail.eligibleIn o.availabilityMode).toInt + (evidenceWeight e).toInt < 2 ^ 63

/-- A record that fits serves at most its weight. -/
theorem Fit.servingUnits {o : Objective Binary64} {a : ObjectiveAccumulator Binary64}
    {e : EvidenceRecord Binary64} (h : Fit o a e) (hunit : unitCompatible o e = true)
    (hdim : e.dimension = .availability) :
    0 ≤ (SloFabric.servingUnits e).toInt ∧
      (SloFabric.servingUnits e).toInt ≤ (evidenceWeight e).toInt := by
  obtain ⟨hparts, hweight, _⟩ := h.availability hdim
  obtain ⟨hfin, hpos⟩ := numericOf_inDomain h.value (unitCompatible_count hunit)
  obtain ⟨hten, hten'⟩ := ofRat_natCast (n := 10000) (by norm_num)
  rw [Nat.cast_ofNat] at hten hten'
  obtain ⟨_, hufin, hupos, hule⟩ := exactUnits_finite hfin hpos
    (((le_iff hfin hten).mp hparts).trans hten'.le)
  obtain ⟨hw, hw1, hw63⟩ := weight_finite e
  rw [trunc_finite hw (by linarith)] at hweight
  have hfloor : ⌊(exactUnits e).value⌋ ≤ (evidenceWeight e).toInt :=
    (Int.floor_le_floor hule).trans hweight
  have hfloor0 : 0 ≤ ⌊(exactUnits e).value⌋ := Int.floor_nonneg.mpr hupos
  have hmax := Int64.toInt_lt (evidenceWeight e)
  rw [servingUnits_eq hufin hupos (hule.trans hw63), Int64.toInt_ofInt_of_le (by omega) (by omega)]
  exact ⟨hfloor0, hfloor⟩

/-- What a cost window holds after a cost is added. -/
theorem mem_add_items {w : CostWindow Binary64} {t : Duration} {c : Binary64} {ns : Int64}
    {p : Duration × Binary64} (h : p ∈ (w.add t c ns).items) : p ∈ w.items ∨ p = (t, c) := by
  rcases List.mem_append.mp ((add_suffix w t c ns).subset h) with hold | hnew
  · exact Or.inl hold
  · exact Or.inr (List.mem_singleton.mp hnew)

/-- **The store lemma**: a store that a fitting record reaches stays sound. -/
theorem storeEvidence_sound {o : Objective Binary64} {a : ObjectiveAccumulator Binary64}
    {e : EvidenceRecord Binary64} (ha : Sound a) (hunit : unitCompatible o e = true)
    (hfit : (storeEvidence o a e).2.isOk = true → Fit o a e) : Sound (storeEvidence o a e).1 := by
  have hsample : Sound (a.sample e).1 := ⟨ha.totals, ha.costs⟩
  cases h : e.dimension with
  | recoveryTime =>
    simp only [storeEvidence, h]
    exact ha
  | latency | throughput | memoryPressure =>
    simp only [storeEvidence, h]
    exact hsample
  | cost =>
    by_cases hk : o.kind = .costWindowBudget
    · have hvalue := (hfit (by simp only [storeEvidence, h, if_pos hk]; rfl)).value
      simp only [storeEvidence, h, if_pos hk]
      refine ⟨ha.totals, fun p hp => ?_⟩
      rcases mem_add_items hp with hold | rfl
      · exact ha.costs p hold
      · exact numericOf_inDomain hvalue (unitCompatible_count hunit)
    · simp only [storeEvidence, h, if_neg hk]
      exact hsample
  | availability =>
    have hfit := hfit (by simp only [storeEvidence, h]; rfl)
    obtain ⟨hserved, hweight⟩ := hfit.servingUnits hunit h
    obtain ⟨_, _, hroom⟩ := hfit.availability h
    simp only [storeEvidence, h]
    refine ⟨fun mode => ?_, ha.costs⟩
    obtain ⟨hlow, hhigh⟩ := ha.totals mode
    rw [AvailabilityAccount.servedIn_add, AvailabilityAccount.eligibleIn_add]
    by_cases hmode : mode = o.availabilityMode
    · subst hmode
      rw [if_pos rfl, if_pos rfl, toInt_add_of_range (by omega) (by omega),
        toInt_add_of_range (by omega) (by omega)]
      omega
    · rw [if_neg hmode, if_neg hmode]
      exact ⟨hlow, hhigh⟩

/-! ## 4. Runs -/

/-- The record a step accepts. -/
def acceptedRecord {R : Type} : Op R × Response R → Option (EvidenceRecord R)
  | (.ingest e _, .status st) => if st.isOk then some e else none
  | _ => none

/-- The fabric with the records it has accepted. -/
abbrev Recorded (R : Type) := Watched (State R) (List (EvidenceRecord R))

def noteAccepted {R : Type} (_s : State R) (l : List (EvidenceRecord R)) (x : Op R × Response R) :
    List (EvidenceRecord R) := l ++ (acceptedRecord x).toList

/-- A record that the step accepts fits. -/
def Proper (w : Recorded Binary64) : Op Binary64 → Prop
  | .ingest e _ => ∀ o, Enters w.state e o → Fit o (receiving w.state e o) e
  | _ => True

/-- Every accepted value is in its domain, and the accumulators are sound. -/
def AllSound (w : Recorded Binary64) : Prop :=
  (∀ e ∈ w.seen, inDomain e.value = true) ∧ ∀ a ∈ w.state.accumulators.rows, Sound a

/-- **The step lemma.** -/
theorem allSound_step [Platform Binary64] {w w' : Recorded Binary64} {op : Op Binary64}
    {r : Response Binary64}
    (hw : AllSound w) (hop : Proper w op) (h : watch apply noteAccepted w op = some (w', r)) :
    AllSound w' := by
  obtain ⟨hstep, hseen⟩ := watch_cases h
  constructor
  · intro e he
    rw [hseen, noteAccepted] at he
    rcases List.mem_append.mp he with hold | hnew
    · exact hw.1 e hold
    · unfold acceptedRecord at hnew
      split at hnew
      · rename_i e' now st hx
        obtain ⟨rfl, rfl⟩ := Prod.mk.inj hx
        split at hnew
        · rename_i hok
          cases Option.mem_toList.mp hnew
          obtain ⟨_, hr⟩ := Prod.mk.inj (Option.some.inj hstep)
          cases hr
          obtain ⟨o, ho⟩ := (enters_iff w.state e now).mp hok
          exact (hop o ho).value
        · cases hnew
      · cases hnew
  · refine soundRule.step hstep hw.2 fun e now o heq ho => ?_
    subst heq
    refine storeEvidence_sound (soundRule.received hw.2 e o) ho.unit fun hok => ?_
    obtain ⟨hb, htakes⟩ := (storeEvidence_ok_iff o _ e).mp hok
    exact hop o ⟨ho, hb, htakes⟩

/-- **What valid values give.** In every run in which the records that are accepted fit: every
    value accepted is in its domain and one that the decoder lets through, in every accumulator
    what is served is within what is eligible and the costs add up to no negative sum, and the next
    such step decreases a cost sum only if it gives up costs. -/
theorem valid_values_run [Platform Binary64] {w : Recorded Binary64} {tr : Trace Binary64}
    (h : Run (watch apply noteAccepted) Proper ⟨State.fresh Binary64, []⟩ tr w) :
    AllSound w ∧ (∀ e ∈ w.seen, valueValid e.value = true) ∧
      (∀ a ∈ w.state.accumulators.rows, le (ofRat 0) a.cost.sum = true) ∧
      ∀ op w' r, Proper w op → watch apply noteAccepted w op = some (w', r) →
        ∀ k a b, w.state.accumulators.find k = some a → w'.state.accumulators.find k = some b →
          a.cost.items <+: b.cost.items → le a.cost.sum b.cost.sum = true := by
  have hsound : AllSound w := by
    refine h.invariant (I := AllSound) ⟨?_, ?_⟩ fun _ _ _ _ hw hc hs => allSound_step hw hc hs
    · exact fun e he => absurd he List.not_mem_nil
    · exact fun a ha => absurd ha List.not_mem_nil
  refine ⟨hsound, fun e he => valueValid_of_inDomain (hsound.1 e he),
    fun a ha => sum_nonneg (hsound.2 a ha).costs, ?_⟩
  intro op w' r hop hstep k a b _ hb hkept
  have hnext := allSound_step hsound hop hstep
  exact sum_mono (hnext.2 b (KeyedTable.find_mem hb)).costs hkept

/-! ## 5. Basis points and costs -/

instance (o : Objective Binary64) (a : ObjectiveAccumulator Binary64)
    (e : EvidenceRecord Binary64) : Decidable (Fit o a e) :=
  decidable_of_iff (inDomain e.value = true ∧ (e.dimension = .availability →
      le (numericOf e.value) (ofRat 10000) = true ∧
      trunc (ofInt64 (evidenceWeight e)) ≤ (evidenceWeight e).toInt ∧
      (a.avail.eligibleIn o.availabilityMode).toInt + (evidenceWeight e).toInt < 2 ^ 63))
    ⟨fun h => ⟨h.1, h.2⟩, fun h => ⟨h.value, h.availability⟩⟩

/-- Whatever record is offered fits. -/
def properTest (w : Recorded Binary64) : Op Binary64 → Bool
  | .ingest e _ => (offeredTo w.state e).all fun o => decide (Fit o (receiving w.state e o) e)
  | _ => true

theorem proper_of_test {w : Recorded Binary64} {op : Op Binary64} (h : properTest w op = true) :
    Proper w op := by
  cases op with
  | ingest e now =>
    intro o ho
    rw [properTest, ho.reaches.offered] at h
    exact of_decide_eq_true h
  | _ => trivial

/-- An availability objective and a cost budget, a record of some basis points, and a cost. -/
def valuesOffered (bp micros : Int64) : List (Op Binary64) :=
  [.setPolicy smallPolicy,
    .addContract (smallContract 1 1 1
      [{ smallObjective 1 1 with dim := .availability, kind := .availabilityTime
                                 target := .basisPoints 9900 },
        { smallObjective 2 1 with dim := .cost, kind := .costWindowBudget
                                  target := .costMicros 100 }]),
    .ingest { id := ⟨1⟩, objectiveId := ⟨1⟩, dimension := .availability, sampleCount := 1000
              value := .basisPoints bp } 0,
    .ingest { id := ⟨2⟩, objectiveId := ⟨2⟩, dimension := .cost, value := .costMicros micros } 0]

/-- **20000 basis points are accepted**, and twice the eligible units are served. -/
theorem valid_values_fails :
    ¬∀ (w : Recorded Binary64) (tr : Trace Binary64),
      Run (watch apply noteAccepted) (fun _ _ => True) ⟨State.fresh Binary64, []⟩ tr w →
      AllSound w ∧ ∀ a ∈ w.state.accumulators.rows, le (ofRat 0) a.cost.sum = true := by
  intro hall
  have htest : (execute (watch apply noteAccepted) (fun _ _ => true) ⟨State.fresh Binary64, []⟩
      (valuesOffered 20000 5)).any (fun x => (x.1.state.accumulators.find ⟨1⟩).any fun a =>
        a.avail.servingTime = 2000 && a.avail.eligibleTime = 1000) = true := by
    decide +kernel
  obtain ⟨w, tr, hrun, hbad⟩ := Run.of_test (fun _ _ _ => trivial) htest
  obtain ⟨a, ha, hbad⟩ := (Option.any_eq_true _ _).mp hbad
  obtain ⟨hserved, heligible⟩ := Bool.and_eq_true_iff.mp hbad
  have hle := (((hall w tr hrun).1.2 a (KeyedTable.find_mem ha)).totals .time).2
  simp only [AvailabilityAccount.servedIn, AvailabilityAccount.eligibleIn,
    of_decide_eq_true hserved, of_decide_eq_true heligible] at hle
  exact absurd hle (by decide)

theorem valid_values_run_small :
    ∃ (w : Recorded Binary64) (tr : Trace Binary64),
      Run (watch apply noteAccepted) Proper ⟨State.fresh Binary64, []⟩ tr w ∧ AllSound w ∧
      w.seen.length = 2 := by
  have htest : (execute (watch apply noteAccepted) properTest ⟨State.fresh Binary64, []⟩
      (valuesOffered 9900 5)).any (fun x => x.1.seen.length = 2) = true := by
    decide +kernel
  obtain ⟨w, tr, hrun, hseen⟩ := Run.of_test (fun _ _ => proper_of_test) htest
  exact ⟨w, tr, hrun, (valid_values_run hrun).1, of_decide_eq_true hseen⟩

end SloFabric
