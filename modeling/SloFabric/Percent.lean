/-
  File:      SloFabric/Percent.lean
  Subject:   One availability, reported in percent or in basis points.

  * `Reworded`: two operations that are the same, or ingest the same availability record, once as
    `Percentage(p)` and once as `BasisPoints(100 p)`;
  * `ingest_alike`: the two records fare alike, but for the serving units they stand for;
  * `sameShare_run_iff`: two runs of such operations keep the same availability totals exactly if
    the records that are accepted serve the same units in both; they then agree in everything;
  * `TwoUnits.servingUnits_iff`: in doubles, that is if neither wording is for one whole unit -- a
    percentage is divided by 10000 like a number of basis points;
  * `reporting_unit_iff`: the two together;
  * `reporting_unit_fails`: 99% of 1000 requests, and 9900 basis points of them.
-/
import SloFabric.Doubles
import SloFabric.Admission
import SloFabric.Library.Pairs

namespace SloFabric

variable {R : Type}

/-! ## 1. Two wordings of a record -/

section Wording

variable [Double R]

/-- `b` is `100 p`, a number of basis points. -/
def InPercent (p : R) (b : Int64) : Prop :=
  Double.eq (Double.mul (Double.ofRat 100) p) (ofInt64 b) = true ∧ 0 ≤ b ∧ b ≤ 10000

/-- The same availability record, in percent and in basis points. -/
structure TwoUnits (e e' : EvidenceRecord R) : Prop where
  same : e' = { e with value := e'.value }
  dimension : e.dimension = .availability
  value : ∃ p b, InPercent p b ∧ e.value = .percentage p ∧ e'.value = .basisPoints b

/-- The operations are the same but for the wording of an availability record. -/
inductive Reworded : Op R → Op R → Prop where
  | same (op : Op R) : Reworded op op
  | ingest {e e' : EvidenceRecord R} (now : Duration) (h : TwoUnits e e' ∨ TwoUnits e' e) :
    Reworded (.ingest e now) (.ingest e' now)

omit [Double R] in
/-- A unit of a record that an objective takes for its availability, or not at all. -/
theorem unitCompatible_availability (o : Objective R) {e : EvidenceRecord R}
    (h : unitKindOf e.value = .basisPoints ∨ unitKindOf e.value = .percent) :
    unitCompatible o e = decide (o.dim = .availability) := by
  unfold unitCompatible
  rcases h with h | h <;> rw [h] <;> cases o.dim <;> cases o.rateTag <;>
    simp [rateUnit, expectedUnitFor]

theorem TwoUnits.units {e e' : EvidenceRecord R} (h : TwoUnits e e') :
    unitKindOf e.value = .percent ∧ unitKindOf e'.value = .basisPoints := by
  obtain ⟨p, b, _, hp, hb⟩ := h.value
  rw [hp, hb]
  exact ⟨rfl, rfl⟩

/-- Two records that differ in their values only, which fit the same objectives. -/
structure Alike (e e' : EvidenceRecord R) : Prop where
  same : e' = { e with value := e'.value }
  dimension : e.dimension = .availability
  compatible : ∀ o : Objective R, unitCompatible o e' = unitCompatible o e

omit [Double R] in
theorem Alike.symm {e e' : EvidenceRecord R} (h : Alike e e') : Alike e' e where
  same := by
    obtain ⟨hsame, _, _⟩ := h
    cases e
    rw [hsame]
  dimension := (congrArg (·.dimension) h.same).trans h.dimension
  compatible o := (h.compatible o).symm

theorem TwoUnits.alike {e e' : EvidenceRecord R} (h : TwoUnits e e') : Alike e e' where
  same := h.same
  dimension := h.dimension
  compatible o := by
    rw [unitCompatible_availability o (Or.inl h.units.2),
      unitCompatible_availability o (Or.inr h.units.1)]

end Wording

/-! ## 2. What the two records do -/

section Ingest

variable [Double R]

/-- The accumulator with a share of the weight served. -/
def served (o : Objective R) (a : ObjectiveAccumulator R) (e : EvidenceRecord R) (units : Int64) :
    ObjectiveAccumulator R :=
  { a with avail := a.avail.add o.availabilityMode (evidenceWeight e) units }

/-- Both are refused alike, or both are taken and each serves its units. -/
theorem offer_alike {e e' : EvidenceRecord R} (h : Alike e e') (o : Objective R)
    (a : ObjectiveAccumulator R) :
    (offer o a e' = offer o a e ∧ (offer o a e).2.isOk = false) ∨
    offer o a e = (served o (a.remember e.id) e (servingUnits e), ok) ∧
      offer o a e' = (served o (a.remember e.id) e (servingUnits e'), ok) := by
  have hid : e'.id = e.id := congrArg (·.id) h.same
  have hweight : evidenceWeight e' = evidenceWeight e := by
    rw [evidenceWeight, congrArg (·.sampleCount) h.same]
    rfl
  have hstore (x : EvidenceRecord R) (hx : x.dimension = .availability) (b : ObjectiveAccumulator R)
      (hw : evidenceWeight x = evidenceWeight e) :
      storeEvidence o b x = (served o b e (servingUnits x), ok) := by
    simp only [storeEvidence, hx, hw]
    rfl
  unfold offer
  rw [hid, h.compatible o]
  split
  · exact Or.inl ⟨rfl, rfl⟩
  · simp only
    split
    · exact Or.inl ⟨rfl, rfl⟩
    · exact Or.inr ⟨hstore e h.dimension _ rfl, hstore e' h.symm.dimension _ hweight⟩

/-- **The two records fare alike**: both are refused, with the same complaint, or both are
    accepted, into the same accumulator, and each serves its units. -/
theorem ingest_alike {e e' : EvidenceRecord R} (h : Alike e e') (s : State R) (now : Duration) :
    (ingest s e' now = ingest s e now ∧ (ingest s e now).2.isOk = false) ∨
    ∃ (s₀ : State R) (o : Objective R) (b : ObjectiveAccumulator R), b.defn.id = o.id ∧
      ingest s e now =
        ({ s₀ with accumulators := s.accumulators.insert (served o b e (servingUnits e)) }, ok) ∧
      ingest s e' now =
        ({ s₀ with accumulators := s.accumulators.insert (served o b e (servingUnits e')) },
          ok) := by
  have hid : e'.id = e.id := congrArg (·.id) h.same
  have hepoch : e'.epoch = e.epoch := congrArg (·.epoch) h.same
  have hobj : e'.objectiveId = e.objectiveId := congrArg (·.objectiveId) h.same
  have hgen : e'.objectiveGen = e.objectiveGen := congrArg (·.objectiveGen) h.same
  have hframe := noteEvidence_frame s e.id
  unfold ingest
  rw [hid, hepoch, hobj, hgen]
  generalize noteEvidence s e.id = n at hframe
  obtain ⟨s₁, st⟩ := n
  have htable : s₁.accumulators = s.accumulators := by
    simp only at hframe
    rw [hframe]
  simp only
  split
  · rename_i hst
    exact Or.inl ⟨rfl, by simpa using hst⟩
  · split
    · exact Or.inl ⟨rfl, rfl⟩
    · cases hd : definitionOf s₁.contracts e.objectiveId with
      | none => exact Or.inl ⟨rfl, rfl⟩
      | some o =>
        simp only
        split
        · exact Or.inl ⟨rfl, rfl⟩
        · rw [htable]
          rcases offer_alike h o (acquire s.accumulators o) with ⟨heq, hno⟩ | ⟨hone, htwo⟩
          · exact Or.inl ⟨by rw [heq], hno⟩
          · refine Or.inr ⟨s₁, o, (acquire s.accumulators o).remember e.id, ?_, ?_, ?_⟩
            · exact acquire_id s.accumulators o
            · rw [hone]
            · rw [htwo]

omit [Double R] in
/-- Different shares give different accounts. -/
theorem served_inj {o : Objective R} {a : ObjectiveAccumulator R} {e : EvidenceRecord R}
    {x y : Int64} (h : (served o a e x).avail = (served o a e y).avail) : x = y := by
  have hserved := congrArg (·.servedIn o.availabilityMode) h
  simp only [served, AvailabilityAccount.servedIn_add, if_true] at hserved
  exact (Int64.add_right_inj _).mp hserved

end Ingest

/-! ## 3. Two runs -/

/-- The availability totals of every objective are the same. -/
def TotalsAgree (p : State R × State R) : Prop :=
  ∀ k, (p.1.accumulators.find k).map (·.avail) = (p.2.accumulators.find k).map (·.avail)

section Pair

variable [Pod R] [Double R] [Platform R]

/-- The two operations are the same but for the wording of an availability record, which serves
    the same units in both if it is accepted. -/
def SameShare (p : State R × State R) (op : Op R × Op R) : Prop :=
  Reworded op.1 op.2 ∧ ∀ e e' now, op = (.ingest e now, .ingest e' now) →
    (ingest p.1 e now).2.isOk = true → servingUnits e' = servingUnits e

/-- **The step lemma**: from one state, the totals agree after the two operations exactly if these
    serve the same units, and then everything agrees. -/
theorem sameShare_step {s : State R} {op : Op R × Op R} {p : State R × State R}
    {r : Response R × Response R} (hop : Reworded op.1 op.2)
    (h : both apply (s, s) op = some (p, r)) :
    (SameShare (s, s) op ↔ TotalsAgree p) ∧ (TotalsAgree p → p.1 = p.2 ∧ r.1 = r.2) := by
  obtain ⟨op₁, op₂⟩ := op
  obtain ⟨h₁, h₂⟩ := both_cases h
  simp only at h₁ h₂ hop
  cases hop with
  | same =>
    rw [h₁, Option.some.injEq, Prod.mk.injEq] at h₂
    refine ⟨iff_of_true ⟨.same op₁, fun e e' now heq _ => ?_⟩ fun k => by rw [h₂.1], fun _ => h₂⟩
    obtain ⟨he, he'⟩ := Prod.mk.inj heq
    rw [he] at he'
    cases he'
    rfl
  | @ingest e e' now hwords =>
    have halike : Alike e e' := hwords.elim TwoUnits.alike fun h => h.alike.symm
    obtain ⟨hs₁, hr₁⟩ := Prod.mk.inj (Option.some.inj h₁)
    obtain ⟨hs₂, hr₂⟩ := Prod.mk.inj (Option.some.inj h₂)
    have hshare : SameShare (s, s) (.ingest e now, .ingest e' now) ↔
        ((ingest s e now).2.isOk = true → servingUnits e' = servingUnits e) := by
      refine ⟨fun h => h.2 e e' now rfl, fun h => ⟨.ingest now hwords, fun x x' t heq => ?_⟩⟩
      cases heq
      exact h
    rw [hshare, ← hr₁, ← hr₂]
    unfold TotalsAgree
    rw [← hs₁, ← hs₂]
    rcases ingest_alike halike s now with ⟨heq, hno⟩ | ⟨s₀, o, b, hid, hone, htwo⟩
    · rw [heq]
      exact ⟨iff_of_true (fun hok => by rw [hno] at hok; cases hok) fun _ => rfl,
        fun _ => ⟨rfl, rfl⟩⟩
    · have hunits : (∀ k, ((ingest s e now).1.accumulators.find k).map (·.avail) =
          ((ingest s e' now).1.accumulators.find k).map (·.avail)) →
          servingUnits e' = servingUnits e := by
        intro hall
        have hk := hall o.id
        rw [hone, htwo] at hk
        simp only [s.accumulators.find_insert_key (v := served o b e _) hid, Option.map_some,
          Option.some.injEq] at hk
        exact (served_inj hk).symm
      refine ⟨⟨fun h => ?_, fun h _ => hunits h⟩, fun h => ?_⟩
      · rw [hone, htwo, h (by rw [hone]; rfl)]
        exact fun _ => rfl
      · rw [hone, htwo, hunits h]
        exact ⟨rfl, rfl⟩

/-- Two runs of the same operations, but for the wording of availability records. -/
abbrev RewordedRun (R : Type) [Pod R] [Double R] [Platform R]
    (C : State R × State R → Op R × Op R → Prop)
    (tr : List ((Op R × Op R) × (Response R × Response R))) (p : State R × State R) : Prop :=
  Run (both apply) C (State.fresh R, State.fresh R) tr p

/-- Under the condition the two runs are one. -/
theorem sameShare_run {p : State R × State R}
    {tr : List ((Op R × Op R) × (Response R × Response R))} (h : RewordedRun R SameShare tr p) :
    p.1 = p.2 ∧ ∀ x ∈ tr, x.2.1 = x.2.2 :=
  h.agree fun _ _ _ _ hc hs =>
    have hstep := sameShare_step hc.1 hs
    hstep.2 (hstep.1.mp hc)

/-- The totals of the two runs agree all along exactly if the records serve the same units. -/
theorem sameShare_run_iff {p : State R × State R}
    {tr : List ((Op R × Op R) × (Response R × Response R))} :
    RewordedRun R SameShare tr p ↔
      RewordedRun R (fun q op => Reworded op.1 op.2 ∧ TotalsAgree q) tr p ∧ TotalsAgree p := by
  constructor
  · intro h
    induction h with
    | start => exact ⟨.start, fun _ => rfl⟩
    | @next _ q _ _ _ hrun hc hs ih =>
      have heq := (sameShare_run hrun).1
      obtain ⟨s, t⟩ := q
      simp only at heq
      subst heq
      exact ⟨.next ih.1 ⟨hc.1, ih.2⟩ hs, (sameShare_step hc.1 hs).1.mp hc⟩
  · rintro ⟨h, hagree⟩
    induction h with
    | start => exact .start
    | @next _ q _ _ _ _ hc hs ih =>
      have hrun := ih hc.2
      have heq := (sameShare_run hrun).1
      obtain ⟨s, t⟩ := q
      simp only at heq
      subst heq
      exact .next hrun ((sameShare_step hc.1 hs).1.mpr hagree) hs

end Pair

/-! ## 4. The units of a record in doubles -/

section Doubles

open Binary64

/-- The record stands for less than one serving unit. -/
def SubUnit (e : EvidenceRecord Binary64) : Prop := lt (exactUnits e) (ofRat 1) = true

/-- The two numbers in doubles: the basis points are 100 times the percentage, rounded. -/
theorem InPercent.product {p : Binary64} {b : Int64} (h : InPercent p b) :
    p.Finite ∧ 0 ≤ p.value ∧
      (roundResult ((ofRat 100).negative != p.negative) (100 * p.value)).Finite ∧
      (roundResult ((ofRat 100).negative != p.negative) (100 * p.value)).value = b.toInt ∧
      (ofInt64 b : Binary64).Finite ∧ (ofInt64 b : Binary64).value = b.toInt ∧
      0 ≤ b.toInt ∧ b.toInt ≤ 10000 := by
  obtain ⟨heq, hlow, hhigh⟩ := h
  have hb0 : 0 ≤ b.toInt := Int64.le_iff_toInt_le.mp hlow
  have hb1 : b.toInt ≤ 10000 := Int64.le_iff_toInt_le.mp hhigh
  obtain ⟨hbfin, hbval⟩ : (ofInt64 b : Binary64).Finite ∧ (ofInt64 b : Binary64).value = b.toInt :=
    ofRat_integer hb0 (by omega)
  obtain ⟨hfin, hval⟩ := ofRat_natCast (n := 100) (by norm_num)
  rw [Nat.cast_ofNat] at hfin hval
  have hbq : (0 : ℚ) ≤ b.toInt := by exact_mod_cast hb0
  obtain ⟨hpfin, hpos, hprodfin, hprod⟩ := factor_of_mul hfin (by rw [hval]; norm_num) hbfin
    (hbq.trans hbval.ge) heq
  rw [mul_finite hfin hpfin, hval] at hprodfin hprod
  rw [hbval] at hprod
  exact ⟨hpfin, hpos, hprodfin, hprod, hbfin, hbval, hb0, hb1⟩

/-- A percentage of no basis points is zero. -/
theorem InPercent.zero {p : Binary64} {b : Int64} (h : InPercent p b) (hb : b.toInt = 0) :
    p.value = 0 := by
  obtain ⟨hpfin, hpos, hprodfin, hprod, _⟩ := h.product
  have hle := le_roundResult (mul_nonneg (by norm_num) hpos) hprodfin hpfin (by linarith)
  rw [hprod, hb] at hle
  exact le_antisymm hle hpos

/-- One of some is at least 32 times smaller than they are. -/
theorem InPercent.apart {p : Binary64} {b : Int64} (h : InPercent p b) (hb : b.toInt ≠ 0) :
    2 ^ (-8 : ℤ) ≤ p.value ∧ 2 ^ 5 * p.value ≤ b.toInt := by
  obtain ⟨_, hpos, hprodfin, hprod, _, _, hb0, hb1⟩ := h.product
  have hprodpos : 0 ≤ 100 * p.value := mul_nonneg (by norm_num) hpos
  have hone : (1 : ℚ) ≤ b.toInt := by
    have : 1 ≤ b.toInt := by omega
    exact_mod_cast this
  have hlow : 2 ^ (-8 : ℤ) ≤ p.value := by
    by_contra hsmall
    obtain ⟨hhalf, hhalf'⟩ := ofRat_two_pow (i := -1) (by norm_num) (by norm_num)
    have hle := (roundResult_le (z := (ofRat 100).negative != p.negative) hprodpos hhalf (by
      rw [hhalf']
      norm_num at hsmall ⊢
      linarith)).2.2
    rw [hprod, hhalf'] at hle
    norm_num at hle
    linarith
  have hhigh : 100 * p.value < 2 ^ (200 : ℤ) := by
    by_contra hlarge
    obtain ⟨htop, htop'⟩ := ofRat_two_pow (i := 14) (by norm_num) (by norm_num)
    have hge := le_roundResult hprodpos hprodfin htop (by
      rw [htop']
      norm_num at hlarge ⊢
      linarith)
    rw [hprod, htop'] at hge
    have : (b.toInt : ℚ) ≤ 10000 := by exact_mod_cast hb1
    norm_num at hge
    linarith
  have hgap : 2 ^ (5 + 1) * p.value ≤ 100 * p.value :=
    mul_le_mul_of_nonneg_right (by norm_num) hpos
  obtain ⟨i, hi, hij, hpi, hib⟩ := exists_between
    (le_trans (zpow_le_zpow_right₀ one_le_two (by norm_num)) hlow) hgap hhigh
  obtain ⟨hpow, hpow'⟩ := ofRat_two_pow (i := i + 5) (by omega) (by exact_mod_cast hij)
  have hge := le_roundResult hprodpos hprodfin hpow (hpow'.le.trans (by exact_mod_cast hib))
  rw [hprod, hpow', zpow_add₀ two_ne_zero] at hge
  refine ⟨hlow, le_trans ?_ hge⟩
  rw [mul_comm]
  norm_num
  linarith

/-- Nothing is zero units. -/
theorem exactUnits_zero {e : EvidenceRecord Binary64} (hv : (numericOf e.value).Finite)
    (h : (numericOf e.value).value = 0) : (exactUnits e).value = 0 := by
  obtain ⟨⟨z, hshare⟩, _⟩ := share_finite hv h.ge (h.le.trans (by norm_num))
  obtain ⟨⟨z', hunits⟩, _⟩ := exactUnits_finite hv h.ge (h.le.trans (by norm_num))
  have hzero : ∀ z, (roundResult z 0).value = 0 := fun z => by
    rw [roundResult, if_pos rfl, value_ofWord_zero]
  rw [hunits, hshare, h, zero_div, hzero, zero_mul, hzero]

/-- The shares of a percentage and of its basis points: the division keeps a factor 16. -/
theorem InPercent.shares {p : Binary64} {b : Int64} (h : InPercent p b) (hb : b.toInt ≠ 0) :
    2 ^ 4 * (div p (ofRat 10000)).value ≤ (div (ofInt64 b) (ofRat 10000)).value ∧
      (2 : ℚ) ^ (-22 : ℤ) ≤ (div p (ofRat 10000)).value := by
  obtain ⟨hpfin, hpos, _, _, hbfin, hbval, hb0, hb1⟩ := h.product
  obtain ⟨hplow, hpb⟩ := h.apart hb
  have hbq : (0 : ℚ) ≤ b.toInt := by exact_mod_cast hb0
  have hbq' : (b.toInt : ℚ) ≤ 10000 := by exact_mod_cast hb1
  obtain ⟨⟨_, hshare⟩, hsfin, _⟩ := share_finite hpfin hpos (by linarith)
  obtain ⟨⟨_, hshare'⟩, _⟩ := share_finite hbfin (hbq.trans hbval.ge) (hbval.le.trans hbq')
  have hqlow : (2 : ℚ) ^ (-22 : ℤ) ≤ p.value / 10000 := by
    norm_num at hplow ⊢
    linarith
  constructor
  · rw [hshare, hshare']
    refine roundResult_apart ((zpow_le_zpow_right₀ one_le_two (by norm_num)).trans hqlow) ?_ ?_
    · rw [hbval]
      linarith
    · rw [hbval]
      norm_num
      linarith
  · obtain ⟨hmin, hmin'⟩ := ofRat_two_pow (i := -22) (by norm_num) (by norm_num)
    rw [hshare] at hsfin ⊢
    exact hmin'.ge.trans (le_roundResult (div_nonneg hpos (by norm_num)) hsfin hmin
      (hmin'.le.trans hqlow))

/-- **The percentage is short of the basis points**, rounded or not. -/
theorem exactUnits_apart {e e' : EvidenceRecord Binary64} (h : TwoUnits e e') :
    (exactUnits e).Finite ∧ (exactUnits e').Finite ∧ 0 ≤ (exactUnits e).value ∧
      2 ^ 3 * (exactUnits e).value ≤ (exactUnits e').value ∧
      (exactUnits e').value ≤ 2 ^ 63 := by
  obtain ⟨p, b, hpb, hp, hb⟩ := h.value
  obtain ⟨hpfin, hpos, _, _, hbfin, hbval, hb0, hb1⟩ := hpb.product
  have hbq : (0 : ℚ) ≤ b.toInt := by exact_mod_cast hb0
  have hbq' : (b.toInt : ℚ) ≤ 10000 := by exact_mod_cast hb1
  have hple : p.value ≤ 10000 := by
    by_cases hne : b.toInt = 0
    · rw [hpb.zero hne]
      norm_num
    · have := (hpb.apart hne).2
      linarith
  have hnum : numericOf e.value = p := by rw [hp]; rfl
  have hnum' : numericOf e'.value = (ofInt64 b : Binary64) := by rw [hb]; rfl
  have hweight : evidenceWeight e' = evidenceWeight e := by
    rw [evidenceWeight, congrArg (·.sampleCount) h.same]
    rfl
  obtain ⟨hw, hw1, hw63⟩ := weight_finite e
  obtain ⟨_, _, _, hs1'⟩ := share_finite hbfin (hbq.trans hbval.ge) (hbval.le.trans hbq')
  obtain ⟨⟨_, hunits⟩, hufin, hupos, _⟩ := exactUnits_finite (e := e)
    (by rw [hnum]; exact hpfin) (by rw [hnum]; exact hpos) (by rw [hnum]; exact hple)
  obtain ⟨⟨_, hunits'⟩, hufin', _, hule'⟩ := exactUnits_finite (by rw [hnum']; exact hbfin)
    (by rw [hnum', hbval]; exact hbq) (by rw [hnum', hbval]; exact hbq')
  rw [hweight] at hule' hunits'
  rw [hnum] at hunits
  rw [hnum'] at hunits'
  refine ⟨hufin, hufin', hupos, ?_, hule'.trans hw63⟩
  by_cases hne : b.toInt = 0
  · rw [exactUnits_zero (by rw [hnum]; exact hpfin) (by rw [hnum]; exact hpb.zero hne),
      exactUnits_zero (by rw [hnum']; exact hbfin) (by rw [hnum', hbval, hne, Int.cast_zero]),
      mul_zero]
  · -- The product keeps a factor 8.
    obtain ⟨hapart, hslow⟩ := hpb.shares hne
    rw [hunits, hunits']
    refine roundResult_apart ?_ ?_ ?_
    · calc (2 : ℚ) ^ (-200 : ℤ) ≤ 2 ^ (-22 : ℤ) := zpow_le_zpow_right₀ one_le_two (by norm_num)
        _ ≤ (div p (ofRat 10000)).value := hslow
        _ ≤ _ := le_mul_of_one_le_right (le_trans (by positivity) hslow) hw1
    · rw [← mul_assoc]
      exact mul_le_mul_of_nonneg_right hapart (by linarith)
    · have hle := mul_le_mul hs1' hw63 (by linarith) zero_le_one
      refine hle.trans_lt ?_
      norm_num

/-- **The two wordings serve the same units** exactly if neither serves one. -/
theorem TwoUnits.servingUnits_iff {e e' : EvidenceRecord Binary64} (h : TwoUnits e e') :
    servingUnits e' = servingUnits e ↔ SubUnit e ∧ SubUnit e' := by
  obtain ⟨hfin, hfin', hpos, hapart, htop⟩ := exactUnits_apart h
  obtain ⟨hone, hone'⟩ := ofRat_natCast (n := 1) (by norm_num)
  rw [Nat.cast_one] at hone hone'
  rw [servingUnits_eq hfin hpos (by linarith), servingUnits_eq hfin' (by linarith) htop, SubUnit,
    SubUnit, lt_iff hfin hone, lt_iff hfin' hone, hone']
  generalize (exactUnits e).value = y at *
  generalize (exactUnits e').value = x at *
  have hy : 0 ≤ ⌊y⌋ := Int.floor_nonneg.mpr hpos
  have hyx : y ≤ x := by linarith
  have hx : ⌊x⌋ ≤ 2 ^ 63 := Int.floor_le_iff.mpr (by push_cast; linarith)
  have hle : ⌊y⌋ ≤ ⌊x⌋ := Int.floor_le_floor hyx
  constructor
  · intro heq
    have hfloor : ⌊x⌋ = ⌊y⌋ := by
      have hbits := congrArg Int64.toInt heq
      simp only [Int64.toInt_ofInt, Int.bmod_eq_emod, Int64.size] at hbits
      split at hbits <;> split at hbits <;> omega
    have hlt : x < ⌊y⌋ + 1 := hfloor ▸ Int.lt_floor_add_one x
    have hfl : (⌊y⌋ : ℚ) ≤ y := Int.floor_le y
    have hnone : ⌊y⌋ = 0 := by
      have : (8 * ⌊y⌋ : ℚ) < ⌊y⌋ + 1 := by linarith
      have : 8 * ⌊y⌋ < ⌊y⌋ + 1 := by exact_mod_cast this
      omega
    rw [hnone, Int.cast_zero, zero_add] at hlt
    exact ⟨hyx.trans_lt hlt, hlt⟩
  · rintro ⟨-, hlt⟩
    have hx0 : ⌊x⌋ = 0 := Int.floor_eq_zero_iff.mpr ⟨hpos.trans hyx, hlt⟩
    have hy0 : ⌊y⌋ = 0 := Int.floor_eq_zero_iff.mpr ⟨hpos, hyx.trans_lt hlt⟩
    rw [hx0, hy0]

end Doubles

/-! ## 5. When the unit does not matter -/

/-- The two operations are the same but for the wording of an availability record, which is for
    less than one serving unit if it reaches a store. -/
def Fractional (p : State Binary64 × State Binary64) (op : Op Binary64 × Op Binary64) : Prop :=
  Reworded op.1 op.2 ∧ ∀ e e' now o, op = (.ingest e now, .ingest e' now) →
    TwoUnits e e' ∨ TwoUnits e' e → Reaches p.1 e o → SubUnit e ∧ SubUnit e'

/-- The units a record serves are the same in both wordings exactly if there are none. -/
theorem fractional_iff (p : State Binary64 × State Binary64) (op : Op Binary64 × Op Binary64) :
    SameShare p op ↔ Fractional p op := by
  refine and_congr_right fun hop => ⟨fun h e e' now o heq hwords ho => ?_,
    fun h e e' now heq hok => ?_⟩
  · have hdim : e.dimension = .availability := by
      rcases hwords with hw | hw
      · exact hw.dimension
      · rw [hw.alike.symm.dimension]
    have hsame := h e e' now heq ((availability_ok_iff p.1 hdim now).mpr ⟨o, ho⟩)
    rcases hwords with hw | hw
    · exact hw.servingUnits_iff.mp hsame
    · exact (hw.servingUnits_iff.mp hsame.symm).symm
  · subst heq
    cases hop with
    | same => rfl
    | ingest _ hwords =>
      have hdim : e.dimension = .availability := by
        rcases hwords with hw | hw
        · exact hw.dimension
        · rw [hw.alike.symm.dimension]
      obtain ⟨o, ho⟩ := (availability_ok_iff p.1 hdim now).mp hok
      have hsub := h e e' now o rfl hwords ho
      rcases hwords with hw | hw
      · exact hw.servingUnits_iff.mpr hsub
      · exact (hw.servingUnits_iff.mpr hsub.symm).symm

/-- **When availability does not depend on the reporting unit.** Of all pairs of runs of the same
    operations, but for availability records worded as `Percentage(p)` in one and as
    `BasisPoints(100 p)` in the other: their totals agree all along, and they answer alike, if and
    only if no such record that reaches a store is for a whole serving unit. -/
theorem reporting_unit_iff [Platform Binary64] {p : State Binary64 × State Binary64}
    {tr : List ((Op Binary64 × Op Binary64) × (Response Binary64 × Response Binary64))} :
    RewordedRun Binary64 Fractional tr p ↔
      RewordedRun Binary64 (fun q op => Reworded op.1 op.2 ∧ TotalsAgree q) tr p ∧
        TotalsAgree p ∧ ∀ x ∈ tr, x.2.1 = x.2.2 := by
  have hshare : RewordedRun Binary64 Fractional tr p ↔ RewordedRun Binary64 SameShare tr p :=
    ⟨fun h => h.mono fun q op => (fractional_iff q op).mpr,
      fun h => h.mono fun q op => (fractional_iff q op).mp⟩
  rw [hshare]
  constructor
  · intro h
    obtain ⟨hrun, hagree⟩ := sameShare_run_iff.mp h
    exact ⟨hrun, hagree, (sameShare_run h).2⟩
  · rintro ⟨hrun, hagree, _⟩
    exact sameShare_run_iff.mpr ⟨hrun, hagree⟩

/-- The availability of a thousand samples. -/
def percentEvidence (value : ObjectiveValue Binary64) : EvidenceRecord Binary64 :=
  { id := ⟨1⟩, objectiveId := ⟨1⟩, dimension := .availability, sampleCount := 1000, value := value }

/-- The setup of an availability objective, twice, and the record in both units. -/
def percentReported : List (Op Binary64 × Op Binary64) :=
  let contract := smallContract 1 1 1
    [{ smallObjective 1 1 with dim := .availability, kind := .availabilityTime,
                               target := .basisPoints 9900 }]
  [(.setPolicy smallPolicy, .setPolicy smallPolicy), (.addContract contract, .addContract contract),
    (.ingest (percentEvidence (.percentage (Double.ofRat 99))) 0,
      .ingest (percentEvidence (.basisPoints 9900)) 0)]

theorem percentReported_reworded : ∀ op ∈ percentReported, Reworded op.1 op.2 := by
  intro op hop
  simp only [percentReported, List.mem_cons, List.not_mem_nil, or_false] at hop
  rcases hop with rfl | rfl | rfl
  · exact .same _
  · exact .same _
  · refine .ingest 0 (Or.inl ⟨rfl, rfl, _, _, ⟨?_, ?_, ?_⟩, rfl, rfl⟩)
    · decide +kernel
    · decide
    · decide

/-- **99 % counts for 9 of a thousand, 9900 basis points for 990.** -/
theorem reporting_unit_fails :
    ¬∀ (p : State Binary64 × State Binary64)
      (tr : List ((Op Binary64 × Op Binary64) × (Response Binary64 × Response Binary64))),
      RewordedRun Binary64 (fun _ op => Reworded op.1 op.2) tr p →
      TotalsAgree p ∧ ∀ x ∈ tr, x.2.1 = x.2.2 := by
  intro hall
  have htest : (execute (both apply) (fun _ _ => true)
      (State.fresh Binary64, State.fresh Binary64) percentReported).any (fun x =>
        (x.1.1.accumulators.find ⟨1⟩).map (·.avail.servingTime) = some 9 &&
          (x.1.2.accumulators.find ⟨1⟩).map (·.avail.servingTime) = some 990) = true := by
    decide +kernel
  obtain ⟨x, hx, htest⟩ := (Option.any_eq_true _ _).mp htest
  obtain ⟨hone, htwo⟩ := Bool.and_eq_true_iff.mp htest
  have hrun : Run (both apply) (fun _ _ => True) _ x.2 x.1 :=
    Run.of_execute (fun _ _ _ => trivial) hx
  have hops := execute_ops hx
  have hreworded := hrun.restrict (P := fun op => Reworded op.1 op.2) fun y hy =>
    percentReported_reworded y.1 (hops ▸ List.mem_map_of_mem hy)
  obtain ⟨hagree, _⟩ := hall x.1 x.2 (hreworded.mono fun _ _ h => h.2)
  have hserving := congrArg (Option.map (·.servingTime)) (hagree ⟨1⟩)
  rw [Option.map_map, Option.map_map] at hserving
  have := (of_decide_eq_true hone).symm.trans (hserving.trans (of_decide_eq_true htwo))
  cases this

end SloFabric
