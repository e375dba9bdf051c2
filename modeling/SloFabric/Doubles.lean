/-
  File:      SloFabric/Doubles.lean
  Subject:   The numbers of the records in doubles.

  * `ofInt64_finite`, `weight_finite`: an integer that is not negative, and the weight of a record;
    `ofInt64_mono`: the conversion keeps the order of such integers;
  * `share_finite`, `exactUnits_finite`: a share of at most 10000 parts, and the units of a record
    with such a value: not more than its weight;
  * `servingUnits_eq`: the serving units are these, cut to an integer.
-/
import SloFabric.Minimum
import SloFabric.Library.Rounding

namespace SloFabric

open Binary64

/-- An integer that is not negative, in doubles. -/
theorem ofInt64_finite {i : Int64} (h : 0 ≤ i.toInt) :
    (ofInt64 i : Binary64).Finite ∧ 0 ≤ (ofInt64 i : Binary64).value ∧
      (ofInt64 i : Binary64).value ≤ 2 ^ 63 := by
  have hpos : (0 : ℚ) ≤ i.toInt := by exact_mod_cast h
  have hmax : (i.toInt : ℚ) ≤ 2 ^ (63 : ℤ) := by exact_mod_cast (Int64.toInt_lt i).le
  obtain ⟨htop, htop'⟩ := ofRat_two_pow (i := 63) (by norm_num) (by norm_num)
  have hle := roundResult_le (z := false) hpos htop (hmax.trans htop'.ge)
  rw [← ofRat_eq, htop'] at hle
  exact ⟨hle.1, hle.2.1, by exact_mod_cast hle.2.2⟩

/-- The conversion keeps the order of two such integers. -/
theorem ofInt64_mono {i j : Int64} (hi : 0 ≤ i.toInt) (h : i.toInt ≤ j.toInt) :
    Double.le (ofInt64 i : Binary64) (ofInt64 j) = true := by
  have hpos : (0 : ℚ) ≤ i.toInt := by exact_mod_cast hi
  have hle : (i.toInt : ℚ) ≤ j.toInt := by exact_mod_cast h
  obtain ⟨hjfin, -, -⟩ := ofInt64_finite (hi.trans h)
  have hj : (ofInt64 j : Binary64) = roundResult false j.toInt := ofRat_eq _
  have hi : (ofInt64 i : Binary64) = roundResult false i.toInt := ofRat_eq _
  rw [hj] at hjfin ⊢
  obtain ⟨hifin, hvalue⟩ := roundResult_mono (z := false) hpos hle hjfin
  rw [hi]
  exact (le_iff hifin hjfin).mpr hvalue

/-- The weight of a record, in doubles. -/
theorem weight_finite (e : EvidenceRecord Binary64) :
    (ofInt64 (evidenceWeight e) : Binary64).Finite ∧
      1 ≤ (ofInt64 (evidenceWeight e) : Binary64).value ∧
      (ofInt64 (evidenceWeight e) : Binary64).value ≤ 2 ^ 63 := by
  have hweight := evidenceWeight_pos e
  have hpos : (1 : ℚ) ≤ (evidenceWeight e).toInt := by exact_mod_cast hweight
  obtain ⟨hfin, _, hle⟩ := ofInt64_finite (by omega : 0 ≤ (evidenceWeight e).toInt)
  obtain ⟨hone, hone'⟩ := ofRat_two_pow (i := 0) (by norm_num) (by norm_num)
  rw [zpow_zero] at hone hone'
  have heq : (ofInt64 (evidenceWeight e) : Binary64) =
      roundResult false (evidenceWeight e).toInt := ofRat_eq _
  refine ⟨hfin, ?_, hle⟩
  rw [heq] at hfin ⊢
  exact hone'.ge.trans (le_roundResult (by linarith) hfin hone (hone'.le.trans hpos))

/-- The share of a number of basis points, or of a hundredth of a percentage. -/
theorem share_finite {v : Binary64} (hv : v.Finite) (h0 : 0 ≤ v.value) (h1 : v.value ≤ 10000) :
    (∃ z, div v (ofRat 10000) = roundResult z (v.value / 10000)) ∧
      (div v (ofRat 10000)).Finite ∧ 0 ≤ (div v (ofRat 10000)).value ∧
      (div v (ofRat 10000)).value ≤ 1 := by
  obtain ⟨hten, hten'⟩ := ofRat_natCast (n := 10000) (by norm_num)
  rw [Nat.cast_ofNat] at hten hten'
  obtain ⟨hone, hone'⟩ := ofRat_two_pow (i := 0) (by norm_num) (by norm_num)
  have hdiv := div_finite hv hten (by rw [hten']; norm_num)
  rw [hten'] at hdiv
  have hq : v.value / 10000 ≤ (ofRat (2 ^ (0 : ℤ))).value := by
    rw [hone', zpow_zero, div_le_one₀ (by norm_num)]
    exact h1
  have hle := roundResult_le (z := v.negative != (ofRat 10000).negative)
    (div_nonneg h0 (by norm_num)) hone hq
  rw [← hdiv, hone', zpow_zero] at hle
  exact ⟨⟨_, hdiv⟩, hle⟩

/-- The units of a record of such a number. -/
theorem exactUnits_finite {e : EvidenceRecord Binary64} (hv : (numericOf e.value).Finite)
    (h0 : 0 ≤ (numericOf e.value).value) (h1 : (numericOf e.value).value ≤ 10000) :
    (∃ z, exactUnits e = roundResult z ((div (numericOf e.value) (ofRat 10000)).value *
      (ofInt64 (evidenceWeight e) : Binary64).value)) ∧
      (exactUnits e).Finite ∧ 0 ≤ (exactUnits e).value ∧
      (exactUnits e).value ≤ (ofInt64 (evidenceWeight e) : Binary64).value := by
  obtain ⟨_, hfin, hpos, hle⟩ := share_finite hv h0 h1
  obtain ⟨hw, hw1, _⟩ := weight_finite e
  have hmul := mul_finite hfin hw
  have hq : (div (numericOf e.value) (ofRat 10000)).value *
      (ofInt64 (evidenceWeight e) : Binary64).value ≤
        (ofInt64 (evidenceWeight e) : Binary64).value :=
    mul_le_of_le_one_left (by linarith) hle
  have hround := roundResult_le (z := (div (numericOf e.value) (ofRat 10000)).negative !=
    (ofInt64 (evidenceWeight e) : Binary64).negative) (mul_nonneg hpos (by linarith)) hw hq
  rw [← hmul] at hround
  exact ⟨⟨_, hmul⟩, hround⟩

/-- A number that is not negative can be cast where it is below `2 ^ 63`. -/
theorem castable_iff {x : Binary64} (hfin : x.Finite) (hpos : 0 ≤ x.value) :
    castable x = true ↔ x.value < 2 ^ 63 := by
  obtain ⟨htop, htop'⟩ := ofRat_two_pow (i := 63) (by norm_num) (by norm_num)
  have hzero : (ofRat 0).Finite ∧ (ofRat 0).value = 0 := by
    exact_mod_cast ofRat_natCast (n := 0) (by norm_num)
  have hlow : Double.le (ofRat (-2 ^ 63)) x = true :=
    le_of_le_of_le (y := ofRat 0) (by decide +kernel)
      ((le_iff hzero.1 hfin).mpr (hzero.2.trans_le hpos))
  have hhigh : Double.lt x (ofRat (2 ^ 63)) = true ↔ x.value < 2 ^ 63 := by
    have hlt := lt_iff hfin htop
    rw [htop'] at hlt
    exact_mod_cast hlt
  unfold castable
  rw [Bool.and_eq_true]
  exact ⟨fun h => hhigh.mp h.2, fun h => ⟨hlow, hhigh.mpr h⟩⟩

/-- The units, from their doubles. -/
theorem servingUnits_eq {e : EvidenceRecord Binary64} (hfin : (exactUnits e).Finite)
    (hpos : 0 ≤ (exactUnits e).value) (htop : (exactUnits e).value ≤ 2 ^ 63) :
    servingUnits e = Int64.ofInt ⌊(exactUnits e).value⌋ := by
  have hcast := castable_iff hfin hpos
  unfold servingUnits toInt64
  split
  · exact congrArg Int64.ofInt (trunc_finite hfin hpos)
  · rename_i h
    -- `2 ^ 63` itself is out of range, and wraps to what an x86-64 makes of it
    have heq : (exactUnits e).value = 2 ^ 63 :=
      le_antisymm htop (not_lt.mp fun hlt => h (hcast.mpr hlt))
    rw [heq]
    have hfloor : ⌊(2 : ℚ) ^ 63⌋ = 2 ^ 63 := by norm_num
    rw [hfloor]
    show Int64.minValue = Int64.ofInt (2 ^ 63)
    decide

end SloFabric
