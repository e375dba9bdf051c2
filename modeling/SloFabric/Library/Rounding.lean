/-
  File:      SloFabric/Library/Rounding.lean
  Subject:   What rounding to a binary64 number keeps of the order.

  * `ladder`: the magnitudes of the words `0, 1, 2, …`, a strictly rising sequence;
  * `roundDiv_near`, `binaryExponent_spec`: the two steps of rounding a quotient;
  * `roundWord_le`, `le_roundWord`: **a number on the ladder is not overtaken**: what was below it
    before rounding is not above it afterwards, and the other way round;
  * `halfway_le`, `le_halfway`: a number goes to the nearer of its neighbours on the ladder, and so
    `roundWord_mono`, `roundResult_mono`: **rounding is monotone**;
  * `roundResult_le`, `le_roundResult`: a non-negative result between two finite numbers stays
    between them;
  * `le_iff`, `lt_iff`: the order of two finite numbers is that of their values.
-/
import Mathlib.Algebra.Order.Archimedean.Basic
import Mathlib.Algebra.Order.Field.Power
import Mathlib.Data.Rat.Cast.Order
import Mathlib.Tactic.Linarith
import Mathlib.Tactic.Ring
import Mathlib.Tactic.FieldSimp
import Mathlib.Tactic.Positivity
import SloFabric.Library.Binary64

namespace Binary64

/-! ## 1. The ladder of magnitudes -/

/-- The magnitude of a finite word without its sign. -/
def ladder (w : Nat) : ℚ :=
  if w / 2 ^ 52 = 0 then w * (2 : ℚ) ^ (-1074 : ℤ)
  else (2 ^ 52 + w % 2 ^ 52 : ℕ) * (2 : ℚ) ^ ((w / 2 ^ 52 : ℕ) - 1075 : ℤ)

/-- A significand of 53 bits on the scale of an exponent, carried over if it is `2 ^ 53`. -/
theorem ladder_step {k m : Nat} (hm : m ≤ 2 ^ 53) (hk : k = 0 ∨ 2 ^ 52 ≤ m) :
    ladder (k * 2 ^ 52 + m) = m * (2 : ℚ) ^ ((k : ℤ) - 1074) := by
  rcases Nat.lt_or_ge m (2 ^ 52) with hlow | hhigh
  · have hzero : k = 0 := by omega
    subst hzero
    rw [ladder, if_pos (by omega)]
    norm_num
  · rcases Nat.lt_or_ge m (2 ^ 53) with hlt | hge
    · have hdiv : (k * 2 ^ 52 + m) / 2 ^ 52 = k + 1 := by omega
      have hmod : 2 ^ 52 + (k * 2 ^ 52 + m) % 2 ^ 52 = m := by omega
      rw [ladder, hdiv, if_neg (by omega), hmod]
      congr 2
      push_cast
      ring
    · have hcarry : m = 2 ^ 53 := by omega
      have hdiv : (k * 2 ^ 52 + m) / 2 ^ 52 = k + 2 := by omega
      have hmod : 2 ^ 52 + (k * 2 ^ 52 + m) % 2 ^ 52 = 2 ^ 52 := by omega
      rw [ladder, hdiv, if_neg (by omega), hmod, hcarry]
      have hexp : ((k + 2 : ℕ) : ℤ) - 1075 = (k - 1074) + 1 := by push_cast; ring
      rw [hexp, zpow_add_one₀ two_ne_zero]
      push_cast
      ring

/-- Every word is a significand on the scale of an exponent. -/
theorem word_split (w : Nat) :
    ∃ k m, w = k * 2 ^ 52 + m ∧ m < 2 ^ 53 ∧ (k = 0 ∨ 2 ^ 52 ≤ m) := by
  by_cases h : w / 2 ^ 52 = 0
  · exact ⟨0, w, by omega, by omega, Or.inl rfl⟩
  · exact ⟨w / 2 ^ 52 - 1, 2 ^ 52 + w % 2 ^ 52, by omega, by omega, Or.inr (by omega)⟩

theorem ladder_strictMono : StrictMono ladder := by
  refine strictMono_nat_of_lt_succ fun w => ?_
  obtain ⟨k, m, rfl, hm, hk⟩ := word_split w
  rw [add_assoc, ladder_step hm.le hk, ladder_step (Nat.succ_le_of_lt hm) (by omega)]
  gcongr
  exact_mod_cast Nat.lt_succ_self m

theorem ladder_nonneg (w : Nat) : 0 ≤ ladder w := by
  unfold ladder
  split <;> positivity

/-- The word without its sign. -/
def word (x : Binary64) : Nat := x.bits.toNat % 2 ^ 63

/-- Neither NaN nor an infinity. -/
def Finite (x : Binary64) : Prop := x.word < 2047 * 2 ^ 52

theorem exponent_eq (x : Binary64) : x.exponent = x.word / 2 ^ 52 := by
  unfold exponent word
  omega

theorem fraction_eq (x : Binary64) : x.fraction = x.word % 2 ^ 52 := by
  unfold fraction word
  omega

theorem finite_iff (x : Binary64) : x.Finite ↔ x.exponent ≠ 2047 := by
  rw [exponent_eq]
  have : x.word < 2 ^ 63 := Nat.mod_lt _ (by decide)
  unfold Finite
  omega

theorem magnitude_eq {x : Binary64} (hx : x.Finite) : x.magnitude = ladder x.word := by
  unfold magnitude ladder
  rw [exponent_eq, fraction_eq]
  unfold Finite at hx
  have hover (m n : Nat) : mkRat m (2 ^ n) = m * (2 : ℚ) ^ (-(n : ℤ)) := by
    rw [Rat.mkRat_eq_div, div_eq_mul_inv, zpow_neg, zpow_natCast, Nat.cast_pow, Int.cast_natCast]
    rfl
  split
  · rename_i hzero
    rw [hover, Nat.mod_eq_of_lt (by omega)]
    rfl
  · split
    · rename_i hsmall
      have hnum (f : Nat) : (2 ^ 52 + f : Int) = ((2 ^ 52 + f : ℕ) : Int) := by
        push_cast
        rfl
      have hexp : -((1075 - x.word / 2 ^ 52 : ℕ) : Int) = (x.word / 2 ^ 52 : ℕ) - 1075 := by
        omega
      rw [hnum, hover, hexp]
    · rename_i hlarge
      rw [Nat.cast_mul, Nat.cast_pow, ← zpow_natCast, Nat.cast_sub (by omega)]
      rfl

/-! ## 2. The steps of rounding -/

/-- The rounded quotient is nowhere farther than one half from the quotient. -/
theorem roundDiv_near (n : Nat) {d : Nat} (hd : 0 < d) :
    2 * n ≤ (2 * roundDiv n d + 1) * d ∧ 2 * roundDiv n d * d ≤ 2 * n + d := by
  have hmod := Nat.div_add_mod n d
  have hlt := Nat.mod_lt n hd
  rw [mul_comm] at hmod
  unfold roundDiv
  simp only
  split
  · rename_i hup
    constructor
    · calc 2 * n = 2 * (n / d * d) + 2 * (n % d) := by omega
        _ ≤ 2 * (n / d * d) + 3 * d := by omega
        _ = (2 * (n / d + 1) + 1) * d := by ring
    · calc 2 * (n / d + 1) * d = 2 * (n / d * d) + 2 * d := by ring
        _ ≤ 2 * n + d := by omega
  · rename_i hdown
    constructor
    · calc 2 * n = 2 * (n / d * d) + 2 * (n % d) := by omega
        _ ≤ 2 * (n / d * d) + d := by omega
        _ = (2 * (n / d) + 1) * d := by ring
    · calc 2 * (n / d) * d = 2 * (n / d * d) := by ring
        _ ≤ 2 * n + d := by omega

/-- A power of two with an integer exponent, on either side of a comparison. -/
theorem lt_shift_iff {n d : Nat} (hd : 0 < d) (e : Int) :
    (if 0 ≤ e then n < d * 2 ^ e.toNat else n * 2 ^ (-e).toNat < d) ↔
      (n : ℚ) / d < 2 ^ e := by
  have hdq : (0 : ℚ) < d := by exact_mod_cast hd
  rw [div_lt_iff₀ hdq]
  split
  · rename_i he
    rw [← Nat.cast_lt (α := ℚ), mul_comm]
    push_cast
    rw [← zpow_natCast, Int.toNat_of_nonneg he]
  · rename_i he
    have hpos : (0 : ℚ) < 2 ^ (-e) := by positivity
    rw [← Nat.cast_lt (α := ℚ)]
    push_cast
    rw [← zpow_natCast, Int.toNat_of_nonneg (by omega), ← lt_div_iff₀ hpos, zpow_neg,
      div_inv_eq_mul, mul_comm]

theorem binaryExponent_spec {n d : Nat} (hn : 0 < n) (hd : 0 < d) :
    (2 : ℚ) ^ binaryExponent n d ≤ n / d ∧ (n : ℚ) / d < 2 ^ (binaryExponent n d + 1) := by
  have hdq : (0 : ℚ) < d := by exact_mod_cast hd
  have hnlo : (2 : ℚ) ^ (Nat.log2 n : Int) ≤ n := by
    rw [zpow_natCast]
    exact_mod_cast Nat.log2_self_le hn.ne'
  have hnhi : (n : ℚ) < 2 ^ (Nat.log2 n + 1 : Int) := by
    rw [← Nat.cast_succ, zpow_natCast]
    exact_mod_cast Nat.lt_log2_self
  have hdlo : (2 : ℚ) ^ (Nat.log2 d : Int) ≤ d := by
    rw [zpow_natCast]
    exact_mod_cast Nat.log2_self_le hd.ne'
  have hdhi : (d : ℚ) < 2 ^ (Nat.log2 d + 1 : Int) := by
    rw [← Nat.cast_succ, zpow_natCast]
    exact_mod_cast Nat.lt_log2_self
  have hlow : (2 : ℚ) ^ ((Nat.log2 n : Int) - Nat.log2 d - 1) ≤ n / d := by
    rw [le_div_iff₀ hdq]
    calc (2 : ℚ) ^ ((Nat.log2 n : Int) - Nat.log2 d - 1) * d
        ≤ 2 ^ ((Nat.log2 n : Int) - Nat.log2 d - 1) * 2 ^ (Nat.log2 d + 1 : Int) := by gcongr
      _ = 2 ^ (Nat.log2 n : Int) := by
        rw [← zpow_add₀ two_ne_zero]
        congr 1
        ring
      _ ≤ n := hnlo
  have hhigh : (n : ℚ) / d < 2 ^ ((Nat.log2 n : Int) - Nat.log2 d + 1) := by
    rw [div_lt_iff₀ hdq]
    calc (n : ℚ) < 2 ^ (Nat.log2 n + 1 : Int) := hnhi
      _ = 2 ^ ((Nat.log2 n : Int) - Nat.log2 d + 1) * 2 ^ (Nat.log2 d : Int) := by
        rw [← zpow_add₀ two_ne_zero]
        congr 1
        ring
      _ ≤ 2 ^ ((Nat.log2 n : Int) - Nat.log2 d + 1) * d := by gcongr
  unfold binaryExponent
  simp only [lt_shift_iff hd]
  split
  · rename_i hbelow
    exact ⟨hlow, by rwa [sub_add_cancel]⟩
  · rename_i hbelow
    exact ⟨not_lt.mp hbelow, hhigh⟩

/-! ## 3. A number on the ladder is not overtaken -/

/-- The exponent of the result, at least that of the smallest normal numbers. -/
def scaleOf (q : ℚ) : Int := max (binaryExponent q.num.natAbs q.den) (-1022)

/-- The significand of the result. -/
def significandOf (q : ℚ) : Nat :=
  if 0 ≤ scaleOf q - 52 then roundDiv q.num.natAbs (q.den * 2 ^ (scaleOf q - 52).toNat)
  else roundDiv (q.num.natAbs * 2 ^ (-(scaleOf q - 52)).toNat) q.den

/-- The word of the result, were there no largest exponent. -/
def roundWord (q : ℚ) : Nat := (scaleOf q + 1022).toNat * 2 ^ 52 + significandOf q

theorem round_eq (neg : Bool) {q : ℚ} (hq : q ≠ 0) :
    round neg q = if 2047 * 2 ^ 52 ≤ roundWord q then inf neg else ofWord neg (roundWord q) := by
  rw [round, if_neg hq]
  rfl

theorem num_div_den {q : ℚ} (hq : 0 < q) : (q.num.natAbs : ℚ) / q.den = q := by
  have hnum : (q.num.natAbs : ℚ) = (q.num : ℚ) := by
    rw [Nat.cast_natAbs, abs_of_pos (Rat.num_pos.mpr hq)]
  rw [hnum, Rat.num_div_den]

theorem scaleOf_spec {q : ℚ} (hq : 0 < q) :
    -1022 ≤ scaleOf q ∧ q < 2 ^ (scaleOf q + 1) ∧
      (scaleOf q = -1022 ∨ (2 : ℚ) ^ scaleOf q ≤ q) := by
  have hn : 0 < q.num.natAbs := Int.natAbs_pos.mpr (Rat.num_ne_zero.mpr hq.ne')
  obtain ⟨hlow, hhigh⟩ := binaryExponent_spec hn q.den_pos
  rw [num_div_den hq] at hlow hhigh
  unfold scaleOf
  refine ⟨le_max_right _ _, hhigh.trans_le ?_, ?_⟩
  · exact zpow_le_zpow_right₀ one_le_two (by omega)
  · rcases le_total (binaryExponent q.num.natAbs q.den) (-1022) with h | h
    · exact Or.inl (max_eq_right h)
    · rw [max_eq_left h]
      exact Or.inr hlow

/-- The significand is nowhere farther than one half from the scaled number. -/
theorem significandOf_spec {q : ℚ} (hq : 0 < q) :
    2 * q ≤ (2 * significandOf q + 1) * 2 ^ (scaleOf q - 52) ∧
      2 * significandOf q * 2 ^ (scaleOf q - 52) ≤ 2 * q + 2 ^ (scaleOf q - 52) := by
  have hdq : (0 : ℚ) < q.den := by exact_mod_cast q.den_pos
  have hq' : (q.num.natAbs : ℚ) = q * q.den := (div_eq_iff hdq.ne').mp (num_div_den hq)
  -- Both cases divide `n` by `d`, where `n / d` is the scaled number.
  have key (n d : Nat) (hd : 0 < d) (h : (n : ℚ) = q / 2 ^ (scaleOf q - 52) * d) :
      2 * q ≤ (2 * roundDiv n d + 1) * 2 ^ (scaleOf q - 52) ∧
        2 * roundDiv n d * 2 ^ (scaleOf q - 52) ≤ 2 * q + 2 ^ (scaleOf q - 52) := by
    have hunit : (0 : ℚ) < 2 ^ (scaleOf q - 52) := by positivity
    have hdpos : (0 : ℚ) < d := by exact_mod_cast hd
    obtain ⟨hup, hdown⟩ := roundDiv_near n hd
    have hup' : 2 * (n : ℚ) ≤ (2 * roundDiv n d + 1) * d := by exact_mod_cast hup
    have hdown' : 2 * (roundDiv n d : ℚ) * d ≤ 2 * n + d := by exact_mod_cast hdown
    rw [h, ← mul_assoc] at hup' hdown'
    constructor
    · rw [← div_le_iff₀ hunit, mul_div_assoc]
      exact le_of_mul_le_mul_right hup' hdpos
    · have hone : 2 * (roundDiv n d : ℚ) ≤ 2 * (q / 2 ^ (scaleOf q - 52)) + 1 := by
        refine le_of_mul_le_mul_right ?_ hdpos
        rwa [add_mul, one_mul]
      calc 2 * (roundDiv n d : ℚ) * 2 ^ (scaleOf q - 52)
          ≤ (2 * (q / 2 ^ (scaleOf q - 52)) + 1) * 2 ^ (scaleOf q - 52) := by gcongr
        _ = 2 * q + 2 ^ (scaleOf q - 52) := by
          rw [add_mul, one_mul, mul_assoc, div_mul_cancel₀ _ hunit.ne']
  unfold significandOf
  split
  · rename_i hnonneg
    refine key _ _ (Nat.mul_pos q.den_pos (Nat.two_pow_pos _)) ?_
    have hpow : ((2 ^ (scaleOf q - 52).toNat : ℕ) : ℚ) = 2 ^ (scaleOf q - 52) := by
      rw [Nat.cast_pow, ← zpow_natCast, Int.toNat_of_nonneg hnonneg]
      rfl
    rw [hq', Nat.cast_mul, hpow]
    field_simp
  · rename_i hneg
    refine key _ _ q.den_pos ?_
    have hpow : ((2 ^ (-(scaleOf q - 52)).toNat : ℕ) : ℚ) = (2 ^ (scaleOf q - 52))⁻¹ := by
      rw [Nat.cast_pow, ← zpow_natCast, Int.toNat_of_nonneg (by omega), zpow_neg]
      rfl
    rw [Nat.cast_mul, hq', hpow]
    ring

/-- The word of the result is a significand next to the scaled number, on its scale. -/
theorem roundWord_spec {q : ℚ} (hq : 0 < q) :
    ∃ (k m : Nat) (u : ℚ), u = 2 ^ ((k : ℤ) - 1074) ∧ roundWord q = k * 2 ^ 52 + m ∧
      m ≤ 2 ^ 53 ∧ (k = 0 ∨ 2 ^ 52 ≤ m ∧ 2 ^ 52 * u ≤ q) ∧ 0 < u ∧ q < 2 ^ 53 * u ∧
      2 * q ≤ (2 * m + 1) * u ∧ 2 * m * u ≤ 2 * q + u := by
  obtain ⟨hlow, htop, hbottom⟩ := scaleOf_spec hq
  obtain ⟨hup, hdown⟩ := significandOf_spec hq
  have hk : (((scaleOf q + 1022).toNat : ℕ) : ℤ) = scaleOf q + 1022 :=
    Int.toNat_of_nonneg (by omega)
  have hscale : (((scaleOf q + 1022).toNat : ℕ) : ℤ) - 1074 = scaleOf q - 52 := by omega
  have hunit : (0 : ℚ) < 2 ^ (scaleOf q - 52) := by positivity
  have hcarry : (2 : ℚ) ^ (scaleOf q + 1) = 2 ^ 53 * 2 ^ (scaleOf q - 52) := by
    rw [← zpow_natCast, ← zpow_add₀ two_ne_zero]
    congr 1
    push_cast
    ring
  have hhidden : (2 : ℚ) ^ scaleOf q = 2 ^ 52 * 2 ^ (scaleOf q - 52) := by
    rw [← zpow_natCast, ← zpow_add₀ two_ne_zero]
    congr 1
    push_cast
    ring
  rw [hcarry] at htop
  refine ⟨_, significandOf q, _, rfl, rfl, ?_, ?_, ?_, ?_, ?_, ?_⟩
  · have hlt : (significandOf q : ℚ) < 2 ^ 53 + 1 := by
      refine lt_of_mul_lt_mul_right ?_ hunit.le
      linarith
    have : significandOf q < 2 ^ 53 + 1 := by exact_mod_cast hlt
    omega
  · rcases hbottom with h | h
    · exact Or.inl (by rw [h]; rfl)
    · rw [hhidden] at h
      have hlt : (2 ^ 52 : ℚ) < significandOf q + 1 := by
        refine lt_of_mul_lt_mul_right ?_ hunit.le
        linarith
      have : 2 ^ 52 < significandOf q + 1 := by exact_mod_cast hlt
      exact Or.inr ⟨by omega, by rwa [hscale]⟩
  all_goals rwa [hscale]

/-- **What was not above a number on the ladder is not above it afterwards.** -/
theorem roundWord_le {q : ℚ} (hq : 0 < q) {w : Nat} (h : q ≤ ladder w) : roundWord q ≤ w := by
  obtain ⟨k, m, u, hu, hword, hm, hk, hunit, -, -, hdown⟩ := roundWord_spec hq
  rw [hword]
  by_contra hw
  rw [not_le] at hw
  by_cases hbottom : k ≠ 0 ∧ m = 2 ^ 52
  · -- Below the first significand of a scale the ladder is finer, but `q` is not below it.
    obtain ⟨hkpos, rfl⟩ := hbottom
    have hlt := ladder_strictMono hw
    rw [ladder_step hm (by omega), ← hu] at hlt
    have hq' : 2 ^ 52 * u ≤ q := (hk.resolve_left hkpos).2
    push_cast at hlt
    linarith
  · obtain ⟨n, rfl⟩ : ∃ n, m = n + 1 := ⟨m - 1, by omega⟩
    have hle : ladder w ≤ ladder (k * 2 ^ 52 + n) := ladder_strictMono.monotone (by omega)
    rw [ladder_step (by omega) (by omega), ← hu] at hle
    push_cast at hdown
    linarith

/-- **What was not below a number on the ladder is not below it afterwards.** -/
theorem le_roundWord {q : ℚ} (hq : 0 < q) {w : Nat} (h : ladder w ≤ q) : w ≤ roundWord q := by
  obtain ⟨k, m, u, hu, hword, hm, hk, hunit, htop, hup, -⟩ := roundWord_spec hq
  have hk' : k = 0 ∨ 2 ^ 52 ≤ m := hk.imp_right And.left
  rw [hword]
  by_contra hw
  rw [not_le] at hw
  rcases hm.eq_or_lt with rfl | hlt
  · have hlt := ladder_strictMono hw
    rw [ladder_step le_rfl hk', ← hu] at hlt
    push_cast at hlt
    linarith
  · have hle : ladder (k * 2 ^ 52 + (m + 1)) ≤ ladder w := ladder_strictMono.monotone (by omega)
    rw [ladder_step (by omega) (by omega), ← hu] at hle
    push_cast at hle
    linarith

/-- **Rounding up starts half way** between two neighbours on the ladder, ... -/
theorem halfway_le {q : ℚ} (hq : 0 < q) {w : Nat} (h : roundWord q = w + 1) :
    ladder w + ladder (w + 1) ≤ 2 * q := by
  obtain ⟨k, m, u, hu, hword, hm, hk, hunit, -, -, hdown⟩ := roundWord_spec hq
  have hk' : k = 0 ∨ 2 ^ 52 ≤ m := hk.imp_right And.left
  have hup : ladder (w + 1) = m * u := by rw [← h, hword, ladder_step hm hk', ← hu]
  by_cases hbottom : k ≠ 0 ∧ m = 2 ^ 52
  · obtain ⟨hkpos, rfl⟩ := hbottom
    have hlow : ladder w < ladder (w + 1) := ladder_strictMono (Nat.lt_succ_self w)
    have hq' : 2 ^ 52 * u ≤ q := (hk.resolve_left hkpos).2
    push_cast at hup
    linarith
  · obtain ⟨n, rfl⟩ : ∃ n, m = n + 1 := ⟨m - 1, by omega⟩
    have hw : w = k * 2 ^ 52 + n := by omega
    have hlow : ladder w = n * u := by rw [hw, ladder_step (by omega) (by omega), ← hu]
    push_cast at hup hdown
    linarith

/-- ... and rounding down ends there. -/
theorem le_halfway {q : ℚ} (hq : 0 < q) :
    2 * q ≤ ladder (roundWord q) + ladder (roundWord q + 1) := by
  obtain ⟨k, m, u, hu, hword, hm, hk, hunit, htop, hup, -⟩ := roundWord_spec hq
  have hk' : k = 0 ∨ 2 ^ 52 ≤ m := hk.imp_right And.left
  have hdown : ladder (roundWord q) = m * u := by rw [hword, ladder_step hm hk', ← hu]
  rcases hm.eq_or_lt with rfl | hlt
  · have hnext : ladder (roundWord q) < ladder (roundWord q + 1) :=
      ladder_strictMono (Nat.lt_succ_self _)
    push_cast at hdown
    linarith
  · have hnext : ladder (roundWord q + 1) = (m + 1) * u := by
      rw [hword, add_assoc, ladder_step (by omega) (by omega), ← hu]
      push_cast
      rfl
    linarith

/-- **Rounding is monotone.** -/
theorem roundWord_mono {q r : ℚ} (hq : 0 < q) (h : q ≤ r) : roundWord q ≤ roundWord r := by
  by_contra hlt
  rw [not_le] at hlt
  -- The smaller number went up from `w`, at or above the place of the larger one.
  obtain ⟨w, hw⟩ : ∃ w, roundWord q = w + 1 := ⟨roundWord q - 1, by omega⟩
  have hle : roundWord r ≤ w := by omega
  have hfirst : ladder (roundWord r) ≤ ladder w := ladder_strictMono.monotone hle
  have hsecond : ladder (roundWord r + 1) ≤ ladder (w + 1) :=
    ladder_strictMono.monotone (by omega)
  have hup := halfway_le hq hw
  have hdown := le_halfway (hq.trans_le h)
  have heq : q = r := by linarith
  rw [heq] at hlt
  exact lt_irrefl _ hlt

/-! ## 4. Finite numbers -/

@[simp] theorem ladder_zero : ladder 0 = 0 := by
  unfold ladder
  norm_num

/-- A power of two is on the ladder. -/
theorem ladder_two_pow {i : Int} (hlow : -1022 ≤ i) :
    ladder ((i + 1023).toNat * 2 ^ 52) = 2 ^ i := by
  have hk : (((i + 1022).toNat : ℕ) : ℤ) = i + 1022 := Int.toNat_of_nonneg (by omega)
  have hword : (i + 1023).toNat * 2 ^ 52 = (i + 1022).toNat * 2 ^ 52 + 2 ^ 52 := by omega
  rw [hword, ladder_step (by norm_num) (Or.inr le_rfl), hk, Nat.cast_pow, ← zpow_natCast]
  rw [Nat.cast_ofNat, ← zpow_add₀ two_ne_zero]
  congr 1
  push_cast
  ring

/-- The value of a finite number, from its sign and its word. -/
theorem value_eq {x : Binary64} (hx : x.Finite) :
    x.value = if x.negative then -ladder x.word else ladder x.word := by
  rw [value, magnitude_eq hx]

theorem value_of_nonneg {x : Binary64} (hx : x.Finite) (h : 0 ≤ x.value) :
    x.value = ladder x.word := by
  rw [value_eq hx] at h ⊢
  have := ladder_nonneg x.word
  split at h
  · rw [if_pos (by assumption)]
    linarith
  · rw [if_neg (by assumption)]

theorem value_le_ladder {x : Binary64} (hx : x.Finite) : x.value ≤ ladder x.word := by
  rw [value_eq hx]
  have := ladder_nonneg x.word
  split
  · linarith
  · exact le_rfl

section Words

variable {neg : Bool} {w : Nat}

theorem bits_ofWord (hw : w < 2 ^ 63) :
    (ofWord neg w).bits.toNat = (if neg then 2 ^ 63 else 0) + w := by
  unfold ofWord
  rw [UInt64.toNat_ofNat_of_lt']
  split <;> simp only [UInt64.size] <;> omega

theorem word_ofWord (hw : w < 2 ^ 63) : (ofWord neg w).word = w := by
  unfold word
  rw [bits_ofWord hw]
  split <;> omega

theorem negative_ofWord (hw : w < 2 ^ 63) : (ofWord neg w).negative = neg := by
  unfold negative
  rw [bits_ofWord hw]
  cases neg with
  | false => simpa using hw
  | true => simp

theorem finite_ofWord (hw : w < 2047 * 2 ^ 52) : (ofWord neg w).Finite := by
  rw [Finite, word_ofWord (by omega)]
  exact hw

theorem value_ofWord (hw : w < 2047 * 2 ^ 52) : (ofWord false w).value = ladder w := by
  rw [value_eq (finite_ofWord hw), negative_ofWord (by omega), word_ofWord (by omega)]
  rfl

theorem value_ofWord_zero : (ofWord neg 0).value = 0 := by
  rw [value_eq (finite_ofWord (by norm_num)), word_ofWord (by norm_num), ladder_zero]
  split <;> norm_num

theorem not_finite_inf : ¬(inf neg).Finite := by
  rw [Finite, inf, word_ofWord (by norm_num)]
  exact lt_irrefl _

end Words

/-- A positive result, from its word. -/
theorem roundResult_pos {z : Bool} {q : ℚ} (hq : 0 < q) :
    roundResult z q =
      if 2047 * 2 ^ 52 ≤ roundWord q then inf false else ofWord false (roundWord q) := by
  rw [roundResult, if_neg hq.ne', ofRat, abs_of_pos hq, decide_eq_false (not_lt.mpr hq.le),
    round_eq _ hq.ne']

/-- A positive result is finite if its word is one of a finite number. -/
theorem finite_roundResult {z : Bool} {q : ℚ} (hq : 0 < q) :
    (roundResult z q).Finite ↔ roundWord q < 2047 * 2 ^ 52 := by
  rw [roundResult_pos hq]
  split
  · exact iff_of_false not_finite_inf (by omega)
  · exact iff_of_true (finite_ofWord (by omega)) (by omega)

theorem value_roundResult {z : Bool} {q : ℚ} (hq : 0 < q) (h : roundWord q < 2047 * 2 ^ 52) :
    (roundResult z q).value = ladder (roundWord q) := by
  rw [roundResult_pos hq, if_neg (by omega), value_ofWord h]

/-- **A non-negative result stays below a finite number it was below.** -/
theorem roundResult_le {z : Bool} {q : ℚ} (hq : 0 ≤ q) {y : Binary64} (hy : y.Finite)
    (h : q ≤ y.value) :
    (roundResult z q).Finite ∧ 0 ≤ (roundResult z q).value ∧ (roundResult z q).value ≤ y.value := by
  rcases hq.eq_or_lt with rfl | hpos
  · rw [roundResult, if_pos rfl, value_ofWord_zero]
    exact ⟨finite_ofWord (by norm_num), le_rfl, h⟩
  · have hle : roundWord q ≤ y.word := roundWord_le hpos (h.trans (value_le_ladder hy))
    have hsmall : roundWord q < 2047 * 2 ^ 52 := hle.trans_lt hy
    rw [finite_roundResult hpos, value_roundResult hpos hsmall, value_of_nonneg hy (hq.trans h)]
    exact ⟨hsmall, ladder_nonneg _, ladder_strictMono.monotone hle⟩

/-- **A non-negative result stays above a finite number it was above.** -/
theorem le_roundResult {z : Bool} {q : ℚ} (hq : 0 ≤ q) (hfin : (roundResult z q).Finite)
    {y : Binary64} (hy : y.Finite) (h : y.value ≤ q) : y.value ≤ (roundResult z q).value := by
  rcases hq.eq_or_lt with rfl | hpos
  · rw [roundResult, if_pos rfl, value_ofWord_zero]
    exact h
  · rw [value_roundResult hpos ((finite_roundResult hpos).mp hfin)]
    rcases le_total 0 y.value with hsign | hsign
    · rw [value_of_nonneg hy hsign] at h ⊢
      exact ladder_strictMono.monotone (le_roundWord hpos h)
    · exact hsign.trans (ladder_nonneg _)

/-- **Rounding keeps the order** of two non-negative numbers. -/
theorem roundResult_mono {z z' : Bool} {q r : ℚ} (hq : 0 ≤ q) (h : q ≤ r)
    (hfin : (roundResult z' r).Finite) :
    (roundResult z q).Finite ∧ (roundResult z q).value ≤ (roundResult z' r).value := by
  rcases hq.eq_or_lt with rfl | hpos
  · have hzero : (roundResult z 0).value = 0 := by rw [roundResult, if_pos rfl, value_ofWord_zero]
    have hfinite : (roundResult z 0).Finite := by
      rw [roundResult, if_pos rfl]
      exact finite_ofWord (by norm_num)
    exact ⟨hfinite, le_roundResult h hfin hfinite (hzero.trans_le h)⟩
  · have hrpos : 0 < r := hpos.trans_le h
    have hword : roundWord r < 2047 * 2 ^ 52 := (finite_roundResult hrpos).mp hfin
    have hle : roundWord q ≤ roundWord r := roundWord_mono hpos h
    rw [finite_roundResult hpos, value_roundResult hpos (by omega), value_roundResult hrpos hword]
    exact ⟨by omega, ladder_strictMono.monotone hle⟩

/-- A number on the ladder is not rounded. -/
theorem roundResult_ladder {z : Bool} {w : Nat} (hw : w < 2047 * 2 ^ 52) :
    (roundResult z (ladder w)).Finite ∧ (roundResult z (ladder w)).value = ladder w := by
  have hfin : (ofWord false w).Finite := finite_ofWord hw
  have hvalue := value_ofWord hw
  have hle := roundResult_le (z := z) (ladder_nonneg w) hfin hvalue.ge
  have hge := le_roundResult (z := z) (ladder_nonneg w) hle.1 hfin hvalue.le
  exact ⟨hle.1, le_antisymm (hle.2.2.trans hvalue.le) (hvalue.ge.trans hge)⟩

theorem ofRat_eq (q : ℚ) : ofRat q = roundResult false q := by
  unfold roundResult
  split
  · rename_i hzero
    rw [hzero, ofRat, round, if_pos abs_zero]
    rfl
  · rfl

/-- A power of two is a finite number. -/
theorem ofRat_two_pow {i : Int} (hlow : -1022 ≤ i) (hhigh : i ≤ 1023) :
    (ofRat (2 ^ i)).Finite ∧ (ofRat (2 ^ i)).value = 2 ^ i := by
  rw [ofRat_eq, ← ladder_two_pow hlow]
  exact roundResult_ladder (by omega)

/-- So is an integer of 53 bits. -/
theorem exists_ladder_natCast {n : Nat} (hn : n ≤ 2 ^ 53) :
    ∃ w, w < 2047 * 2 ^ 52 ∧ ladder w = n := by
  rcases Nat.eq_zero_or_pos n with rfl | hpos
  · exact ⟨0, by norm_num, by rw [ladder_zero, Nat.cast_zero]⟩
  · rcases hn.eq_or_lt with rfl | hlt
    · refine ⟨1074 * 2 ^ 52 + 2 ^ 53, by norm_num, ?_⟩
      rw [ladder_step le_rfl (Or.inr (by norm_num))]
      norm_num
    · -- Shift the integer until its highest bit is bit 52.
      have hlog : Nat.log2 n < 53 := (Nat.log2_lt hpos.ne').mpr hlt
      have hlow : 2 ^ Nat.log2 n ≤ n := Nat.log2_self_le hpos.ne'
      have hhigh : n < 2 ^ (Nat.log2 n + 1) := Nat.lt_log2_self
      have hpow (i : Nat) (hi : i = 52 - Nat.log2 n) (j : Nat) : 2 ^ (j + i) = 2 ^ j * 2 ^ i :=
        pow_add 2 j i
      generalize hj : 52 - Nat.log2 n = j at hpow
      have hmlow : 2 ^ 52 ≤ n * 2 ^ j := by
        calc 2 ^ 52 = 2 ^ (Nat.log2 n + j) := by congr 1; omega
          _ = 2 ^ Nat.log2 n * 2 ^ j := hpow j rfl _
          _ ≤ n * 2 ^ j := by gcongr
      have hmhigh : n * 2 ^ j < 2 ^ 53 := by
        calc n * 2 ^ j < 2 ^ (Nat.log2 n + 1) * 2 ^ j := by gcongr
          _ = 2 ^ (Nat.log2 n + 1 + j) := (hpow j rfl _).symm
          _ = 2 ^ 53 := by congr 1; omega
      refine ⟨(1074 - j) * 2 ^ 52 + n * 2 ^ j, by omega, ?_⟩
      rw [ladder_step hmhigh.le (Or.inr hmlow)]
      have hexp : ((1074 - j : ℕ) : ℤ) - 1074 = -(j : ℤ) := by omega
      rw [hexp, zpow_neg, zpow_natCast, Nat.cast_mul, Nat.cast_pow, Nat.cast_ofNat]
      field_simp

theorem ofRat_natCast {n : Nat} (hn : n ≤ 2 ^ 53) :
    (ofRat n).Finite ∧ (ofRat n).value = n := by
  obtain ⟨w, hw, hn⟩ := exists_ladder_natCast hn
  rw [ofRat_eq, ← hn]
  exact roundResult_ladder hw

theorem ofRat_integer {i : Int} (h : 0 ≤ i) (hi : i ≤ 2 ^ 53) :
    (ofRat i).Finite ∧ (ofRat i).value = i := by
  obtain ⟨n, rfl⟩ := Int.eq_ofNat_of_zero_le h
  rw [Int.cast_natCast]
  exact ofRat_natCast (by exact_mod_cast hi)

/-- Two numbers a factor `2 ^ (j + 1)` apart have a power of two between them with room for a
    factor `2 ^ j`: rounding does not bring them closer than that. -/
theorem exists_between {q r : ℚ} {j : Nat} (hq : 2 ^ (-200 : ℤ) ≤ q) (h : 2 ^ (j + 1) * q ≤ r)
    (hr : r < 2 ^ (200 : ℤ)) :
    ∃ i : Int, -1022 ≤ i ∧ i + j ≤ 1023 ∧ q ≤ 2 ^ i ∧ (2 : ℚ) ^ (i + j) ≤ r := by
  have hpos : 0 < q := lt_of_lt_of_le (by positivity) hq
  obtain ⟨i, hlow, hhigh⟩ := exists_mem_Ico_zpow hpos one_lt_two
  have hr' : (2 : ℚ) ^ (i + 1 + j) ≤ r := by
    calc (2 : ℚ) ^ (i + 1 + j) = 2 ^ (j + 1) * 2 ^ i := by
          rw [← zpow_natCast, ← zpow_add₀ two_ne_zero]
          congr 1
          push_cast
          ring
      _ ≤ 2 ^ (j + 1) * q := by gcongr
      _ ≤ r := h
  have hmin : (-200 : ℤ) < i + 1 :=
    (zpow_lt_zpow_iff_right₀ one_lt_two).mp (hq.trans_lt hhigh)
  have hmax : i + 1 + j < (200 : ℤ) :=
    (zpow_lt_zpow_iff_right₀ one_lt_two).mp (hr'.trans_lt hr)
  exact ⟨i + 1, by omega, by omega, hhigh.le, hr'⟩

/-- **Rounding keeps numbers apart**, up to a factor of two. -/
theorem roundResult_apart {z z' : Bool} {q r : ℚ} {j : Nat} (hq : 2 ^ (-200 : ℤ) ≤ q)
    (h : 2 ^ (j + 1) * q ≤ r) (hr : r < 2 ^ (200 : ℤ)) :
    2 ^ j * (roundResult z q).value ≤ (roundResult z' r).value := by
  have hpos : 0 < q := lt_of_lt_of_le (by positivity) hq
  have hrpos : 0 ≤ r := le_trans (by positivity) h
  obtain ⟨i, hlow, hhigh, hqi, hir⟩ := exists_between hq h hr
  obtain ⟨hifin, hival⟩ := ofRat_two_pow hlow (by omega)
  obtain ⟨hjfin, hjval⟩ := ofRat_two_pow (i := i + j) (by omega) hhigh
  obtain ⟨htfin, htval⟩ := ofRat_two_pow (i := 200) (by norm_num) (by norm_num)
  have hle := (roundResult_le (z := z) hpos.le hifin (hqi.trans hival.ge)).2.2
  have hfin := (roundResult_le (z := z') hrpos htfin (hr.le.trans htval.ge)).1
  have hge := le_roundResult hrpos hfin hjfin (hjval.le.trans hir)
  rw [hival] at hle
  rw [hjval] at hge
  calc 2 ^ j * (roundResult z q).value ≤ 2 ^ j * 2 ^ i := by gcongr
    _ = 2 ^ (i + j) := by
      rw [← zpow_natCast, ← zpow_add₀ two_ne_zero]
      congr 1
      ring
    _ ≤ (roundResult z' r).value := hge

/-! ## 5. The operations on finite numbers -/

section Operations

variable {x y : Binary64}

theorem Finite.exponent_ne (hx : x.Finite) : x.exponent ≠ 2047 := (finite_iff x).mp hx

@[simp] theorem Finite.isNaN (hx : x.Finite) : x.isNaN = false := by
  simp [Binary64.isNaN, hx.exponent_ne]

@[simp] theorem Finite.isInf (hx : x.Finite) : x.isInf = false := by
  simp [Binary64.isInf, hx.exponent_ne]

theorem add_finite (hx : x.Finite) (hy : y.Finite) :
    add x y = roundResult (x.negative && y.negative) (x.value + y.value) := by
  simp [add, hx, hy]

theorem mul_finite (hx : x.Finite) (hy : y.Finite) :
    mul x y = roundResult (x.negative != y.negative) (x.value * y.value) := by
  simp [mul, hx, hy]

theorem div_finite (hx : x.Finite) (hy : y.Finite) (hne : y.value ≠ 0) :
    div x y = roundResult (x.negative != y.negative) (x.value / y.value) := by
  simp [div, hx, hy, hne]

theorem trunc_finite (hx : x.Finite) (h : 0 ≤ x.value) : x.trunc = ⌊x.value⌋ := by
  unfold trunc
  rw [if_neg hx.exponent_ne]
  split
  · rename_i hneg
    rw [value, if_pos hneg] at h ⊢
    have hzero : x.magnitude = 0 := by
      rw [magnitude_eq hx] at h ⊢
      have := ladder_nonneg x.word
      linarith
    rw [hzero]
    norm_num
  · rename_i hpos
    rw [value, if_neg hpos]

/-- The order of two finite numbers is that of their words with the signs, ... -/
theorem ordinal_eq (x : Binary64) :
    x.ordinal = if x.negative then -(x.word : Int) else x.word := by
  have hbits := x.bits.toNat_lt
  unfold ordinal word
  split
  · rename_i hneg
    have : 2 ^ 63 ≤ x.bits.toNat := of_decide_eq_true hneg
    omega
  · rename_i hpos
    have : ¬2 ^ 63 ≤ x.bits.toNat := fun h => hpos (decide_eq_true h)
    omega

/-- ... and so that of their values. -/
theorem ordinal_le_iff (hx : x.Finite) (hy : y.Finite) :
    x.ordinal ≤ y.ordinal ↔ x.value ≤ y.value := by
  have hmono : ∀ {a b : Nat}, ladder a ≤ ladder b ↔ a ≤ b := ladder_strictMono.le_iff_le
  have hxn := ladder_nonneg x.word
  have hyn := ladder_nonneg y.word
  have hzero : ∀ a : Nat, ladder a ≤ 0 ↔ a ≤ 0 := fun a => by rw [← ladder_zero, hmono]
  rw [ordinal_eq, ordinal_eq, value_eq hx, value_eq hy]
  cases x.negative <;> cases y.negative
  · simp [hmono]
  · have hx0 := hzero x.word
    have hy0 := hzero y.word
    simp only [Bool.false_eq_true, if_false, if_true]
    constructor
    · intro h
      have := hx0.mpr (by omega)
      have := hy0.mpr (by omega)
      linarith
    · intro h
      have := hx0.mp (by linarith)
      have := hy0.mp (by linarith)
      omega
  · simp only [Bool.false_eq_true, if_false, if_true]
    exact iff_of_true (by omega) (by linarith)
  · simp [hmono]

theorem le_iff (hx : x.Finite) (hy : y.Finite) : le x y = true ↔ x.value ≤ y.value := by
  simp [le, hx, hy, ordinal_le_iff hx hy]

theorem lt_iff (hx : x.Finite) (hy : y.Finite) : lt x y = true ↔ x.value < y.value := by
  simp [lt, hx, hy, ← not_le, ordinal_le_iff hy hx]

theorem eq_iff (hx : x.Finite) (hy : y.Finite) : eq x y = true ↔ x.value = y.value := by
  have hord : x.ordinal = y.ordinal ↔ x.value = y.value := by
    rw [le_antisymm_iff, ordinal_le_iff hx hy, ordinal_le_iff hy hx, ← le_antisymm_iff]
  simp [eq, hx, hy, hord]

theorem ordinal_nonneg (hx : x.Finite) (h : 0 ≤ x.value) : 0 ≤ x.ordinal := by
  have hzero : (ofWord false 0).ordinal = 0 := by decide
  have hvalue : (ofWord false 0).value = 0 := value_ofWord_zero
  rw [← hzero]
  rw [← hvalue] at h
  exact (ordinal_le_iff (finite_ofWord (by norm_num)) hx).mpr h

/-- A result below a negative number is negative. -/
theorem ordinal_roundResult_neg {z : Bool} {q : ℚ} (hy : y.Finite) (hneg : y.value < 0)
    (h : q ≤ y.value) : (roundResult z q).ordinal < 0 := by
  have hq : q < 0 := h.trans_lt hneg
  have hladder : ladder y.word ≤ |q| := by
    rw [abs_of_neg hq]
    rw [value_eq hy] at h hneg
    split at h
    · linarith
    · rw [if_neg (by assumption)] at hneg
      linarith [ladder_nonneg y.word]
  have hword : 0 < y.word := by
    by_contra hzero
    rw [value_eq hy, Nat.eq_zero_of_not_pos hzero, ladder_zero] at hneg
    split at hneg <;> linarith
  have hle : y.word ≤ roundWord |q| := le_roundWord (abs_pos.mpr hq.ne) hladder
  rw [roundResult, if_neg hq.ne, ofRat, decide_eq_true hq, round_eq _ (abs_ne_zero.mpr hq.ne)]
  split
  · decide
  · rw [ordinal_eq, negative_ofWord (by omega), word_ofWord (by omega)]
    simp only [if_true]
    omega

/-- **A factor of a non-negative product**: where a number of at least 1 times `y` is a finite
    non-negative number, `y` is one. -/
theorem factor_of_mul {b : Binary64} (hx : x.Finite) (hone : 1 ≤ x.value) (hb : b.Finite)
    (hnonneg : 0 ≤ b.value) (h : eq (mul x y) b = true) :
    y.Finite ∧ 0 ≤ y.value ∧ (mul x y).Finite ∧ (mul x y).value = b.value := by
  have hord : (mul x y).isNaN = false ∧ (mul x y).ordinal = b.ordinal := by
    unfold eq at h
    simp only [Bool.and_eq_true, Bool.not_eq_true', decide_eq_true_eq] at h
    exact ⟨h.1.1, h.2⟩
  have hbword : b.ordinal < 2047 * 2 ^ 52 ∧ -(2047 * 2 ^ 52) < b.ordinal := by
    have hfin : b.word < 2047 * 2 ^ 52 := hb
    rw [ordinal_eq]
    split <;> omega
  have hy : y.Finite := by
    by_contra hinf
    have hexp : y.exponent = 2047 := by
      by_contra hne
      exact hinf ((finite_iff y).mpr hne)
    have hne : x.value ≠ 0 := by linarith
    by_cases hfrac : y.fraction = 0
    · have hyinf : y.isInf = true := by simp [Binary64.isInf, hexp, hfrac]
      have hynum : y.isNaN = false := by simp [Binary64.isNaN, hfrac]
      have hprod : mul x y = inf (x.negative != y.negative) := by
        simp [mul, hx, hyinf, hynum, hne]
      rw [hprod] at hord
      have hbits := ordinal_eq (inf (x.negative != y.negative))
      rw [inf, word_ofWord (by norm_num), ← inf, hord.2] at hbits
      split at hbits <;> omega
    · have hynan : y.isNaN = true := by simp [Binary64.isNaN, hexp, hfrac]
      have hprod : mul x y = nan := by simp [mul, hynan]
      rw [hprod] at hord
      exact absurd hord.1 (by decide)
  have hsign : 0 ≤ y.value := by
    by_contra hneg
    rw [not_le] at hneg
    have hlow := ordinal_roundResult_neg (z := x.negative != y.negative) (q := x.value * y.value)
      hy hneg (by nlinarith)
    rw [← mul_finite hx hy, hord.2] at hlow
    exact absurd (ordinal_nonneg hb hnonneg) (not_le.mpr hlow)
  have hfin : (mul x y).Finite := by
    have hbits := ordinal_eq (mul x y)
    rw [hord.2] at hbits
    unfold Finite
    split at hbits <;> omega
  exact ⟨hy, hsign, hfin, (eq_iff hfin hb).mp h⟩

theorem le_iff_ordinal : le x y = true ↔
    x.isNaN = false ∧ y.isNaN = false ∧ x.ordinal ≤ y.ordinal := by
  simp [le, and_assoc]

theorem le_of_le_of_le {z : Binary64} (h : le x y = true) (h' : le y z = true) :
    le x z = true := by
  rw [le_iff_ordinal] at *
  exact ⟨h.1, h'.2.1, h.2.2.trans h'.2.2⟩

theorem ordinal_zero : (ofRat 0).ordinal = 0 := by decide +kernel

/-- A number between zero and a finite number is finite. -/
theorem finite_of_le (h0 : le (ofRat 0) x = true) (h : le x y = true) (hy : y.Finite) :
    x.Finite ∧ 0 ≤ x.value ∧ x.value ≤ y.value := by
  obtain ⟨_, _, hlow⟩ := le_iff_ordinal.mp h0
  obtain ⟨_, _, hhigh⟩ := le_iff_ordinal.mp h
  rw [ordinal_zero] at hlow
  have hfin : x.Finite := by
    have hyword : y.word < 2047 * 2 ^ 52 := hy
    have hx := ordinal_eq x
    have hyord := ordinal_eq y
    unfold Finite
    split at hx <;> split at hyord <;> omega
  refine ⟨hfin, ?_, (le_iff hfin hy).mp h⟩
  obtain ⟨hzero, hzero'⟩ := ofRat_natCast (n := 0) (by norm_num)
  rw [Nat.cast_zero] at hzero hzero'
  exact hzero'.ge.trans ((le_iff hzero hfin).mp h0)

/-- A non-negative number that is not an infinity is finite. -/
theorem finite_of_nonneg (h0 : le (ofRat 0) x = true) (hinf : x.isInf = false) :
    x.Finite ∧ 0 ≤ x.value := by
  have hnum := (le_iff_ordinal.mp h0).2.1
  have hfin : x.Finite := by
    rw [finite_iff]
    intro hexp
    by_cases hfrac : x.fraction = 0
    · rw [Binary64.isInf, hexp, hfrac] at hinf
      cases hinf
    · rw [Binary64.isNaN, hexp] at hnum
      simp [hfrac] at hnum
  obtain ⟨hzero, hzero'⟩ := ofRat_natCast (n := 0) (by norm_num)
  rw [Nat.cast_zero] at hzero hzero'
  exact ⟨hfin, hzero'.ge.trans ((le_iff hzero hfin).mp h0)⟩

/-- **Adding a non-negative number does not decrease a sum**, though it may overflow. -/
theorem le_add (hx : le (ofRat 0) x = true) (hy : y.Finite) (h : 0 ≤ y.value) :
    le x (add x y) = true := by
  have hnum := (le_iff_ordinal.mp hx).2.1
  cases hinf : x.isInf with
  | true =>
    have hsum : add x y = x := by simp [add, hnum, hinf, hy]
    rw [hsum, le_iff_ordinal]
    exact ⟨hnum, hnum, le_rfl⟩
  | false =>
    obtain ⟨hfin, hpos⟩ := finite_of_nonneg hx hinf
    rw [add_finite hfin hy]
    have hq : 0 ≤ x.value + y.value := by linarith
    generalize (x.negative && y.negative) = z
    by_cases hres : (roundResult z (x.value + y.value)).Finite
    · rw [le_iff hfin hres]
      exact le_roundResult hq hres hfin (by linarith)
    · -- Past the largest finite number the result is the positive infinity.
      have hround : roundResult z (x.value + y.value) = inf false := by
        rcases hq.eq_or_lt with hzero | hpos'
        · rw [← hzero, roundResult, if_pos rfl] at hres
          exact absurd (finite_ofWord (by norm_num)) hres
        · rw [finite_roundResult hpos', not_lt] at hres
          rw [roundResult_pos hpos', if_pos hres]
      rw [hround, le_iff_ordinal]
      have htop : (inf false).ordinal = 2047 * 2 ^ 52 := by decide
      have hword : x.word < 2047 * 2 ^ 52 := hfin
      refine ⟨hnum, by decide, ?_⟩
      rw [htop, ordinal_eq]
      split <;> omega

end Operations

end Binary64
