/-
  File:      SloFabric/Checked.lean
  Subject:   Checked 64-bit arithmetic.

  The exact result of every signed operation is noted where it is evaluated, guards included. What
  comes of a product that leaves the range is up to the build: no guard stops it before.

  * `Build`, `wrapping`: what a build makes of such a product, and the one that wraps it around;
  * `checkedAdd`, `checkedSub`, `checkedMul`, `checkedScale`, and the members that call them;
  * `Decides`: the answer says whether the exact result fits; `Exactly`: and no operation on the way
    leaves the range;
  * `checkedMul_wrapping`: where products wrap around, the answer is right all the same: a wrapped
    product divides back only if it is the product;
  * `checked_iff`: whatever the build, all of them are exact but for products that do not fit.
-/
import SloFabric.Overflow
import SloFabric.Library.Notes

namespace SloFabric

/-! ## 1. Operations that are noted -/

/-- A value computed from 64-bit integers, with the exact results of the operations on the way. -/
abbrev Signed (α : Type) := Noted Int α

namespace Signed

def add (a b : Int64) : Signed Int64 := .note (a.toInt + b.toInt) (a + b)
def sub (a b : Int64) : Signed Int64 := .note (a.toInt - b.toInt) (a - b)
def mul (a b : Int64) : Signed Int64 := .note (a.toInt * b.toInt) (a * b)
def div (a b : Int64) : Signed Int64 := .note (a.toInt.tdiv b.toInt) (a / b)

end Signed

/-! ## 2. The checked operations -/

def checkedAdd (a b out : Int64) : Signed (Bool × Int64) := do
  let tooLarge := Noted.both (0 < b) do return (← Signed.sub Int64.maxValue b) < a
  let tooSmall := Noted.both (b < 0) do return a < (← Signed.sub Int64.minValue b)
  if ← Noted.either tooLarge tooSmall then return (false, out)
  return (true, ← Signed.add a b)

def checkedSub (a b out : Int64) : Signed (Bool × Int64) := do
  let tooSmall := Noted.both (0 < b) do return a < (← Signed.add Int64.minValue b)
  let tooLarge := Noted.both (b < 0) do return (← Signed.add Int64.maxValue b) < a
  if ← Noted.either tooSmall tooLarge then return (false, out)
  return (true, ← Signed.sub a b)

instance (n : Int) : Decidable (InRange n) := inferInstanceAs (Decidable (_ ∧ _))

/-- What a build makes of a call of `checked_mul` whose product overflows, by its arguments: the
    standard leaves it open. -/
abbrev Build := Int64 → Int64 → Int64 → Bool × Int64

/-- The build that wraps products around. -/
def wrapping : Build := fun a b out => if a * b / b ≠ a then (false, out) else (true, a * b)

def checkedMul (build : Build) (a b out : Int64) : Signed (Bool × Int64) := do
  if a = 0 ∨ b = 0 then return (true, 0)
  if a = -1 ∧ b = Int64.minValue then return (false, out)
  if b = -1 ∧ a = Int64.minValue then return (false, out)
  let r ← Signed.mul a b
  -- an overflow: nothing from here on is what the source says
  if ¬InRange (a.toInt * b.toInt) then return build a b out
  if (← Signed.div r b) ≠ a then return (false, out)
  return (true, r)

/-- The loop of `checked_scale`: `i` is its counter, `r` what it has scaled so far. -/
def scaleLoop (build : Build) (out : Int64) :
    (turns : Nat) → (i : Int) → (r : Int64) → Signed (Bool × Int64)
  | 0, _, r => return (true, r)
  | turns + 1, i, r => do
    let t ← checkedMul build r 10 0
    if t.1 then
      let i ← Noted.note (i + 1) (i + 1)
      scaleLoop build out turns i t.2
    else return (false, out)

/-- `value * 10 ^ exp`; an exponent that is not positive takes no turn of the loop. -/
def checkedScale (build : Build) (value : Int64) (exp : Int32) (out : Int64) :
    Signed (Bool × Int64) :=
  scaleLoop build out exp.toInt.toNat 0 value

/-- A member that stores a checked result: `r` is what the operation gets to write to. -/
def storing (checked : Int64 → Signed (Bool × Int64)) (out : Int64) : Signed (Bool × Int64) := do
  let r ← checked 0
  if !r.1 then return (false, out)
  return (true, r.2)

/-- `Duration::add`. -/
def Duration.add (a b out : Int64) : Signed (Bool × Int64) := storing (checkedAdd a b) out

/-- `CostMicros::add`. -/
def CostMicros.add (a b out : Int64) : Signed (Bool × Int64) := storing (checkedAdd a b) out

/-- `CostMicros::sub`. -/
def CostMicros.sub (a b out : Int64) : Signed (Bool × Int64) := storing (checkedSub a b) out

/-! ## 3. Decisions -/

/-- **The answer says whether the exact result fits.** It is stored if it does, and nothing is if it
    does not. -/
structure Decides (x : Signed (Bool × Int64)) (exact : Int) (out : Int64) : Prop where
  fits : x.result.1 = true ↔ InRange exact
  stored : InRange exact → x.result.2.toInt = exact
  kept : ¬InRange exact → x.result.2 = out

/-- It does so without an operation that leaves the range. -/
def Exactly (x : Signed (Bool × Int64)) (exact : Int) (out : Int64) : Prop :=
  Decides x exact out ∧ x.Only InRange

theorem Decides.yes {x : Signed (Bool × Int64)} {exact : Int} {out r : Int64}
    (hx : x.result = (true, r)) (hr : r.toInt = exact) : Decides x exact out := by
  have hin : InRange exact := hr ▸ toInt_inRange r
  exact ⟨by rw [hx]; exact iff_of_true rfl hin, fun _ => by rw [hx]; exact hr,
    fun hout => absurd hin hout⟩

theorem Decides.no {x : Signed (Bool × Int64)} {exact : Int} {out : Int64}
    (hx : x.result = (false, out)) (hout : ¬InRange exact) : Decides x exact out :=
  ⟨by rw [hx]; exact iff_of_false Bool.false_ne_true hout, fun hin => absurd hin hout,
    fun _ => by rw [hx]⟩

theorem Decides.congr {x y : Signed (Bool × Int64)} {exact : Int} {out : Int64}
    (h : Decides y exact out) (hx : x.result = y.result) : Decides x exact out :=
  ⟨hx ▸ h.fits, hx ▸ h.stored, hx ▸ h.kept⟩

/-- A test that stops exactly what does not fit. -/
theorem Decides.of_test {x : Signed (Bool × Int64)} {exact : Int} {out r : Int64} {c : Prop}
    [Decidable c] (hx : x.result = if c then (false, out) else (true, r)) (hc : c ↔ ¬InRange exact)
    (hr : InRange exact → r.toInt = exact) : Decides x exact out := by
  by_cases h : c
  · rw [if_pos h] at hx
    exact .no hx (hc.mp h)
  · rw [if_neg h] at hx
    exact .yes hx (hr (not_not.mp fun hout => h (hc.mpr hout)))

/-- **A guard that is evaluated first**, without an overflow of its own, and that stops exactly the
    operands whose result does not fit. -/
theorem exactly_of_guard {guard : Signed Bool} {exact : Int} {r out : Int64}
    (hsafe : guard.Only InRange) (hguard : guard.result = true ↔ ¬InRange exact)
    (hr : InRange exact → r.toInt = exact) :
    Exactly (do if ← guard then return (false, out)
                return (true, ← Noted.note exact r)) exact out := by
  constructor
  · exact .of_test (Noted.result_ite _ _) hguard hr
  · refine (Noted.only_bind _ _).mpr ⟨hsafe, ?_⟩
    rw [Noted.only_ite]
    split
    · exact Noted.only_pure _
    · rename_i hpass
      have hin : InRange exact := not_not.mp fun hout => hpass (hguard.mpr hout)
      exact (Noted.only_bind _ _).mpr ⟨(Noted.only_note _ _).mpr hin, Noted.only_pure _⟩

/-! ## 4. Sums and differences -/

/-- The guards themselves stay in range. -/
theorem guards_inRange (b : Int64) :
    (0 < b → InRange (Int64.maxValue.toInt - b.toInt) ∧ InRange (Int64.minValue.toInt + b.toInt)) ∧
    (b < 0 → InRange (Int64.minValue.toInt - b.toInt) ∧
      InRange (Int64.maxValue.toInt + b.toInt)) := by
  have hmax := Int64.toInt_maxValue
  have hmin := Int64.toInt_minValue
  have hb := toInt_inRange b
  unfold InRange at *
  rw [Int64.lt_iff_toInt_lt, Int64.lt_iff_toInt_lt, Int64.toInt_zero]
  omega

section Sums

variable (a b out : Int64)

theorem checkedAdd_exactly : Exactly (checkedAdd a b out) (a.toInt + b.toInt) out := by
  obtain ⟨hpos, hneg⟩ := guards_inRange b
  refine exactly_of_guard ?_ ?_ toInt_add_iff.mpr
  · simpa [Signed.sub] using ⟨fun h => (hpos h).1, fun _ h => (hneg h).1⟩
  · have hover (h : 0 < b) := toInt_sub_iff.mpr (hpos h).1
    have hunder (h : b < 0) := toInt_sub_iff.mpr (hneg h).1
    have hmax := Int64.toInt_maxValue
    have hmin := Int64.toInt_minValue
    have ha := toInt_inRange a
    simp only [Noted.result_either, Noted.result_both, Noted.result_bind, Noted.result_pure,
      Bool.or_eq_true, Bool.and_eq_true, decide_eq_true_eq]
    simp only [Signed.sub, Noted.result_note, Int64.lt_iff_toInt_lt, Int64.toInt_zero]
      at hover hunder ⊢
    unfold exactSub at hover hunder
    unfold InRange at ha ⊢
    omega

theorem checkedSub_exactly : Exactly (checkedSub a b out) (a.toInt - b.toInt) out := by
  obtain ⟨hpos, hneg⟩ := guards_inRange b
  refine exactly_of_guard ?_ ?_ toInt_sub_iff.mpr
  · simpa [Signed.add] using ⟨fun h => (hpos h).2, fun _ h => (hneg h).2⟩
  · have hunder (h : 0 < b) := toInt_add_iff.mpr (hpos h).2
    have hover (h : b < 0) := toInt_add_iff.mpr (hneg h).2
    have hmax := Int64.toInt_maxValue
    have hmin := Int64.toInt_minValue
    have ha := toInt_inRange a
    simp only [Noted.result_either, Noted.result_both, Noted.result_bind, Noted.result_pure,
      Bool.or_eq_true, Bool.and_eq_true, decide_eq_true_eq]
    simp only [Signed.add, Noted.result_note, Int64.lt_iff_toInt_lt, Int64.toInt_zero]
      at hover hunder ⊢
    unfold InRange at ha ⊢
    omega

end Sums

/-! ## 5. Products -/

/-- Only the least integer divided by `-1` leaves the range. -/
theorem tdiv_inRange {r b : Int64} (h : ¬(b = -1 ∧ r = Int64.minValue)) :
    InRange (r.toInt.tdiv b.toInt) ∧ (r / b).toInt = r.toInt.tdiv b.toInt := by
  have hdiv : (r / b).toInt = r.toInt.tdiv b.toInt := by
    by_cases hb : b = -1
    · exact Int64.toInt_div_of_ne_left _ _ fun hr => h ⟨hb, hr⟩
    · exact Int64.toInt_div_of_ne_right _ _ hb
  exact ⟨hdiv ▸ toInt_inRange (r / b), hdiv⟩

/-- The wrapped product is off by a multiple of `2 ^ 64`. -/
theorem toInt_mul_wraps (a b : Int64) :
    ∃ k : Int, (a * b).toInt = a.toInt * b.toInt - 2 ^ 64 * k := by
  rw [Int64.toInt_mul]
  exact ⟨_, Int.bmod_eq_self_sub_mul_bdiv _ _⟩

theorem toInt_mul_iff {a b : Int64} :
    (a * b).toInt = a.toInt * b.toInt ↔ InRange (a.toInt * b.toInt) := by
  obtain ⟨k, hk⟩ := toInt_mul_wraps a b
  have hr := toInt_inRange (a * b)
  unfold InRange at hr ⊢
  generalize a.toInt * b.toInt = n at hk ⊢
  omega

/-- The divisor hides less than a multiple of `2 ^ 64`. -/
theorem mul_of_tdiv {a b r : Int} {k : Int} (hb : b ≠ 0) (hbound : b.natAbs ≤ 2 ^ 63)
    (hr : r = a * b - 2 ^ 64 * k) (h : r.tdiv b = a) : r = a * b := by
  have hmod := Int.tmod_add_mul_tdiv r b
  have hsmall : (r.tmod b).natAbs < b.natAbs := by
    rw [Int.natAbs_tmod]
    exact Nat.mod_lt _ (Int.natAbs_pos.mpr hb)
  rw [h, Int.mul_comm] at hmod
  omega

/-- The product that would be divided out of range is not reached. -/
theorem mul_ne_min {a b : Int64} (h : ¬(b = -1 ∧ a = Int64.minValue)) :
    ¬(b = -1 ∧ a * b = Int64.minValue) := by
  rintro ⟨rfl, hr⟩
  rw [Int64.mul_neg, Int64.mul_one] at hr
  refine h ⟨rfl, ?_⟩
  rw [← Int64.neg_neg (a := a), hr]
  decide

/-- **A wrapped product divides back only if it is the product.** -/
theorem div_back_iff {a b : Int64} (hb : b ≠ 0) (hmin : ¬(b = -1 ∧ a = Int64.minValue)) :
    a * b / b = a ↔ InRange (a.toInt * b.toInt) := by
  have hb0 : b.toInt ≠ 0 := fun h => hb (Int64.toInt_inj.mp h)
  have hdiv := (tdiv_inRange (mul_ne_min hmin)).2
  constructor
  · intro hback
    obtain ⟨k, hk⟩ := toInt_mul_wraps a b
    have hbound := toInt_inRange b
    unfold InRange at hbound
    rw [hback] at hdiv
    exact toInt_mul_iff.mp (mul_of_tdiv hb0 (by omega) hk hdiv.symm)
  · intro hin
    apply Int64.toInt_inj.mp
    rw [hdiv, toInt_mul_iff.mpr hin, Int.mul_tdiv_cancel _ hb0]

/-- The operands that `checked_mul` stops before it multiplies. -/
def Stopped (a b : Int64) : Prop :=
  a = -1 ∧ b = Int64.minValue ∨ b = -1 ∧ a = Int64.minValue

theorem Stopped.not_inRange {a b : Int64} (h : Stopped a b) : ¬InRange (a.toInt * b.toInt) := by
  rcases h with ⟨rfl, rfl⟩ | ⟨rfl, rfl⟩ <;> exact fun h => absurd h.2 (by decide)

section Products

variable (build : Build) (a b out : Int64)

theorem checkedMul_result : (checkedMul build a b out).result =
    if a = 0 ∨ b = 0 then (true, 0)
    else if a = -1 ∧ b = Int64.minValue then (false, out)
    else if b = -1 ∧ a = Int64.minValue then (false, out)
    else if ¬InRange (a.toInt * b.toInt) then build a b out
    else if a * b / b ≠ a then (false, out) else (true, a * b) := by
  simp only [checkedMul, Noted.result_bind, Noted.result_ite, Noted.result_pure]
  rfl

variable {a b}

theorem checkedMul_stopped (h : Stopped a b) :
    (checkedMul build a b out).result = (false, out) := by
  rw [checkedMul_result]
  rcases h with ⟨rfl, rfl⟩ | ⟨rfl, rfl⟩ <;> rfl

/-- A product that fits divides back. -/
theorem checkedMul_fits (h : InRange (a.toInt * b.toInt)) :
    (checkedMul build a b out).result = (true, a * b) := by
  have hstopped : ¬Stopped a b := fun hs => hs.not_inRange h
  obtain ⟨hleft, hright⟩ := not_or.mp hstopped
  rw [checkedMul_result, if_neg hleft, if_neg hright, if_neg (not_not_intro h)]
  by_cases hzero : a = 0 ∨ b = 0
  · rw [if_pos hzero]
    rcases hzero with rfl | rfl <;> simp
  · have hback := (div_back_iff (fun hb => hzero (Or.inr hb)) hright).mpr h
    rw [if_neg hzero, if_neg (not_not_intro hback)]

theorem checkedMul_overflow (h : ¬InRange (a.toInt * b.toInt)) (hstopped : ¬Stopped a b) :
    (checkedMul build a b out).result = build a b out := by
  obtain ⟨hleft, hright⟩ := not_or.mp hstopped
  have hzero : ¬(a = 0 ∨ b = 0) := by
    rintro (rfl | rfl) <;> exact h (by simp [InRange])
  rw [checkedMul_result, if_neg hzero, if_neg hleft, if_neg hright, if_pos h]

/-- **It decides** about products that fit and about those that are stopped. -/
theorem checkedMul_decides (h : InRange (a.toInt * b.toInt) ∨ Stopped a b) :
    Decides (checkedMul build a b out) (a.toInt * b.toInt) out := by
  rcases h with hin | hstopped
  · exact .yes (checkedMul_fits build out hin) (toInt_mul_iff.mpr hin)
  · exact .no (checkedMul_stopped build out hstopped) hstopped.not_inRange

/-- **Where products wrap around**, it decides about all of them. -/
theorem checkedMul_wrapping (a b out : Int64) :
    Decides (checkedMul wrapping a b out) (a.toInt * b.toInt) out := by
  by_cases h : InRange (a.toInt * b.toInt) ∨ Stopped a b
  · exact checkedMul_decides wrapping out h
  · obtain ⟨hover, hstopped⟩ := not_or.mp h
    have hb : b ≠ 0 := by
      rintro rfl
      exact hover (by simp [InRange])
    have hback : a * b / b ≠ a := fun hback =>
      hover ((div_back_iff hb (not_or.mp hstopped).2).mp hback)
    refine .no ?_ hover
    rw [checkedMul_overflow wrapping out hover hstopped, wrapping, if_pos hback]

variable (a b)

/-- **Which products are multiplied out without an overflow.** -/
theorem checkedMul_only_iff : (checkedMul build a b out).Only InRange ↔
    InRange (a.toInt * b.toInt) ∨ Stopped a b := by
  unfold checkedMul Stopped
  simp only [Noted.only_ite, Noted.only_bind, Noted.only_pure, Signed.mul, Signed.div,
    Noted.only_note, Noted.result_note]
  by_cases hzero : a = 0 ∨ b = 0
  · rw [if_pos hzero]
    refine iff_of_true trivial (Or.inl ?_)
    rcases hzero with rfl | rfl <;> simp [InRange]
  rw [if_neg hzero]
  by_cases hleft : a = -1 ∧ b = Int64.minValue
  · rw [if_pos hleft]
    exact iff_of_true trivial (Or.inr (Or.inl hleft))
  rw [if_neg hleft]
  by_cases hright : b = -1 ∧ a = Int64.minValue
  · rw [if_pos hright]
    exact iff_of_true trivial (Or.inr (Or.inr hright))
  rw [if_neg hright]
  have hquotient := (tdiv_inRange (mul_ne_min hright)).1
  have hrest : (if a * b / b ≠ a then pure (false, out) else pure (true, a * b) :
      Signed (Bool × Int64)).Only InRange := by
    split <;> exact Noted.only_pure _
  simp only [hleft, hright, or_false]
  refine and_iff_left ?_
  split
  · trivial
  · exact ⟨hquotient, hrest⟩

/-- Where the product is divided back, it is. -/
theorem checkedMul_exactly_iff : Exactly (checkedMul build a b out) (a.toInt * b.toInt) out ↔
    InRange (a.toInt * b.toInt) ∨ Stopped a b := by
  rw [← checkedMul_only_iff build a b out]
  refine and_iff_right_of_imp fun honly => ?_
  exact checkedMul_decides build out ((checkedMul_only_iff build a b out).mp honly)

end Products

/-! ## 6. Scaling -/

/-- What fits when scaled fits before. -/
theorem inRange_of_scaled {n : Int} {k : Nat} (h : InRange (n * 10 ^ k)) : InRange n := by
  have hone : (1 : Int) ≤ 10 ^ k := one_le_pow₀ (by decide)
  obtain ⟨hlow, hhigh⟩ := h
  rcases le_total 0 n with hn | hn
  · exact ⟨by omega, (le_mul_of_one_le_right hn hone).trans_lt hhigh⟩
  · exact ⟨hlow.trans (mul_le_of_one_le_right hn hone), by omega⟩

/-- A factor of ten is never stopped. -/
theorem not_stopped_ten (r : Int64) : ¬Stopped r 10 := by
  rintro (⟨_, h⟩ | ⟨h, _⟩) <;> exact absurd h (by decide)

theorem toInt_ten : (10 : Int64).toInt = 10 := by decide

theorem scale_succ (r : Int) (turns : Nat) : r * 10 ^ (turns + 1) = r * 10 * 10 ^ turns := by
  rw [pow_succ', mul_assoc]

section Scale

variable (build : Build) (out : Int64)

/-- What fits when scaled is scaled. -/
theorem scaleLoop_fits : ∀ (turns : Nat) (i : Int) (r : Int64),
    InRange (r.toInt * 10 ^ turns) →
    ∃ v, (scaleLoop build out turns i r).result = (true, v) ∧ v.toInt = r.toInt * 10 ^ turns
  | 0, _, r, _ => ⟨r, rfl, (mul_one _).symm⟩
  | turns + 1, i, r, h => by
      rw [scale_succ] at h ⊢
      have hin := inRange_of_scaled h
      rw [← toInt_ten] at hin
      have hmul := checkedMul_fits build 0 hin
      have hresult : (scaleLoop build out (turns + 1) i r).result =
          if (checkedMul build r 10 0).result.1 = true then
            (scaleLoop build out turns (i + 1) (checkedMul build r 10 0).result.2).result
          else (false, out) := Noted.result_ite _ _
      rw [hmul, if_pos rfl] at hresult
      have ih := scaleLoop_fits turns (i + 1) (r * 10)
      rw [toInt_mul_iff.mpr hin, toInt_ten] at ih
      obtain ⟨v, hv, hexact⟩ := ih h
      exact ⟨v, hresult.trans hv, hexact⟩

/-- **Scaling overflows on the way exactly when the scaled value does.** -/
theorem scaleLoop_only_iff : ∀ (turns : Nat) (i : Int) (r : Int64), 0 ≤ i → i + turns < 2 ^ 31 →
    ((scaleLoop build out turns i r).Only InRange ↔ InRange (r.toInt * 10 ^ turns))
  | 0, _, r, _, _ => by
      rw [pow_zero, mul_one]
      exact iff_of_true (Noted.only_pure _) (toInt_inRange r)
  | turns + 1, i, r, hi, hturns => by
      have honly := checkedMul_only_iff build r 10 0
      rw [or_iff_left (not_stopped_ten r)] at honly
      push_cast at hturns
      have hcount : InRange (i + 1) := ⟨by omega, by omega⟩
      unfold scaleLoop
      rw [Noted.only_bind, honly, Noted.only_ite, Noted.only_bind, Noted.only_note, scale_succ]
      by_cases hin : InRange (r.toInt * (10 : Int64).toInt)
      · have ih := scaleLoop_only_iff turns (i + 1) (r * 10) (by omega) (by omega)
        rw [toInt_mul_iff.mpr hin, toInt_ten] at ih
        rw [checkedMul_fits build 0 hin, if_pos rfl, and_iff_right hin, and_iff_right hcount]
        exact ih
      · refine iff_of_false (fun h => hin h.1) fun h => hin ?_
        rw [toInt_ten]
        exact inRange_of_scaled h

theorem checkedScale_exactly_iff (value : Int64) (exp : Int32) :
    Exactly (checkedScale build value exp out) (value.toInt * 10 ^ exp.toInt.toNat) out ↔
      InRange (value.toInt * 10 ^ exp.toInt.toNat) := by
  have hexp := Int32.toInt_lt exp
  have honly := scaleLoop_only_iff build out exp.toInt.toNat 0 value le_rfl (by omega)
  refine ⟨fun h => honly.mp h.2, fun hin => ⟨?_, honly.mpr hin⟩⟩
  obtain ⟨v, hv, hexact⟩ := scaleLoop_fits build out exp.toInt.toNat 0 value hin
  exact .yes hv hexact

end Scale

/-! ## 7. All of them -/

/-- Storing the result of a call that is exact is exact. -/
theorem storing_exactly {checked : Int64 → Signed (Bool × Int64)} {exact : Int}
    (h : ∀ out, Exactly (checked out) exact out) (out : Int64) :
    Exactly (storing checked out) exact out := by
  obtain ⟨hdecides, honly⟩ := h 0
  constructor
  · have hresult : (storing checked out).result =
        if (!(checked 0).result.1) = true then (false, out) else (true, (checked 0).result.2) :=
      Noted.result_ite _ _
    refine .of_test hresult ?_ hdecides.stored
    rw [← hdecides.fits, Bool.not_eq_true', Bool.not_eq_true]
  · unfold storing
    rw [Noted.only_bind, Noted.only_ite]
    refine ⟨honly, ?_⟩
    split <;> exact Noted.only_pure _

/-- **Checked arithmetic**, whatever the build. Sums and differences are exact for all operands;
    products and scaled values are if and only if they fit, or are stopped before. -/
theorem checked_iff (build : Build) (a b value : Int64) (exp : Int32) (out : Int64) :
    (Exactly (checkedAdd a b out) (a.toInt + b.toInt) out ∧
      Exactly (Duration.add a b out) (a.toInt + b.toInt) out ∧
      Exactly (CostMicros.add a b out) (a.toInt + b.toInt) out) ∧
    (Exactly (checkedSub a b out) (a.toInt - b.toInt) out ∧
      Exactly (CostMicros.sub a b out) (a.toInt - b.toInt) out) ∧
    (Exactly (checkedMul build a b out) (a.toInt * b.toInt) out ↔
      InRange (a.toInt * b.toInt) ∨ Stopped a b) ∧
    (Exactly (checkedScale build value exp out) (value.toInt * 10 ^ exp.toInt.toNat) out ↔
      InRange (value.toInt * 10 ^ exp.toInt.toNat)) :=
  ⟨⟨checkedAdd_exactly a b out, storing_exactly (checkedAdd_exactly a b) out,
      storing_exactly (checkedAdd_exactly a b) out⟩,
    ⟨checkedSub_exactly a b out, storing_exactly (checkedSub_exactly a b) out⟩,
    checkedMul_exactly_iff build a b out, checkedScale_exactly_iff build out value exp⟩

/-- **A product that does not fit overflows before it is found out.** -/
theorem checked_fails : ¬∀ (a b value : Int64) (exp : Int32) (out : Int64),
    Exactly (checkedAdd a b out) (a.toInt + b.toInt) out ∧
    Exactly (checkedSub a b out) (a.toInt - b.toInt) out ∧
    Exactly (checkedMul wrapping a b out) (a.toInt * b.toInt) out ∧
    Exactly (checkedScale wrapping value exp out) (value.toInt * 10 ^ exp.toInt.toNat) out := by
  intro h
  obtain ⟨_, _, ⟨_, honly⟩, _⟩ := h 4611686018427387904 2 0 0 0
  have hnoted : (2 ^ 63 : Int) ∈ (checkedMul wrapping 4611686018427387904 2 0).notes := by
    decide +kernel
  exact absurd (honly _ hnoted).2 (by decide)

end SloFabric
