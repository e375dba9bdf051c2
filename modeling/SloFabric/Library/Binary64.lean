/-
  File:      SloFabric/Library/Binary64.lean
  Subject:   IEEE 754 binary64 numbers as 64-bit words, with executable arithmetic.

  A `Binary64` is its word: sign bit 63, an 11-bit biased exponent and a 52-bit fraction. Every
  operation computes the exact rational result and rounds it once, to nearest with ties to even
  (`round`), and keeps the rules for NaN, infinities and signed zeros. The order of two words
  that are not NaN is the order of their sign-magnitude integers (`ordinal`).
-/
import Mathlib.Data.Rat.Floor
import SloFabric.Library.Codec

/-- A binary64 number, by its word. -/
structure Binary64 where
  bits : UInt64
  deriving DecidableEq

namespace Binary64

open Codec (ascii decimal digit_of_mem_decimal)

/-! ## 1. Fields of a word -/

def negative (x : Binary64) : Bool := decide (2 ^ 63 ≤ x.bits.toNat)

def exponent (x : Binary64) : Nat := x.bits.toNat / 2 ^ 52 % 2 ^ 11

def fraction (x : Binary64) : Nat := x.bits.toNat % 2 ^ 52

def isNaN (x : Binary64) : Bool := x.exponent == 2047 && x.fraction != 0

def isInf (x : Binary64) : Bool := x.exponent == 2047 && x.fraction == 0

/-- The magnitude of a finite number: `fraction * 2 ^ -1074` for a subnormal one, and with the
    hidden bit for a normal one. -/
def magnitude (x : Binary64) : ℚ :=
  if x.exponent = 0 then mkRat x.fraction (2 ^ 1074)
  else if x.exponent < 1075 then mkRat (2 ^ 52 + x.fraction) (2 ^ (1075 - x.exponent))
  else ((2 ^ 52 + x.fraction) * 2 ^ (x.exponent - 1075) : Nat)

/-- The rational a finite number denotes. -/
def value (x : Binary64) : ℚ := if x.negative then -x.magnitude else x.magnitude

/-- The word of a sign and the 63 lower bits. -/
def ofWord (neg : Bool) (word : Nat) : Binary64 :=
  ⟨UInt64.ofNat ((if neg then 2 ^ 63 else 0) + word)⟩

def inf (neg : Bool) : Binary64 := ofWord neg (2047 * 2 ^ 52)

def nan : Binary64 := ofWord false (2047 * 2 ^ 52 + 2 ^ 51)

/-! ## 2. Rounding -/

/-- The binary exponent of a positive rational: `2 ^ e ≤ n / d < 2 ^ (e + 1)`. -/
def binaryExponent (n d : Nat) : Int :=
  let e : Int := (Nat.log2 n : Int) - Nat.log2 d
  let below := if 0 ≤ e then n < d * 2 ^ e.toNat else n * 2 ^ (-e).toNat < d
  if below then e - 1 else e

/-- `n / d` to the nearest integer, ties to even. -/
def roundDiv (n d : Nat) : Nat :=
  let m := n / d
  let r := n % d
  if d < 2 * r ∨ (2 * r = d ∧ m % 2 = 1) then m + 1 else m

/-- **Round a magnitude to nearest, ties to even**, under the given sign. The unit is
    `2 ^ (e - 52)`, at least `2 ^ -1074`; a carry out of the significand moves into the
    exponent field, and a result past the largest finite number is an infinity. -/
def round (neg : Bool) (q : ℚ) : Binary64 :=
  if q = 0 then ofWord neg 0 else
  let n := q.num.natAbs
  let d := q.den
  let e := max (binaryExponent n d) (-1022)
  let unit := e - 52
  let m := if 0 ≤ unit then roundDiv n (d * 2 ^ unit.toNat)
    else roundDiv (n * 2 ^ (-unit).toNat) d
  let word := (e + 1022).toNat * 2 ^ 52 + m
  if 2047 * 2 ^ 52 ≤ word then inf neg else ofWord neg word

/-- The number nearest to a rational. -/
def ofRat (q : ℚ) : Binary64 := round (decide (q < 0)) |q|

/-- Round an exact result; a zero takes the sign `zeroNeg`. -/
def roundResult (zeroNeg : Bool) (q : ℚ) : Binary64 :=
  if q = 0 then ofWord zeroNeg 0 else ofRat q

/-! ## 3. Arithmetic -/

def neg (x : Binary64) : Binary64 := ⟨x.bits ^^^ 0x8000000000000000⟩

def add (x y : Binary64) : Binary64 :=
  if x.isNaN || y.isNaN then nan
  else if x.isInf then (if y.isInf && x.negative != y.negative then nan else x)
  else if y.isInf then y
  else roundResult (x.negative && y.negative) (x.value + y.value)

def sub (x y : Binary64) : Binary64 := add x (neg y)

def mul (x y : Binary64) : Binary64 :=
  let s := x.negative != y.negative
  if x.isNaN || y.isNaN then nan
  else if x.isInf || y.isInf then
    (if (!x.isInf && x.value == 0) || (!y.isInf && y.value == 0) then nan else inf s)
  else roundResult s (x.value * y.value)

def div (x y : Binary64) : Binary64 :=
  let s := x.negative != y.negative
  if x.isNaN || y.isNaN || (x.isInf && y.isInf) then nan
  else if x.isInf then inf s
  else if y.isInf then ofWord s 0
  else if y.value == 0 then (if x.value == 0 then nan else inf s)
  else roundResult s (x.value / y.value)

/-- The least integer at or above, keeping the sign of a zero. -/
def ceil (x : Binary64) : Binary64 :=
  if x.exponent = 2047 then x else roundResult x.negative (⌈x.value⌉ : Int)

/-- The integer towards zero (`0` for a NaN or an infinity, which have none). -/
def trunc (x : Binary64) : Int :=
  if x.exponent = 2047 then 0
  else if x.negative then -⌊x.magnitude⌋ else ⌊x.magnitude⌋

/-! ## 4. Order -/

/-- Sign-magnitude integer of a word; both zeros give `0`. -/
def ordinal (x : Binary64) : Int :=
  if x.negative then -((x.bits.toNat - 2 ^ 63 : Nat) : Int) else x.bits.toNat

def lt (x y : Binary64) : Bool := !x.isNaN && !y.isNaN && decide (x.ordinal < y.ordinal)

def le (x y : Binary64) : Bool := !x.isNaN && !y.isNaN && decide (x.ordinal ≤ y.ordinal)

def eq (x y : Binary64) : Bool := !x.isNaN && !y.isNaN && decide (x.ordinal = y.ordinal)

/-! ## 5. Decimal form -/

/-- The fixed form with `k` digits after the point, correctly rounded (`printf`'s `%f` has
    `k = 6`). -/
def fixed (k : Nat) (x : Binary64) : List UInt8 :=
  let sign := if x.negative then ascii "-" else []
  if x.isNaN then sign ++ ascii "nan"
  else if x.isInf then sign ++ ascii "inf"
  else
    let q := x.magnitude
    let n := roundDiv (q.num.natAbs * 10 ^ k) q.den
    let frac := decimal (n % 10 ^ k)
    sign ++ decimal (n / 10 ^ k) ++ ascii "." ++ List.replicate (k - frac.length) 48 ++ frac

/-- The fixed form has signs, letters of `nan` and `inf`, digits and a point only. -/
theorem semicolon_notMem_fixed (k : Nat) (x : Binary64) : 59 ∉ fixed k x := by
  have hdec (n : Nat) : (59 : UInt8) ∉ decimal n := fun h =>
    absurd (digit_of_mem_decimal h).2 (by decide)
  have hsign : (59 : UInt8) ∉ if x.negative then ascii "-" else [] := by
    split
    · decide
    · exact List.not_mem_nil
  unfold fixed
  simp only
  split
  · exact fun h => (List.mem_append.mp h).elim hsign (by decide)
  · split
    · exact fun h => (List.mem_append.mp h).elim hsign (by decide)
    · simp only [List.mem_append, not_or]
      refine ⟨⟨⟨⟨hsign, hdec _⟩, by decide⟩, fun h => ?_⟩, hdec _⟩
      exact absurd (List.eq_of_mem_replicate h) (by decide)
example : (ofRat (1 / 10)).bits = 0x3FB999999999999A := by decide +kernel

example : add (ofRat (1 / 10)) (ofRat (2 / 10)) = ofRat 0.30000000000000004 := by decide +kernel

example : fixed 6 (ofRat (-95 / 100)) = ascii "-0.950000" := by decide +kernel

end Binary64
