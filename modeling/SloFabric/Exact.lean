/-
  File:      SloFabric/Exact.lean
  Subject:   The numbers of the fabric read as exact rationals.

  The model is generic in its numbers; `Binary64` is what the code runs on. Over `ℚ` no operation
  rounds, so what a result over `ℚ` leaves of an error is the code's own, not that of its
  arithmetic.
-/
import SloFabric.Units

namespace SloFabric

open Codec (ascii decimal)

/-- The fixed form with six digits after the point. -/
def exactRepr (q : ℚ) : Bytes :=
  let n := Binary64.roundDiv (q.num.natAbs * 10 ^ 6) q.den
  let frac := decimal (n % 10 ^ 6)
  (if q < 0 then ascii "-" else []) ++ decimal (n / 10 ^ 6) ++ ascii "." ++
    List.replicate (6 - frac.length) 48 ++ frac

instance : Double ℚ where
  ofRat q := q
  add := (· + ·)
  sub := (· - ·)
  mul := (· * ·)
  div := (· / ·)
  lt x y := decide (x < y)
  le x y := decide (x ≤ y)
  eq x y := decide (x = y)
  ceil x := (⌈x⌉ : ℤ)
  trunc x := if x < 0 then ⌈x⌉ else ⌊x⌋
  outOfRange _ := Int64.minValue
  repr := exactRepr

example : exactRepr (-95 / 100) = ascii "-0.950000" := by decide +kernel

end SloFabric
