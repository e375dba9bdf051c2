/-
  File:      SloFabric/Library/Crc.lean
  Subject:   Reflected cyclic redundancy checks, over a register of any width.

  * `round p`: one bit -- shift right, and add the polynomial `p` where a one falls out;
  * `round_xor`, `round_injective`: a round is linear, and with the top bit of `p` set it loses
    nothing;
  * `rounds_shift`: as many rounds as a number has zeros at its low end only shift it;
  * `rounds_table`: eight rounds from a table of the low octet;
  * `feed p`: the register after a string of bytes; `feed_eq`: after a string that fits the
    register it is the rounds of the register with the whole string added;
  * `shiftIn p`, `feedBits p`: the check bit by bit; `feedBits_bytes`: over the bits of a string,
    lowest first, it is `feed`;
  * `feed_injective`, `feed_burst`: neither what stood in the register nor a string that fits
    it is ever lost;
  * `feed_own`: fed with its own complement, a register ends in a constant.
-/
import SloFabric.Library.Codec
import Mathlib.Logic.Function.Iterate

namespace Crc

open Codec

variable {w : Nat}

/-! ## 1. One bit -/

/-- One bit of the check. -/
def round (p c : BitVec w) : BitVec w := if c.getLsbD 0 then p ^^^ (c >>> 1) else c >>> 1

variable {p : BitVec w}

/-- **A round is linear.** -/
theorem round_xor (a b : BitVec w) : round p (a ^^^ b) = round p a ^^^ round p b := by
  have hshift : (a ^^^ b) >>> 1 = a >>> 1 ^^^ b >>> 1 := BitVec.ushiftRight_xor_distrib a b 1
  have hcancel : p ^^^ (a >>> 1) ^^^ (p ^^^ (b >>> 1)) = a >>> 1 ^^^ b >>> 1 := by
    rw [BitVec.xor_comm p, BitVec.xor_assoc, ← BitVec.xor_assoc p, BitVec.xor_self,
      BitVec.zero_xor]
  unfold round
  rw [BitVec.getLsbD_xor, hshift]
  cases ha : a.getLsbD 0 <;> cases hb : b.getLsbD 0
  · rfl
  · show p ^^^ (a >>> 1 ^^^ b >>> 1) = a >>> 1 ^^^ (p ^^^ b >>> 1)
    rw [← BitVec.xor_assoc, BitVec.xor_comm p, BitVec.xor_assoc]
  · exact (BitVec.xor_assoc p (a >>> 1) (b >>> 1)).symm
  · exact hcancel.symm

/-- What falls out of a register is the top bit of the next one. -/
theorem msb_round (hp : p.msb = true) (c : BitVec w) : (round p c).msb = c.getLsbD 0 := by
  have hw : 0 < w := by
    by_contra h
    have : w = 0 := by omega
    subst this
    simp [BitVec.of_length_zero] at hp
  have hshift : (c >>> 1).msb = false := by
    simp [BitVec.msb_eq_getLsbD_last, show 1 + (w - 1) = w by omega]
  unfold round
  cases h : c.getLsbD 0
  · exact hshift
  · simp [hp, hshift]

/-- **A round loses nothing**, when the polynomial has its top bit. -/
theorem round_injective (hp : p.msb = true) : Function.Injective (round p) := by
  intro a b h
  have hlow : a.getLsbD 0 = b.getLsbD 0 := by
    rw [← msb_round hp a, ← msb_round hp b, h]
  have hhigh : a >>> 1 = b >>> 1 := by
    unfold round at h
    rw [← hlow] at h
    cases ha : a.getLsbD 0
    · simpa [ha] using h
    · rw [ha, if_pos rfl, if_pos rfl] at h
      exact (BitVec.xor_right_inj p).mp h
  apply BitVec.eq_of_getLsbD_eq
  intro i _
  cases i with
  | zero => exact hlow
  | succ i =>
    have hi := congrArg (·.getLsbD i) hhigh
    simpa [BitVec.getLsbD_ushiftRight, Nat.add_comm] using hi

/-! ## 2. Many bits -/

theorem rounds_xor (n : Nat) (a b : BitVec w) :
    (round p)^[n] (a ^^^ b) = (round p)^[n] a ^^^ (round p)^[n] b := by
  induction n generalizing a b with
  | zero => rfl
  | succ n ih =>
    rw [Function.iterate_succ_apply, Function.iterate_succ_apply, Function.iterate_succ_apply,
      round_xor, ih]

/-- Rounds only shift a number with enough zeros at its low end. -/
theorem rounds_shift (n m : Nat) (h : 2 ^ n * m < 2 ^ w) :
    (round p)^[n] (BitVec.ofNat w (2 ^ n * m)) = BitVec.ofNat w m := by
  induction n with
  | zero => simp
  | succ n ih =>
    have hdouble : 2 ^ (n + 1) * m = 2 * (2 ^ n * m) := by rw [Nat.pow_succ', Nat.mul_assoc]
    have hround : round p (BitVec.ofNat w (2 ^ (n + 1) * m)) = BitVec.ofNat w (2 ^ n * m) := by
      have hlow : (BitVec.ofNat w (2 ^ (n + 1) * m)).getLsbD 0 = false := by
        rw [hdouble, BitVec.getLsbD_ofNat]
        simp
      unfold round
      rw [hlow, if_neg Bool.false_ne_true]
      apply BitVec.eq_of_toNat_eq
      rw [BitVec.toNat_ushiftRight, BitVec.toNat_ofNat, BitVec.toNat_ofNat, Nat.mod_eq_of_lt h,
        Nat.mod_eq_of_lt (by omega), hdouble]
      omega
    rw [Function.iterate_succ_apply, hround]
    exact ih (by omega)

/-- A number whose low bits are free holds a small one there. -/
theorem ofNat_add_mul {n b : Nat} (hb : b < 2 ^ n) (m : Nat) :
    BitVec.ofNat w (b + 2 ^ n * m) = BitVec.ofNat w b ^^^ BitVec.ofNat w (2 ^ n * m) := by
  apply BitVec.eq_of_getLsbD_eq
  intro i hi
  rw [BitVec.getLsbD_xor, BitVec.getLsbD_ofNat, BitVec.getLsbD_ofNat, BitVec.getLsbD_ofNat,
    Nat.add_comm, Nat.testBit_two_pow_mul_add m hb, Nat.testBit_two_pow_mul]
  by_cases h : i < n
  · simp [h, hi, Nat.not_le.mpr h]
  · have hclear : b.testBit i = false :=
      Nat.testBit_lt_two_pow (Nat.lt_of_lt_of_le hb (Nat.pow_le_pow_right (by decide) (by omega)))
    simp [h, hi, hclear, Nat.not_lt.mp h]

/-- **Eight rounds by table**: those of the low octet, and the rest shifted down. -/
theorem rounds_table (x : BitVec w) :
    (round p)^[8] x = (round p)^[8] (BitVec.ofNat w (x.toNat % 2 ^ 8)) ^^^ (x >>> 8) := by
  have hsplit : x = BitVec.ofNat w (x.toNat % 2 ^ 8) ^^^
      BitVec.ofNat w (2 ^ 8 * (x.toNat / 2 ^ 8)) := by
    rw [← ofNat_add_mul (Nat.mod_lt _ (by decide)), Nat.mod_add_div, BitVec.ofNat_toNat,
      BitVec.setWidth_eq]
  have hhigh : (round p)^[8] (BitVec.ofNat w (2 ^ 8 * (x.toNat / 2 ^ 8))) = x >>> 8 := by
    rw [rounds_shift _ _ (Nat.lt_of_le_of_lt (Nat.mul_div_le _ _) x.isLt)]
    apply BitVec.eq_of_toNat_eq
    rw [BitVec.toNat_ushiftRight, BitVec.toNat_ofNat, Nat.shiftRight_eq_div_pow,
      Nat.mod_eq_of_lt (Nat.lt_of_le_of_lt (Nat.div_le_self _ _) x.isLt)]
  conv => lhs; rw [hsplit]
  rw [rounds_xor, hhigh]

/-! ## 3. Bytes -/

/-- The register after a byte. -/
def feedByte (p c : BitVec w) (b : UInt8) : BitVec w :=
  (round p)^[8] (c ^^^ BitVec.ofNat w b.toNat)

/-- The register after a string of bytes. -/
def feed (p c : BitVec w) (bs : List UInt8) : BitVec w := bs.foldl (feedByte p) c

@[simp] theorem feed_append (c : BitVec w) (a b : List UInt8) :
    feed p c (a ++ b) = feed p (feed p c a) b := List.foldl_append

/-- **What stood in the register is never lost.** -/
theorem feed_injective (hp : p.msb = true) : ∀ bs : List UInt8,
    Function.Injective fun c => feed p c bs
  | [], _, _, h => h
  | b :: bs, c, d, h => by
      have hbyte : feedByte p c b = feedByte p d b := feed_injective hp bs h
      exact (BitVec.xor_left_inj _).mp ((round_injective hp).iterate 8 hbyte)

/-- **A string that fits the register** is added to it as one number. -/
theorem feed_eq : ∀ (bs : List UInt8) (c : BitVec w), 8 * bs.length ≤ w →
    feed p c bs = (round p)^[8 * bs.length] (c ^^^ BitVec.ofNat w (leNat bs))
  | [], c, _ => by simp [feed, leNat]
  | b :: bs, c, h => by
      have hlen : 8 * (b :: bs).length = 8 * bs.length + 8 := by
        rw [List.length_cons]; omega
      have hfit : 2 ^ 8 * leNat bs < 2 ^ w := by
        have hlt := leNat_lt bs
        have hpow : 2 ^ 8 * 256 ^ bs.length = 2 ^ (8 * (b :: bs).length) := by
          rw [hlen, Nat.add_comm, Nat.pow_add, Nat.pow_mul]
        have hle : 2 ^ (8 * (b :: bs).length) ≤ 2 ^ w := Nat.pow_le_pow_right (by decide) h
        omega
      have hadd : feedByte p c b ^^^ BitVec.ofNat w (leNat bs) =
          (round p)^[8] (c ^^^ BitVec.ofNat w (leNat (b :: bs))) := by
        have hword : leNat (b :: bs) = b.toNat + 2 ^ 8 * leNat bs := rfl
        rw [hword, ofNat_add_mul b.toNat_lt, ← BitVec.xor_assoc, rounds_xor,
          rounds_shift 8 _ hfit]
        rfl
      have ih := feed_eq bs (feedByte p c b) (by rw [hlen] at h; omega)
      rw [hlen, Function.iterate_add_apply, ← hadd, ← ih]
      rfl

/-- **A string that fits the register is never lost.** -/
theorem feed_burst (hp : p.msb = true) {x y : List UInt8} (c : BitVec w)
    (hlen : x.length = y.length) (hfit : 8 * x.length ≤ w) (hne : x ≠ y) :
    feed p c x ≠ feed p c y := by
  intro h
  rw [feed_eq x c hfit, feed_eq y c (hlen ▸ hfit), hlen] at h
  have hword := (BitVec.xor_right_inj c).mp ((round_injective hp).iterate _ h)
  have hlt (z : List UInt8) (hz : z.length = x.length) : leNat z < 2 ^ w := by
    have hz' := leNat_lt z
    rw [hz, show 256 = 2 ^ 8 from rfl, ← Nat.pow_mul] at hz'
    exact Nat.lt_of_lt_of_le hz' (Nat.pow_le_pow_right (by decide) hfit)
  have hnat := congrArg BitVec.toNat hword
  rw [BitVec.toNat_ofNat, BitVec.toNat_ofNat, Nat.mod_eq_of_lt (hlt x rfl),
    Nat.mod_eq_of_lt (hlt y hlen.symm)] at hnat
  exact hne (leNat_inj hlen hnat)

/-- **The register fed with its own complement**, by any mask: a constant. -/
theorem feed_own {bs : List UInt8} {c m : BitVec w} (hfit : 8 * bs.length ≤ w)
    (h : leNat bs = (c ^^^ m).toNat) : feed p c bs = (round p)^[8 * bs.length] m := by
  rw [feed_eq bs c hfit, h, BitVec.ofNat_toNat, BitVec.setWidth_eq, ← BitVec.xor_assoc,
    BitVec.xor_self, BitVec.zero_xor]

/-! ## 4. Bit by bit -/

/-- The register after one more bit of the message. -/
def shiftIn (p c : BitVec w) (b : Bool) : BitVec w :=
  if c.getLsbD 0 != b then p ^^^ (c >>> 1) else c >>> 1

/-- The register after a string of bits. -/
def feedBits (p c : BitVec w) (l : List Bool) : BitVec w := l.foldl (shiftIn p) c

/-- The `k` low bits of a number, lowest first. -/
def lowBits : Nat → Nat → List Bool
  | 0, _ => []
  | k + 1, n => n.testBit 0 :: lowBits k (n / 2)

/-- The bits of a byte in the order in which they are fed. -/
def byteBits (b : UInt8) : List Bool := lowBits 8 b.toNat

/-- A bit of the message is added to the bit that falls out. -/
theorem shiftIn_eq (hw : 0 < w) (c : BitVec w) (b : Bool) :
    shiftIn p c b = round p (c ^^^ BitVec.ofNat w b.toNat) := by
  have hlow : (c ^^^ BitVec.ofNat w b.toNat).getLsbD 0 = (c.getLsbD 0 != b) := by
    rw [BitVec.getLsbD_xor, BitVec.getLsbD_ofNat]
    cases b <;> simp [hw]
  have hhigh : (c ^^^ BitVec.ofNat w b.toNat) >>> 1 = c >>> 1 := by
    have hgone : BitVec.ofNat w b.toNat >>> 1 = 0#w := by
      apply BitVec.eq_of_toNat_eq
      have hle : b.toNat % 2 ^ w ≤ b.toNat := Nat.mod_le _ _
      have hbit := b.toNat_lt
      rw [BitVec.toNat_ushiftRight, BitVec.toNat_ofNat, Nat.shiftRight_eq_div_pow,
        Nat.div_eq_of_lt (by omega), BitVec.toNat_ofNat, Nat.zero_mod]
    rw [BitVec.ushiftRight_xor_distrib, hgone, BitVec.xor_zero]
  unfold shiftIn round
  rw [hlow, hhigh]

/-- **The bits of a number that fits the register** are added to it as one number. -/
theorem feedBits_lowBits : ∀ (k n : Nat) (c : BitVec w), n < 2 ^ k → k ≤ w →
    feedBits p c (lowBits k n) = (round p)^[k] (c ^^^ BitVec.ofNat w n)
  | 0, n, c, hn, _ => by
      obtain rfl : n = 0 := by simpa using hn
      simp [feedBits, lowBits]
  | k + 1, n, c, hn, hk => by
      have hhalf : n / 2 < 2 ^ k := by rw [Nat.pow_succ] at hn; omega
      have hfit : 2 ^ 1 * (n / 2) < 2 ^ w := by
        have hle : 2 ^ (k + 1) ≤ 2 ^ w := Nat.pow_le_pow_right (by decide) hk
        omega
      have hbit : (n.testBit 0).toNat = n % 2 := by
        rw [Nat.testBit_zero]
        rcases Nat.mod_two_eq_zero_or_one n with h | h <;> rw [h] <;> rfl
      have hsplit : BitVec.ofNat w n =
          BitVec.ofNat w (n.testBit 0).toNat ^^^ BitVec.ofNat w (2 ^ 1 * (n / 2)) := by
        have hlow : n % 2 < 2 ^ 1 := Nat.mod_lt n (by decide)
        rw [hbit, ← ofNat_add_mul hlow, Nat.pow_one, Nat.mod_add_div]
      have hround : shiftIn p c (n.testBit 0) ^^^ BitVec.ofNat w (n / 2) =
          round p (c ^^^ BitVec.ofNat w n) := by
        have hshift := rounds_shift (p := p) 1 _ hfit
        rw [Function.iterate_one] at hshift
        rw [hsplit, ← BitVec.xor_assoc, round_xor, hshift, shiftIn_eq (by omega)]
      have ih := feedBits_lowBits k (n / 2) (shiftIn p c (n.testBit 0)) hhalf (by omega)
      rw [Function.iterate_succ_apply, ← hround, ← ih]
      rfl

/-- **A byte is fed bit by bit**, into a register of at least eight bits. -/
theorem feedBits_bytes (hw : 8 ≤ w) : ∀ (bs : List UInt8) (c : BitVec w),
    feedBits p c (bs.flatMap byteBits) = feed p c bs
  | [], _ => rfl
  | b :: bs, c => by
      have hbyte : feedBits p c (byteBits b) = feedByte p c b :=
        feedBits_lowBits 8 b.toNat c b.toNat_lt hw
      rw [List.flatMap_cons, feedBits, List.foldl_append]
      rw [feedBits] at hbyte
      rw [hbyte]
      exact feedBits_bytes hw bs _

end Crc
