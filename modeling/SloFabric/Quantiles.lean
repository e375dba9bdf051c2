/-
  File:      SloFabric/Quantiles.lean
  Subject:   The quantile store, and nearest-rank quantiles.

  * `QuantileStore`: a bounded store of values; a full one takes no more, and one with room for
    them takes all (`addAll_samples`);
  * `rankIndex`, `nearestRank`: the place the code computes, and the value there; a window and a
    store select alike;
  * `rankOf`, `rankIndex_eq`: over exact numbers the place is that of rank `max 1 ⌈p n⌉`;
  * `OrderStatistic`, `quantile_order_statistic`: so a quantile is the entry of that rank.
-/
import SloFabric.Window
import SloFabric.Exact
import SloFabric.Library.OrderStatistics
import Mathlib.Algebra.Order.Floor.Ring

namespace SloFabric

open Double

/-! ## 1. The quantile store -/

/-- Bounded exact quantile store over real values. -/
structure QuantileStore (R : Type) where
  capacity : Nat
  samples : List R := []

section Store

variable {R : Type} [Double R]

/-- The place of a quantile among `n` values in order. -/
def rankIndex (n : Nat) (p : R) : Nat :=
  let p := SampleWindow.clamp01 p
  if le p (ofRat 0) then 0
  else
    let rank : R := ceil (mul p (ofSize n))
    let rank : R := if lt rank (ofRat 1) then ofRat 1 else rank
    Nat.min ((trunc rank).toNat - 1) (n - 1)

/-- The value at that place, `0` where there is none. -/
def nearestRank (samples : List R) (p : R) : R :=
  let s := samples.insertionSort fun a b => lt b a = false
  s.getD (rankIndex s.length p) (ofRat 0)

namespace QuantileStore

omit [Double R] in
/-- The constructor: a capacity of `0` becomes `1`. -/
def make (capacity : Nat) : QuantileStore R :=
  { capacity := if capacity = 0 then 1 else capacity }

omit [Double R] in
/-- A store at its capacity takes no value. -/
def add (s : QuantileStore R) (value : R) : QuantileStore R × Bool :=
  if s.capacity ≤ s.samples.length then (s, false)
  else ({ s with samples := s.samples ++ [value] }, true)

/-- Is there enough to compute the quantile? -/
def sufficient (s : QuantileStore R) (p : R) : Bool :=
  if s.samples.isEmpty then false
  else
    let rank : R := ceil (mul p (ofSize s.samples.length))
    le (ofRat 1) rank && decide ((trunc rank).toNat ≤ s.samples.length)

def quantile (s : QuantileStore R) (p : R) : R := nearestRank s.samples p

omit [Double R] in
/-- What a store with room for it takes. -/
theorem add_samples {s : QuantileStore R} (h : s.samples.length < s.capacity) (value : R) :
    (s.add value).1 = { s with samples := s.samples ++ [value] } := by
  unfold add
  rw [if_neg (Nat.not_le.mpr h)]

/-- A store given one value after another. -/
def addAll (s : QuantileStore R) (values : List R) : QuantileStore R :=
  values.foldl (fun s v => (s.add v).1) s

omit [Double R] in
/-- **A store with room for all of them holds all of them**, in the order in which they came. -/
theorem addAll_samples {s : QuantileStore R} {values : List R}
    (h : s.samples.length + values.length ≤ s.capacity) :
    (s.addAll values).samples = s.samples ++ values := by
  induction values generalizing s with
  | nil => exact (List.append_nil _).symm
  | cons v rest ih =>
    rw [List.length_cons] at h
    have hadd := add_samples (by omega : s.samples.length < s.capacity) v
    have hroom : (s.add v).1.samples.length + rest.length ≤ (s.add v).1.capacity := by
      rw [hadd, List.length_append, List.length_singleton]
      show s.samples.length + 1 + rest.length ≤ s.capacity
      omega
    calc (s.addAll (v :: rest)).samples = (s.add v).1.samples ++ rest := ih hroom
      _ = s.samples ++ v :: rest := by rw [hadd, List.append_assoc, List.singleton_append]

end QuantileStore

/-- **A window selects as a store does.** -/
theorem window_quantile (w : SampleWindow R) : w.quantile = nearestRank w.values := rfl

end Store

/-! ## 2. Over exact numbers -/

/-- The rank of a quantile among `n` values, counted from `1`. -/
def rankOf (n : Nat) (p : ℚ) : Nat := Nat.max 1 ⌈p * n⌉₊

theorem rankOf_le {n : Nat} (hn : 1 ≤ n) {p : ℚ} (h1 : p ≤ 1) : rankOf n p ≤ n := by
  refine Nat.max_le.mpr ⟨hn, Nat.ceil_le.mpr ?_⟩
  have hpos : (0 : ℚ) ≤ n := Nat.cast_nonneg n
  nlinarith

theorem rankOf_mono (n : Nat) {p p' : ℚ} (h : p ≤ p') : rankOf n p ≤ rankOf n p' :=
  max_le_max le_rfl (Nat.ceil_le_ceil (mul_le_mul_of_nonneg_right h (Nat.cast_nonneg n)))

theorem clamp01_of_range {p : ℚ} (h0 : 0 ≤ p) (h1 : p ≤ 1) : SampleWindow.clamp01 p = p := by
  have hlow : lt p (ofRat 0 : ℚ) = false := decide_eq_false (not_lt.mpr h0)
  have hhigh : lt (ofRat 1 : ℚ) p = false := decide_eq_false (not_lt.mpr h1)
  unfold SampleWindow.clamp01
  rw [hlow, hhigh, if_neg Bool.false_ne_true, if_neg Bool.false_ne_true]

/-- The rank as the code computes it. -/
theorem ceil_rank {n : Nat} {p : ℚ} (h0 : 0 ≤ p) :
    (ceil (mul p (ofSize n)) : ℚ) = ((⌈p * n⌉₊ : ℤ) : ℚ) := by
  rw [Int.natCast_ceil_eq_ceil (mul_nonneg h0 (Nat.cast_nonneg n))]
  rfl

theorem trunc_natCast (k : Nat) : trunc (((k : ℤ) : ℚ)) = (k : ℤ) := by
  show (if ((k : ℤ) : ℚ) < 0 then ⌈((k : ℤ) : ℚ)⌉ else ⌊((k : ℤ) : ℚ)⌋) = _
  rw [Int.ceil_intCast, Int.floor_intCast, ite_self]

/-- **When there is enough**: some value, and not the quantile of `0`. -/
theorem QuantileStore.sufficient_iff {s : QuantileStore ℚ} {p : ℚ} (h0 : 0 ≤ p) (h1 : p ≤ 1) :
    s.sufficient p = true ↔ s.samples ≠ [] ∧ 0 < p := by
  unfold QuantileStore.sufficient
  simp only [ceil_rank h0, trunc_natCast, Int.toNat_natCast]
  cases hs : s.samples with
  | nil => simp
  | cons x l =>
    have hlen : 1 ≤ (x :: l).length := Nat.le_add_left 1 l.length
    have hpos : (0 : ℚ) < (x :: l).length := by exact_mod_cast hlen
    have hle : ⌈p * (x :: l).length⌉₊ ≤ (x :: l).length :=
      (Nat.le_max_right 1 _).trans (rankOf_le hlen h1)
    have hone : le (ofRat 1 : ℚ) (((⌈p * (x :: l).length⌉₊ : ℕ) : ℤ) : ℚ) = true ↔ 0 < p := by
      have hcast : (1 : ℚ) ≤ (((⌈p * (x :: l).length⌉₊ : ℕ) : ℤ) : ℚ) ↔
          1 ≤ ⌈p * (x :: l).length⌉₊ := by
        rw [Int.cast_natCast, Nat.one_le_cast]
      refine decide_eq_true_iff.trans (hcast.trans (Nat.one_le_ceil_iff.trans ?_))
      exact mul_pos_iff_of_pos_right hpos
    rw [if_neg (by simp), Bool.and_eq_true, hone, decide_eq_true_eq, and_iff_left hle]
    simp

/-- **The place is that of the rank.** -/
theorem rankIndex_eq {n : Nat} (hn : 1 ≤ n) {p : ℚ} (h0 : 0 ≤ p) (h1 : p ≤ 1) :
    rankIndex n p = rankOf n p - 1 := by
  unfold rankIndex
  rw [clamp01_of_range h0 h1]
  rcases eq_or_lt_of_le h0 with rfl | hpos
  · have hzero : le (0 : ℚ) (ofRat 0 : ℚ) = true := decide_eq_true le_rfl
    simp [hzero, rankOf]
  · have hnot : le p (ofRat 0 : ℚ) = false := decide_eq_false (not_le.mpr hpos)
    have hprod : 0 < p * n := mul_pos hpos (by exact_mod_cast hn)
    have hone : 1 ≤ ⌈p * n⌉₊ := Nat.one_le_ceil_iff.mpr hprod
    have hrank : lt (ceil (mul p (ofSize n)) : ℚ) (ofRat 1) = false := by
      have hcast : (1 : ℚ) ≤ ((⌈p * n⌉₊ : ℤ) : ℚ) := by exact_mod_cast hone
      rw [ceil_rank h0]
      exact decide_eq_false (not_lt.mpr hcast)
    have hle := rankOf_le hn h1
    unfold rankOf at hle ⊢
    simp only [hnot, hrank, Bool.false_eq_true, if_false]
    rw [ceil_rank h0, trunc_natCast, Int.toNat_natCast]
    have hmax : Nat.max 1 ⌈p * n⌉₊ = ⌈p * n⌉₊ := Nat.max_eq_right hone
    rw [hmax] at hle ⊢
    exact Nat.min_eq_left (Nat.sub_le_sub_right hle 1)

/-- **The place is always one of the list.** -/
theorem rankIndex_lt {n : Nat} (hn : 1 ≤ n) (p : ℚ) : rankIndex n p < n := by
  have hlast (k : Nat) : Nat.min k (n - 1) < n :=
    Nat.lt_of_le_of_lt (Nat.min_le_right k (n - 1)) (Nat.sub_lt hn Nat.one_pos)
  unfold rankIndex
  simp only
  split
  · exact hn
  · exact hlast _

theorem sort_eq (l : List ℚ) :
    (l.insertionSort fun a b => lt b a = false) = l.insertionSort (· ≤ ·) := by
  have hmap := List.map_insertionSort (s := (· ≤ ·)) (fun a b : ℚ => lt b a = false) id l
    fun a _ b _ => decide_eq_false_iff_not.trans not_lt
  simpa using hmap

/-- **The quantiles of a list are its order statistics.** -/
structure OrderStatistic (l : List ℚ) (quantile : ℚ → ℚ) : Prop where
  index : ∀ p : ℚ, rankIndex l.length p < l.length
  kth : ∀ p : ℚ, 0 ≤ p → p ≤ 1 → rankIndex l.length p = rankOf l.length p - 1 ∧
    (l.insertionSort (· ≤ ·))[rankOf l.length p - 1]? = some (quantile p) ∧
    IsKthSmallest (rankOf l.length p) l (quantile p)
  mono : ∀ p p' : ℚ, 0 ≤ p → p ≤ p' → p' ≤ 1 → quantile p ≤ quantile p'
  least : quantile 0 ∈ l ∧ ∀ y ∈ l, quantile 0 ≤ y
  greatest : quantile 1 ∈ l ∧ ∀ y ∈ l, y ≤ quantile 1

theorem nearestRank_kth {l : List ℚ} (hl : l ≠ []) {p : ℚ} (h0 : 0 ≤ p) (h1 : p ≤ 1) :
    (l.insertionSort (· ≤ ·))[rankOf l.length p - 1]? = some (nearestRank l p) ∧
      IsKthSmallest (rankOf l.length p) l (nearestRank l p) := by
  have hlen : 1 ≤ l.length := List.length_pos_iff.mpr hl
  have hrank : rankOf l.length p - 1 + 1 = rankOf l.length p :=
    Nat.sub_add_cancel (Nat.le_max_left _ _)
  have hplace : (l.insertionSort (· ≤ ·))[rankOf l.length p - 1]? = some (nearestRank l p) := by
    unfold nearestRank
    have hle := rankOf_le hlen h1
    simp only [sort_eq, List.length_insertionSort, rankIndex_eq hlen h0 h1]
    have hin : rankOf l.length p - 1 < (l.insertionSort (· ≤ ·)).length := by
      rw [List.length_insertionSort]
      omega
    rw [List.getD_eq_getElem?_getD, List.getElem?_eq_getElem hin, Option.getD_some]
  exact ⟨hplace, hrank ▸ isKthSmallest_sorted hplace⟩

theorem nearestRank_orderStatistic {l : List ℚ} (hl : l ≠ []) :
    OrderStatistic l (nearestRank l) := by
  have hlen : 1 ≤ l.length := List.length_pos_iff.mpr hl
  have hfirst : rankOf l.length 0 = 1 := by simp [rankOf]
  have hlast : rankOf l.length 1 = l.length := by
    rw [rankOf, one_mul, Nat.ceil_natCast]
    exact Nat.max_eq_right hlen
  have h0 := (nearestRank_kth hl le_rfl zero_le_one).2
  have h1 := (nearestRank_kth hl zero_le_one le_rfl).2
  rw [hfirst] at h0
  rw [hlast] at h1
  exact ⟨rankIndex_lt hlen,
    fun p hp hp' => ⟨rankIndex_eq hlen hp hp', nearestRank_kth hl hp hp'⟩,
    fun p p' hp hle hp' => (nearestRank_kth hl hp (hle.trans hp')).2.mono
      (nearestRank_kth hl (hp.trans hle) hp').2 (rankOf_mono _ hle),
    ⟨h0.mem, h0.first⟩, ⟨h1.mem, h1.last⟩⟩

/-- The order of the values does not matter. -/
theorem nearestRank_perm {l l' : List ℚ} (h : l.Perm l') : nearestRank l = nearestRank l' := by
  have hsort : l.insertionSort (· ≤ ·) = l'.insertionSort (· ≤ ·) :=
    List.Perm.eq_of_pairwise' (r := (· ≤ ·)) (List.pairwise_insertionSort _ l)
      (List.pairwise_insertionSort _ l')
      ((List.perm_insertionSort _ l).trans (h.trans (List.perm_insertionSort _ l').symm))
  funext p
  unfold nearestRank
  rw [sort_eq, sort_eq, hsort]

/-- **Nearest-rank quantiles are the order statistics**, of a window and of a store, whatever the
    order in which the values came. A store has enough for every quantile but that of `0`. -/
theorem quantile_order_statistic :
    (∀ w : SampleWindow ℚ, w.samples ≠ [] → OrderStatistic w.values w.quantile) ∧
      (∀ s : QuantileStore ℚ, s.samples ≠ [] → OrderStatistic s.samples s.quantile) ∧
      (∀ w w' : SampleWindow ℚ, w.values.Perm w'.values → w.quantile = w'.quantile) ∧
      (∀ s s' : QuantileStore ℚ, s.samples.Perm s'.samples → s.quantile = s'.quantile) ∧
      (∀ (s : QuantileStore ℚ) (l l' : List ℚ), l.Perm l' →
        s.samples.length + l.length ≤ s.capacity →
        (s.addAll l).quantile = (s.addAll l').quantile) ∧
      ∀ (s : QuantileStore ℚ) (p : ℚ), 0 ≤ p → p ≤ 1 →
        (s.sufficient p = true ↔ s.samples ≠ [] ∧ 0 < p) := by
  refine ⟨fun w hw => ?_, fun s hs => nearestRank_orderStatistic hs, fun w w' h => ?_,
    fun s s' h => nearestRank_perm h, fun s l l' h hroom => nearestRank_perm ?_,
    fun s p h0 h1 => QuantileStore.sufficient_iff h0 h1⟩
  · rw [window_quantile]
    exact nearestRank_orderStatistic fun hnil => hw (List.map_eq_nil_iff.mp hnil)
  · rw [window_quantile, window_quantile, nearestRank_perm h]
  · rw [QuantileStore.addAll_samples hroom, QuantileStore.addAll_samples (h.length_eq ▸ hroom)]
    exact h.append_left s.samples

example : (⟨8, [5, 1, 4, 2, 3, 1]⟩ : QuantileStore ℚ).quantile (1 / 2) = 2 := by decide +kernel

end SloFabric
