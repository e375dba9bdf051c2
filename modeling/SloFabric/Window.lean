/-
  File:      SloFabric/Window.lean
  Subject:   The sample window of one objective.

  Samples are held oldest first. The quantile store the source fills beside them is left out of the
  window: `quantile` sorts the samples themselves, and nothing reads the store
  (`SloFabric/Quantiles.lean` has it by itself).
-/
import SloFabric.Contract
import Mathlib.Data.List.Sort

namespace SloFabric

inductive IngestStatus where
  | accepted | duplicate | rollback | late | closed | invalid
  deriving DecidableEq, Repr

structure WindowSample (R : Type) where
  time : Duration
  value : R
  seq : UInt64
  deriving DecidableEq

structure SampleWindow (R : Type) where
  type : WindowType
  interval : Duration
  capacity : Nat
  samples : List (WindowSample R) := []
  lastTime : Duration := 0
  lastSeq : UInt64 := 0
  bucketStart : Duration := 0
  hasBucket : Bool := false
  deriving DecidableEq

namespace SampleWindow

variable {R : Type}

/-- The constructor: a capacity of `0` becomes `1`. -/
def make (type : WindowType) (duration : Duration) (capacity : Nat) : SampleWindow R :=
  { type := type, interval := duration, capacity := if capacity = 0 then 1 else capacity }

def reset (w : SampleWindow R) : SampleWindow R :=
  { w with samples := [], lastTime := 0, lastSeq := 0, bucketStart := 0, hasBucket := false }

/-- `while (samples_.size() > capacity_) evict_front()`. -/
def evictOver (capacity : Nat) (l : List (WindowSample R)) : List (WindowSample R) :=
  l.drop (l.length - capacity)

/-- Drop samples from the front while they are at least one interval old. -/
def evictByAge (interval now : Duration) (l : List (WindowSample R)) : List (WindowSample R) :=
  if interval ≤ 0 then l else l.dropWhile fun s => decide (interval ≤ now - s.time)

variable [Double R]

open Double

/-- Offer one sample. Rejections keep the samples; a late sample still moves `lastTime`, and
    every sample that is no rollback moves `lastSeq`. -/
def ingest (w : SampleWindow R) (time : Duration) (value : R) (seq : UInt64) :
    SampleWindow R × IngestStatus :=
  if !eq value value || lt (ofRat (10 ^ 300)) value then (w, .invalid)
  else if seq ≤ w.lastSeq then (w, .duplicate)
  else
    let s : WindowSample R := ⟨time, value, seq⟩
    if !w.hasBucket then
      ({ w with lastTime := time, lastSeq := seq, bucketStart := time, hasBucket := true,
                samples := w.samples ++ [s] }, .accepted)
    else if time < w.lastTime then (w, .rollback)
    else
      let w := { w with lastSeq := seq }
      match w.type with
      | .instantaneous => ({ w with samples := [s], lastTime := time }, .accepted)
      | .sliding =>
        ({ w with samples := evictOver w.capacity (evictByAge w.interval time (w.samples ++ [s])),
                  lastTime := time }, .accepted)
      | .rollingCount =>
        ({ w with samples := evictOver w.capacity (w.samples ++ [s]), lastTime := time },
          .accepted)
      | .tumbling | .fixedInterval =>
        if w.interval ≤ 0 then (w, .invalid)
        else
          let bucket := time / w.interval
          let startBucket := w.bucketStart / w.interval
          if bucket < startBucket then ({ w with lastTime := time }, .late)
          else if startBucket < bucket then
            ({ w with samples := [s], bucketStart := bucket * w.interval, lastTime := time },
              .accepted)
          else ({ w with samples := w.samples ++ [s], lastTime := time }, .accepted)

def size (w : SampleWindow R) : Nat := w.samples.length

def isEmpty (w : SampleWindow R) : Bool := w.samples.isEmpty

def values (w : SampleWindow R) : List R := w.samples.map (·.value)

def sum (w : SampleWindow R) : R := w.values.foldl add (ofRat 0)

def mean (w : SampleWindow R) : R :=
  if w.isEmpty then ofRat 0 else div w.sum (ofSize w.size)

/-- The fold `if (first || better(x, m)) m = x`. -/
def extremum (better : R → R → Bool) : List R → R
  | [] => ofRat 0
  | x :: xs => xs.foldl (fun m x => if better x m then x else m) x

def min (w : SampleWindow R) : R := extremum (fun x m => lt x m) w.values

def max (w : SampleWindow R) : R := extremum (fun x m => lt m x) w.values

/-- `std::clamp(p, 0.0, 1.0)`. -/
def clamp01 (p : R) : R :=
  if lt p (ofRat 0) then ofRat 0 else if lt (ofRat 1) p then ofRat 1 else p

/-- Nearest-rank quantile over the held samples. -/
def quantile (w : SampleWindow R) (p : R) : R :=
  let s := w.values.insertionSort fun a b => lt b a = false
  let p := clamp01 p
  let idx :=
    if le p (ofRat 0) then 0
    else
      let rank : R := ceil (mul p (ofSize s.length))
      let rank : R := if lt rank (ofRat 1) then ofRat 1 else rank
      Nat.min ((trunc rank).toNat - 1) (s.length - 1)
  s.getD idx (ofRat 0)

def quantileSufficient (w : SampleWindow R) (p : R) : Bool :=
  !w.isEmpty && le (ofRat 1) (ceil (mul p (ofSize w.size)))

end SampleWindow

end SloFabric
