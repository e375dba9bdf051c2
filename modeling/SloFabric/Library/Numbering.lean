/-
  File:      SloFabric/Library/Numbering.lean
  Subject:   A capped history whose entries are numbered by a counter that comes round.

  * `Counter`: numbers that are handed out one after the other, in a circle; `ahead k x` says
    how many of them come after `k` before `x` does;
  * `slide`: append to a history, giving up its oldest entry when it is full;
  * `Clear`: no number of the history occurs twice, and none is handed out again while its entry
    is in the history;
  * `Clear.slide`: appending the next number keeps the history clear. An entry at place `i` of
    `n` is given up after the next `(cap - n) + i` entries, which is what its number has to be
    ahead.
-/
import Mathlib.Data.List.Nodup

/-- Numbers handed out one after the other, `period` of them in a circle. -/
class Counter (K : Type) where
  next : K → K
  /-- How many numbers are handed out after `k` before `x` is. -/
  ahead : K → K → Nat
  period : Nat
  ahead_next : ∀ k, ahead k (next k) = 0
  ahead_succ : ∀ k x, 0 < ahead k x → ahead (next k) x + 1 = ahead k x
  ahead_self : ∀ k, ahead (next k) (next k) + 1 = period

/-- Append `x`, giving up the first element when there are `cap`. -/
def slide {α : Type} (cap : Nat) (l : List α) (x : α) : List α :=
  (if cap ≤ l.length then l.tail else l) ++ [x]

theorem map_slide {α β : Type} (f : α → β) (cap : Nat) (l : List α) (x : α) :
    (slide cap l x).map f = slide cap (l.map f) (f x) := by
  unfold slide
  rw [List.length_map, List.map_append]
  split
  · rw [List.map_tail]; rfl
  · rfl

/-- What a slide appends to was there before. -/
theorem mem_slide {α : Type} {cap : Nat} {l : List α} {x y : α} (h : y ∈ slide cap l x) :
    y = x ∨ y ∈ if cap ≤ l.length then l.tail else l := by
  rcases List.mem_append.mp h with h | h
  · exact Or.inr h
  · exact Or.inl (List.mem_singleton.mp h)

theorem mem_of_mem_kept {α : Type} {cap : Nat} {l : List α} {y : α}
    (h : y ∈ if cap ≤ l.length then l.tail else l) : y ∈ l := by
  split at h
  · exact List.mem_of_mem_tail h
  · exact h

open Counter

variable {K : Type} [Counter K]

/-- No number occurs twice, and none comes again while its entry is there. -/
structure Clear (cap : Nat) (k : K) (ids : List K) : Prop where
  nodup : ids.Nodup
  gone : ∀ (i : Nat) (x : K), ids[i]? = some x → cap - ids.length + i ≤ ahead k x

theorem Clear.nil (cap : Nat) (k : K) : Clear cap k [] := ⟨List.nodup_nil, by simp⟩

/-- The next number behind entries that are all still ahead of it. -/
theorem clear_append {cap : Nat} {k : K} {kept : List K} (hn : kept.Nodup)
    (hkept : ∀ (i : Nat) (x : K), kept[i]? = some x → cap - (kept.length + 1) + i + 1 ≤ ahead k x)
    (hcap : cap ≤ period K) (hlen : kept.length + 1 ≤ period K) :
    Clear cap (next k) (kept ++ [next k]) := by
  have hself := ahead_self k
  refine ⟨List.nodup_append.mpr ⟨hn, by simp, fun x hx y hy => ?_⟩, fun i x hx => ?_⟩
  · rw [List.mem_singleton.mp hy]
    rintro rfl
    obtain ⟨i, hi⟩ := List.mem_iff_getElem?.mp hx
    have ha := hkept i _ hi
    rw [ahead_next] at ha
    omega
  · rw [List.length_append, List.length_singleton]
    by_cases hi : i < kept.length
    · rw [List.getElem?_append_left hi] at hx
      have ha := hkept i x hx
      have hs := ahead_succ k x (by omega)
      omega
    · rw [List.getElem?_append_right (by omega), List.getElem?_singleton] at hx
      split at hx
      · cases hx
        omega
      · cases hx

/-- **The next number keeps a history clear.** -/
theorem Clear.push {cap : Nat} {k : K} {ids : List K} (h : Clear cap k ids) (hpos : 0 < cap)
    (hcap : cap ≤ period K) (hlen : ids.length ≤ period K) :
    Clear cap (next k) (slide cap ids (next k)) := by
  unfold slide
  by_cases hfull : cap ≤ ids.length
  · rw [if_pos hfull]
    cases ids with
    | nil => exact absurd hpos (by simpa using hfull)
    | cons y rest =>
      rw [List.length_cons] at hfull hlen
      show Clear cap (next k) (rest ++ [next k])
      refine clear_append (List.nodup_cons.mp h.nodup).2 (fun i x hx => ?_) hcap hlen
      have ha := h.gone (i + 1) x (by simpa using hx)
      rw [List.length_cons] at ha
      omega
  · rw [if_neg hfull]
    refine clear_append h.nodup (fun i x hx => ?_) hcap (by omega)
    have ha := h.gone i x hx
    omega
