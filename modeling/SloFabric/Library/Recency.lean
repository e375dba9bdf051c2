/-
  File:      SloFabric/Library/Recency.lean
  Subject:   A bounded memory of the last entries of a log, without repetitions.

  * `recent cap log`: the last `cap` entries; `slide_recent`: appending to a full memory gives up
    its oldest entry, `slide_recent_long`: also where it is longer than the cap; `suffix_recent`:
    what a suffix holds; `take_append_suffix`: what comes before it;
  * `Spread cap log`: no entry is among the `cap` before it; `Spread.nodup`: so the memory holds
    no entry twice; `Spread.apart`: so between two occurrences of an entry there are at least
    `cap` different others;
  * `Remembers`: a ring and a lookup set hold the last entries of a log, with `Remembers.push`.
-/
import SloFabric.Library.Numbering
import Mathlib.Data.Finset.Card
import Mathlib.Data.Finset.Erase
import Mathlib.Data.List.Infix

variable {α : Type}

/-- The last `cap` entries of a log. -/
def recent (cap : Nat) (log : List α) : List α := log.drop (log.length - cap)

theorem recent_suffix (cap : Nat) (log : List α) : recent cap log <:+ log := List.drop_suffix _ _

theorem length_recent (cap : Nat) (log : List α) :
    (recent cap log).length = min log.length cap := by
  unfold recent
  rw [List.length_drop]
  omega

theorem recent_map {β : Type} (f : α → β) (cap : Nat) (log : List α) :
    recent cap (log.map f) = (recent cap log).map f := by
  unfold recent
  rw [List.length_map, List.map_drop]

/-- A list is a suffix of the log if it is its last entries. -/
theorem suffix_recent {l log : List α} (h : l <:+ log) : l = recent l.length log :=
  List.suffix_iff_eq_drop.mp h

/-- A suffix stays one when both are appended to. -/
theorem suffix_push {l log : List α} (h : l <:+ log) (x : α) : l ++ [x] <:+ log ++ [x] := by
  obtain ⟨front, rfl⟩ := h
  exact ⟨front, by simp⟩

theorem forall_mem_push {P : α → Prop} {l : List α} {x : α} :
    (∀ y ∈ l ++ [x], P y) ↔ (∀ y ∈ l, P y) ∧ P x := by
  rw [List.forall_mem_append, List.forall_mem_singleton]

theorem pairwise_push {r : α → α → Prop} {l : List α} {x : α} :
    (l ++ [x]).Pairwise r ↔ l.Pairwise r ∧ ∀ y ∈ l, r y x := by
  simp [List.pairwise_append]

/-- In a list in order no entry comes after the last one. -/
theorem pairwise_last {r : α → α → Prop} (hr : ∀ x, r x x) {l : List α} {x : α}
    (h : (l ++ [x]).Pairwise r) : ∀ y ∈ l ++ [x], r y x :=
  forall_mem_push.mpr ⟨(pairwise_push.mp h).2, hr x⟩

/-- What is left of a list that ends in `x` ends in it, if anything is left. -/
theorem suffix_last {l front : List α} {x : α} (h : l <:+ front ++ [x]) (hne : l ≠ []) :
    l.getLast? = some x := by
  rw [List.getLast?_eq_some_getLast hne, h.getLast hne]
  simp

theorem slide_recent {cap : Nat} (hpos : 0 < cap) (log : List α) (x : α) :
    slide cap (recent cap log) x = recent cap (log ++ [x]) := by
  have hlen : (log ++ [x]).length = log.length + 1 := by simp
  unfold slide
  rw [length_recent]
  unfold recent
  rw [hlen]
  by_cases hfull : cap ≤ log.length
  · have hmin : min log.length cap = cap := Nat.min_eq_right hfull
    have hstart : log.length + 1 - cap = log.length - cap + 1 := by omega
    rw [hmin, if_pos (Nat.le_refl cap), hstart, List.drop_append_of_le_length (by omega),
      List.tail_drop]
  · have hmin : min log.length cap = log.length := Nat.min_eq_left (by omega)
    have hold : log.length - cap = 0 := by omega
    have hnew : log.length + 1 - cap = 0 := by omega
    rw [hmin, if_neg hfull, hold, hnew, List.drop_zero, List.drop_zero]

/-- Appending to a memory that is longer than the cap keeps its length. -/
theorem slide_recent_long {cap kept : Nat} (hpos : 0 < cap) (hcap : cap ≤ kept) {log : List α}
    (hlog : cap = kept ∨ kept ≤ log.length) (x : α) :
    slide cap (recent kept log) x = recent kept (log ++ [x]) := by
  rcases hlog with rfl | hlog
  · exact slide_recent hpos log x
  · have hlen : (recent kept log).length = kept := by
      rw [length_recent, Nat.min_eq_right hlog]
    rw [← slide_recent (hpos.trans_le hcap), slide, slide, hlen, if_pos hcap,
      if_pos (Nat.le_refl _)]

/-- The last entries of a log, one entry later. -/
theorem recent_push (cap : Nat) (log : List α) (x : α) :
    recent cap (recent cap log ++ [x]) = recent cap (log ++ [x]) := by
  by_cases hfull : cap ≤ log.length
  · have hkept : recent cap log ++ [x] = (log ++ [x]).drop (log.length - cap) :=
      (List.drop_append_of_le_length (Nat.sub_le _ _)).symm
    have hlen : (recent cap log ++ [x]).length = cap + 1 := by
      rw [List.length_append, length_recent, Nat.min_eq_right hfull]
      rfl
    rw [recent, hlen, hkept, List.drop_drop, recent, List.length_append, List.length_singleton]
    congr 1
    omega
  · have hall : recent cap log = log := by
      rw [recent, Nat.sub_eq_zero_of_le (by omega), List.drop_zero]
    rw [hall]

/-- What is followed by fewer than `cap` entries is still remembered. -/
theorem mem_recent {cap : Nat} {a b : List α} (x : α) (h : b.length < cap) :
    x ∈ recent cap (a ++ x :: b) := by
  unfold recent
  have hlen : (a ++ x :: b).length = a.length + (b.length + 1) := by simp
  rw [hlen, List.drop_append_of_le_length (by omega)]
  exact List.mem_append_right _ List.mem_cons_self

/-- No entry is among the `cap` before it. -/
def Spread (cap : Nat) (log : List α) : Prop :=
  ∀ a x b, log = a ++ x :: b → x ∉ recent cap a

namespace Spread

variable {cap : Nat} {log : List α}

theorem nil (cap : Nat) : Spread cap ([] : List α) := fun _ _ _ h => by simp at h

theorem push {x : α} (h : Spread cap log) (hx : x ∉ recent cap log) : Spread cap (log ++ [x]) := by
  intro a y b heq
  rcases List.eq_nil_or_concat' b with rfl | ⟨b, z, rfl⟩
  · obtain ⟨rfl, hxy⟩ := List.append_inj' heq rfl
    cases hxy
    exact hx
  · rw [← List.cons_append, ← List.append_assoc] at heq
    exact h a y b (List.append_inj' heq rfl).1

theorem front {a b : List α} (h : Spread cap (a ++ b)) : Spread cap a := by
  rintro c x d rfl
  exact h c x (d ++ b) (by simp)

/-- The memory holds no entry twice. -/
theorem nodup (hpos : 0 < cap) (h : Spread cap log) : (recent cap log).Nodup := by
  induction log using List.reverseRecOn with
  | nil => simp [recent]
  | append_singleton log x ih =>
    have hx : x ∉ recent cap log := h log x [] rfl
    have hold := ih h.front
    rw [← slide_recent hpos]
    unfold slide
    refine List.nodup_append.mpr ⟨?_, List.nodup_singleton x, fun y hy z hz => ?_⟩
    · split
      · exact hold.sublist (List.tail_sublist _)
      · exact hold
    · rw [List.mem_singleton.mp hz]
      rintro rfl
      exact hx (mem_of_mem_kept hy)

/-- **Two occurrences are apart**: at least `cap` different others come in between. -/
theorem apart [DecidableEq α] (hpos : 0 < cap) {a b : List α} {x : α}
    (h : Spread cap (a ++ x :: b)) (hx : x ∉ recent cap (a ++ x :: b)) :
    cap ≤ (b.toFinset.erase x).card := by
  have hlong : cap ≤ b.length := by
    by_contra hshort
    exact hx (mem_recent x (by omega))
  have hsplit : b = b.take cap ++ b.drop cap := (List.take_append_drop cap b).symm
  -- the first `cap` of them are all that was remembered once they were there
  have hfront : Spread cap (a ++ x :: b.take cap) := by
    rw [hsplit] at h
    exact front (b := b.drop cap) (by simpa using h)
  have hmemory : recent cap (a ++ x :: b.take cap) = b.take cap := by
    have hlen : (a ++ x :: b.take cap).length - cap = (a ++ [x]).length := by
      simp only [List.length_append, List.length_cons, List.length_take, List.length_nil]
      omega
    unfold recent
    have hcons : a ++ x :: b.take cap = a ++ [x] ++ b.take cap := by simp
    rw [hlen, hcons, List.drop_left]
  have hnodup : (b.take cap).Nodup := hmemory ▸ hfront.nodup hpos
  have hother : x ∉ b.take cap := by
    intro hmem
    obtain ⟨c, d, hcd⟩ := List.append_of_mem hmem
    have hlt : c.length < cap := by
      have hle := List.length_take_le cap b
      rw [hcd, List.length_append, List.length_cons] at hle
      omega
    refine h (a ++ x :: c) x (d ++ b.drop cap) ?_ (mem_recent x hlt)
    calc a ++ x :: b = a ++ x :: ((c ++ x :: d) ++ b.drop cap) := by rw [← hcd, ← hsplit]
      _ = (a ++ x :: c) ++ x :: (d ++ b.drop cap) := by simp
  calc cap = (b.take cap).toFinset.card := by
        rw [List.toFinset_card_of_nodup hnodup, List.length_take, Nat.min_eq_left hlong]
    _ ≤ (b.toFinset.erase x).card := by
        refine Finset.card_le_card fun y hy => ?_
        have hy := List.mem_toFinset.mp hy
        refine Finset.mem_erase.mpr ⟨?_, List.mem_toFinset.mpr (List.mem_of_mem_take hy)⟩
        rintro rfl
        exact hother hy

end Spread

variable [DecidableEq α]

/-- The lookup set of a full ring without its oldest entry. -/
def forget (cap : Nat) (ring : List α) (set : Finset α) : Finset α :=
  if cap ≤ ring.length then
    match ring with
    | [] => set
    | old :: _ => set.erase old
  else set

theorem forget_subset (cap : Nat) (ring : List α) (set : Finset α) :
    forget cap ring set ⊆ set := by
  unfold forget
  split
  · split
    · exact Finset.Subset.refl set
    · exact Finset.erase_subset _ set
  · exact Finset.Subset.refl set

/-- A ring of at most `cap` different entries, with the lookup set of exactly these. -/
structure Exact (cap : Nat) (ring : List α) (set : Finset α) : Prop where
  bound : ring.length ≤ cap
  nodup : ring.Nodup
  lookup : set = ring.toFinset

/-- Ring and set remember the last entries of a log that repeats none it remembers. -/
structure Remembers (cap : Nat) (log ring : List α) (set : Finset α) : Prop where
  spread : Spread cap log
  last : ring = recent cap log
  lookup : set = ring.toFinset

namespace Remembers

variable {cap : Nat} {log ring : List α} {set : Finset α}

theorem nil (cap : Nat) : Remembers cap ([] : List α) [] ∅ :=
  ⟨.nil cap, by simp [recent], rfl⟩

theorem exact (hpos : 0 < cap) (h : Remembers cap log ring set) : Exact cap ring set where
  bound := by
    rw [h.last, length_recent]
    exact Nat.min_le_right _ _
  nodup := h.last ▸ h.spread.nodup hpos
  lookup := h.lookup

/-- What the set does not have is not among the last entries. -/
theorem not_recent (h : Remembers cap log ring set) {x : α} (hx : x ∉ set) :
    x ∉ recent cap log := by
  rwa [h.lookup, List.mem_toFinset, h.last] at hx

/-- **A new entry** takes the place of the oldest. -/
theorem push (hpos : 0 < cap) (h : Remembers cap log ring set) {x : α} (hx : x ∉ set) :
    Remembers cap (log ++ [x]) (slide cap ring x) (insert x (forget cap ring set)) where
  spread := h.spread.push (h.not_recent hx)
  last := by rw [h.last, slide_recent hpos]
  lookup := by
    have hnodup := (h.exact hpos).nodup
    have hkept : forget cap ring set =
        (if cap ≤ ring.length then ring.tail else ring).toFinset := by
      unfold forget
      rw [h.lookup]
      split
      · cases ring with
        | nil => rfl
        | cons old rest =>
          have hold : old ∉ rest.toFinset := by
            rw [List.mem_toFinset]
            exact (List.nodup_cons.mp hnodup).1
          simp [hold]
      · rfl
    rw [hkept]
    ext y
    simp [slide]

end Remembers
