/-
  File:      SloFabric/Library/Latch.lean
  Subject:   A latch: a signal sets it, clears it or leaves it as it is.

  * `latch`: what one signal does, `latched`: what a sequence of signals does;
  * `latched_iff`: a latch that was open is closed after a sequence if and only if some signal of
    the sequence set it and none from there on cleared it.
-/
import Mathlib.Data.List.Induction

/-- What a signal does to a latch. -/
inductive Signal where
  | set | hold | clear
  deriving DecidableEq, Repr

def latch (closed : Bool) : Signal → Bool
  | .set => true
  | .hold => closed
  | .clear => false

def latched (closed : Bool) (signals : List Signal) : Bool := signals.foldl latch closed

theorem latched_push (closed : Bool) (signals : List Signal) (x : Signal) :
    latched closed (signals ++ [x]) = latch (latched closed signals) x := by
  unfold latched
  rw [List.foldl_append]
  rfl

/-- What stands at a place of a list with one more entry. -/
theorem getElem?_push {α : Type} {l : List α} {x y : α} {i : Nat} :
    (l ++ [x])[i]? = some y ↔ l[i]? = some y ∨ i = l.length ∧ x = y := by
  rcases Nat.lt_trichotomy i l.length with hi | rfl | hi
  · rw [List.getElem?_append_left hi]
    exact ⟨Or.inl, fun h => h.resolve_right fun h' => absurd h'.1 (Nat.ne_of_lt hi)⟩
  · simp
  · rw [List.getElem?_eq_none (by simp; omega), List.getElem?_eq_none (Nat.le_of_lt hi)]
    exact ⟨fun h => (by cases h), fun h => absurd (h.resolve_left (by simp)).1 (Nat.ne_of_gt hi)⟩

/-- **A latch is closed exactly when it was set and not cleared since.** -/
theorem latched_iff (signals : List Signal) : latched false signals = true ↔
    ∃ j : Nat, signals[j]? = some Signal.set ∧
      ∀ i : Nat, j ≤ i → signals[i]? ≠ some Signal.clear := by
  induction signals using List.reverseRecOn with
  | nil => simp [latched]
  | append_singleton l x ih =>
    rw [latched_push]
    cases x with
    | set =>
      refine iff_of_true rfl ⟨l.length, getElem?_push.mpr (Or.inr ⟨rfl, rfl⟩), fun i hi h => ?_⟩
      rcases getElem?_push.mp h with h | ⟨_, h⟩
      · rw [List.getElem?_eq_none hi] at h
        cases h
      · cases h
    | hold =>
      rw [latch, ih]
      constructor
      · rintro ⟨j, hj, hno⟩
        refine ⟨j, getElem?_push.mpr (Or.inl hj), fun i hi h => ?_⟩
        rcases getElem?_push.mp h with h | ⟨_, h⟩
        · exact hno i hi h
        · cases h
      · rintro ⟨j, hj, hno⟩
        rcases getElem?_push.mp hj with hj | ⟨_, hj⟩
        · exact ⟨j, hj, fun i hi h => hno i hi (getElem?_push.mpr (Or.inl h))⟩
        · cases hj
    | clear =>
      -- the last signal clears whatever was set before
      refine iff_of_false (by simp [latch]) ?_
      rintro ⟨j, hj, hno⟩
      refine hno l.length ?_ (getElem?_push.mpr (Or.inr ⟨rfl, rfl⟩))
      rcases getElem?_push.mp hj with hj | ⟨_, hj⟩
      · exact Nat.le_of_lt (List.getElem?_eq_some_iff.mp hj).1
      · cases hj
