/-
  File:      SloFabric/Library/Runs.lean
  Subject:   Runs of a deterministic machine, with the answer of every step.

  `step s o` is what operation `o` does in state `s`: the next state and an answer, or `none`
  where the machine gives no meaning to the step. A `Run step C s₀ tr s` takes the operations of
  the trace `tr` from `s₀` to `s`, and every step meets the condition `C` in the state it is
  taken in (`fun _ _ => True` for arbitrary runs).

  * `Run.invariant`, `Run.history`: what one step preserves, a run preserves; the second also
    speaks about the trace;
  * `Run.append`: a run goes on from where another one ended; `Run.last`, `Run.first`, `Run.parts`,
    `Run.split`: every step of the trace was taken;
  * `Run.mono`: a run that meets a condition meets a weaker one; `Run.restrict`, `Run.along`: the
    operations of its trace, or an invariant, can be added to it;
  * `Run.transfer`: a machine that does the same in all states with an invariant has the same runs;
  * `Run.kept_iff`, `Run.kept_under_iff`, `Run.kept_along_iff`: a condition that says which steps
    keep an invariant holds along a run if and only if the invariant does;
  * `watch`: the machine with an observer that notes every step; `Run.watched`: it has the same
    runs;
  * `execute`: a list of operations taken one after the other; `Run.of_execute`,
    `Run.executed`, `Run.of_test`: it is a run, `execute_ops`: of these operations.
-/
import Mathlib.Data.List.Basic

variable {S O A : Type} {step : S → O → Option (S × A)} {C : S → O → Prop}

/-- The runs from `s₀` whose steps all meet `C`. -/
inductive Run (step : S → O → Option (S × A)) (C : S → O → Prop) (s₀ : S) :
    List (O × A) → S → Prop where
  | start : Run step C s₀ [] s₀
  | next {tr : List (O × A)} {s s' : S} {o : O} {a : A} (h : Run step C s₀ tr s) (hc : C s o)
      (hs : step s o = some (s', a)) : Run step C s₀ (tr ++ [(o, a)]) s'

namespace Run

/-- **The invariant rule.** -/
theorem invariant {s₀ s : S} {tr : List (O × A)} {I : S → Prop} (h : Run step C s₀ tr s)
    (h₀ : I s₀) (hI : ∀ s o s' a, I s → C s o → step s o = some (s', a) → I s') : I s := by
  induction h with
  | start => exact h₀
  | next _ hc hs ih => exact hI _ _ _ _ ih hc hs

/-- **The history rule**: an invariant that relates the state to the steps taken so far. -/
theorem history {s₀ s : S} {tr : List (O × A)} {I : List (O × A) → S → Prop}
    (h : Run step C s₀ tr s) (h₀ : I [] s₀)
    (hI : ∀ tr s o s' a, I tr s → C s o → step s o = some (s', a) → I (tr ++ [(o, a)]) s') :
    I tr s := by
  induction h with
  | start => exact h₀
  | next _ hc hs ih => exact hI _ _ _ _ _ ih hc hs

theorem mono {C' : S → O → Prop} {s₀ s : S} {tr : List (O × A)} (h : Run step C s₀ tr s)
    (hC : ∀ s o, C s o → C' s o) : Run step C' s₀ tr s := by
  induction h with
  | start => exact .start
  | next _ hc hs ih => exact .next ih (hC _ _ hc) hs

/-- A run all of whose operations have a property meets it as a condition. -/
theorem restrict {P : O → Prop} {s₀ s : S} {tr : List (O × A)} (h : Run step C s₀ tr s)
    (hP : ∀ x ∈ tr, P x.1) : Run step (fun s o => C s o ∧ P o) s₀ tr s := by
  induction h with
  | start => exact .start
  | next _ hc hs ih =>
    exact .next (ih fun x hx => hP x (List.mem_append_left _ hx))
      ⟨hc, hP _ (List.mem_append_right _ (List.mem_singleton.mpr rfl))⟩ hs

/-- An invariant holds all along. -/
theorem along {J : S → Prop} {s₀ s : S} {tr : List (O × A)} (h : Run step C s₀ tr s) (h₀ : J s₀)
    (hJ : ∀ s o s' a, J s → C s o → step s o = some (s', a) → J s') :
    Run step (fun s o => C s o ∧ J s) s₀ tr s ∧ J s := by
  induction h with
  | start => exact ⟨.start, h₀⟩
  | next _ hc hs ih => exact ⟨.next ih.1 ⟨hc, ih.2⟩ hs, hJ _ _ _ _ ih.2 hc hs⟩

/-- A machine that does the same in all states with an invariant takes the same run. -/
theorem transfer {step' : S → O → Option (S × A)} {I : S → Prop} {s₀ s : S} {tr : List (O × A)}
    (h : Run step C s₀ tr s) (h₀ : I s₀)
    (hI : ∀ s o s' a, I s → step s o = some (s', a) → I s')
    (hsame : ∀ s o, I s → step s o = step' s o) : Run step' C s₀ tr s := by
  induction h with
  | start => exact .start
  | next hrun hc hs ih =>
    have hi := hrun.invariant h₀ fun s o s' a hi _ hs => hI s o s' a hi hs
    exact .next ih hc (hsame _ _ hi ▸ hs)

/-- **The exact condition**, among the runs under another one: where `C` says of every step whether
    it keeps `I`, the runs under `C` are those in which `I` holds all along. -/
theorem kept_under_iff {B : S → O → Prop} {I : S → Prop} {s₀ s : S} {tr : List (O × A)} (h₀ : I s₀)
    (hI : ∀ s o s' a, I s → B s o → step s o = some (s', a) → (I s' ↔ C s o)) :
    Run step (fun s o => B s o ∧ C s o) s₀ tr s ↔
      Run step (fun s o => B s o ∧ I s) s₀ tr s ∧ I s := by
  constructor
  · intro h
    obtain ⟨hrun, hs⟩ := h.along h₀ fun s o s' a hi hc hs => (hI s o s' a hi hc.1 hs).mpr hc.2
    exact ⟨hrun.mono fun s o h => ⟨h.1.1, h.2⟩, hs⟩
  · rintro ⟨h, hs⟩
    induction h with
    | start => exact .start
    | next _ hc hstep ih =>
      exact .next (ih hc.2) ⟨hc.1, (hI _ _ _ _ hc.2 hc.1 hstep).mp hs⟩ hstep

/-- **The exact condition**: where `C` says of every step whether it keeps `I`, the runs under `C`
    are those in which `I` holds all along. -/
theorem kept_iff {I : S → Prop} {s₀ s : S} {tr : List (O × A)} (h₀ : I s₀)
    (hI : ∀ s o s' a, I s → step s o = some (s', a) → (I s' ↔ C s o)) :
    Run step C s₀ tr s ↔ Run step (fun s _ => I s) s₀ tr s ∧ I s := by
  have hunder : Run step (fun s o => True ∧ C s o) s₀ tr s ↔
      Run step (fun s _ => True ∧ I s) s₀ tr s ∧ I s :=
    kept_under_iff h₀ fun s o s' a hi _ hs => hI s o s' a hi hs
  simpa only [true_and] using hunder

/-- **The exact condition**, with the help of an invariant that every step keeps. -/
theorem kept_along_iff {I J : S → Prop} {s₀ s : S} {tr : List (O × A)} (h₀ : I s₀) (hJ₀ : J s₀)
    (hJ : ∀ s o s' a, J s → step s o = some (s', a) → J s')
    (hI : ∀ s o s' a, J s → I s → step s o = some (s', a) → (I s' ↔ C s o)) :
    Run step C s₀ tr s ↔ Run step (fun s _ => I s) s₀ tr s ∧ I s := by
  have hadd {D : S → O → Prop} (h : Run step D s₀ tr s) :
      Run step (fun s o => J s ∧ D s o) s₀ tr s :=
    (h.along hJ₀ fun s o s' a hj _ hs => hJ s o s' a hj hs).1.mono fun _ _ h => ⟨h.2, h.1⟩
  have hunder : Run step (fun s o => J s ∧ C s o) s₀ tr s ↔
      Run step (fun s _ => J s ∧ I s) s₀ tr s ∧ I s :=
    kept_under_iff h₀ fun s o s' a hi hj hs => hI s o s' a hj hi hs
  constructor
  · intro h
    obtain ⟨hrun, hs⟩ := hunder.mp (hadd h)
    exact ⟨hrun.mono fun _ _ h => h.2, hs⟩
  · rintro ⟨h, hs⟩
    exact (hunder.mpr ⟨hadd h, hs⟩).mono fun _ _ h => h.2

theorem append {s₀ s₁ s₂ : S} {tr₁ tr₂ : List (O × A)} (h₁ : Run step C s₀ tr₁ s₁)
    (h₂ : Run step C s₁ tr₂ s₂) : Run step C s₀ (tr₁ ++ tr₂) s₂ := by
  induction h₂ with
  | start => simpa using h₁
  | next _ hc hs ih => rw [← List.append_assoc]; exact .next ih hc hs

theorem unstarted {s₀ s : S} (h : Run step C s₀ [] s) : s = s₀ := by
  generalize htr : ([] : List (O × A)) = tr at h
  cases h with
  | start => rfl
  | next => simp at htr

/-- The last step of a run. -/
theorem last {s₀ s : S} {tr : List (O × A)} {x : O × A} (h : Run step C s₀ (tr ++ [x]) s) :
    ∃ s₁, Run step C s₀ tr s₁ ∧ C s₁ x.1 ∧ step s₁ x.1 = some (s, x.2) := by
  generalize htr : tr ++ [x] = tr' at h
  cases h with
  | start => simp at htr
  | next hrun hc hs =>
    obtain ⟨rfl, hx⟩ := List.append_inj' htr rfl
    cases hx
    exact ⟨_, hrun, hc, hs⟩

/-- **Every step of the trace was taken.** -/
theorem split {s₀ s : S} {x : O × A} {tr₁ tr₂ : List (O × A)}
    (h : Run step C s₀ (tr₁ ++ x :: tr₂) s) :
    ∃ s₁ s₂, Run step C s₀ tr₁ s₁ ∧ step s₁ x.1 = some (s₂, x.2) ∧ Run step C s₂ tr₂ s := by
  generalize htr : tr₁ ++ x :: tr₂ = tr at h
  induction h generalizing tr₂ with
  | start => simp at htr
  | next hrun hc hs ih =>
    rcases List.eq_nil_or_concat' tr₂ with rfl | ⟨tr₃, y, rfl⟩
    · obtain ⟨rfl, hx⟩ := List.append_inj' htr rfl
      cases hx
      exact ⟨_, _, hrun, hs, .start⟩
    · rw [← List.cons_append, ← List.append_assoc] at htr
      obtain ⟨htr', hy⟩ := List.append_inj' htr rfl
      cases hy
      obtain ⟨s₁, s₂, h₁, h₂, h₃⟩ := ih htr'
      exact ⟨s₁, s₂, h₁, h₂, .next h₃ hc hs⟩

/-- A run goes through a state between two parts of its trace. -/
theorem parts {s₀ s : S} {tr₁ tr₂ : List (O × A)} (h : Run step C s₀ (tr₁ ++ tr₂) s) :
    ∃ s₁, Run step C s₀ tr₁ s₁ ∧ Run step C s₁ tr₂ s := by
  generalize htr : tr₁ ++ tr₂ = tr at h
  induction h generalizing tr₂ with
  | start =>
    obtain ⟨rfl, rfl⟩ := List.append_eq_nil_iff.mp htr
    exact ⟨_, .start, .start⟩
  | @next tr₃ _ _ _ _ hrun hc hs ih =>
    rcases List.eq_nil_or_concat' tr₂ with rfl | ⟨tr₂, y, rfl⟩
    · rw [List.append_nil] at htr
      subst htr
      exact ⟨_, .next hrun hc hs, .start⟩
    · rw [← List.append_assoc] at htr
      obtain ⟨htr', hy⟩ := List.append_inj' htr rfl
      cases hy
      obtain ⟨s₁, h₁, h₂⟩ := ih htr'
      exact ⟨s₁, h₁, .next h₂ hc hs⟩

/-- The first step of a run. -/
theorem first {s₀ s : S} {x : O × A} {tr : List (O × A)} (h : Run step C s₀ (x :: tr) s) :
    ∃ s₁, C s₀ x.1 ∧ step s₀ x.1 = some (s₁, x.2) ∧ Run step C s₁ tr s := by
  have happ : Run step C s₀ ([] ++ [x] ++ tr) s := h
  obtain ⟨s₁, hx, hrest⟩ := happ.parts
  obtain ⟨s₂, hnil, hc, hs⟩ := hx.last
  obtain rfl := hnil.unstarted
  exact ⟨s₁, hc, hs, hrest⟩

end Run

/-- A state with what an observer has seen on the way to it. -/
structure Watched (S H : Type) where
  state : S
  seen : H

/-- The machine with an observer: `note` says what the observer remembers after a step. -/
def watch {H : Type} (step : S → O → Option (S × A)) (note : S → H → O × A → H)
    (w : Watched S H) (o : O) : Option (Watched S H × A) :=
  (step w.state o).map fun x => (⟨x.1, note w.state w.seen (o, x.2)⟩, x.2)

theorem watch_cases {H : Type} {note : S → H → O × A → H} {w w' : Watched S H} {o : O} {a : A}
    (h : watch step note w o = some (w', a)) :
    step w.state o = some (w'.state, a) ∧ w'.seen = note w.state w.seen (o, a) := by
  obtain ⟨⟨s, a'⟩, hs, he⟩ := Option.map_eq_some_iff.mp h
  cases he
  exact ⟨hs, rfl⟩

/-- **Watching changes nothing.** -/
theorem Run.watched {H : Type} (note : S → H → O × A → H) (h₀ : H) {s₀ s : S}
    {tr : List (O × A)} : Run step (fun _ _ => True) s₀ tr s ↔
      ∃ w, Run (watch step note) (fun _ _ => True) ⟨s₀, h₀⟩ tr w ∧ w.state = s := by
  constructor
  · intro h
    induction h with
    | start => exact ⟨_, .start, rfl⟩
    | @next _ _ s' o a _ _ hs ih =>
      obtain ⟨w, hw, rfl⟩ := ih
      have hstep : watch step note w o = some (⟨s', note w.state w.seen (o, a)⟩, a) := by
        rw [watch, hs]
        rfl
      exact ⟨_, .next hw trivial hstep, rfl⟩
  · rintro ⟨w, hw, rfl⟩
    induction hw with
    | start => exact .start
    | next _ _ hs ih => exact .next ih trivial (watch_cases hs).1

/-- Take the operations of a list one after the other, as long as the condition holds. -/
def execute (step : S → O → Option (S × A)) (c : S → O → Bool) : S → List O →
    Option (S × List (O × A))
  | s, [] => some (s, [])
  | s, o :: os =>
    if c s o then
      match step s o with
      | none => none
      | some (s', a) => (execute step c s' os).map fun x => (x.1, (o, a) :: x.2)
    else none

/-- An executed list of operations is a run under the condition. -/
theorem Run.of_execute {c : S → O → Bool} (hc : ∀ s o, c s o = true → C s o) :
    ∀ {os : List O} {s₀ s : S} {tr : List (O × A)},
    execute step c s₀ os = some (s, tr) → Run step C s₀ tr s
  | [], _, _, _, h => by cases h; exact .start
  | o :: os, s₀, s, tr, h => by
      unfold execute at h
      split at h
      · rename_i hco
        split at h
        · cases h
        · rename_i s' a hs
          obtain ⟨⟨s₁, tr₁⟩, hx, he⟩ := Option.map_eq_some_iff.mp h
          cases he
          exact (Run.next .start (hc _ _ hco) hs).append (Run.of_execute hc hx)
      · cases h

/-- The trace of an executed list has its operations. -/
theorem execute_ops {c : S → O → Bool} : ∀ {os : List O} {s₀ s : S} {tr : List (O × A)},
    execute step c s₀ os = some (s, tr) → tr.map (·.1) = os
  | [], _, _, _, h => by cases h; rfl
  | o :: os, s₀, s, tr, h => by
      unfold execute at h
      split at h
      · split at h
        · cases h
        · obtain ⟨⟨s₁, tr₁⟩, hx, he⟩ := Option.map_eq_some_iff.mp h
          cases he
          exact congrArg (o :: ·) (execute_ops hx)
      · cases h

/-- Where an executed list of operations ends there is a run to. -/
theorem Run.executed {c : S → O → Bool} (hc : ∀ s o, c s o = true → C s o) (s₀ : S)
    (os : List O) : ∃ tr, Run step C s₀ tr (((execute step c s₀ os).map (·.1)).getD s₀) := by
  cases h : execute step c s₀ os with
  | none => exact ⟨[], .start⟩
  | some x => exact ⟨x.2, .of_execute hc h⟩

/-- A list of operations that can be executed and passes a test is a run that passes it. -/
theorem Run.of_test {c : S → O → Bool} (hc : ∀ s o, c s o = true → C s o) {s₀ : S} {os : List O}
    {p : S × List (O × A) → Bool} (h : (execute step c s₀ os).any p = true) :
    ∃ s tr, Run step C s₀ tr s ∧ p (s, tr) = true := by
  obtain ⟨x, hx, hp⟩ := (Option.any_eq_true _ _).mp h
  exact ⟨x.1, x.2, .of_execute hc hx, hp⟩
