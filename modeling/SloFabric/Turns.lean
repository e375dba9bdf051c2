/-
  File:      SloFabric/Turns.lean
  Subject:   The turns of an evaluation over objectives of distinct ids do not meet.

  * `acquire_turn_ne`: a turn leaves alone what the turns of other objectives acquire;
  * `evaluateObjectives_map`: over distinct ids every objective is judged as if it were the only
    one;
  * `accumulatorsAfter_judged`, `accumulatorsAfter_other`: what the loop leaves behind;
  * `outcomeOf`, `evaluate_eq`: what an evaluation of a contract answers, and the record of it.
-/
import SloFabric.Agreement

namespace SloFabric

variable {R : Type}

open Codec

/-! ## 1. Turns apart -/

theorem acquire_insert_ne (t : Accumulators R) {a : ObjectiveAccumulator R} {o : Objective R}
    (h : a.defn.id ≠ o.id) : acquire (t.insert a) o = acquire t o := by
  rw [acquire, acquire, t.find_insert_ne (Ne.symm h)]

variable [Double R]

theorem judged_id (t : Accumulators R) (o : Objective R) (now : Duration) :
    (judged t o now).defn.id = o.id := by
  simp [judged]

/-- A turn stores under the id of its objective only. -/
theorem acquire_turn_ne (t : Accumulators R) {o o' : Objective R} (now : Duration)
    (h : o.id ≠ o'.id) : acquire (evaluateObjective t o now).1 o' = acquire t o' := by
  rw [(evaluateObjective_spec t o now).1]
  exact acquire_insert_ne t (by rwa [judged_id])

/-- **Over distinct ids, every objective is judged on what it had before.** -/
theorem evaluateObjectives_map (now : Duration) : ∀ (os : List (Objective R))
    (t : Accumulators R), (os.map (·.id)).Nodup →
    (evaluateObjectives t now os).2 = (os.map fun o => (evaluateObjective t o now).2.1,
      os.flatMap fun o => (evaluateObjective t o now).2.2)
  | [], _, _ => rfl
  | o :: os, t, hids => by
      obtain ⟨hfresh, hids⟩ := List.nodup_cons.mp hids
      have hrest := evaluateObjectives_map now os (evaluateObjective t o now).1 hids
      have hsame : ∀ o' ∈ os, (evaluateObjective (evaluateObjective t o now).1 o' now).2 =
          (evaluateObjective t o' now).2 := fun o' ho' => by
        have hne : o.id ≠ o'.id := fun h => hfresh (List.mem_map.mpr ⟨o', ho', h.symm⟩)
        exact (evaluateObjective_agree now (acquire_turn_ne t now hne)).1
      have hevals :
          (os.map fun o' => (evaluateObjective (evaluateObjective t o now).1 o' now).2.1) =
          os.map fun o' => (evaluateObjective t o' now).2.1 :=
        List.map_congr_left fun o' ho' => congrArg Prod.fst (hsame o' ho')
      have hdigests : (os.flatMap fun o' =>
            (evaluateObjective (evaluateObjective t o now).1 o' now).2.2) =
          os.flatMap fun o' => (evaluateObjective t o' now).2.2 := by
        rw [List.flatMap_def, List.flatMap_def]
        exact congrArg List.flatten
          (List.map_congr_left fun o' ho' => congrArg Prod.snd (hsame o' ho'))
      have hcons : (evaluateObjectives t now (o :: os)).2 =
          ((evaluateObjective t o now).2.1 ::
              (evaluateObjectives (evaluateObjective t o now).1 now os).2.1,
            (evaluateObjective t o now).2.2 ++
              (evaluateObjectives (evaluateObjective t o now).1 now os).2.2) := rfl
      rw [hcons, hrest, hevals, hdigests, List.map_cons, List.flatMap_cons]

/-- The loop leaves the accumulators of other ids alone. -/
theorem accumulatorsAfter_other (now : Duration) {k : ObjectiveId} : ∀ (os : List (Objective R))
    (t : Accumulators R), (∀ o ∈ os, o.id ≠ k) →
    (accumulatorsAfter t now os).find k = t.find k
  | [], _, _ => rfl
  | o :: os, t, hne => by
      have ho : k ≠ (judged t o now).defn.id := by
        rw [judged_id]
        exact (hne o List.mem_cons_self).symm
      exact (accumulatorsAfter_other now os _ fun o' ho' =>
        hne o' (List.mem_cons_of_mem _ ho')).trans (t.find_insert_ne ho)

/-- It leaves under the id of each objective what the turn of the objective makes of it. -/
theorem accumulatorsAfter_judged (now : Duration) {o : Objective R} :
    ∀ (os : List (Objective R)) (t : Accumulators R), (os.map (·.id)).Nodup → o ∈ os →
    (accumulatorsAfter t now os).find o.id = some (judged t o now)
  | [], _, _, h => absurd h List.not_mem_nil
  | o' :: os, t, hids, h => by
      obtain ⟨hfresh, hids⟩ := List.nodup_cons.mp hids
      rcases List.mem_cons.mp h with rfl | h
      · have hother : ∀ o' ∈ os, o'.id ≠ o.id := fun o' ho' heq =>
          hfresh (List.mem_map.mpr ⟨o', ho', heq⟩)
        exact (accumulatorsAfter_other now os (t.insert (judged t o now)) hother).trans
          (t.find_insert_key (judged_id t o now))
      · have hne : o'.id ≠ o.id := fun heq => hfresh (List.mem_map.mpr ⟨o, h, heq.symm⟩)
        have hacq : acquire (t.insert (judged t o' now)) o = acquire t o :=
          acquire_insert_ne t (by rwa [judged_id])
        rw [← (evaluateObjective_agree now hacq).2]
        exact accumulatorsAfter_judged now os (t.insert (judged t o' now)) hids h

/-! ## 2. An evaluation as one equation -/

/-- What an evaluation answers and the record of it, given its overall verdict. -/
def outcomeOf (s : State R) (c : SloContract R) (policy : SloPolicy) (service : ServiceId)
    (workload : WorkloadId) (now : Duration) (overall : ComplianceState)
    (binding : Option (Objective R)) : EvaluationResult R × EvaluationRecord :=
  let t := accumulatorsAfter s.accumulators now c.objectives
  let x := (evaluateObjectives s.accumulators now c.objectives).2
  let intent := intentOf s t c policy service workload now (s.evaluationCounter + 1) overall binding
  let ex := explanationOf c policy intent x.1 overall binding
  let digest := decimal c.gen.value.toNat ++ ascii "|" ++ decimal policy.gen.value.toNat ++
    ascii "|" ++ x.2
  ({ explanation := ex, intent := intent }, recordOf ex intent now (stableHash digest))

/-- The state after an evaluation of contract `c`. -/
def keepRecord (s : State R) (c : SloContract R) (now : Duration) (record : EvaluationRecord) :
    State R :=
  { s with
    evaluationCounter := s.evaluationCounter + 1
    accumulators := accumulatorsAfter s.accumulators now c.objectives
    evaluationHistory := pushHistory s.evaluationHistory record
    evaluationById := s.evaluationById.insert record }

theorem evaluate_eq [Platform R] (s : State R) {service : ServiceId} {workload : WorkloadId}
    {now : Duration} {c : SloContract R} {policy : SloPolicy}
    (hc : selectContract s.contracts service workload now = some c)
    (hp : (s.policies.find c.policyId).filter (·.gen = c.policyGen) = some policy) :
    evaluate s service workload now =
      (overallOf (evaluateObjectives s.accumulators now c.objectives).2.1).map fun x =>
        let y := outcomeOf s c policy service workload now x.1 x.2
        (keepRecord s c now y.2, .ok y.1) := by
  unfold evaluate
  rw [hc]
  simp only [hp]
  cases overallOf (evaluateObjectives s.accumulators now c.objectives).2.1 with
  | none => rfl
  | some x =>
    simp only [Option.map_some, outcomeOf, keepRecord]
    rw [evaluateObjectives_table]

end SloFabric
