/-
  File:      SloFabric/WellFormed.lean
  Subject:   Which stored contracts are well formed.

  * `ContractSound`, `WellFormed`: what `add_contract` checks of a contract, for every stored one;
  * `Admits`: a replacement that is stored, and the contracts of a file that is loaded, are sound;
  * `wellFormed_step`, `wellFormed_iff`: those are the steps that keep contracts well formed, and
    then `evaluate` has a first objective;
  * `wellFormed_fails`: `supersede_contract` takes a contract without objectives.
-/
import SloFabric.Contracts
import SloFabric.Decision

namespace SloFabric

variable {R : Type}

/-! ## 1. Sound contracts -/

/-- An objective with id and generation, and a target in the unit of its dimension. -/
structure ObjectiveSound (o : Objective R) : Prop where
  id : o.id.valid = true
  gen : o.gen.valid = true
  unit : o.targetUnitMatchesDimension = true

/-- A contract of sound objectives, and of at least one. -/
structure ContractSound (c : SloContract R) : Prop where
  nonempty : c.objectives ≠ []
  objectives : ∀ o ∈ c.objectives, ObjectiveSound o

/-- Every stored contract is sound. -/
def WellFormed (s : State R) : Prop := ∀ c ∈ s.contracts.rows, ContractSound c

theorem objectiveAdmissible_iff (o : Objective R) :
    (objectiveAdmissible o).isOk = true ↔ ObjectiveSound o := by
  unfold objectiveAdmissible
  split
  · rename_i hid
    exact ⟨nofun, fun h => by simp [h.id] at hid⟩
  · rename_i hid
    split
    · rename_i hgen
      exact ⟨nofun, fun h => by simp [h.gen] at hgen⟩
    · rename_i hgen
      split
      · rename_i hunit
        exact ⟨nofun, fun h => by simp [h.unit] at hunit⟩
      · rename_i hunit
        exact ⟨fun _ => ⟨by simpa using hid, by simpa using hgen, by simpa using hunit⟩,
          fun _ => rfl⟩

/-- The checks of `add_contract` pass for sound objectives, and for no others. -/
theorem objectivesAdmissible_iff (os : List (Objective R)) :
    (objectivesAdmissible os).isOk = true ↔ ∀ o ∈ os, ObjectiveSound o := by
  induction os with
  | nil => simp [objectivesAdmissible, Status.isOk, ok]
  | cons o os ih =>
    rw [List.forall_mem_cons, ← ih, ← objectiveAdmissible_iff, objectivesAdmissible]
    split
    · rename_i hok
      exact ⟨fun h => ⟨hok, h⟩, And.right⟩
    · rename_i hno
      exact ⟨fun h => absurd h hno, And.left⟩

/-! ## 2. The condition -/

/-- What a step lets in is sound: a replacement that is stored, and the contracts a file that is
    loaded leaves in the table. -/
def Admits [Pod R] [Double R] (s : State R) : Op R → Prop
  | .supersedeContract replacement _ => Fits s.contracts replacement → ContractSound replacement
  | .load file => ∀ st, loadState R file = .ok st →
      ∀ c ∈ (KeyedTable.ofList (fun c : SloContract R => c.id) st.contracts).rows, ContractSound c
  | _ => True

section Step

variable [Pod R] [Double R] [Platform R]

/-- Nothing else a step does can make a contract unsound. -/
theorem wellFormed_step {s s' : State R} {op : Op R} {r : Response R}
    (h : apply s op = some (s', r)) (hs : WellFormed s) : WellFormed s' ↔ Admits s op := by
  cases contracts_cases h with
  | same h' hrefused hload =>
    refine ⟨fun _ => ?_, fun _ => by rwa [WellFormed, h']⟩
    cases op with
    | supersedeContract replacement now =>
      exact fun hfits => absurd hfits (hrefused replacement now rfl)
    | load file =>
      intro st hst
      obtain ⟨e, he⟩ := hload file rfl
      rw [hst] at he
      cases he
    | _ => trivial
  | @stored _ _ c hop hadmitted hfits hput =>
    constructor
    · intro hs'
      have hc : ContractSound c := hs' c (KeyedTable.find_mem hput.found)
      cases op with
      | supersedeContract replacement now =>
        cases hop
        exact fun _ => hc
      | load file => cases hop
      | _ => trivial
    · intro hadmits
      refine hput.rows hs ?_
      cases op with
      | addContract contract =>
        cases hop
        obtain ⟨hne, hok⟩ := hadmitted rfl
        exact ⟨hne, (objectivesAdmissible_iff _).mp hok⟩
      | supersedeContract replacement now =>
        cases hop
        exact hadmits hfits
      | _ => cases hop
  | @changed _ id f c hop hc hput =>
    constructor
    · intro _
      cases op with
      | supersedeContract replacement now => cases hop
      | load file => cases hop
      | _ => trivial
    · intro _
      obtain ⟨l, start, stop, hf⟩ := lifecycle_frame hop c
      refine hput.rows hs ?_
      rw [hf]
      have hsound := hs c (KeyedTable.find_mem hc)
      exact ⟨hsound.nonempty, hsound.objectives⟩
  | @loaded file _ st hst h' =>
    rw [WellFormed, h']
    refine ⟨fun hs' st' hst' => ?_, fun hadmits => hadmits st hst⟩
    rw [hst] at hst'
    cases hst'
    exact hs'

end Step

/-! ## 3. Evaluations -/

section Evaluate

variable [Double R] [Platform R]

/-- Where contracts are well formed, `evaluate` reads no first element of an empty list. -/
theorem evaluate_defined {s : State R} (hs : WellFormed s) (service : ServiceId)
    (workload : WorkloadId) (now : Duration) :
    (evaluate s service workload now).isSome = true := by
  unfold evaluate
  split
  · rfl
  · rename_i c hc
    split
    · rfl
    · have hstored := (List.mem_filter.mp (newest_some hc).1).1
      have hevals : (evaluateObjectives s.accumulators now c.objectives).2.1 ≠ [] := by
        rw [← List.length_pos_iff, evaluateObjectives_length, List.length_pos_iff]
        exact (hs c hstored).nonempty
      obtain ⟨x, hx⟩ := Option.ne_none_iff_exists'.mp fun h => hevals (overallOf_eq_none.mp h)
      simp only
      rw [hx]
      rfl

/-- **When stored contracts are well formed.** The runs in which they are so all along are exactly
    those whose steps let nothing unsound in, and then every evaluation is defined. -/
theorem wellFormed_iff [Pod R] (tr : Trace R) (s : State R) :
    (Run apply Admits (State.fresh R) tr s ↔
      Run apply (fun s _ => WellFormed s) (State.fresh R) tr s ∧ WellFormed s) ∧
    (Run apply Admits (State.fresh R) tr s → ∀ service workload now,
      (evaluate s service workload now).isSome = true) := by
  have hiff : Run apply Admits (State.fresh R) tr s ↔
      Run apply (fun s _ => WellFormed s) (State.fresh R) tr s ∧ WellFormed s :=
    Run.kept_iff (fun c hc => nomatch hc) fun s op s' r hs hstep => wellFormed_step hstep hs
  exact ⟨hiff, fun h => evaluate_defined (hiff.mp h).2⟩

end Evaluate

/-! ## 4. A contract without objectives -/

/-- `supersede_contract` with a contract that has no objectives. -/
def hollow : State Binary64 :=
  after [.setPolicy smallPolicy, .supersedeContract (smallContract 1 1 1 []) 0]

/-- **`supersede_contract` takes a contract without objectives**, and the next evaluation reads
    the first of none. -/
theorem wellFormed_fails :
    (¬∀ s : State Binary64, Reachable s → WellFormed s) ∧
    ¬∀ s : State Binary64, Reachable s → ∀ service workload now,
      (evaluate s service workload now).isSome = true := by
  constructor
  · intro hall
    have hmem : smallContract 1 1 1 [] ∈ hollow.contracts.rows := by decide +kernel
    exact (hall hollow (reachable_after _) _ hmem).nonempty rfl
  · intro hall
    have hnone : (evaluate hollow ⟨1⟩ ⟨1⟩ 0).isSome = false := by decide +kernel
    rw [hall hollow (reachable_after _)] at hnone
    cases hnone

end SloFabric
