/-
  File:      SloFabric/Failures.lean
  Subject:   What a failed call leaves behind.

  A call that fails changes nothing by itself, but two of them ask `get_accumulator` for the
  accumulators of the definitions they visit before they find out.

  * `Op.configuring`, `Response.failed`: the calls looked at, and their complaints;
  * `failed_leaves`: a failed call leaves the accumulators of the definitions it visits, and
    nothing else;
  * `Settled`, `handedOver_some_iff`: definitions that leave the stored accumulator as it is;
  * `failed_unchanged_iff`: a failed call changes nothing exactly where all it visits are settled;
  * `failed_unchanged_fails`: a budget of a negative total creates an accumulator.
-/
import SloFabric.Handover
import SloFabric.Identity

namespace SloFabric

variable {R : Type}

/-! ## 1. Calls that fail -/

/-- The calls on policies, contracts, objectives, evaluations and enforcements, and `load`. -/
def Op.configuring : Op R → Bool
  | .ingest _ _ | .dispatch | .save _ => false
  | _ => true

/-- The call returns a status that is not ok. -/
def Response.failed : Response R → Bool
  | .status st => !st.isOk
  | .evaluated (.error _) | .authorized (.error _) => true
  | _ => false

theorem status_failed {st : Status} (h : (Response.status (R := R) st).failed = true) :
    st.isOk = false := by
  simpa [Response.failed] using h

theorem setPolicy_failed {s : State R} {p : SloPolicy} (h : (setPolicy s p).2.isOk = false) :
    (setPolicy s p).1 = s := by
  unfold setPolicy at h ⊢
  split
  · split
    · rfl
    · rename_i _ hfind hgen
      simp only [hfind, if_neg hgen] at h
      cases h
  · rename_i hfind
    simp only [hfind] at h
    cases h

theorem replaceContract_failed {s : State R} {c : SloContract R}
    (h : (replaceContract s c).2.isOk = false) : (replaceContract s c).1 = s := by
  unfold replaceContract at h ⊢
  split
  · split
    · rfl
    · rename_i _ hfind hgen
      simp only [hfind, if_neg hgen] at h
      cases h
  · rename_i hfind
    simp only [hfind] at h
    cases h

theorem addContract_failed {s : State R} {c : SloContract R}
    (h : (addContract s c).2.isOk = false) : (addContract s c).1 = s := by
  unfold addContract at h ⊢
  split
  · rfl
  · rename_i hsome
    rw [if_neg hsome] at h
    split
    · rfl
    · rename_i hadmissible
      rw [if_neg hadmissible] at h
      exact replaceContract_failed h

theorem updateContract_failed {s : State R} {id : SloContractId}
    {f : SloContract R → SloContract R} (h : (updateContract s id f).2.isOk = false) :
    (updateContract s id f).1 = s := by
  unfold updateContract at h ⊢
  split
  · rfl
  · rename_i hfind
    simp only [hfind] at h
    cases h

/-- A receipt that is not found, or that refuses, is left as it is. -/
theorem updateReceipt_failed {f : EnforcementLifecycle → Except Status EnforcementLifecycle}
    {id : EnforcementId} {l : List EnforcementReceipt} (h : (updateReceipt f id l).2.isOk = false) :
    (updateReceipt f id l).1 = l := by
  rcases updateReceipt_cases f id l with
    ⟨_, hu⟩ | ⟨before, x, after, lc, st, hl, _, _, hu, ⟨_, hst⟩ | ⟨_, hlc⟩⟩
  · rw [hu]
  · rw [hu, hst] at h
    cases h
  · rw [hu, hlc, hl]

section Steps

variable [Pod R] [Double R] [Platform R]

/-- **The step lemma**: of a failed call the accumulators are left that it asked for. -/
theorem failed_leaves {s s' : State R} {op : Op R} {r : Response R}
    (h : apply s op = some (s', r)) (hop : op.configuring = true) (hr : r.failed = true) :
    s' = { s with accumulators := (acquires s op).foldl getAccumulator s.accumulators } := by
  cases op with
  | ingest | dispatch | save => cases hop
  | setPolicy policy => cases h; exact setPolicy_failed (status_failed hr)
  | addContract contract => cases h; exact addContract_failed (status_failed hr)
  | supersedeContract replacement now => cases h; exact replaceContract_failed (status_failed hr)
  | activateContract | suspendContract | expireContract | retireContract =>
    cases h; exact updateContract_failed (status_failed hr)
  | recordRecoveryEvent id phase time =>
    cases h
    unfold recordRecoveryEvent at hr ⊢
    cases hd : definitionOf s.contracts id with
    | none => simp [acquires, hd]
    | some o =>
      rw [hd] at hr
      cases hr
  | ingestViolationEvent id now =>
    cases h
    rcases ingestViolationEvent_cases s id now with ⟨_, _, h'⟩ | ⟨_, _, _, _, _, h'⟩
    · rw [h']
      rfl
    · rw [h'] at hr
      cases hr
  | setObjectiveBudget id total window =>
    cases h
    rcases setObjectiveBudget_cases s id total window with
      ⟨hd, h', _⟩ | ⟨o, hd, ⟨h', _⟩ | ⟨_, _, hok⟩⟩
    · rw [h', acquires, hd]
      rfl
    · rw [h', acquires, hd]
      rfl
    · simp [Response.failed, hok] at hr
  | evaluate service workload now =>
    obtain ⟨x, hx, hxr⟩ := Option.map_eq_some_iff.mp h
    cases hxr
    obtain ⟨s', x⟩ := x
    cases x with
    | error st =>
      obtain ⟨hc, rfl⟩ := evaluate_refused hx
      rw [acquires, hc]
      rfl
    | ok => cases hr
  | authorize intent now =>
    cases h
    rcases authorize_cases s intent now with ⟨_, h'⟩ | ⟨_, _, _, _, _, _, _, _, _, h'⟩
    · rw [h']
      rfl
    · rw [h'] at hr
      cases hr
  | transition id dst now =>
    cases h
    have hsame := updateReceipt_failed (f := transitionTo dst) (status_failed hr)
    simp only [transition, hsame]
    rfl
  | completeEnforcement id now =>
    cases h
    have hsame := updateReceipt_failed (f := completed) (status_failed hr)
    simp only [completeEnforcement, hsame]
    rfl
  | load file =>
    cases h
    rcases load_cases s file with ⟨_, _, h'⟩ | ⟨_, _, h'⟩
    · rw [h']
      rfl
    · rw [h'] at hr
      cases hr

end Steps

/-! ## 2. Definitions that change nothing -/

/-- The accumulator holds what a fresh one of `o` holds, but for the budget. -/
def ObjectiveAccumulator.Blank (a : ObjectiveAccumulator R) (o : Objective R) : Prop :=
  ∃ has budget, a = { ObjectiveAccumulator.make o with hasBudget := has, budget := budget }

theorem resetForNewGen_eq_self_iff {a : ObjectiveAccumulator R} {o : Objective R} :
    a.resetForNewGen o = a ↔ a.Blank o := by
  constructor
  · intro h
    exact ⟨a.hasBudget, a.budget, h.symm⟩
  · rintro ⟨has, budget, rfl⟩
    rfl

/-- Definitions that leave a stored accumulator as it is: all are of its generation, or the
    definitions of its generation at the end of the list follow one of another, and it is blank for
    the first of them. -/
def Settled (a : ObjectiveAccumulator R) (os : List (Objective R)) : Prop :=
  (∀ o ∈ os, o.gen = a.defn.gen) ∨
    ∃ front x o back, os = front ++ x :: o :: back ∧ x.gen ≠ o.gen ∧
      (∀ y ∈ back, y.gen = o.gen) ∧ a.Blank o

/-- The same, where there may be no accumulator. -/
def Unmoved (a : Option (ObjectiveAccumulator R)) (os : List (Objective R)) : Prop :=
  os = [] ∨ ∃ x, a = some x ∧ Settled x os

theorem handedOver_same {a : ObjectiveAccumulator R} : ∀ {os : List (Objective R)},
    (∀ o ∈ os, o.gen = a.defn.gen) → handedOver (some a) os = some a
  | [], _ => rfl
  | o :: os, h => by
      have hsame : acquireFrom (some a) o = a :=
        if_neg fun hne => hne (h o List.mem_cons_self).symm
      have hrest := handedOver_same fun y hy => h y (List.mem_cons_of_mem _ hy)
      show handedOver (some (acquireFrom (some a) o)) os = _
      rw [hsame]
      exact hrest

/-- What is handed over keeps the budget. -/
theorem handedOver_budget (a : ObjectiveAccumulator R) : ∀ os : List (Objective R),
    ∃ b, handedOver (some a) os = some b ∧ b.hasBudget = a.hasBudget ∧ b.budget = a.budget
  | [] => ⟨a, rfl, rfl, rfl⟩
  | o :: os => by
      obtain ⟨b, hb, hhas, hbudget⟩ := handedOver_budget (acquireFrom (some a) o) os
      have hfirst : (acquireFrom (some a) o).hasBudget = a.hasBudget ∧
          (acquireFrom (some a) o).budget = a.budget := by
        unfold acquireFrom
        simp only
        split <;> exact ⟨rfl, rfl⟩
      exact ⟨b, hb, hhas.trans hfirst.1, hbudget.trans hfirst.2⟩

theorem acquireFrom_gen (a : Option (ObjectiveAccumulator R)) (o : Objective R) :
    (acquireFrom a o).defn.gen = o.gen := by
  refine (acquireFrom_defn_iff (P := fun d => d.gen = o.gen) rfl a).mpr fun x _ h => h

/-- The generation of what several definitions are handed over to. -/
def lastGen (a : ObjectiveAccumulator R) (os : List (Objective R)) : ObjectiveGen :=
  (os.getLast?.map (·.gen)).getD a.defn.gen

theorem lastGen_same {a : ObjectiveAccumulator R} {os : List (Objective R)}
    (h : ∀ o ∈ os, o.gen = a.defn.gen) : lastGen a os = a.defn.gen := by
  unfold lastGen
  cases hl : os.getLast? with
  | none => rfl
  | some y => exact h y (List.mem_of_getLast? hl)

theorem lastGen_append {a : ObjectiveAccumulator R} {front back : List (Objective R)}
    {o : Objective R} (h : ∀ y ∈ back, y.gen = o.gen) :
    lastGen a (front ++ o :: back) = o.gen := by
  unfold lastGen
  rw [List.getLast?_append_of_ne_nil _ (List.cons_ne_nil _ _)]
  cases hl : (o :: back).getLast? with
  | none => simp at hl
  | some y =>
    rcases List.mem_cons.mp (List.mem_of_getLast? hl) with rfl | hy
    · rfl
    · exact h y hy

/-- **What several definitions make of a stored accumulator**: nothing, where all are of its
    generation; else it is reset for the last one that is not of the generation before it. -/
theorem handedOver_cases (a : ObjectiveAccumulator R) (os : List (Objective R)) :
    (∀ o ∈ os, o.gen = a.defn.gen) ∧ handedOver (some a) os = some a ∨
    ∃ front o back, os = front ++ o :: back ∧ lastGen a front ≠ o.gen ∧
      (∀ y ∈ back, y.gen = o.gen) ∧ handedOver (some a) os = some (a.resetForNewGen o) := by
  induction os using List.reverseRecOn with
  | nil => exact Or.inl ⟨by simp, rfl⟩
  | append_singleton os o ih =>
    rw [handedOver_append]
    rcases ih with ⟨hsame, h⟩ | ⟨front, x, back, hos, hturn, hback, h⟩ <;> rw [h]
    · by_cases hgen : o.gen = a.defn.gen
      · have hlast : ∀ y ∈ [o], y.gen = a.defn.gen := List.forall_mem_singleton.mpr hgen
        exact Or.inl ⟨List.forall_mem_append.mpr ⟨hsame, hlast⟩, handedOver_same hlast⟩
      · have hturn : lastGen a os ≠ o.gen := by
          rw [lastGen_same hsame]
          exact Ne.symm hgen
        exact Or.inr ⟨os, o, [], rfl, hturn, by simp, congrArg some (if_pos (Ne.symm hgen))⟩
    · by_cases hgen : o.gen = x.gen
      · have hlast : ∀ y ∈ [o], y.gen = x.gen := List.forall_mem_singleton.mpr hgen
        exact Or.inr ⟨front, x, back ++ [o], by rw [hos]; simp, hturn,
          List.forall_mem_append.mpr ⟨hback, hlast⟩, handedOver_same hlast⟩
      · have hturn : lastGen a os ≠ o.gen := by
          rw [hos, lastGen_append hback]
          exact Ne.symm hgen
        exact Or.inr ⟨os, o, [], rfl, hturn, by simp, congrArg some (if_pos (Ne.symm hgen))⟩

theorem handedOver_some_iff {a : ObjectiveAccumulator R} {os : List (Objective R)} :
    handedOver (some a) os = some a ↔ Settled a os := by
  constructor
  · intro h
    rcases handedOver_cases a os with ⟨hsame, _⟩ | ⟨front, o, back, hos, hturn, hback, hreset⟩
    · exact Or.inl hsame
    · have hself : a.resetForNewGen o = a := Option.some.inj (hreset.symm.trans h)
      have hgen : a.defn.gen = o.gen := by
        rw [← hself]
        rfl
      -- the stored generation is `o`'s, so a definition came before `o`
      rcases List.eq_nil_or_concat front with rfl | ⟨front', x, rfl⟩
      · exact absurd hgen hturn
      · refine Or.inr ⟨front', x, o, back, by rw [hos]; simp, ?_, hback,
          resetForNewGen_eq_self_iff.mp hself⟩
        simpa [lastGen] using hturn
  · rintro (h | ⟨front, x, o, back, rfl, hturn, hback, hblank⟩)
    · exact handedOver_same h
    · obtain ⟨b, hb, hhas, hbudget⟩ := handedOver_budget a front
      have hx : ∃ c, handedOver (some a) (front ++ [x]) = some c ∧ c.defn.gen = x.gen ∧
          c.resetForNewGen o = a := by
        refine ⟨acquireFrom (some b) x, ?_, acquireFrom_gen _ _, ?_⟩
        · rw [handedOver_append, hb]
          rfl
        · obtain ⟨d, hd, hdhas, hdbudget⟩ := handedOver_budget b [x]
          cases Option.some.inj hd
          rw [← resetForNewGen_eq_self_iff.mpr hblank, ObjectiveAccumulator.resetForNewGen,
            ObjectiveAccumulator.resetForNewGen, hdhas, hdbudget, hhas, hbudget]
      obtain ⟨c, hc, hcgen, hreset⟩ := hx
      have hgen : a.defn.gen = o.gen := by
        rw [← hreset]
        rfl
      have hsplit : front ++ x :: o :: back = (front ++ [x]) ++ ([o] ++ back) := by simp
      rw [hsplit, handedOver_append, hc, handedOver_append]
      have ho : handedOver (some c) [o] = some a := by
        rw [← hreset]
        exact congrArg some (if_pos (by rwa [hcgen]))
      rw [ho]
      exact handedOver_same fun y hy => (hback y hy).trans hgen.symm

theorem handedOver_eq_iff {a : Option (ObjectiveAccumulator R)} {os : List (Objective R)} :
    handedOver a os = a ↔ Unmoved a os := by
  cases a with
  | some a =>
    rw [handedOver_some_iff]
    constructor
    · exact fun h => Or.inr ⟨a, rfl, h⟩
    · rintro (rfl | ⟨x, hx, h⟩)
      · exact Or.inl (by simp)
      · cases hx
        exact h
  | none =>
    constructor
    · intro h
      cases os with
      | nil => exact Or.inl rfl
      | cons o os =>
        obtain ⟨b, hb, _⟩ := handedOver_budget (acquireFrom none o) os
        have hsome : handedOver none (o :: os) = some b := hb
        rw [hsome] at h
        cases h
    · rintro (rfl | ⟨x, hx, _⟩)
      · rfl
      · cases hx

/-! ## 3. Calls that change nothing -/

/-- Definitions leave a table as it is where none of them disturbs the accumulator of its id. -/
theorem foldl_getAccumulator_eq_iff {t : Accumulators R} {os : List (Objective R)} :
    os.foldl getAccumulator t = t ↔ ∀ k, Unmoved (t.find k) (os.filter (·.id = k)) := by
  constructor
  · intro h k
    have hfind := find_foldl_getAccumulator k os t
    rw [h] at hfind
    exact handedOver_eq_iff.mp hfind.symm
  · intro h
    refine KeyedTable.ext_find fun k => ?_
    rw [find_foldl_getAccumulator]
    exact handedOver_eq_iff.mpr (h k)

/-- **A failed call changes nothing exactly where the definitions it asks the accumulators of move
    none of them.** -/
theorem failed_unchanged_iff [Pod R] [Double R] [Platform R] {s s' : State R} {op : Op R}
    {r : Response R}
    (h : apply s op = some (s', r)) (hop : op.configuring = true) (hr : r.failed = true) :
    s' = s ↔ ∀ k, Unmoved (s.accumulators.find k) (handed k s op) := by
  have hleaves := failed_leaves h hop hr
  unfold handed
  rw [← foldl_getAccumulator_eq_iff]
  constructor
  · intro hs
    rw [hs] at hleaves
    exact (congrArg State.accumulators hleaves).symm
  · intro hsame
    rw [hleaves, hsame]

/-- A contract with objective `1`, which has no accumulator yet. -/
def plain : List (Op Binary64) :=
  [.setPolicy smallPolicy, .addContract (smallContract 1 1 1 [smallObjective 1 1])]

/-- The objective has a budget already, and is given one of a negative total. -/
theorem failed_unchanged_small :
    let s := after (plain ++ [.setObjectiveBudget ⟨1⟩ 5 1000])
    (setObjectiveBudget s ⟨1⟩ (-1) 1000).1 = s ↔
      ∀ k, Unmoved (s.accumulators.find k) (handed k s (.setObjectiveBudget ⟨1⟩ (-1) 1000)) :=
  failed_unchanged_iff (r := .status (setObjectiveBudget (after _) ⟨1⟩ (-1) 1000).2) rfl rfl
    (by decide +kernel)

/-- **A failed call does change the state**: a negative total leaves an accumulator. -/
theorem failed_unchanged_fails :
    ¬ ∀ (s s' : State Binary64) (op : Op Binary64) (r : Response Binary64), Reachable s →
      apply s op = some (s', r) → op.configuring = true → r.failed = true → s' = s := by
  intro h
  have hsame := h _ _ (.setObjectiveBudget ⟨1⟩ (-1) 1000) _ (reachable_after plain) rfl rfl
    (by decide +kernel)
  have hrows : (setObjectiveBudget (after plain) ⟨1⟩ (-1) 1000).1.accumulators.rows.length ≠
      (after plain).accumulators.rows.length := by decide +kernel
  exact hrows (congrArg (fun s => s.accumulators.rows.length) hsame)

end SloFabric
