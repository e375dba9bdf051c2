/-
  File:      SloFabric/Handover.lean
  Subject:   The definition and the recovery record of an objective's accumulator, step by step.

  `After` says what can have become of an accumulator; here it is computed.

  * `acquireFrom`, `handedOver`: what `get_accumulator` makes of a stored accumulator, for one
    definition and for several in turn;
  * `Retains`: definition and recovery record are those of another accumulator;
  * `handover_evaluate`: an evaluation hands the accumulator the objectives of the contract;
  * `handover_step`: a step hands it the definitions `handed` lists, and notes a recovery boundary
    where it is one.
-/
import SloFabric.Generations
import SloFabric.Decision
import Mathlib.Data.Option.Basic

namespace SloFabric

variable {R : Type}

/-! ## 1. Handing over -/

/-- What `get_accumulator` makes of the accumulator stored under the id of `o`. -/
def acquireFrom (a : Option (ObjectiveAccumulator R)) (o : Objective R) : ObjectiveAccumulator R :=
  match a with
  | none => .make o
  | some a => if a.defn.gen ≠ o.gen then a.resetForNewGen o else a

theorem acquire_eq (t : Accumulators R) (o : Objective R) :
    acquire t o = acquireFrom (t.find o.id) o := rfl

/-- Another generation is replaced, the same one is kept as it is. -/
theorem acquireFrom_defn_iff {P : Objective R → Prop} {obj : Objective R} (hobj : P obj)
    (a : Option (ObjectiveAccumulator R)) :
    P (acquireFrom a obj).defn ↔ ∀ x, a = some x → x.defn.gen = obj.gen → P x.defn := by
  cases a with
  | none =>
    refine ⟨?_, fun _ => hobj⟩
    rintro _ x h
    cases h
  | some x =>
    by_cases hgen : x.defn.gen = obj.gen
    · simp only [acquireFrom, hgen, ne_eq, not_true_eq_false, if_false]
      constructor
      · intro h y hy _
        cases hy
        exact h
      · exact fun h => h x rfl hgen
    · simp only [acquireFrom, ne_eq, hgen, not_false_eq_true, if_true]
      refine ⟨fun _ y hy heq => ?_, fun _ => hobj⟩
      cases hy
      exact absurd heq hgen

/-- What it makes of it for several definitions of the id, one after the other. -/
def handedOver (a : Option (ObjectiveAccumulator R)) (os : List (Objective R)) :
    Option (ObjectiveAccumulator R) :=
  os.foldl (fun a o => some (acquireFrom a o)) a

theorem handedOver_append (a : Option (ObjectiveAccumulator R)) (os os' : List (Objective R)) :
    handedOver a (os ++ os') = handedOver (handedOver a os) os' := List.foldl_append

/-- `b` has the definition and the recovery record of `a`. -/
structure Retains (a b : ObjectiveAccumulator R) : Prop where
  defn : b.defn = a.defn
  recovery : b.recovery = a.recovery

theorem Retains.refl (a : ObjectiveAccumulator R) : Retains a a := ⟨rfl, rfl⟩

theorem Retains.trans {a b c : ObjectiveAccumulator R} (h : Retains a b) (h' : Retains b c) :
    Retains a c :=
  ⟨h'.defn.trans h.defn, h'.recovery.trans h.recovery⟩

/-- There is an accumulator in both, with the same definition and recovery record, or in none. -/
abbrev Retained : Option (ObjectiveAccumulator R) → Option (ObjectiveAccumulator R) → Prop :=
  Option.Rel Retains

namespace Retained

variable {a b c : Option (ObjectiveAccumulator R)}

theorem refl : ∀ a : Option (ObjectiveAccumulator R), Retained a a
  | none => .none
  | some a => .some (.refl a)

theorem trans (h : Retained a b) (h' : Retained b c) : Retained a c := by
  cases h with
  | none => exact h'
  | some h =>
    cases h' with
    | some h' => exact .some (h.trans h')

/-- What is handed out depends on the definition and the recovery record only. -/
theorem acquire (h : Retained a b) (o : Objective R) :
    Retains (acquireFrom a o) (acquireFrom b o) := by
  cases h with
  | none => exact .refl _
  | @some a b h =>
    simp only [acquireFrom, h.defn]
    split
    · exact ⟨rfl, rfl⟩
    · exact h

theorem handedOver (h : Retained a b) (os : List (Objective R)) :
    Retained (handedOver a os) (handedOver b os) := by
  induction os generalizing a b with
  | nil => exact h
  | cons o os ih => exact ih (.some (h.acquire o))

/-- Both have the same definition. -/
theorem defn (h : Retained a b) : b.map (·.defn) = a.map (·.defn) := by
  cases h with
  | none => rfl
  | some h => exact congrArg some h.defn

end Retained

/-! ## 2. Tables -/

/-- One definition is handed to `get_accumulator`, and the answer is stored. -/
theorem handover_insert (t : Accumulators R) (o : Objective R) {b : ObjectiveAccumulator R}
    (hb : Retains (acquire t o) b) (k : ObjectiveId) :
    Retained (handedOver (t.find k) ([o].filter (·.id = k))) ((t.insert b).find k) := by
  have hid : b.defn.id = o.id := by rw [hb.defn, acquire_id]
  by_cases hk : o.id = k
  · rw [t.find_insert_key (hid.trans hk), List.filter_cons_of_pos (by simpa using hk),
      List.filter_nil, ← hk]
    exact .some hb
  · rw [List.filter_cons_of_neg (by simpa using hk), List.filter_nil,
      t.find_insert_key_ne hid (Ne.symm hk)]
    exact .refl _

/-- What `get_accumulator` makes of an accumulator for several definitions, exactly. -/
theorem find_foldl_getAccumulator (k : ObjectiveId) : ∀ (os : List (Objective R))
    (t : Accumulators R),
    (os.foldl getAccumulator t).find k = handedOver (t.find k) (os.filter (·.id = k))
  | [], _ => rfl
  | o :: os, t => by
      have hid := acquire_id t o
      rw [List.foldl_cons, find_foldl_getAccumulator k os, getAccumulator]
      by_cases hk : o.id = k
      · rw [t.find_insert_key (hid.trans hk), List.filter_cons_of_pos (by simpa using hk),
          acquire_eq, hk]
        rfl
      · rw [t.find_insert_key_ne hid (Ne.symm hk), List.filter_cons_of_neg (by simpa using hk)]

/-- An evaluation hands the accumulator the objectives of its id, in order. -/
theorem handover_evaluate [Double R] (now : Duration) (k : ObjectiveId) :
    ∀ (os : List (Objective R)) (t : Accumulators R),
    Retained (handedOver (t.find k) (os.filter (·.id = k))) ((accumulatorsAfter t now os).find k)
  | [], _ => .refl _
  | o :: os, t => by
      have hjudged : Retains (acquire t o) (judged t o now) := by
        unfold judged rollBudget
        split <;> exact ⟨rfl, rfl⟩
      have hone := handover_insert t o hjudged k
      have hrest := handover_evaluate now k os (t.insert (judged t o now))
      have h := (hone.handedOver (os.filter (·.id = k))).trans hrest
      rwa [← handedOver_append, ← List.filter_append] at h

/-- The accumulator objective `obj` at place `i` is judged on. -/
theorem judgedOn_retains [Double R] (s : State R) (c : SloContract R) (now : Duration) (i : Nat)
    (obj : Objective R) :
    Retains (acquireFrom (handedOver (s.accumulators.find obj.id)
      ((c.objectives.take i).filter (·.id = obj.id))) obj) (judgedOn s c now i obj) :=
  (handover_evaluate now obj.id (c.objectives.take i) s.accumulators).acquire obj

/-! ## 3. Steps -/

/-- Note a recovery boundary. -/
def ObjectiveAccumulator.recover (a : ObjectiveAccumulator R) (phase : RecoveryEventPhase)
    (time : Duration) : ObjectiveAccumulator R :=
  { a with recovery := a.recovery.record phase time }

/-- The recovery boundary a step reports for the objective, when it is defined. -/
def recoveryOf (k : ObjectiveId) (s : State R) : Op R → Option (RecoveryEventPhase × Duration)
  | .recordRecoveryEvent id phase time =>
    if id = k ∧ (definitionOf s.contracts id).isSome then some (phase, time) else none
  | _ => none

/-- What a step makes of the accumulator of the objective, as to definition and recovery. -/
def handoverOf (k : ObjectiveId) (s : State R) (op : Op R) : Option (ObjectiveAccumulator R) :=
  match recoveryOf k s op with
  | none => handedOver (s.accumulators.find k) (handed k s op)
  | some x => (handedOver (s.accumulators.find k) (handed k s op)).map fun a => a.recover x.1 x.2

theorem handover_recovery (s : State R) (id k : ObjectiveId) (phase : RecoveryEventPhase)
    (time : Duration) :
    Retained (handoverOf k s (.recordRecoveryEvent id phase time))
      ((recordRecoveryEvent s id phase time).1.accumulators.find k) := by
  simp only [handoverOf, recoveryOf, handed, acquires]
  rcases recordRecoveryEvent_cases s id phase time with ⟨hd, h⟩ | ⟨o, hd, h⟩
  · rw [h, hd]
    simp only [Option.isSome_none, Bool.false_eq_true, and_false, if_false]
    exact .refl _
  · have hid : o.id = id := (definitionOf_some hd).1
    rw [h, hd]
    simp only [Option.isSome_some, and_true, Option.toList_some]
    have hkey : ((acquire s.accumulators o).recover phase time).defn.id = id :=
      (acquire_id _ o).trans hid
    by_cases hk : id = k
    · have hfind := s.accumulators.find_insert_key hkey
      subst hk
      rw [if_pos rfl, List.filter_cons_of_pos (by simpa using hid)]
      simp only
      show Retained _ ((s.accumulators.insert
        ((acquire s.accumulators o).recover phase time)).find id)
      rw [hfind, acquire_eq, hid]
      exact .some (.refl _)
    · rw [if_neg hk, List.filter_cons_of_neg (by rw [hid]; simpa using hk)]
      simp only
      show Retained _ ((s.accumulators.insert
        ((acquire s.accumulators o).recover phase time)).find k)
      rw [s.accumulators.find_insert_key_ne hkey (Ne.symm hk)]
      exact .refl _

theorem handover_violation (s : State R) (id : ObjectiveId) (now : Duration) (k : ObjectiveId) :
    Retained (handedOver (s.accumulators.find k) (handed k s (.ingestViolationEvent id now)))
      ((ingestViolationEvent s id now).1.accumulators.find k) := by
  have hall : Retained (handedOver (s.accumulators.find k)
      (handed k s (.ingestViolationEvent id now)))
      (((violationDefinitions s.contracts id).foldl getAccumulator s.accumulators).find k) := by
    rw [find_foldl_getAccumulator]
    exact .refl _
  rcases ingestViolationEvent_cases s id now with ⟨_, _, h⟩ | ⟨_, acc, _, hacc, _, h⟩
  · rw [h]
    exact hall
  · have hkey := KeyedTable.find_key hacc
    rw [h]
    refine hall.trans ?_
    by_cases hk : k = id
    · rw [KeyedTable.find_insert, if_pos (hk.trans hkey.symm), hk, hacc]
      exact .some ⟨rfl, rfl⟩
    · rw [KeyedTable.find_insert, if_neg fun heq => hk (heq.trans hkey)]
      exact .refl _

/-- **The step lemma.** -/
theorem handover_step [Pod R] [Double R] [Platform R] {s s' : State R} {op : Op R} {r : Response R}
    (h : apply s op = some (s', r)) (hload : ∀ file, op ≠ .load file) (k : ObjectiveId) :
    Retained (handoverOf k s op) (s'.accumulators.find k) := by
  cases frame_cases h with
  | policies h' | dispatched h' | saved h' => rw [h']; exact .refl _
  | contracts hop h' =>
    rw [h']
    cases op with
    | addContract | supersedeContract | activateContract | suspendContract | expireContract
    | retireContract => exact .refl _
    | _ => cases hop
  | @ingested e now =>
    cases h
    show Retained (handedOver _ ((acquires s (.ingest e now)).filter _)) _
    rcases ingest_offered s e now with ⟨ho, h', _⟩ | ⟨o, ho, h', _⟩
    · rw [h', acquires, ho]
      exact .refl _
    · have hconduct := offer_conduct o (acquire s.accumulators o) e
      rw [h', acquires, ho]
      exact handover_insert s.accumulators o ⟨hconduct.defn, hconduct.recovery⟩ k
  | objectives hop =>
    cases op with
    | recordRecoveryEvent id phase time => cases h; exact handover_recovery s id k phase time
    | ingestViolationEvent id now => cases h; exact handover_violation s id now k
    | setObjectiveBudget id total window =>
      cases h
      show Retained (handedOver _ ((acquires s (.setObjectiveBudget id total window)).filter _)) _
      rw [acquires]
      rcases setObjectiveBudget_cases s id total window with
        ⟨hd, h', _⟩ | ⟨o, hd, ⟨h', _⟩ | ⟨_, h', _⟩⟩
      · rw [h', hd]
        exact .refl _
      · rw [h', hd]
        exact handover_insert s.accumulators o (.refl _) k
      · have hfunded : Retains (acquire s.accumulators o) { acquire s.accumulators o with
            hasBudget := true, budget := ErrorBudget.make total window } := ⟨rfl, rfl⟩
        rw [h', hd]
        exact handover_insert s.accumulators o hfunded k
    | _ => cases hop
  | @evaluated service workload now _ hx =>
    show Retained (handedOver _ ((acquires s (.evaluate service workload now)).filter _)) _
    simp only [acquires]
    rcases evaluate_judged hx with ⟨hc, h'⟩ | ⟨c, hc, h'⟩
    · rw [hc, h']
      exact .refl _
    · rw [hc, h']
      exact handover_evaluate now k c.objectives s.accumulators
  | @authorized intent now _ hx =>
    show Retained (s.accumulators.find k) _
    rcases authorize_cases s intent now with ⟨_, h'⟩ | ⟨_, _, _, _, _, _, _, _, _, h'⟩
    · cases hx.symm.trans h'
      exact .refl _
    · cases hx.symm.trans h'
      rw [setCooldown_find]
      split
      · cases s.accumulators.find k with
        | none => exact .none
        | some a => exact .some ⟨rfl, rfl⟩
      · exact .refl _
  | transition hx | completed hx => cases hx; exact .refl _
  | failed | loaded => exact absurd rfl (hload _)

end SloFabric
