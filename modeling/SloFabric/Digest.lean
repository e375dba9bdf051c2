/-
  File:      SloFabric/Digest.lean
  Subject:   What the digest of an evaluation tells of its decision.

  The text that is hashed lists the measured objectives: name, state, value. An objective without a
  measurement is passed over before its line is written.

  * `Evaluation`: an evaluation that succeeds; `digestInput`, `digest_recorded`: the text, and that
    its hash is what is recorded;
  * `Turn`, `turns`: an objective with the accumulator it is judged on; `Line`, `digest_lines`:
    the text is that of the lines of the measured ones;
  * `gaps`: the objectives that have no line; `candidates`, `compared`, `MayBind`: the turns that
    are sorted, what the comparison answers of them, and what may come out first;
  * `verdict_congr`, `exists_verdicts`: two evaluations report the same on every platform where the
    comparison answers alike or what may come out first is the same;
  * `WrittenAlike`, `not_writtenAlike`: lines that differ and read the same, which needs a name
    with a semicolon;
  * `Told`, `digest_tells_iff`: equal texts tell equal decisions, on every platform, exactly where
    equal lines leave the same gaps and bind the same, and no others read the same;
  * `digest_tells_fails`: an objective more, and without evidence, leaves the text as it was.
-/
import SloFabric.Library.Fields
import SloFabric.Binding
import SloFabric.Handover
import SloFabric.Turns

namespace SloFabric

variable {R : Type}

open Double Codec

/-! ## 1. Evaluations -/

/-- An evaluation, with the contract it selects and the policy it finds. -/
structure Evaluation (R : Type) where
  before : State R
  service : ServiceId
  workload : WorkloadId
  now : Duration
  contract : SloContract R
  policy : SloPolicy

namespace Evaluation

section

variable [Double R] (x : Evaluation R)

/-- The evaluation succeeds, however the platform sorts. -/
structure Ran : Prop where
  ran : ∀ [Platform R], ∃ s' res,
    evaluate x.before x.service x.workload x.now = some (s', .ok res)
  contract : selectContract x.before.contracts x.service x.workload x.now = some x.contract
  policy : (x.before.policies.find x.contract.policyId).filter (·.gen = x.contract.policyGen) =
    some x.policy

/-- The verdicts of the loop over the objectives, and what it adds to the text. -/
def loop : List (ObjEval R) × Bytes :=
  (evaluateObjectives x.before.accumulators x.now x.contract.objectives).2

/-- The canonical text that is hashed. -/
def digestInput : Bytes :=
  decimal x.contract.gen.value.toNat ++ ascii "|" ++ decimal x.policy.gen.value.toNat ++
    ascii "|" ++ x.loop.2

variable [Platform R]

/-- What it answers. -/
def answer : Option (EvaluationResult R) :=
  (reported (evaluate x.before x.service x.workload x.now)).map (·.2)

/-- The objectives of the answer, by name and state. -/
def decisions : Option (List (Bytes × ComplianceState)) :=
  x.answer.map fun res => res.explanation.objectives.map fun st => (st.name, st.state)

/-- The overall compliance of the answer. -/
def overall : Option ComplianceState := x.answer.map (·.explanation.compliance)

/-- The name of the binding objective, if there is one. -/
def bindingName : Option Bytes := ((overallOf x.loop.1).bind (·.2)).map (·.name)

/-- Both decide the same. -/
structure SameDecision (y : Evaluation R) : Prop where
  decisions : x.decisions = y.decisions
  overall : x.overall = y.overall
  binding : x.bindingName = y.bindingName

variable {x}

/-- What an evaluation that succeeds answers. -/
theorem Ran.outcome (hx : x.Ran) : ∃ overall binding,
    overallOf x.loop.1 = some (overall, binding) ∧
    evaluate x.before x.service x.workload x.now =
      some (keepRecord x.before x.contract x.now (outcomeOf x.before x.contract x.policy
        x.service x.workload x.now overall binding).2,
        .ok (outcomeOf x.before x.contract x.policy x.service x.workload x.now overall
          binding).1) := by
  obtain ⟨s', res, h⟩ := hx.ran
  rw [evaluate_eq x.before hx.contract hx.policy] at h ⊢
  obtain ⟨⟨overall, binding⟩, hov, _⟩ := Option.map_eq_some_iff.mp h
  exact ⟨overall, binding, hov, by rw [hov, Option.map_some]⟩

/-- What succeeds on one platform succeeds on every one. -/
theorem Ran.of_evaluate
    (hc : selectContract x.before.contracts x.service x.workload x.now = some x.contract)
    (hp : (x.before.policies.find x.contract.policyId).filter (·.gen = x.contract.policyGen) =
      some x.policy) {s' : State R} {res : EvaluationResult R}
    (h : evaluate x.before x.service x.workload x.now = some (s', .ok res)) : x.Ran := by
  rw [evaluate_eq x.before hc hp] at h
  have hloop : x.loop.1 ≠ [] := by
    intro hnil
    unfold loop at hnil
    rw [hnil, overallOf_eq_none.mpr rfl] at h
    cases h
  refine ⟨fun {_} => ?_, hc, hp⟩
  obtain ⟨o, ho⟩ := Option.ne_none_iff_exists'.mp fun h => hloop (overallOf_eq_none.mp h)
  rw [evaluate_eq x.before hc hp]
  exact ⟨_, _, congrArg (Option.map _) ho⟩

/-- **The digest that is recorded is the hash of the text.** -/
theorem digest_recorded (hx : x.Ran) : ∃ s' res,
    evaluate x.before x.service x.workload x.now = some (s', .ok res) ∧
      (getEvaluation s' res.explanation.evaluationId).map (·.digest) =
        .ok (stableHash x.digestInput) := by
  obtain ⟨overall, binding, _, hev⟩ := hx.outcome
  have hid : (outcomeOf x.before x.contract x.policy x.service x.workload x.now overall
      binding).2.evaluationId = (outcomeOf x.before x.contract x.policy x.service x.workload x.now
        overall binding).1.explanation.evaluationId := rfl
  refine ⟨_, _, hev, ?_⟩
  rw [getEvaluation, keepRecord]
  simp only
  rw [KeyedTable.find_insert_key _ hid]
  rfl

theorem decisions_eq (hx : x.Ran) :
    x.decisions = some (x.loop.1.map fun ev => (ev.st.name, ev.st.state)) := by
  obtain ⟨_, _, _, hev⟩ := hx.outcome
  rw [decisions, answer, hev]
  show some (List.map _ (List.map _ _)) = _
  rw [List.map_map]
  rfl

theorem overall_eq (hx : x.Ran) : x.overall = (overallOf x.loop.1).map (·.1) := by
  obtain ⟨o, b, hov, hev⟩ := hx.outcome
  rw [overall, answer, hev, hov]
  cases b <;> rfl

end

end Evaluation

/-! ## 2. Turns -/

/-- An objective and the accumulator it is judged on. -/
structure Turn (R : Type) where
  acc : ObjectiveAccumulator R
  obj : Objective R

section Turns

variable [Double R]

/-- The objectives of a contract, each with the accumulator the ones before it left. -/
def turns (t : Accumulators R) (now : Duration) : List (Objective R) → List (Turn R)
  | [] => []
  | obj :: objs => ⟨acquire t obj, obj⟩ :: turns (t.insert (judged t obj now)) now objs

namespace Turn

variable (now : Duration) (x : Turn R)

/-- The value measured. -/
def value : R := (computeMeasured x.acc now).value

/-- There is no measurement. -/
def missing : Bool := unmeasured (computeMeasured x.acc now) (evaluateFreshness x.acc now)

/-- The verdict. -/
def state : ComplianceState :=
  if x.missing now then unmeasuredState (evaluateFreshness x.acc now)
  else measuredState x.obj (rollBudget x.acc now) (x.value now)

/-- What ranks a violation among others of its state. -/
def magnitude : R := severityMagnitude x.obj (x.value now)

/-- The order of the binding objective. -/
def outranks (a b : Turn R) : Bool :=
  if severityRankOf (a.state now) ≠ severityRankOf (b.state now) then
    decide (severityRankOf (a.state now) < severityRankOf (b.state now))
  else if !eq (a.magnitude now) (b.magnitude now) then lt (b.magnitude now) (a.magnitude now)
  else if a.obj.priority ≠ b.obj.priority then decide (a.obj.priority < b.obj.priority)
  else decide (a.obj.name < b.obj.name)

end Turn

/-- What the text says of a measured objective. -/
structure Line where
  name : Bytes
  state : ComplianceState
  value : Bytes
  deriving DecidableEq

/-- Its line. -/
def Line.text (e : Line) : Bytes :=
  e.name ++ ascii "=" ++ decimal e.state.ctorIdx ++ ascii ";" ++ e.value ++ ascii ";"

def Turn.line (now : Duration) (x : Turn R) : Option Line :=
  if x.missing now then none else some ⟨x.obj.name, x.state now, repr (x.value now)⟩

/-- What is told of an objective without a measurement, by name and state; `none` stands for one
    with a measurement. -/
def Turn.gap (now : Duration) (x : Turn R) : Option (Bytes × ComplianceState) :=
  if x.missing now then some (x.obj.name, x.state now) else none

/-- The verdicts one of which is the overall one: those that are not Compliant, or the first. -/
def hardest {α : Type} (state : α → ComplianceState) (l : List α) : List α :=
  if (l.filter fun a => state a != .compliant).isEmpty then l.take 1
  else l.filter fun a => state a != .compliant

namespace Evaluation

variable (x : Evaluation R)

/-- The objectives of the contract with the accumulators they are judged on. -/
def turns : List (Turn R) :=
  SloFabric.turns x.before.accumulators x.now x.contract.objectives

def lines : List Line := x.turns.filterMap (·.line x.now)

def gaps : List (Option (Bytes × ComplianceState)) := x.turns.map (·.gap x.now)

/-- The objectives by name and state. -/
def decided : List (Bytes × ComplianceState) := x.turns.map fun a => (a.obj.name, a.state x.now)

/-- Those the binding one is taken from. -/
def candidates : List (Turn R) := hardest (·.state x.now) x.turns

/-- How they compare, place by place. -/
def compared : Nat → Nat → Bool := answers (Turn.outranks x.now) x.candidates

/-- What may bind where all objectives are measured, by name and state: what may come out first by
    severity, magnitude, priority and name. -/
def MayBind (d : Bytes × ComplianceState) : Prop :=
  (∀ a ∈ x.turns, a.missing x.now = false) ∧
    ∃ a, MayLead (Turn.outranks x.now) x.candidates a ∧ d = (a.obj.name, a.state x.now)

end Evaluation

namespace Turn

/-- The verdict of the turn and its part of the text. -/
def eval (now : Duration) (x : Turn R) : ObjEval R × Bytes :=
  (evaluateObjective ((KeyedTable.empty _).insert x.acc) x.obj now).2

theorem eval_turn (t : Accumulators R) (obj : Objective R) (now : Duration) :
    (evaluateObjective t obj now).2 = eval now ⟨acquire t obj, obj⟩ := by
  refine (evaluateObjective_agree now ?_).1
  have hfind := (KeyedTable.empty fun a : ObjectiveAccumulator R => a.defn.id).find_insert_key
    (acquire_id t obj)
  rw [acquire_eq ((KeyedTable.empty _).insert _), hfind]
  simp [acquireFrom]

/-- What a turn says, in terms of its objective and accumulator. -/
structure Tells (now : Duration) (x : Turn R) (y : ObjEval R × Bytes) : Prop where
  obj : y.1.obj = x.obj
  state : y.1.state = x.state now
  told : (y.1.st.name, y.1.st.state) = (x.obj.name, x.state now)
  rank : x.missing now = false → y.1.severityRank = severityRankOf (x.state now)
  magnitude : x.missing now = false → y.1.magnitude = x.magnitude now
  text : y.2 = ((x.line now).map Line.text).getD []

theorem tells_turn (t : Accumulators R) (obj : Objective R) (now : Duration) :
    Tells now ⟨acquire t obj, obj⟩ (evaluateObjective t obj now).2 := by
  by_cases h : unmeasured (computeMeasured (acquire t obj) now)
      (evaluateFreshness (acquire t obj) now) = true
  · have hmiss : (Turn.mk (acquire t obj) obj).missing now = true := h
    constructor <;> simp [evaluateObjective, h, hmiss, state, line]
  · have hmiss : (Turn.mk (acquire t obj) obj).missing now = false := Bool.eq_false_iff.mpr h
    constructor <;>
      simp [evaluateObjective, h, hmiss, state, line, Line.text, value, Turn.magnitude]

end Turn

/-- What holds of every turn the loop can take. -/
theorem forall_turns {P : Turn R → Prop} (h : ∀ t obj, P ⟨acquire t obj, obj⟩) (now : Duration) :
    ∀ (objs : List (Objective R)) (t : Accumulators R), ∀ x ∈ turns t now objs, P x
  | [], _, _, hx => absurd hx List.not_mem_nil
  | obj :: objs, t, x, hx => by
      rcases List.mem_cons.mp hx with rfl | hx
      · exact h t obj
      · exact forall_turns h now objs _ x hx

theorem mem_turns {now : Duration} : ∀ {objs : List (Objective R)} {t : Accumulators R}
    {x : Turn R}, x ∈ turns t now objs → x.obj ∈ objs
  | [], _, _, h => absurd h List.not_mem_nil
  | obj :: objs, t, x, h => by
      rcases List.mem_cons.mp h with rfl | h
      · exact List.mem_cons_self
      · exact List.mem_cons_of_mem _ (mem_turns h)

/-- The loop, turn by turn. -/
theorem evaluateObjectives_turns (now : Duration) : ∀ (objs : List (Objective R))
    (t : Accumulators R), (evaluateObjectives t now objs).2 =
      ((turns t now objs).map fun x => (x.eval now).1,
        (turns t now objs).flatMap fun x => (x.eval now).2)
  | [], _ => rfl
  | obj :: objs, t => by
      have hturn := Turn.eval_turn t obj now
      have hrest := evaluateObjectives_turns now objs (t.insert (judged t obj now))
      have hcons : (evaluateObjectives t now (obj :: objs)).2 =
          ((evaluateObjective t obj now).2.1 ::
              (evaluateObjectives (evaluateObjective t obj now).1 now objs).2.1,
            (evaluateObjective t obj now).2.2 ++
              (evaluateObjectives (evaluateObjective t obj now).1 now objs).2.2) := rfl
      rw [hcons, (evaluateObjective_spec t obj now).1, hrest, hturn]
      rfl

namespace Evaluation

variable {x y : Evaluation R}

theorem told (x : Evaluation R) : ∀ a ∈ x.turns, a.Tells x.now (a.eval x.now) := by
  refine forall_turns (fun t obj => ?_) x.now _ _
  rw [← Turn.eval_turn]
  exact Turn.tells_turn t obj x.now

theorem loop_fst (x : Evaluation R) : x.loop.1 = x.turns.map fun a => (a.eval x.now).1 :=
  congrArg Prod.fst (evaluateObjectives_turns x.now _ _)

theorem flatMap_getD {α : Type} {f : α → Option Line} : ∀ l : List α,
    (l.flatMap fun a => ((f a).map Line.text).getD []) = (l.filterMap f).flatMap Line.text
  | [] => rfl
  | a :: l => by
      rw [List.flatMap_cons, flatMap_getD l, List.filterMap_cons]
      cases f a <;> rfl

/-- **The text is that of the lines.** -/
theorem digest_lines (x : Evaluation R) : x.loop.2 = x.lines.flatMap Line.text := by
  have hloop : x.loop.2 = x.turns.flatMap fun a => (a.eval x.now).2 :=
    congrArg Prod.snd (evaluateObjectives_turns x.now _ _)
  have htext : (x.turns.flatMap fun a => (a.eval x.now).2) =
      x.turns.flatMap fun a => ((a.line x.now).map Line.text).getD [] := by
    rw [List.flatMap_def, List.flatMap_def]
    exact congrArg List.flatten (List.map_congr_left fun a ha => (x.told a ha).text)
  rw [hloop, htext, flatMap_getD]
  rfl

theorem decisions_turns [Platform R] (hx : x.Ran) : x.decisions = some x.decided := by
  rw [decisions_eq hx, loop_fst, List.map_map]
  exact congrArg some (List.map_congr_left fun a ha => (x.told a ha).told)

end Evaluation

/-! ## 3. Lines and gaps -/

/-- A verdict tells whether it rests on a measurement. -/
theorem Turn.isMeasured_state (now : Duration) (x : Turn R) :
    (x.state now).isMeasured = !x.missing now := by
  cases hmiss : x.missing now with
  | true =>
    simp only [state, hmiss, if_true, unmeasuredState]
    split <;> rfl
  | false =>
    have hstep : (stepState x.obj (x.value now) (rollBudget x.acc now).lastState).isMeasured =
        true := by
      unfold stepState
      split
      · rfl
      · rfl
      · split
        · rename_i hlast
          rcases hlast with h | h <;> rw [h] <;> rfl
        · rfl
    simp only [state, hmiss, Bool.false_eq_true, if_false, measuredState, Bool.not_false]
    split
    · rfl
    · exact hstep

namespace Evaluation

variable {x y : Evaluation R}

theorem gaps_eq (x : Evaluation R) :
    x.gaps = x.decided.map fun d => if d.2.isMeasured then none else some d := by
  rw [decided, List.map_map]
  refine List.map_congr_left fun a _ => ?_
  rw [Turn.gap, Function.comp_apply, Turn.isMeasured_state]
  cases a.missing x.now <;> rfl

theorem lines_map {α : Type} (f : Line → α) (x : Evaluation R) :
    x.lines.map f = (x.turns.filter fun a => (a.state x.now).isMeasured).map fun a =>
      f ⟨a.obj.name, a.state x.now, repr (a.value x.now)⟩ := by
  unfold lines
  generalize x.turns = l
  induction l with
  | nil => rfl
  | cons a l ih =>
    rw [List.filterMap_cons, Turn.line]
    cases hmiss : a.missing x.now with
    | true =>
      rw [List.filter_cons_of_neg (by rw [Turn.isMeasured_state, hmiss]; decide)]
      exact ih
    | false =>
      rw [List.filter_cons_of_pos (by rw [Turn.isMeasured_state, hmiss]; rfl)]
      exact congrArg _ ih

theorem lines_names (x : Evaluation R) :
    x.lines.map (fun e => (e.name, e.state)) = x.decided.filter (·.2.isMeasured) := by
  rw [decided, List.filter_map, lines_map]
  rfl

/-- **Decisions are lines and gaps.** -/
theorem decided_iff : x.decided = y.decided ↔ x.gaps = y.gaps ∧
    x.lines.map (fun e => (e.name, e.state)) = y.lines.map fun e => (e.name, e.state) := by
  rw [gaps_eq, gaps_eq, lines_names, lines_names]
  exact eq_iff_gaps fun d : Bytes × ComplianceState => d.2.isMeasured

/-! ## 4. The objective that binds -/

end Evaluation

theorem overallOf_eq [Platform R] (evals : List (ObjEval R)) : overallOf evals =
    if evals.any (·.state == .revalidationRequired) then some (.revalidationRequired, none)
    else if evals.any (·.state == .insufficientEvidence) then some (.insufficientEvidence, none)
    else ((Platform.sort R).sort moreSevere (hardest (·.state) evals)).head?.map
      fun e => (e.state, some e.obj) := by
  unfold overallOf
  split
  · rfl
  · split
    · rfl
    · unfold hardest
      dsimp only
      split <;> rename_i hsort <;> rw [hsort] <;> rfl

section Hardest

variable {α β : Type} {state : α → ComplianceState} {l : List α}

theorem mem_hardest {a : α} (h : a ∈ hardest state l) : a ∈ l := by
  unfold hardest at h
  split at h
  · exact List.mem_of_mem_take h
  · exact List.mem_of_mem_filter h

theorem hardest_map {state' : β → ComplianceState} {f : α → β}
    (h : ∀ a ∈ l, state' (f a) = state a) :
    hardest state' (l.map f) = (hardest state l).map f := by
  have hfilter : (l.map f).filter (fun b => state' b != .compliant) =
      (l.filter fun a => state a != .compliant).map f := by
    rw [List.filter_map]
    refine congrArg _ (List.filter_congr fun a ha => ?_)
    rw [Function.comp_apply, h a ha]
  unfold hardest
  rw [hfilter, List.isEmpty_map]
  split
  · rw [List.map_take]
  · rfl

end Hardest

namespace Evaluation

variable {x y : Evaluation R}

theorem mem_loop {ev : ObjEval R} (h : ev ∈ x.loop.1) :
    ∃ a ∈ x.turns, a.Tells x.now (ev, (a.eval x.now).2) := by
  rw [loop_fst] at h
  obtain ⟨a, ha, rfl⟩ := List.mem_map.mp h
  exact ⟨a, ha, x.told a ha⟩

theorem any_state (x : Evaluation R) (c : ComplianceState) :
    x.loop.1.any (·.state == c) = x.decided.any (·.2 == c) := by
  have hstates : x.loop.1.map (·.state) = x.decided.map (·.2) := by
    rw [loop_fst, decided, List.map_map, List.map_map]
    exact List.map_congr_left fun a ha => (x.told a ha).state
  have hany := congrArg (fun l : List ComplianceState => l.any (· == c)) hstates
  simp only [List.any_map] at hany
  exact hany

section

variable [Platform R]

/-- The overall compliance and the name of the binding objective. -/
def verdict (x : Evaluation R) : Option (ComplianceState × Option Bytes) :=
  (overallOf x.loop.1).map fun o => (o.1, o.2.map (·.name))

/-- **The same decision** is the same objectives by name and state, and the same verdict. -/
theorem sameDecision_iff (hx : x.Ran) (hy : y.Ran) :
    x.SameDecision y ↔ x.decided = y.decided ∧ x.verdict = y.verdict := by
  have hoverall {z : Evaluation R} (hz : z.Ran) : z.overall = z.verdict.map (·.1) := by
    rw [overall_eq hz, verdict, Option.map_map]
    rfl
  have hbinding (z : Evaluation R) : z.bindingName = z.verdict.bind (·.2) := by
    rw [bindingName, verdict]
    cases overallOf z.loop.1 <;> rfl
  constructor
  · intro h
    have hdecided := h.decisions
    rw [decisions_turns hx, decisions_turns hy, Option.some.injEq] at hdecided
    refine ⟨hdecided, ?_⟩
    have hfst := h.overall
    have hsnd := h.binding
    rw [hoverall hx, hoverall hy] at hfst
    rw [hbinding, hbinding] at hsnd
    cases hvx : x.verdict <;> cases hvy : y.verdict <;> rw [hvx, hvy] at hfst hsnd
    · cases hfst
    · cases hfst
    · exact congrArg some (Prod.ext (Option.some.inj hfst) hsnd)
  · rintro ⟨hdecided, hverdict⟩
    exact ⟨by rw [decisions_turns hx, decisions_turns hy, hdecided],
      by rw [hoverall hx, hoverall hy, hverdict], by rw [hbinding, hbinding, hverdict]⟩

/-- Where some objective is not measured, the verdict is known from the states. -/
theorem verdict_of_missing {a : Turn R} (ha : a ∈ x.turns) (hm : a.missing x.now = true) :
    x.verdict = some (if x.decided.any (·.2 == .revalidationRequired) then .revalidationRequired
      else .insufficientEvidence, none) := by
  have hunmeasured : (a.state x.now).isMeasured = false := by
    rw [Turn.isMeasured_state, hm]
    rfl
  have hmem : (a.obj.name, a.state x.now) ∈ x.decided := List.mem_map.mpr ⟨a, ha, rfl⟩
  unfold verdict
  rw [overallOf_eq, any_state, any_state]
  split
  · rfl
  · rename_i hrev
    have hins : x.decided.any (·.2 == .insufficientEvidence) = true := by
      refine List.any_eq_true.mpr ⟨_, hmem, ?_⟩
      have hstate : a.state x.now ≠ .revalidationRequired := fun h =>
        hrev (List.any_eq_true.mpr ⟨_, hmem, by rw [h]; rfl⟩)
      simp only [ComplianceState.isMeasured, Bool.and_eq_false_iff,
        bne_eq_false_iff_eq] at hunmeasured
      exact beq_iff_eq.mpr (hunmeasured.resolve_right hstate)
    rw [if_pos hins]
    rfl

/-- Where all are measured, it is that of the candidate the sort puts first. -/
theorem verdict_of_values (h : ∀ a ∈ x.turns, a.missing x.now = false) :
    x.verdict = ((Platform.sort R).sort (Turn.outranks x.now) x.candidates).head?.map
      fun a => (a.state x.now, some a.obj.name) := by
  have hstate : ∀ a ∈ x.turns, (a.eval x.now).1.state = a.state x.now :=
    fun a ha => (x.told a ha).state
  have hany (c : ComplianceState) (hc : c.isMeasured = false) :
      x.loop.1.any (·.state == c) = false := by
    refine List.any_eq_false.mpr fun e he heq => ?_
    obtain ⟨a, ha, hea⟩ := mem_loop he
    have hm := Turn.isMeasured_state x.now a
    rw [← hea.state, eq_of_beq heq, hc, h a ha] at hm
    cases hm
  have hsame : ∀ a ∈ x.candidates, ∀ b ∈ x.candidates,
      moreSevere (a.eval x.now).1 (b.eval x.now).1 = a.outranks x.now b := by
    intro a ha b hb
    have ha := mem_hardest ha
    have hb := mem_hardest hb
    unfold moreSevere Turn.outranks
    rw [(x.told a ha).rank (h a ha), (x.told b hb).rank (h b hb),
      (x.told a ha).magnitude (h a ha), (x.told b hb).magnitude (h b hb),
      (x.told a ha).obj, (x.told b hb).obj]
  have hsorted : (Platform.sort R).sort moreSevere (hardest (·.state) x.loop.1) =
      ((Platform.sort R).sort (Turn.outranks x.now) x.candidates).map
        fun a => (a.eval x.now).1 := by
    rw [loop_fst, hardest_map hstate, ← List.map_id ((Platform.sort R).sort moreSevere _)]
    exact (Platform.sort R).sort_congr (answers_map hsame) (List.map_id _)
  unfold verdict
  rw [overallOf_eq, hany _ rfl, hany _ rfl, hsorted, List.head?_map]
  simp only [Bool.false_eq_true, if_false, Option.map_map]
  refine Option.map_congr fun a ha => ?_
  have ha := mem_hardest (ComparisonSort.mem_sort.mp (List.mem_of_mem_head? ha))
  rw [Function.comp_apply, Function.comp_apply, (x.told a ha).obj, hstate a ha]
  rfl

/-- What comes out may bind. -/
theorem mayBind_of_head (h : ∀ a ∈ x.turns, a.missing x.now = false) {a : Turn R}
    (ha : ((Platform.sort R).sort (Turn.outranks x.now) x.candidates).head? = some a) :
    x.MayBind (a.obj.name, a.state x.now) := ⟨h, a, .of_sort ha, rfl⟩

omit [Platform R] in
/-- The candidates by name and state. -/
theorem candidates_map (x : Evaluation R) :
    x.candidates.map (fun a => (a.obj.name, a.state x.now)) = hardest (·.2) x.decided := by
  rw [decided, hardest_map (f := fun a : Turn R => (a.obj.name, a.state x.now)) fun _ _ => rfl]
  rfl

/-- **Equal decisions have the same one first** where the candidates compare alike, or only the
    same one may bind. -/
theorem head_congr (hx : ∀ a ∈ x.turns, a.missing x.now = false)
    (hy : ∀ a ∈ y.turns, a.missing y.now = false) (hdecided : x.decided = y.decided)
    (h : x.compared = y.compared ∨ ∀ d d', x.MayBind d → y.MayBind d' → d = d') :
    ((Platform.sort R).sort (Turn.outranks x.now) x.candidates).head?.map
        (fun a => (a.obj.name, a.state x.now)) =
      ((Platform.sort R).sort (Turn.outranks y.now) y.candidates).head?.map
        fun a => (a.obj.name, a.state y.now) := by
  have hcandidates := x.candidates_map.trans (hdecided ▸ y.candidates_map.symm)
  rcases h with hcompared | hbind
  · rw [← List.head?_map, ← List.head?_map,
      (Platform.sort R).sort_congr hcompared hcandidates]
  · have hlen := congrArg List.length hcandidates
    rw [List.length_map, List.length_map] at hlen
    cases hxs : ((Platform.sort R).sort (Turn.outranks x.now) x.candidates).head? with
    | none =>
      rw [List.head?_eq_none_iff, ComparisonSort.sort_eq_nil] at hxs
      rw [hxs] at hlen
      rw [List.eq_nil_of_length_eq_zero hlen.symm, ComparisonSort.sort_eq_nil.mpr rfl,
        List.head?_nil, Option.map_none, Option.map_none]
    | some a =>
      cases hys : ((Platform.sort R).sort (Turn.outranks y.now) y.candidates).head? with
      | none =>
        rw [List.head?_eq_none_iff, ComparisonSort.sort_eq_nil] at hys
        rw [hys] at hlen
        rw [List.eq_nil_of_length_eq_zero hlen, ComparisonSort.sort_eq_nil.mpr rfl] at hxs
        cases hxs
      | some b =>
        exact congrArg some (hbind _ _ (mayBind_of_head hx hxs) (mayBind_of_head hy hys))

/-- **Equal decisions have equal verdicts** then. -/
theorem verdict_congr (hdecided : x.decided = y.decided) (h : x.compared = y.compared ∨
    ∀ d d', x.MayBind d → y.MayBind d' → d = d') : x.verdict = y.verdict := by
  have hall {z : Evaluation R} : (∀ a ∈ z.turns, a.missing z.now = false) ↔
      ∀ d ∈ z.decided, d.2.isMeasured = true := by
    simp only [decided, List.forall_mem_map, Turn.isMeasured_state, Bool.not_eq_true']
  have hiff : (∀ a ∈ x.turns, a.missing x.now = false) ↔
      ∀ a ∈ y.turns, a.missing y.now = false := by
    rw [hall, hall, hdecided]
  by_cases hx : ∀ a ∈ x.turns, a.missing x.now = false
  · have hswap := congrArg (Option.map fun d : Bytes × ComplianceState => (d.2, some d.1))
      (head_congr hx (hiff.mp hx) hdecided h)
    rw [Option.map_map, Option.map_map] at hswap
    rw [verdict_of_values hx, verdict_of_values (hiff.mp hx)]
    exact hswap
  · have hy : ¬∀ a ∈ y.turns, a.missing y.now = false := fun hy => hx (hiff.mpr hy)
    push Not at hx hy
    obtain ⟨a, ha, hma⟩ := hx
    obtain ⟨b, hb, hmb⟩ := hy
    rw [verdict_of_missing ha (Bool.eq_true_of_not_eq_false hma),
      verdict_of_missing hb (Bool.eq_true_of_not_eq_false hmb), hdecided]

end

/-- **Where the candidates do not compare alike**, some sort puts first of each what may bind. -/
theorem exists_verdicts (h : x.compared ≠ y.compared) {d d' : Bytes × ComplianceState}
    (hd : x.MayBind d) (hd' : y.MayBind d') :
    ∃ cs : ComparisonSort, @verdict R _ ⟨cs⟩ x = some (d.2, some d.1) ∧
      @verdict R _ ⟨cs⟩ y = some (d'.2, some d'.1) := by
  obtain ⟨hx, a, ha, rfl⟩ := hd
  obtain ⟨hy, b, hb, rfl⟩ := hd'
  obtain ⟨cs, hfirst, _⟩ := ha.exists_sort .stable
  obtain ⟨cs', hfirst', hsame⟩ := hb.exists_sort cs
  refine ⟨cs', ?_, ?_⟩
  · rw [@verdict_of_values R _ x ⟨cs'⟩ hx]
    show (cs'.sort (Turn.outranks x.now) x.candidates).head?.map _ = _
    rw [ComparisonSort.head_sort, hsame x.candidates.length (answers _ x.candidates) fun _ => h,
      ← ComparisonSort.head_sort, hfirst]
    rfl
  · rw [@verdict_of_values R _ y ⟨cs'⟩ hy]
    show (cs'.sort (Turn.outranks y.now) y.candidates).head?.map _ = _
    rw [hfirst']
    rfl

end Evaluation

/-! ## 5. Lines that read the same -/

/-- The two fields of a line that a semicolon ends. -/
def Line.fields (e : Line) : Bytes × Bytes :=
  (e.name ++ ascii "=" ++ decimal e.state.ctorIdx, e.value)

/-- A line is known from its fields: the state is the last digit of the first one. -/
theorem Line.fields_inj : Function.Injective Line.fields := by
  have hdigit (c : ComplianceState) : decimal c.ctorIdx = [UInt8.ofNat (48 + c.ctorIdx)] := by
    cases c <;> rfl
  have hstate (c d : ComplianceState)
      (h : UInt8.ofNat (48 + c.ctorIdx) = UInt8.ofNat (48 + d.ctorIdx)) : c = d := by
    revert h
    cases c <;> cases d <;> decide
  rintro ⟨n, c, v⟩ ⟨m, d, w⟩ h
  obtain ⟨hhead, hvalue⟩ := Prod.mk.inj h
  rw [hdigit, hdigit] at hhead
  obtain ⟨hname, hlast⟩ := List.append_inj' hhead rfl
  have hname : n = m := List.append_cancel_right hname
  have hcd : c = d := hstate c d (List.cons.inj hlast).1
  have hvw : v = w := hvalue
  rw [hname, hcd, hvw]

theorem flatMap_text (l : List Line) : l.flatMap Line.text = rowText 59 (l.map Line.fields) := by
  rw [rowText, List.flatMap_map]
  refine congrArg (fun f => l.flatMap f) (funext fun e => ?_)
  have hsemi : ascii ";" = [59] := rfl
  simp [Line.text, Line.fields, hsemi]

/-- The lines differ, and read the same one after the other. -/
def WrittenAlike (l l' : List Line) : Prop :=
  l ≠ l' ∧ l.flatMap Line.text = l'.flatMap Line.text

/-- **Lines without semicolons do not read the same.** -/
theorem not_writtenAlike {l l' : List Line} (h : ∀ e ∈ l, 59 ∉ e.name ∧ 59 ∉ e.value)
    (h' : ∀ e ∈ l', 59 ∉ e.name ∧ 59 ∉ e.value) : ¬WrittenAlike l l' := by
  rintro ⟨hne, htext⟩
  rw [flatMap_text, flatMap_text] at htext
  have hplain {l : List Line} (h : ∀ e ∈ l, 59 ∉ e.name ∧ 59 ∉ e.value) :
      ∀ p ∈ l.map Line.fields, 59 ∉ p.1 ∧ 59 ∉ p.2 := by
    intro p hp
    obtain ⟨e, he, rfl⟩ := List.mem_map.mp hp
    refine ⟨fun hmem => ?_, (h e he).2⟩
    rcases List.mem_append.mp hmem with hmem | hmem
    · rcases List.mem_append.mp hmem with hmem | hmem
      · exact (h e he).1 hmem
      · exact absurd hmem (by decide)
    · exact absurd (digit_of_mem_decimal hmem).2 (by decide)
  exact hne (Line.fields_inj.list_map (rowText_inj (hplain h) (hplain h') htext))

/-- Nor do lines of the same names and states, whatever the names. -/
theorem lines_of_names {l l' : List Line} (h : ∀ e ∈ l, 59 ∉ e.value) (h' : ∀ e ∈ l', 59 ∉ e.value)
    (hnames : l.map (fun e => (e.name, e.state)) = l'.map fun e => (e.name, e.state))
    (htext : l.flatMap Line.text = l'.flatMap Line.text) : l = l' := by
  rw [flatMap_text, flatMap_text] at htext
  have hheads : (l.map Line.fields).map Prod.fst = (l'.map Line.fields).map Prod.fst := by
    have hmap := congrArg (List.map fun p : Bytes × ComplianceState =>
      p.1 ++ ascii "=" ++ decimal p.2.ctorIdx) hnames
    simp only [List.map_map] at hmap ⊢
    exact hmap
  have hvalues {l : List Line} (h : ∀ e ∈ l, 59 ∉ e.value) :
      ∀ p ∈ l.map Line.fields, 59 ∉ p.2 := by
    intro p hp
    obtain ⟨e, he, rfl⟩ := List.mem_map.mp hp
    exact h e he
  exact Line.fields_inj.list_map (rowText_inj_of_heads hheads (hvalues h) (hvalues h') htext)

/-! ## 6. What the text tells -/

namespace Evaluation

variable {x y : Evaluation R}

/-- Contract and policy are of the same generations. -/
def SameGenerations (x y : Evaluation R) : Prop :=
  x.contract.gen = y.contract.gen ∧ x.contract.policyGen = y.contract.policyGen

/-- **The text holds the generations and the lines.** -/
theorem digestInput_iff (hx : x.Ran) (hy : y.Ran) : x.digestInput = y.digestInput ↔
    x.SameGenerations y ∧ x.lines.flatMap Line.text = y.lines.flatMap Line.text := by
  have hpolicy {z : Evaluation R} (hz : z.Ran) : z.policy.gen = z.contract.policyGen := by
    simpa using (Option.filter_eq_some_iff.mp hz.policy).2
  have hbar (n : Nat) : (124 : UInt8) ∉ decimal n := fun h =>
    absurd (digit_of_mem_decimal h).2 (by decide)
  have hinput (z : Evaluation R) : z.digestInput = decimal z.contract.gen.value.toNat ++
      124 :: (decimal z.policy.gen.value.toNat ++ 124 :: z.loop.2) := by
    have hascii : ascii "|" = [124] := rfl
    simp [digestInput, hascii]
  rw [hinput, hinput, digest_lines, digest_lines, hpolicy hx, hpolicy hy]
  constructor
  · intro h
    obtain ⟨hcontract, h⟩ := field_inj (hbar _) (hbar _) h
    obtain ⟨hpol, h⟩ := field_inj (hbar _) (hbar _) h
    have hcontract := UInt64.toNat_inj.mp (decimal_inj hcontract)
    have hpol := UInt64.toNat_inj.mp (decimal_inj hpol)
    exact ⟨⟨congrArg Gen.mk hcontract, congrArg Gen.mk hpol⟩, h⟩
  · rintro ⟨⟨hcontract, hpol⟩, h⟩
    rw [hcontract, hpol, h]

/-- What makes the decision known from the text: lines that read the same are the same, and where
    they are the same so are the gaps between them, and the candidates compare alike or there is
    one name and state that may bind. -/
structure Told (x y : Evaluation R) : Prop where
  written : ¬WrittenAlike x.lines y.lines
  gaps : x.lines = y.lines → x.gaps = y.gaps
  binds : x.lines = y.lines → x.gaps = y.gaps → x.compared = y.compared ∨
    ∀ d d', x.MayBind d → y.MayBind d' → d = d'

end Evaluation

end Turns

/-- The values of lines have no semicolons. -/
theorem Evaluation.lines_plain (x : Evaluation Binary64) : ∀ e ∈ x.lines, 59 ∉ e.value := by
  intro e he
  obtain ⟨a, _, hline⟩ := List.mem_filterMap.mp he
  unfold Turn.line at hline
  split at hline
  · cases hline
  · cases hline
    exact Binary64.semicolon_notMem_fixed 6 _

/-- The lines of two evaluations do not read the same where no objective has a semicolon in its
    name. -/
theorem Evaluation.not_writtenAlike {x y : Evaluation Binary64}
    (hx : ∀ o ∈ x.contract.objectives, 59 ∉ o.name)
    (hy : ∀ o ∈ y.contract.objectives, 59 ∉ o.name) : ¬WrittenAlike x.lines y.lines := by
  have hplain {z : Evaluation Binary64} (hz : ∀ o ∈ z.contract.objectives, 59 ∉ o.name) :
      ∀ e ∈ z.lines, 59 ∉ e.name ∧ 59 ∉ e.value := by
    intro e he
    refine ⟨?_, z.lines_plain e he⟩
    obtain ⟨a, ha, hline⟩ := List.mem_filterMap.mp he
    have hobj := hz a.obj (mem_turns ha)
    unfold Turn.line at hline
    split at hline <;> cases hline
    exact hobj
  exact SloFabric.not_writtenAlike (hplain hx) (hplain hy)

/-- **When the text tells the decision**, on every platform. -/
theorem digest_tells_iff {x y : Evaluation Binary64} (hx : x.Ran) (hy : y.Ran) :
    (∀ [Platform Binary64], x.digestInput = y.digestInput → x.SameDecision y) ↔
      (x.SameGenerations y → x.Told y) := by
  rw [Evaluation.digestInput_iff hx hy]
  constructor
  · intro h hgens
    have hsame (htext : x.lines.flatMap Line.text = y.lines.flatMap Line.text)
        (_ : Platform Binary64) : x.decided = y.decided ∧ x.verdict = y.verdict :=
      (Evaluation.sameDecision_iff hx hy).mp (h ⟨hgens, htext⟩)
    refine ⟨fun ⟨hne, htext⟩ => hne ?_, fun hlines => ?_, fun hlines _ => ?_⟩
    · have hdecided := (hsame htext ⟨.stable⟩).1
      exact lines_of_names x.lines_plain y.lines_plain
        (Evaluation.decided_iff.mp hdecided).2 htext
    · exact (Evaluation.decided_iff.mp (hsame (by rw [hlines]) ⟨.stable⟩).1).1
    · by_contra hno
      push Not at hno
      obtain ⟨hcompared, d, d', hd, hd', hne⟩ := hno
      obtain ⟨cs, hvx, hvy⟩ := Evaluation.exists_verdicts hcompared hd hd'
      have hverdict := (hsame (by rw [hlines]) ⟨cs⟩).2
      rw [hvx, hvy, Option.some.injEq, Prod.mk.injEq, Option.some.injEq] at hverdict
      exact hne (Prod.ext hverdict.2 hverdict.1)
  · rintro h _ ⟨hgens, htext⟩
    have htold := h hgens
    have hlines : x.lines = y.lines := by
      by_contra hne
      exact htold.written ⟨hne, htext⟩
    have hgaps := htold.gaps hlines
    have hdecided : x.decided = y.decided :=
      Evaluation.decided_iff.mpr ⟨hgaps, by rw [hlines]⟩
    exact (Evaluation.sameDecision_iff hx hy).mpr
      ⟨hdecided, Evaluation.verdict_congr hdecided (htold.binds hlines hgaps)⟩

/-! ## 7. An objective without evidence -/

/-- The evaluation of a scope, if it succeeds. -/
def evaluationAt [Double R] [Platform R] (s : State R) (service : ServiceId)
    (workload : WorkloadId) (now : Duration) : Option (Evaluation R) :=
  match selectContract s.contracts service workload now with
  | none => none
  | some c =>
    match (s.policies.find c.policyId).filter (·.gen = c.policyGen) with
    | none => none
    | some policy =>
      match evaluate s service workload now with
      | some (_, .ok _) => some ⟨s, service, workload, now, c, policy⟩
      | _ => none

theorem ran_evaluationAt [Double R] [Platform R] {s : State R} {service : ServiceId}
    {workload : WorkloadId} {now : Duration} {x : Evaluation R}
    (h : evaluationAt s service workload now = some x) : x.Ran ∧ x.before = s := by
  unfold evaluationAt at h
  split at h
  · cases h
  · rename_i hc
    split at h
    · cases h
    · rename_i hp
      split at h
      · rename_i hx
        cases h
        exact ⟨.of_evaluate hc hp hx, rfl⟩
      · cases h

/-- A fabric with a contract of these objectives, and a latency of 50 ms for objective `1`. -/
def observed (objectives : List (Objective Binary64)) : State Binary64 :=
  after [.setPolicy smallPolicy, .addContract (smallContract 1 1 1 objectives),
    .ingest (smallEvidence 1 1 50000000) 0]

/-- Its evaluation at time `0`. -/
def observation (objectives : List (Objective Binary64)) : Option (Evaluation Binary64) :=
  evaluationAt (observed objectives) ⟨1⟩ ⟨1⟩ 0

/-- The two succeed; is the same text hashed, with as many objectives? -/
def sameText (os os' : List (Objective Binary64)) : Option (Bool × Bool) :=
  (observation os).bind fun x => (observation os').map fun y =>
    (x.digestInput == y.digestInput, x.decisions.map List.length == y.decisions.map List.length)

theorem of_sameText {os os' : List (Objective Binary64)} {p q : Bool}
    (h : sameText os os' = some (p, q)) : ∃ x y : Evaluation Binary64,
    (x.Ran ∧ x.before = observed os) ∧ (y.Ran ∧ y.before = observed os') ∧
      (x.digestInput == y.digestInput) = p ∧
      (x.decisions.map List.length == y.decisions.map List.length) = q := by
  obtain ⟨x, hx, h⟩ := Option.bind_eq_some_iff.mp h
  obtain ⟨y, hy, h⟩ := Option.map_eq_some_iff.mp h
  obtain ⟨hp, hq⟩ := Prod.mk.inj h
  exact ⟨x, y, ran_evaluationAt hx, ran_evaluationAt hy, hp, hq⟩

/-- Two evaluations of an objective with evidence, one of them with another target. -/
theorem digest_tells_small : ∃ x y : Evaluation Binary64,
    x.before = observed [smallObjective 1 1] ∧
    y.before = observed [{ smallObjective 1 1 with target := .duration 40000000 }] ∧
    ((∀ [Platform Binary64], x.digestInput = y.digestInput → x.SameDecision y) ↔
      (x.SameGenerations y → x.Told y)) := by
  obtain ⟨x, y, ⟨hx, hbx⟩, ⟨hy, hby⟩, _⟩ := @of_sameText [smallObjective 1 1]
    [{ smallObjective 1 1 with target := .duration 40000000 }] false true (by decide +kernel)
  exact ⟨x, y, hbx, hby, digest_tells_iff hx hy⟩

/-- **The text does not tell the decision**: an objective without evidence leaves no line. -/
theorem digest_tells_fails :
    ¬∀ x y : Evaluation Binary64, Reachable x.before → Reachable y.before → x.Ran → y.Ran →
      x.digestInput = y.digestInput → x.SameDecision y := by
  intro h
  obtain ⟨x, y, ⟨hx, hbx⟩, ⟨hy, hby⟩, htext, hlength⟩ := @of_sameText [smallObjective 1 1]
    [smallObjective 1 1, smallObjective 2 1] true false (by decide +kernel)
  have hsame := h x y (hbx ▸ reachable_after _) (hby ▸ reachable_after _) hx hy (eq_of_beq htext)
  rw [hsame.decisions, beq_self_eq_true] at hlength
  cases hlength

end SloFabric
