/-
  File:      SloFabric/Binding.lean
  Subject:   Which objective binds, and which one the policy says should.

  * `declaredBefore`: the order of a policy's mode and tie-break rule;
  * `BindingFollows`: the binding objective is a least non-Compliant one in that order, so a
    Hard one where there is one;
  * `rankKey`, `moreSevere_iff`: the code's order, by severity, magnitude, priority and name,
    whatever the policy says; `overallOf_leads`: what `std::sort` may put first in it binds;
  * `binding_iff`: the binding objective follows the policy on every platform exactly when the
    code's order puts another objective before each one that the policy puts another one before;
  * `binding_fails`: a Soft violation binds before a Hard objective near its limit.
-/
import SloFabric.Decision
import Mathlib.Data.Prod.Lex

namespace SloFabric

variable {R : Type}

/-! ## 1. The order a policy declares -/

/-- The tie-break rule: the lower priority number, the lexicographically first name, or the lower
    objective id wins. -/
def tieBefore (rule : TieBreak) (a b : Objective R) : Bool :=
  match rule with
  | .byPriority => decide (a.priority < b.priority)
  | .byName => decide (a.name < b.name)
  | .byObjectiveId => decide (a.id < b.id)

/-- **The declared order**: hard before soft; then severity and priority, in the order of the
    mode; then the tie-break rule. -/
def declaredBefore (policy : SloPolicy) (a b : ObjEval R) : Bool :=
  let rank (e : ObjEval R) := severityRankOf e.state
  if a.obj.hard ≠ b.obj.hard then a.obj.hard == .hard
  else
    match policy.mode with
    | .hardThenSoft =>
      if rank a ≠ rank b then decide (rank a < rank b)
      else if a.obj.priority ≠ b.obj.priority then decide (a.obj.priority < b.obj.priority)
      else tieBefore policy.tieBreak a.obj b.obj
    | .lexicographic =>
      if a.obj.priority ≠ b.obj.priority then decide (a.obj.priority < b.obj.priority)
      else if rank a ≠ rank b then decide (rank a < rank b)
      else tieBefore policy.tieBreak a.obj b.obj

/-- The verdicts that are not Compliant. -/
def nonCompliant (evals : List (ObjEval R)) : List (ObjEval R) :=
  evals.filter (·.state != .compliant)

/-- Verdicts that all rest on a measurement, ranked by their states. -/
structure Measured (evals : List (ObjEval R)) : Prop where
  state : ∀ e ∈ evals, e.state.isMeasured = true
  rank : ∀ e ∈ evals, e.severityRank = severityRankOf e.state

/-- **Policy-ordered binding**: where some objective is not Compliant, the binding one is such
    that no other is before it in the declared order, and it is Hard if any of them is. -/
def BindingFollows [Double R] [Platform R] (policy : SloPolicy) (evals : List (ObjEval R)) : Prop :=
  nonCompliant evals ≠ [] → ∃ e ∈ nonCompliant evals,
    overallOf evals = some (e.state, some e.obj) ∧
    (∀ x ∈ nonCompliant evals, declaredBefore policy x e = false) ∧
    ((∃ x ∈ nonCompliant evals, x.obj.hard = .hard) → e.obj.hard = .hard)

/-- What is first in the declared order is Hard if anything is. -/
theorem hard_of_least {policy : SloPolicy} {l : List (ObjEval R)} {e : ObjEval R}
    (hleast : ∀ x ∈ l, declaredBefore policy x e = false)
    (hhard : ∃ x ∈ l, x.obj.hard = .hard) : e.obj.hard = .hard := by
  obtain ⟨x, hx, hxh⟩ := hhard
  by_contra hne
  have hbefore := hleast x hx
  unfold declaredBefore at hbefore
  simp only at hbefore
  rw [if_pos (by rw [hxh]; exact Ne.symm hne), hxh] at hbefore
  cases hbefore

/-- The declared order looks at objectives and states only. -/
theorem declaredBefore_congr (policy : SloPolicy) (x : ObjEval R) {e e' : ObjEval R}
    (hobj : e.obj = e'.obj) (hstate : e.state = e'.state) :
    declaredBefore policy x e = declaredBefore policy x e' := by
  simp only [declaredBefore, hobj, hstate]

/-! ## 2. The order of the code -/

/-- The keys the code compares, given what stands for the magnitude: severity, magnitude,
    priority, name. -/
def keyBy {L : Type} (m : ObjEval R → L) (e : ObjEval R) : ℕ ×ₗ L ×ₗ ℤ ×ₗ List ℕ :=
  toLex (e.severityRank, toLex (m e, toLex (e.obj.priority.toInt, e.obj.name.map UInt8.toNat)))

/-- **The code's order is that of its keys**, where the magnitudes of the two compare as what
    stands for them does. -/
theorem moreSevere_keyBy [Double R] {L : Type} [LinearOrder L] {m : ObjEval R → L}
    {a b : ObjEval R} (heq : Double.eq a.magnitude b.magnitude = decide (m a = m b))
    (hlt : Double.lt b.magnitude a.magnitude = decide (m a < m b)) :
    moreSevere a b = true ↔ keyBy m a < keyBy m b := by
  have hname : a.obj.name < b.obj.name ↔
      a.obj.name.map UInt8.toNat < b.obj.name.map UInt8.toNat :=
    list_map_lt_iff (fun _ _ => UInt8.lt_iff_toNat_lt) (fun _ _ => UInt8.toNat_inj.mp) _ _
  unfold moreSevere keyBy
  rw [heq, hlt]
  simp only [Prod.Lex.toLex_lt_toLex]
  by_cases hrank : a.severityRank = b.severityRank
  · by_cases hmag : m a = m b
    · by_cases hprio : a.obj.priority = b.obj.priority
      · simp [hrank, hmag, hprio, hname]
      · have hne : a.obj.priority.toInt ≠ b.obj.priority.toInt := fun h =>
          hprio (Int32.toInt_inj.mp h)
        simp [hrank, hmag, hprio, hne, Int32.lt_iff_toInt_lt]
    · simp [hrank, hmag]
  · simp [hrank]

/-- Where no verdict is decided without a value, every verdict has one. -/
theorem all_measured {evals : List (ObjEval R)}
    (hrev : ¬evals.any (·.state == .revalidationRequired) = true)
    (hins : ¬evals.any (·.state == .insufficientEvidence) = true) :
    ∀ e ∈ evals, e.state.isMeasured = true := by
  intro e he
  simp only [List.any_eq_true, not_exists, not_and, beq_iff_eq] at hrev hins
  simp [ComplianceState.isMeasured, hrev e he, hins e he]

/-- The binding objective is that of the verdict `std::sort` puts first among those that are not
    Compliant. -/
theorem overallOf_sorted [Double R] [Platform R] {evals : List (ObjEval R)}
    (hm : ∀ e ∈ evals, e.state.isMeasured = true) (hne : nonCompliant evals ≠ []) :
    overallOf evals = ((Platform.sort R).sort moreSevere (nonCompliant evals)).head?.map
      fun e => (e.state, some e.obj) := by
  have hrev : evals.any (·.state == .revalidationRequired) = false := by
    refine List.any_eq_false.mpr fun e he h => ?_
    have hst := hm e he
    rw [eq_of_beq h] at hst
    cases hst
  have hins : evals.any (·.state == .insufficientEvidence) = false := by
    refine List.any_eq_false.mpr fun e he h => ?_
    have hst := hm e he
    rw [eq_of_beq h] at hst
    cases hst
  have hempty : (evals.filter (·.state != .compliant)).isEmpty = false :=
    List.isEmpty_eq_false_iff.mpr hne
  unfold overallOf nonCompliant
  simp only [hrev, hins, hempty, Bool.false_eq_true, if_false]
  cases (Platform.sort R).sort moreSevere (evals.filter (·.state != .compliant)) <;> rfl

/-- It is one that may come out first. -/
theorem overallOf_leads [Double R] [Platform R] {evals : List (ObjEval R)}
    (hm : ∀ e ∈ evals, e.state.isMeasured = true) (hne : nonCompliant evals ≠ []) :
    ∃ e, MayLead moreSevere (nonCompliant evals) e ∧
      overallOf evals = some (e.state, some e.obj) := by
  have hov := overallOf_sorted hm hne
  cases hhead : ((Platform.sort R).sort moreSevere (nonCompliant evals)).head? with
  | none =>
    exact absurd (ComparisonSort.sort_eq_nil.mp (List.head?_eq_none_iff.mp hhead)) hne
  | some e =>
    rw [hhead] at hov
    exact ⟨e, .of_sort hhead, hov⟩

/-- Where the code's order is that of a key, it has the least key. -/
theorem overallOf_first [Double R] [Platform R] {K : Type} [LinearOrder K] {key : ObjEval R → K}
    {evals : List (ObjEval R)} (hm : ∀ e ∈ evals, e.state.isMeasured = true)
    (hkey : ∀ a ∈ nonCompliant evals, ∀ b ∈ nonCompliant evals,
      moreSevere a b = true ↔ key a < key b) (hne : nonCompliant evals ≠ []) :
    ∃ e ∈ nonCompliant evals, (∀ x ∈ nonCompliant evals, key e ≤ key x) ∧
      overallOf evals = some (e.state, some e.obj) := by
  obtain ⟨e, he, hov⟩ := overallOf_leads hm hne
  exact ⟨e, he.1, ((mayLead_iff_least hkey).mp he).2, hov⟩

/-- The keys on binary64 magnitudes: the larger one first. -/
def rankKey (e : ObjEval Binary64) : ℕ ×ₗ ℤ ×ₗ ℤ ×ₗ List ℕ :=
  keyBy (fun e => -e.magnitude.ordinal) e

/-- **The code's order on binary64 magnitudes**, none of them a NaN. -/
theorem moreSevere_iff {a b : ObjEval Binary64} (ha : a.magnitude.isNaN = false)
    (hb : b.magnitude.isNaN = false) : moreSevere a b = true ↔ rankKey a < rankKey b := by
  have heq : Double.eq a.magnitude b.magnitude =
      decide (-a.magnitude.ordinal = -b.magnitude.ordinal) := by
    simp [Double.eq, Binary64.eq, ha, hb]
  have hlt : Double.lt b.magnitude a.magnitude =
      decide (-a.magnitude.ordinal < -b.magnitude.ordinal) := by
    simp [Double.lt, Binary64.lt, ha, hb]
  exact moreSevere_keyBy (m := fun e : ObjEval Binary64 => -e.magnitude.ordinal) heq hlt

/-- It is a strict weak order there, as `std::sort` asks for. -/
theorem moreSevere_strictWeak {l : List (ObjEval Binary64)}
    (hnan : ∀ e ∈ l, e.magnitude.isNaN = false) : StrictWeak (· ∈ l) moreSevere :=
  .of_key fun a ha b hb => moreSevere_iff (hnan a ha) (hnan b hb)

/-! ## 3. When the binding objective follows the policy -/

/-- Another verdict comes before `e` whatever the sort: the order of the code is a strict weak
    one on the list, and in it another verdict is more severe, by severity, magnitude, priority
    and name. -/
def Outranked [Double R] (l : List (ObjEval R)) (e : ObjEval R) : Prop :=
  StrictWeak (· ∈ l) moreSevere ∧ ∃ x ∈ l, moreSevere x e = true

/-- What is not outranked may come out first. -/
theorem outranked_iff [Double R] {l : List (ObjEval R)} {e : ObjEval R} (he : e ∈ l) :
    Outranked l e ↔ ¬MayLead moreSevere l e := by
  constructor
  · rintro ⟨hweak, x, hx, hxe⟩ hlead
    rw [hlead.2 hweak x hx] at hxe
    cases hxe
  · intro hlead
    by_contra hout
    refine hlead ⟨he, fun hweak x hx => ?_⟩
    rw [← Bool.not_eq_true]
    exact fun hxe => hout ⟨hweak, x, hx, hxe⟩

/-- **When the binding objective follows the policy.** For every policy and all measured
    verdicts: the binding objective follows the policy on every platform if and only if every
    verdict that the declared order puts another one before is outranked in the order of the
    code, too. -/
theorem binding_iff [Double R] (policy : SloPolicy) {evals : List (ObjEval R)}
    (hm : Measured evals) :
    (∀ [Platform R], BindingFollows policy evals) ↔ ∀ e ∈ nonCompliant evals,
      (∃ x ∈ nonCompliant evals, declaredBefore policy x e = true) →
      Outranked (nonCompliant evals) e := by
  constructor
  · rintro hfollows e he ⟨x, hx, hbefore⟩
    rw [outranked_iff he]
    intro hlead
    have hne := List.ne_nil_of_mem he
    -- a sort that puts `e` first, though `x` is before it
    obtain ⟨cs, hhead, _⟩ := hlead.exists_sort .stable
    let _ : Platform R := ⟨cs⟩
    have hov : overallOf evals = _ := overallOf_sorted hm.state hne
    rw [show (Platform.sort R).sort moreSevere (nonCompliant evals) =
      cs.sort moreSevere (nonCompliant evals) from rfl, hhead] at hov
    obtain ⟨e', he', hov', hleast, _⟩ := hfollows hne
    rw [hov, Option.map_some, Option.some.injEq, Prod.mk.injEq, Option.some.injEq] at hov'
    have hno := hleast x hx
    rw [← declaredBefore_congr policy x hov'.2 hov'.1, hbefore] at hno
    cases hno
  · intro hout _ hne
    obtain ⟨front, hlead, hov⟩ := overallOf_leads hm.state hne
    have hleast : ∀ x ∈ nonCompliant evals, declaredBefore policy x front = false := by
      intro x hx
      by_contra hbefore
      rw [Bool.not_eq_false] at hbefore
      exact (outranked_iff hlead.1).mp (hout front hlead.1 ⟨x, hx, hbefore⟩) hlead
    exact ⟨front, hlead.1, hov, hleast, hard_of_least hleast⟩

/-- A measured verdict is ranked by its state. -/
theorem evaluateObjective_rank [Double R] {t : Accumulators R} {obj : Objective R}
    {now : Duration} (h : (evaluateObjective t obj now).2.1.state.isMeasured = true) :
    (evaluateObjective t obj now).2.1.severityRank =
      severityRankOf (evaluateObjective t obj now).2.1.state := by
  unfold evaluateObjective at h ⊢
  by_cases hm : unmeasured (computeMeasured (acquire t obj) now)
      (evaluateFreshness (acquire t obj) now) = true
  · simp only [hm, if_true, unmeasuredState] at h
    split at h <;> cases h
  · simp [hm]

/-- **The measured verdicts of an evaluation** are such verdicts. -/
theorem evaluateObjectives_measured [Double R] {now : Duration} : ∀ {objs : List (Objective R)}
    {t : Accumulators R},
    (∀ e ∈ (evaluateObjectives t now objs).2.1, e.state.isMeasured = true) →
    Measured (evaluateObjectives t now objs).2.1
  | [], _, h => ⟨h, by simp [evaluateObjectives]⟩
  | obj :: objs, t, h => by
      obtain ⟨hhead, htail⟩ := List.forall_mem_cons.mp h
      exact ⟨h, List.forall_mem_cons.mpr
        ⟨evaluateObjective_rank hhead, (evaluateObjectives_measured htail).rank⟩⟩

/-! ## 4. A soft violation -/

/-- A Hard and a Soft objective, of at most 100 ms latency each. -/
def hardAndSoft : List (Objective Binary64) :=
  [smallObjective 1 1, { smallObjective 2 1 with hard := .soft }]

/-- The verdicts on the two, for a latency each. -/
def judgedLatencies (hard soft : Int64) : List (ObjEval Binary64) :=
  (evaluateObjectives (after [.addContract (smallContract 1 1 1 hardAndSoft),
    .ingest (smallEvidence 1 1 hard) 0, .ingest (smallEvidence 2 2 soft) 0]).accumulators 0
    hardAndSoft).2.1

/-- `Measured` and no NaN, of the verdicts of an evaluation, as a test. -/
def measuredTest (evals : List (ObjEval Binary64)) : Bool :=
  evals.all fun e => e.state.isMeasured && !e.magnitude.isNaN

theorem measured_of_test {hard soft : Int64}
    (h : measuredTest (judgedLatencies hard soft) = true) :
    Measured (judgedLatencies hard soft) ∧
      ∀ e ∈ judgedLatencies hard soft, e.magnitude.isNaN = false := by
  have hall : ∀ e ∈ judgedLatencies hard soft,
      e.state.isMeasured = true ∧ e.magnitude.isNaN = false := fun e he => by
    simpa using List.all_eq_true.mp h e he
  exact ⟨evaluateObjectives_measured fun e he => (hall e he).1, fun e he => (hall e he).2⟩

/-- **A Soft violation binds before a Hard objective near its limit**, under a policy that puts
    hard objectives first. -/
theorem binding_fails :
    ¬∀ (policy : SloPolicy) (evals : List (ObjEval Binary64)), Measured evals →
      (∀ e ∈ evals, e.magnitude.isNaN = false) → BindingFollows policy evals := by
  intro hall
  obtain ⟨hm, hnan⟩ := @measured_of_test 97000000 200000000
    (by decide +kernel)
  have hhard : (nonCompliant (judgedLatencies 97000000 200000000)).any
      (·.obj.hard == .hard) = true := by
    decide +kernel
  have hsoft : (overallOf (judgedLatencies 97000000 200000000)).any
      (fun x => x.2.any (·.hard == .soft)) = true := by
    decide +kernel
  obtain ⟨x, hx, hxh⟩ := List.any_eq_true.mp hhard
  obtain ⟨e, _, hov, _, himp⟩ :=
    hall smallPolicy (judgedLatencies 97000000 200000000) hm hnan (List.ne_nil_of_mem hx)
  have heh := himp ⟨x, hx, eq_of_beq hxh⟩
  rw [hov] at hsoft
  have hes : e.obj.hard = .soft := eq_of_beq hsoft
  rw [heh] at hes
  cases hes

/-- A Hard violation binds before a Soft objective near its limit. -/
theorem binding_iff_small :
    (overallOf (judgedLatencies 200000000 97000000)).any
        (fun x => x.2.any (·.hard == .hard)) = true ∧
      ∀ [Platform Binary64],
        BindingFollows smallPolicy (judgedLatencies 200000000 97000000) := by
  obtain ⟨hm, hnan⟩ := @measured_of_test 200000000 97000000
    (by decide +kernel)
  have htest : (nonCompliant (judgedLatencies 200000000 97000000)).all (fun e =>
      !(nonCompliant (judgedLatencies 200000000 97000000)).any
          (fun x => declaredBefore smallPolicy x e) ||
        (nonCompliant (judgedLatencies 200000000 97000000)).any fun x => moreSevere x e) =
      true := by
    decide +kernel
  refine ⟨by decide +kernel, (binding_iff smallPolicy hm).mpr fun e he hbefore => ?_⟩
  have he' := List.all_eq_true.mp htest e he
  obtain ⟨x, hx, hxe⟩ := hbefore
  rw [List.any_eq_true.mpr ⟨x, hx, hxe⟩, Bool.not_true, Bool.false_or] at he'
  obtain ⟨y, hy, hye⟩ := List.any_eq_true.mp he'
  exact ⟨moreSevere_strictWeak fun e he => hnan e (List.mem_filter.mp he).1, y, hy, hye⟩

end SloFabric
