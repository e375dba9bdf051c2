/-
  File:      SloFabric/Provenance.lean
  Subject:   Where the value of an objective comes from, and what `evaluate` reports of it.

  * `Store`, `Offering.stored`: the store of the accumulator a record enters;
  * `Sourced`, `sourced_rule`: the stores hold the last records that entered them;
  * `keptEntries`, `lostEntries`: the entries of a run that the accumulator an evaluation judges on
    still stands for, and those before them; `kept_generation`: the former are of its generation;
  * `contributing`: the records the value of an objective is computed from;
  * `provenance_iff`: evidence that is not Measured is not reported as Measured exactly where the
    objective has no value or all its contributing records are Measured;
  * `provenance_fails`: a Synthetic latency is reported as Measured.
-/
import SloFabric.Journal
import SloFabric.Decision
import SloFabric.Library.Recency

namespace SloFabric

variable {R : Type}

/-! ## 1. The stores -/

/-- The stores of an accumulator evidence can enter. -/
inductive Store where
  | window
  | availability (mode : AvailabilityMode)
  | cost
  deriving DecidableEq

section Stores

variable [Double R]

/-- The store a record enters, if any: the window takes samples, an accumulator its totals. -/
def storeOf (o : Objective R) (a : ObjectiveAccumulator R) (e : EvidenceRecord R) : Option Store :=
  match e.dimension with
  | .latency | .throughput | .memoryPressure =>
    if (a.sample e).2 = .accepted then some .window else none
  | .availability => some (.availability o.availabilityMode)
  | .cost =>
    if o.kind = .costWindowBudget then some .cost
    else if (a.sample e).2 = .accepted then some .window
    else none
  | .recoveryTime => none

/-- The record of an offering with the store it enters, unless it is a duplicate or of another
    unit. -/
def Offering.stored (x : Offering R) : Option (Store × EvidenceRecord R) :=
  if x.acc.seen x.record.id || !unitCompatible x.defn x.record then none
  else (storeOf x.defn x.acc x.record).map fun st => (st, x.record)

def Entry.stored (x : Entry R) : Option (Store × EvidenceRecord R) := x.offering.bind (·.stored)

omit [Double R] in
/-- The records among these that entered a store. -/
def into (st : Store) (taken : List (Store × EvidenceRecord R)) : List (EvidenceRecord R) :=
  (taken.filter (·.1 = st)).map (·.2)

omit [Double R] in
theorem into_push (st : Store) (taken : List (Store × EvidenceRecord R))
    (x : Store × EvidenceRecord R) :
    into st (taken ++ [x]) = into st taken ++ if x.1 = st then [x.2] else [] := by
  unfold into
  rw [List.filter_append, List.map_append]
  by_cases h : x.1 = st <;> simp [h]

/-- What a record is in a window. -/
def sampleOf (e : EvidenceRecord R) : Duration × R := (e.time, numericOf e.value)

/-- An availability record is added to the totals of its mode. -/
def AvailabilityAccount.count (a : AvailabilityAccount) (x : Store × EvidenceRecord R) :
    AvailabilityAccount :=
  match x.1 with
  | .availability mode => a.add mode (evidenceWeight x.2) (servingUnits x.2)
  | _ => a

/-- **The stores hold the last of the records that entered them**: samples and cost items are
    those of the last records, oldest first, and the totals count all of them. -/
structure Sourced (taken : List (Store × EvidenceRecord R)) (a : ObjectiveAccumulator R) :
    Prop where
  window : a.window.samples.map (fun x => (x.time, x.value)) <:+
    (into .window taken).map sampleOf
  cost : a.cost.items <:+ (into .cost taken).map sampleOf
  avail : a.avail = taken.foldl .count { mode := a.avail.mode }

omit [Double R] in
theorem evictOver_suffix (cap : Nat) (l : List (WindowSample R)) :
    SampleWindow.evictOver cap l <:+ l := List.drop_suffix _ _

omit [Double R] in
theorem evictByAge_suffix (interval now : Duration) (l : List (WindowSample R)) :
    SampleWindow.evictByAge interval now l <:+ l := by
  unfold SampleWindow.evictByAge
  split
  · exact List.suffix_refl _
  · exact List.dropWhile_suffix _

/-- A sample that is accepted comes last, and older ones may go; one that is rejected changes
    none. -/
theorem ingest_samples (w : SampleWindow R) (time : Duration) (value : R) (seq : UInt64) :
    ((w.ingest time value seq).2 = .accepted ∧
      (w.ingest time value seq).1.samples <:+ w.samples ++ [⟨time, value, seq⟩]) ∨
    ((w.ingest time value seq).2 ≠ .accepted ∧
      (w.ingest time value seq).1.samples = w.samples) := by
  unfold SampleWindow.ingest
  split
  · exact Or.inr ⟨nofun, rfl⟩
  · split
    · exact Or.inr ⟨nofun, rfl⟩
    · simp only
      split
      · exact Or.inl ⟨rfl, List.suffix_refl _⟩
      · split
        · exact Or.inr ⟨nofun, rfl⟩
        · split
          · exact Or.inl ⟨rfl, List.suffix_append _ _⟩
          · exact Or.inl ⟨rfl, (evictOver_suffix _ _).trans (evictByAge_suffix _ _ _)⟩
          · exact Or.inl ⟨rfl, evictOver_suffix _ _⟩
          all_goals
            split
            · exact Or.inr ⟨nofun, rfl⟩
            · split
              · exact Or.inr ⟨nofun, rfl⟩
              · split
                · exact Or.inl ⟨rfl, List.suffix_append _ _⟩
                · exact Or.inl ⟨rfl, List.suffix_refl _⟩

omit [Double R] in
theorem evict_suffix (w : CostWindow R) (now : Duration) : (w.evict now).items <:+ w.items := by
  unfold CostWindow.evict
  generalize costWindowCap = cap
  refine (List.drop_suffix _ _).trans ?_
  split
  · exact List.dropWhile_suffix _
  · exact List.suffix_refl _

omit [Double R] in
theorem add_suffix (w : CostWindow R) (t : Duration) (cost : R) (windowNs : Int64) :
    (w.add t cost windowNs).items <:+ w.items ++ [(t, cost)] := by
  unfold CostWindow.add
  exact evict_suffix _ _

/-! ## 2. The sources of an accumulator -/

/-- A record that is not put into a store. -/
theorem Sourced.skip {taken : List (Store × EvidenceRecord R)} {a b : ObjectiveAccumulator R}
    (h : Sourced taken a) (hw : b.window.samples = a.window.samples) (hc : b.cost = a.cost)
    (ha : b.avail = a.avail) : Sourced taken b :=
  ⟨by rw [hw]; exact h.window, by rw [hc]; exact h.cost, by rw [ha]; exact h.avail⟩

/-- A record the window takes. -/
theorem Sourced.sampled {taken : List (Store × EvidenceRecord R)} {a b : ObjectiveAccumulator R}
    (h : Sourced taken a) {e : EvidenceRecord R} {seq : UInt64}
    (hw : b.window.samples <:+ a.window.samples ++ [⟨e.time, numericOf e.value, seq⟩])
    (hc : b.cost = a.cost) (ha : b.avail = a.avail) : Sourced (taken ++ [(.window, e)]) b where
  window := by
    have hmap := hw.map fun x => (x.time, x.value)
    rw [List.map_append] at hmap
    rw [into_push, if_pos rfl, List.map_append]
    exact hmap.trans (suffix_push h.window _)
  cost := by
    rw [hc, into_push, if_neg nofun, List.append_nil]
    exact h.cost
  avail := by
    rw [ha, List.foldl_append]
    exact h.avail

/-- A record the cost window takes. -/
theorem Sourced.spent {taken : List (Store × EvidenceRecord R)} {a : ObjectiveAccumulator R}
    (h : Sourced taken a) (e : EvidenceRecord R) (windowNs : Int64) :
    Sourced (taken ++ [(.cost, e)])
      { a with cost := a.cost.add e.time (numericOf e.value) windowNs } where
  window := by
    rw [into_push, if_neg nofun, List.append_nil]
    exact h.window
  cost := by
    rw [into_push, if_pos rfl, List.map_append]
    exact (add_suffix _ _ _ _).trans (suffix_push h.cost _)
  avail := by
    rw [List.foldl_append]
    exact h.avail

/-- A record that is added to the availability totals. -/
theorem Sourced.counted {taken : List (Store × EvidenceRecord R)} {a b : ObjectiveAccumulator R}
    (h : Sourced taken a) {e : EvidenceRecord R} {mode : AvailabilityMode}
    (ha : b.avail = a.avail.add mode (evidenceWeight e) (servingUnits e))
    (hw : b.window = a.window) (hc : b.cost = a.cost) :
    Sourced (taken ++ [(.availability mode, e)]) b where
  window := by
    rw [hw, into_push, if_neg nofun, List.append_nil]
    exact h.window
  cost := by
    rw [hc, into_push, if_neg nofun, List.append_nil]
    exact h.cost
  avail := by
    have hmode : b.avail.mode = a.avail.mode := by
      rw [ha]
      unfold AvailabilityAccount.add
      split <;> rfl
    rw [List.foldl_append, hmode, ← h.avail]
    exact ha

/-- A sample that is offered to the window. -/
theorem Sourced.sample {taken : List (Store × EvidenceRecord R)} {a : ObjectiveAccumulator R}
    (h : Sourced taken a) (e : EvidenceRecord R) :
    Sourced (taken ++ ((if (a.sample e).2 = .accepted then some Store.window else none).map
      fun st => (st, e)).toList) (a.sample e).1 := by
  unfold ObjectiveAccumulator.sample
  rcases ingest_samples a.window e.time (numericOf e.value) a.nextSeq with ⟨hok, hs⟩ | ⟨hno, hs⟩
  · rw [if_pos hok]
    exact h.sampled hs rfl rfl
  · rw [if_neg hno]
    exact (List.append_nil taken).symm ▸ h.skip hs rfl rfl

/-- The switch over the record's dimension puts the record into the store `storeOf` names. -/
theorem Sourced.store {taken : List (Store × EvidenceRecord R)} {a : ObjectiveAccumulator R}
    (h : Sourced taken a) (o : Objective R) (e : EvidenceRecord R) :
    Sourced (taken ++ ((storeOf o a e).map fun st => (st, e)).toList) (storeEvidence o a e).1 := by
  cases hd : e.dimension with
  | availability =>
    simp only [storeOf, storeEvidence, hd]
    exact h.counted rfl rfl rfl
  | cost =>
    simp only [storeOf, storeEvidence, hd]
    by_cases hk : o.kind = .costWindowBudget
    · rw [if_pos hk, if_pos hk]
      exact h.spent e o.windowDuration
    · rw [if_neg hk, if_neg hk]
      exact h.sample e
  | recoveryTime =>
    simp only [storeOf, storeEvidence, hd]
    exact (List.append_nil taken).symm ▸ h
  | _ =>
    simp only [storeOf, storeEvidence, hd]
    exact h.sample e

/-- What an offer leaves, and what enters a store. -/
theorem offer_stored (o : Objective R) (a : ObjectiveAccumulator R) (e : EvidenceRecord R) :
    ((SloFabric.offer o a e).1 = a ∧ Offering.stored ⟨o, a, e⟩ = none) ∨
    ((SloFabric.offer o a e).1 = a.remember e.id ∧ Offering.stored ⟨o, a, e⟩ = none) ∨
    ((SloFabric.offer o a e).1 = (storeEvidence o (a.remember e.id) e).1 ∧
      Offering.stored ⟨o, a, e⟩ = (storeOf o (a.remember e.id) e).map fun st => (st, e)) := by
  unfold Offering.stored
  rcases offer_spec o a e with ⟨hseen, hoffer⟩ | ⟨hseen, hunit, hoffer⟩ | ⟨hseen, hunit, hoffer⟩
  · exact Or.inl ⟨congrArg Prod.fst hoffer, by simp only [hseen, Bool.true_or, if_true]⟩
  · exact Or.inr (Or.inl ⟨congrArg Prod.fst hoffer, by simp [hseen, hunit]⟩)
  · refine Or.inr (Or.inr ⟨congrArg Prod.fst hoffer, ?_⟩)
    simp only [hseen, hunit]
    rfl

/-- A relation that remembering an id keeps, and the switch over the record's dimension. -/
theorem IntakeRule.ofStore {I : List (Store × EvidenceRecord R) → ObjectiveAccumulator R → Prop}
    (make : ∀ o, I [] (.make o)) (same : ∀ l a b, SameIntake a b → I l a → I l b)
    (remember : ∀ l a id, I l a → I l (a.remember id))
    (store : ∀ l o a e, I l a →
      I (l ++ ((storeOf o a e).map fun st => (st, e)).toList) (storeEvidence o a e).1) :
    IntakeRule (Offering.stored (R := R)) I where
  make := make
  same := same
  offer l o a e hl := by
    have hremember := remember l a e.id hl
    rcases offer_stored o a e with ⟨hoffer, hnone⟩ | ⟨hoffer, hnone⟩ | ⟨hoffer, hstored⟩
    · rw [hoffer, hnone]
      exact (List.append_nil l).symm ▸ hl
    · rw [hoffer, hnone]
      exact (List.append_nil l).symm ▸ hremember
    · rw [hoffer, hstored]
      exact store l o _ e hremember

/-- **What entered the stores since the last reset is what they hold.** -/
theorem sourced_rule : IntakeRule (Offering.stored (R := R)) Sourced :=
  .ofStore (fun _ => ⟨List.nil_suffix, List.nil_suffix, rfl⟩)
    (fun _ _ _ h hl => hl.skip (by rw [h.window]) h.cost h.avail)
    (fun _ _ _ hl => hl.skip rfl rfl rfl) fun _ o _ e hl => hl.store o e

end Stores

/-! ## 3. What a value is computed from -/

/-- What the accumulator objective `obj` at place `i` of a contract is judged on has taken in: the
    evaluation wipes it for another generation, too. -/
def takenBy [Double R] (w : Journaled R) (c : SloContract R) (i : Nat) (obj : Objective R) :
    List (Store × EvidenceRecord R) :=
  if wiped ((c.objectives.take i ++ [obj]).filter (·.id = obj.id))
      (w.state.accumulators.find obj.id) then []
  else sinceReset (·.stored) w.seen

/-- The entries of the journal since the accumulator objective `obj` at place `i` of a contract is
    judged on was last wiped. -/
def keptEntries (w : Journaled R) (c : SloContract R) (i : Nat) (obj : Objective R) :
    List (Entry R) :=
  if wiped ((c.objectives.take i ++ [obj]).filter (·.id = obj.id))
      (w.state.accumulators.find obj.id) then []
  else lastEntries w.seen

/-- **The records that contribute to the computed value**: those in the totals of the account's
    mode, or those whose samples or costs are held. Recovery time has no evidence records. -/
def contributing (taken : List (Store × EvidenceRecord R)) (a : ObjectiveAccumulator R) :
    List (EvidenceRecord R) :=
  match a.defn.dim with
  | .availability => into (.availability a.avail.mode) taken
  | .recoveryTime => []
  | .cost =>
    if a.defn.kind = .costWindowBudget then recent a.cost.items.length (into .cost taken)
    else recent a.window.size (into .window taken)
  | .latency | .throughput | .memoryPressure => recent a.window.size (into .window taken)

/-- Is there a value the objective is judged by? -/
def HasValue [Double R] (a : ObjectiveAccumulator R) (now : Duration) : Prop :=
  unmeasured (computeMeasured a now) (evaluateFreshness a now) = false

/-- **What an accumulator holds is what these records say**: its samples and its cost items are
    those of the last records that entered the store, oldest first, and its totals count all. -/
structure ComputedFrom [Double R] (taken : List (Store × EvidenceRecord R))
    (a : ObjectiveAccumulator R) : Prop where
  samples : a.window.samples.map (fun x => (x.time, x.value)) =
    (recent a.window.size (into .window taken)).map sampleOf
  costs : a.cost.items = (recent a.cost.items.length (into .cost taken)).map sampleOf
  totals : a.avail = taken.foldl .count { mode := a.avail.mode }

theorem Sourced.computedFrom [Double R] {taken : List (Store × EvidenceRecord R)}
    {a : ObjectiveAccumulator R} (h : Sourced taken a) : ComputedFrom taken a where
  samples := by
    have hlast := suffix_recent h.window
    rwa [List.length_map, recent_map] at hlast
  costs := by
    have hlast := suffix_recent h.cost
    rwa [recent_map] at hlast
  totals := h.avail

section Evaluate

variable [Double R] [Platform R]

/-- What an intake rule says of the stored accumulator it says of the one judged on. -/
theorem IntakeRule.judged [Pod R] {α : Type} {g : Offering R → Option α}
    {I : List α → ObjectiveAccumulator R → Prop} (hI : IntakeRule g I) {w : Journaled R}
    {tr : Trace R} {obj : Objective R}
    (h : Run (watch apply (noteEntry obj.id)) (fun _ _ => True) ⟨State.fresh R, []⟩ tr w)
    (c : SloContract R) (now : Duration) (i : Nat) :
    I (if wiped ((c.objectives.take i ++ [obj]).filter (·.id = obj.id))
        (w.state.accumulators.find obj.id) then []
      else sinceReset (fun x => x.offering.bind g) w.seen) (judgedOn w.state c now i obj) := by
  have hbefore := after_evaluate sameIntake_carried now obj.id (c.objectives.take i)
    w.state.accumulators
  have hlast := after_acquire sameIntake_carried
    (accumulatorsAfter w.state.accumulators now (c.objectives.take i)) obj (SameIntake.refl _)
  have hall := hbefore.append sameIntake_carried hlast
  have hone : [obj] = [obj].filter (·.id = obj.id) := by simp
  rw [hone, ← List.filter_append] at hall
  exact hI.used (hI.run h) hall

/-- It says so of the entries since the accumulator was last wiped. -/
theorem IntakeRule.kept [Pod R] {α : Type} {g : Offering R → Option α}
    {I : List α → ObjectiveAccumulator R → Prop} (hI : IntakeRule g I) {w : Journaled R}
    {tr : Trace R} {obj : Objective R}
    (h : Run (watch apply (noteEntry obj.id)) (fun _ _ => True) ⟨State.fresh R, []⟩ tr w)
    (c : SloContract R) (now : Duration) (i : Nat) :
    I ((keptEntries w c i obj).filterMap fun x => x.offering.bind g)
      (judgedOn w.state c now i obj) := by
  have hjudged := hI.judged h c now i
  unfold keptEntries
  rw [sinceReset_filterMap] at hjudged
  split at hjudged <;> rename_i hwiped
  · rwa [if_pos hwiped]
  · rwa [if_neg hwiped]

/-- What the accumulator an objective is judged on holds is what it has taken in. -/
theorem judgedOn_computedFrom [Pod R] {w : Journaled R} {tr : Trace R} {obj : Objective R}
    (h : Run (watch apply (noteEntry obj.id)) (fun _ _ => True) ⟨State.fresh R, []⟩ tr w)
    (c : SloContract R) (now : Duration) (i : Nat) :
    ComputedFrom (takenBy w c i obj) (judgedOn w.state c now i obj) :=
  Sourced.computedFrom (sourced_rule.judged h c now i)

/-- The explanation calls the value of an objective Measured where there is one, whatever it was
    computed from. -/
theorem evaluate_provenance {s s' : State R} {service : ServiceId} {workload : WorkloadId}
    {now : Duration} {res : EvaluationResult R} {c : SloContract R}
    (h : evaluate s service workload now = some (s', .ok res))
    (hc : selectContract s.contracts service workload now = some c) {i : Nat} {obj : Objective R}
    (hobj : c.objectives[i]? = some obj) :
    ∃ st, res.explanation.objectives[i]? = some st ∧
      (st.provenance = .measured ↔ HasValue (judgedOn s c now i obj) now) := by
  refine ⟨_, evaluate_turn h hc hobj, ?_⟩
  unfold HasValue judgedOn evaluateObjective
  generalize acquire (accumulatorsAfter s.accumulators now (c.objectives.take i)) obj = a
  cases hm : unmeasured (computeMeasured a now) (evaluateFreshness a now) <;> simp [hm]

/-- **When evidence that is not Measured is not reported as Measured.** In every run, for every
    evaluation that succeeds and every objective it judges: the accumulator holds exactly the last
    records it took in, and if a contributing one is not Measured then the provenance reported is
    not Measured, if and only if the objective has no value or all that contribute to it are
    Measured. -/
theorem provenance_iff [Pod R] {w : Journaled R} {tr : Trace R} {obj : Objective R}
    (h : Run (watch apply (noteEntry obj.id)) (fun _ _ => True) ⟨State.fresh R, []⟩ tr w)
    {s' : State R} {service : ServiceId} {workload : WorkloadId} {now : Duration}
    {res : EvaluationResult R} {c : SloContract R}
    (hev : evaluate w.state service workload now = some (s', .ok res))
    (hc : selectContract w.state.contracts service workload now = some c) {i : Nat}
    (hobj : c.objectives[i]? = some obj) :
    ∃ st, res.explanation.objectives[i]? = some st ∧
      ComputedFrom (takenBy w c i obj) (judgedOn w.state c now i obj) ∧
      (((∃ e ∈ contributing (takenBy w c i obj) (judgedOn w.state c now i obj),
          e.provenance ≠ .measured) → st.provenance ≠ .measured) ↔
        (HasValue (judgedOn w.state c now i obj) now →
          ∀ e ∈ contributing (takenBy w c i obj) (judgedOn w.state c now i obj),
            e.provenance = .measured)) := by
  obtain ⟨st, hst, hprov⟩ := evaluate_provenance hev hc hobj
  refine ⟨st, hst, judgedOn_computedFrom h c now i, ?_⟩
  rw [← hprov]
  constructor
  · intro hhonest hmeasured e he
    by_contra hne
    exact hhonest ⟨e, he, hne⟩ hmeasured
  · rintro hall ⟨e, he, hne⟩ hmeasured
    exact hne (hall hmeasured e he)

end Evaluate

/-! ## 4. A synthetic latency -/

/-- One latency of 50 ms for the objective, of some provenance. -/
def oneLatency (p : Provenance) : List (Op Binary64) :=
  [.setPolicy smallPolicy, .addContract (smallContract 1 1 1 [smallObjective 1 1]),
    .ingest { smallEvidence 1 1 50000000 with provenance := p } 0]

/-- What is reported of that latency, and what it was computed from. -/
def reportsMeasured (w : Journaled Binary64) (p : Provenance) : Bool :=
  (reported (evaluate w.state ⟨1⟩ ⟨1⟩ 0)).any (fun x =>
    (x.2.explanation.objectives[0]?).any (·.provenance = .measured)) &&
  (selectContract w.state.contracts ⟨1⟩ ⟨1⟩ 0).any fun c =>
    c.objectives[0]? = some (smallObjective 1 1) &&
    (contributing (takenBy w c 0 (smallObjective 1 1))
      (judgedOn w.state c 0 0 (smallObjective 1 1))).map (·.provenance) = [p]

theorem of_reportsMeasured {w : Journaled Binary64} {p : Provenance}
    (h : reportsMeasured w p = true) :
    ∃ s' res c st, evaluate w.state ⟨1⟩ ⟨1⟩ 0 = some (s', .ok res) ∧
      selectContract w.state.contracts ⟨1⟩ ⟨1⟩ 0 = some c ∧
      c.objectives[0]? = some (smallObjective 1 1) ∧ res.explanation.objectives[0]? = some st ∧
      st.provenance = .measured ∧
      (contributing (takenBy w c 0 (smallObjective 1 1))
        (judgedOn w.state c 0 0 (smallObjective 1 1))).map (·.provenance) = [p] := by
  unfold reportsMeasured at h
  obtain ⟨hrep, hfrom⟩ := Bool.and_eq_true_iff.mp h
  obtain ⟨s', res, hev, hmeasured⟩ := of_reported hrep
  obtain ⟨st, hst, hmeasured⟩ := (Option.any_eq_true _ _).mp hmeasured
  obtain ⟨c, hc, hfrom⟩ := (Option.any_eq_true _ _).mp hfrom
  obtain ⟨hobj, hfrom⟩ := Bool.and_eq_true_iff.mp hfrom
  exact ⟨s', res, c, st, hev, hc, of_decide_eq_true hobj, hst, of_decide_eq_true hmeasured,
    of_decide_eq_true hfrom⟩

/-- **A Synthetic latency is reported as Measured.** -/
theorem provenance_fails :
    ¬∀ (obj : Objective Binary64) (w : Journaled Binary64) (tr : Trace Binary64)
      (s' : State Binary64) (service : ServiceId) (workload : WorkloadId) (now : Duration)
      (res : EvaluationResult Binary64) (c : SloContract Binary64) (i : Nat)
      (st : ObjectiveState Binary64),
      Run (watch apply (noteEntry obj.id)) (fun _ _ => True) ⟨State.fresh Binary64, []⟩ tr w →
      evaluate w.state service workload now = some (s', .ok res) →
      selectContract w.state.contracts service workload now = some c →
      c.objectives[i]? = some obj → res.explanation.objectives[i]? = some st →
      (∃ e ∈ contributing (takenBy w c i obj) (judgedOn w.state c now i obj),
        e.provenance ≠ .measured) → st.provenance ≠ .measured := by
  intro hall
  have htest : (execute (watch apply (noteEntry ⟨1⟩)) (fun _ _ => true)
      ⟨State.fresh Binary64, []⟩ (oneLatency .synthetic)).any
      (fun x => reportsMeasured x.1 .synthetic) = true := by
    decide +kernel
  obtain ⟨w, tr, hrun, hw⟩ := Run.of_test (fun _ _ _ => trivial) htest
  obtain ⟨s', res, c, st, hev, hc, hobj, hst, hmeasured, hfrom⟩ := of_reportsMeasured hw
  refine hall (smallObjective 1 1) w tr s' _ _ 0 res c 0 st hrun hev hc hobj hst ?_ hmeasured
  have hmem : Provenance.synthetic ∈ [Provenance.synthetic] := List.mem_singleton.mpr rfl
  rw [← hfrom] at hmem
  obtain ⟨e, he, hsynthetic⟩ := List.mem_map.mp hmem
  exact ⟨e, he, by rw [hsynthetic]; decide⟩

/-- A Measured latency is, and nothing else contributes to the value. -/
theorem provenance_iff_small :
    ∃ (tr : Trace Binary64) (w : Journaled Binary64) (c : SloContract Binary64),
      Run (watch apply (noteEntry ⟨1⟩)) (fun _ _ => True) ⟨State.fresh Binary64, []⟩ tr w ∧
      c.objectives[0]? = some (smallObjective 1 1) ∧
      ¬∃ e ∈ contributing (takenBy w c 0 (smallObjective 1 1))
        (judgedOn w.state c 0 0 (smallObjective 1 1)), e.provenance ≠ .measured := by
  have htest : (execute (watch apply (noteEntry ⟨1⟩)) (fun _ _ => true)
      ⟨State.fresh Binary64, []⟩ (oneLatency .measured)).any
      (fun x => reportsMeasured x.1 .measured) = true := by
    decide +kernel
  obtain ⟨w, tr, hrun, hw⟩ := Run.of_test (fun _ _ _ => trivial) htest
  obtain ⟨s', res, c, st, hev, hc, hobj, hst, hmeasured, hfrom⟩ := of_reportsMeasured hw
  have hrun' : Run (watch apply (noteEntry (smallObjective 1 1).id)) (fun _ _ => True)
    ⟨State.fresh Binary64, []⟩ tr w := hrun
  obtain ⟨st', hst', _, hiff⟩ := provenance_iff hrun' hev hc hobj
  rw [hst] at hst'
  cases hst'
  refine ⟨tr, w, c, hrun, hobj, fun hother => hiff.mpr (fun _ e he => ?_) hother hmeasured⟩
  have hmem : e.provenance ∈ [Provenance.measured] := hfrom ▸ List.mem_map_of_mem he
  exact List.mem_singleton.mp hmem

end SloFabric
