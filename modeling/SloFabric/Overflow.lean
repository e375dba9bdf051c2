/-
  File:      SloFabric/Overflow.lean
  Subject:   The signed 64-bit arithmetic on times and counts.

  The source adds, subtracts and multiplies without a check. The exact results are listed here, call
  by call, beside the model that wraps them around.

  * `InRange`: a result that fits; `toInt_sub_iff`, `toInt_add_iff`: then and only then the model
    has it; `Adds`: a double that can be cast and then added; `frontSubs`: the differences of a loop
    that drops what is old;
  * `sums`: the results of `ingest`, `evaluate` and `authorize`;
  * `InSpan`, `Timed`: all times of an objective lie within one half of the range; `Paced`: what a
    step has to keep to; `timed_step`, `timed_run`: then so do all stored ones;
  * `sums_inRange`: in a run of such steps every result fits;
  * `sums_overflow`: two availability records of `2 ^ 62` samples do not.
-/
import SloFabric.Digest
import SloFabric.Failures
import SloFabric.FutureDates

namespace SloFabric

variable {R : Type}

open Double

/-! ## 1. Results -/

/-- The result fits a signed 64-bit integer. -/
def InRange (n : Int) : Prop := -2 ^ 63 ≤ n ∧ n < 2 ^ 63

/-- The difference of two times, exactly. -/
def exactSub (t u : Duration) : Int := t.toInt - u.toInt

/-- The double has a cast to a signed 64-bit integer, and that can be added to `n`. -/
structure Adds [Double R] (n : Int64) (x : R) : Prop where
  castable : castable x = true
  cast : InRange (trunc x)
  sum : InRange (n.toInt + trunc x)

/-- Then the sum with the integer is the exact one. -/
theorem Adds.toInt64 [Double R] {n : Int64} {x : R} (h : Adds n x) :
    InRange (n.toInt + (toInt64 x).toInt) := by
  obtain ⟨hlow, hhigh⟩ := h.cast
  rw [SloFabric.toInt64, if_pos h.castable, Int64.toInt_ofInt_of_le hlow (by omega)]
  exact h.sum

theorem toInt_inRange (t : Duration) : InRange t.toInt := ⟨Int64.le_toInt t, Int64.toInt_lt t⟩

/-- **A difference is exact if and only if the result fits.** -/
theorem toInt_sub_iff {t u : Duration} :
    (t - u).toInt = exactSub t u ↔ InRange (exactSub t u) := by
  refine ⟨fun h => h ▸ toInt_inRange (t - u), fun ⟨hlow, hhigh⟩ => ?_⟩
  rw [Int64.toInt_sub]
  exact Int.bmod_eq_of_le (by unfold exactSub at *; omega) (by unfold exactSub at *; omega)

/-- **So is a sum.** -/
theorem toInt_add_iff {t u : Duration} :
    (t + u).toInt = t.toInt + u.toInt ↔ InRange (t.toInt + u.toInt) := by
  refine ⟨fun h => h ▸ toInt_inRange (t + u), fun ⟨hlow, hhigh⟩ => ?_⟩
  rw [Int64.toInt_add]
  exact Int.bmod_eq_of_le (by omega) (by omega)

/-- The differences a loop computes that drops times from the front while they are old. -/
def frontSubs (old : Duration → Bool) (now : Duration) : List Duration → List Int
  | [] => []
  | t :: ts => exactSub now t :: if old (now - t) then frontSubs old now ts else []

theorem mem_frontSubs {old : Duration → Bool} {now : Duration} : ∀ {ts : List Duration} {n : Int},
    n ∈ frontSubs old now ts → ∃ t ∈ ts, n = exactSub now t
  | [], _, h => absurd h List.not_mem_nil
  | t :: ts, n, h => by
      rcases List.mem_cons.mp h with rfl | h
      · exact ⟨t, List.mem_cons_self, rfl⟩
      · split at h
        · obtain ⟨u, hu, hn⟩ := mem_frontSubs h
          exact ⟨u, List.mem_cons_of_mem _ hu, hn⟩
        · exact absurd h List.not_mem_nil

section Sums

variable [Double R]

/-- The results of offering a sample: a sliding window looks for old samples, and a window of
    buckets for the start of the new one. -/
def SampleWindow.sums (w : SampleWindow R) (time : Duration) (value : R) (seq : UInt64) :
    List Int :=
  if !eq value value || lt (ofRat (10 ^ 300)) value then []
  else if seq ≤ w.lastSeq then []
  else if !w.hasBucket then []
  else if time < w.lastTime then []
  else
    match w.type with
    | .instantaneous | .rollingCount => []
    | .sliding =>
      if w.interval ≤ 0 then []
      else frontSubs (fun age => decide (w.interval ≤ age)) time (w.samples.map (·.time) ++ [time])
    | .tumbling | .fixedInterval =>
      if w.interval ≤ 0 then []
      else if w.bucketStart / w.interval < time / w.interval then
        [(time / w.interval).toInt * w.interval.toInt]
      else []

/-- The results of the switch over the record's dimension. -/
def storeSums (o : Objective R) (a : ObjectiveAccumulator R) (e : EvidenceRecord R) : List Int :=
  match e.dimension with
  | .latency | .throughput | .memoryPressure =>
    a.window.sums e.time (numericOf e.value) a.nextSeq
  | .availability =>
    [(a.avail.eligibleIn o.availabilityMode).toInt + (evidenceWeight e).toInt,
      (a.avail.servedIn o.availabilityMode).toInt + (servingUnits e).toInt]
  | .cost =>
    if o.kind = .costWindowBudget then
      if 0 < o.windowDuration then
        frontSubs (fun age => decide (o.windowDuration < age)) e.time
          (a.cost.items.map (·.1) ++ [e.time])
      else []
    else a.window.sums e.time (numericOf e.value) a.nextSeq
  | .recoveryTime => []

/-- The results of `ingest`. -/
def ingestSums (s : State R) (e : EvidenceRecord R) : List Int :=
  match offeredTo s e with
  | none => []
  | some o =>
    let a := acquire s.accumulators o
    if a.seen e.id then []
    else if !unitCompatible o e then []
    else storeSums o (a.remember e.id) e

omit [Double R] in
/-- The age of the latest sample. -/
def freshnessSums (a : ObjectiveAccumulator R) (now : Duration) : List Int :=
  if a.usesAvailability || a.usesRecovery || a.usesCost then []
  else (a.window.samples.getLast?.map fun latest => exactSub now latest.time).toList

omit [Double R] in
/-- The duration of a recovery. -/
def recoverySums (a : ObjectiveAccumulator R) (now : Duration) : List Int :=
  if a.usesRecovery && a.recovery.authoritative then
    let t := a.recovery
    [exactSub (if t.verified then t.verifiedAt else if t.restored then t.restoredAt else now)
      t.authoritativeAt]
  else []

/-- The age of a budget's window, that `window_rolled` computes. -/
def ErrorBudget.rolledSums (b : ErrorBudget) (now : Duration) : List Int :=
  if b.window ≤ 0 then [] else [exactSub now b.windowStart]

/-- What is left of a budget. -/
def ErrorBudget.stateSums (b : ErrorBudget) : List Int :=
  if b.total = 0 then [] else [exactSub b.total b.consumed]

/-- The age of its window, that `classify_burn` computes. -/
def ErrorBudget.burnSums (b : ErrorBudget) (now : Duration) : List Int :=
  if b.total ≤ 0 then [] else b.rolledSums now

omit [Double R] in
/-- The age of the first cost. -/
def riskSums (o : Objective R) (a : ObjectiveAccumulator R) (now : Duration) : List Int :=
  if o.dim = .cost ∧ o.kind = .costWindowBudget then
    (a.cost.items.head?.map fun first => exactSub now first.1).toList
  else []

/-- The results of one turn of the loop over the objectives. -/
def Turn.sums (now : Duration) (x : Turn R) : List Int :=
  let budget := (rollBudget x.acc now).budget
  recoverySums x.acc now ++ freshnessSums x.acc now ++
    (if x.acc.hasBudget then
      x.acc.budget.rolledSums now ++ budget.stateSums ++ budget.burnSums now else []) ++
    if x.missing now then []
    else (if x.acc.hasBudget then budget.stateSums else []) ++ riskSums x.obj x.acc now

/-- The results of `evaluate`. -/
def evaluateSums (s : State R) (service : ServiceId) (workload : WorkloadId) (now : Duration) :
    List Int :=
  match judgedContract s service workload now with
  | none => []
  | some c => (turns s.accumulators now c.objectives).flatMap (·.sums now)

omit [Double R] in
/-- The results of `authorize`: the end of the cooldown. -/
def authorizeSums (s : State R) (intent : EnforcementIntent) (now : Duration) : List Int :=
  match (authorize s intent now).2 with
  | .error _ => []
  | .ok _ =>
    if (s.accumulators.find intent.objectiveId).isSome then [now.toInt + intent.cooldown.toInt]
    else []

/-- **The results of a step**, on times and counts. A recovery boundary is stored as it comes. -/
def sums (s : State R) : Op R → List Int
  | .ingest e _ => ingestSums s e
  | .evaluate service workload now => evaluateSums s service workload now
  | .authorize intent now => authorizeSums s intent now
  | _ => []

end Sums

/-! ## 2. Times -/

/-- The time is one of the `2 ^ 63` from `b` on. -/
def InSpan (b : Int) (t : Duration) : Prop := b ≤ t.toInt ∧ t.toInt < b + 2 ^ 63

theorem InSpan.sub {b : Int} {t u : Duration} (ht : InSpan b t) (hu : InSpan b u) :
    InRange (exactSub t u) := by
  obtain ⟨ht, ht'⟩ := ht
  obtain ⟨hu, hu'⟩ := hu
  unfold InRange exactSub
  omega

/-- The last time may be the one the ages are taken at. -/
theorem frontSubs_inRange {b : Int} {old : Duration → Bool} {now : Duration} {ts : List Duration}
    (hnow : InSpan b now) (hts : ∀ t ∈ ts, InSpan b t) :
    ∀ n ∈ frontSubs old now (ts ++ [now]), InRange n := by
  intro n hn
  obtain ⟨t, ht, rfl⟩ := mem_frontSubs hn
  exact hnow.sub (forall_mem_push.mpr ⟨hts, hnow⟩ t ht)

/-- **The times an accumulator holds** lie within one half of the range, and its budget has no
    negative total. -/
structure Timed (b : Int) (a : ObjectiveAccumulator R) : Prop where
  window : ∀ x ∈ a.window.samples, InSpan b x.time
  cost : ∀ p ∈ a.cost.items, InSpan b p.1
  authoritative : a.recovery.authoritative = true → InSpan b a.recovery.authoritativeAt
  restored : a.recovery.restored = true → InSpan b a.recovery.restoredAt
  verified : a.recovery.verified = true → InSpan b a.recovery.verifiedAt
  budget : a.hasBudget = true → 0 ≤ a.budget.total ∧ InSpan b a.budget.windowStart

namespace Timed

variable {b : Int} {a : ObjectiveAccumulator R}

theorem make (b : Int) (o : Objective R) : Timed b (.make o) where
  window x hx := absurd hx List.not_mem_nil
  cost p hp := absurd hp List.not_mem_nil
  authoritative h := by cases h
  restored h := by cases h
  verified h := by cases h
  budget h := by cases h

/-- Only the budget is kept when the generation changes. -/
theorem reset (h : Timed b a) (o : Objective R) : Timed b (a.resetForNewGen o) :=
  { make b o with budget := h.budget }

/-- A boundary is noted at its time. -/
theorem recover (h : Timed b a) (phase : RecoveryEventPhase) {time : Duration}
    (htime : InSpan b time) : Timed b (a.recover phase time) where
  window := h.window
  cost := h.cost
  authoritative := by
    cases phase with
    | authoritative => exact fun _ => htime
    | _ => exact h.authoritative
  restored := by
    cases phase with
    | restored => exact fun _ => htime
    | _ => exact h.restored
  verified := by
    cases phase with
    | verified => exact fun _ => htime
    | _ => exact h.verified
  budget := h.budget

/-- Another budget is given to it. -/
theorem fund (h : Timed b a) {has : Bool} {budget : ErrorBudget}
    (hbudget : has = true → 0 ≤ budget.total ∧ InSpan b budget.windowStart) :
    Timed b { a with hasBudget := has, budget := budget } :=
  ⟨h.window, h.cost, h.authoritative, h.restored, h.verified, hbudget⟩

/-- A new window begins at the time of the evaluation. -/
theorem roll (h : Timed b a) {now : Duration} (hnow : InSpan b now) :
    Timed b (rollBudget a now) := by
  unfold rollBudget
  split
  · exact h.fund fun hhas => ⟨(h.budget hhas).1, hnow⟩
  · exact h

section Evidence

variable [Double R]

/-- A sample is held at its time. -/
theorem sample (h : Timed b a) {e : EvidenceRecord R} (htime : InSpan b e.time) :
    Timed b (a.sample e).1 where
  window x hx := by
    rcases ingest_samples a.window e.time (numericOf e.value) a.nextSeq with ⟨_, hs⟩ | ⟨_, hs⟩
    · exact forall_mem_push.mpr ⟨h.window, htime⟩ x (hs.subset hx)
    · exact h.window x (hs ▸ hx)
  cost := h.cost
  authoritative := h.authoritative
  restored := h.restored
  verified := h.verified
  budget := h.budget

/-- **The store lemma.** -/
theorem store (h : Timed b a) (o : Objective R) {e : EvidenceRecord R}
    (htime : e.dimension ≠ .availability → InSpan b e.time) : Timed b (storeEvidence o a e).1 := by
  cases hdim : e.dimension with
  | latency | throughput | memoryPressure =>
    simp only [storeEvidence, hdim]
    exact h.sample (htime (by rw [hdim]; decide))
  | recoveryTime =>
    simp only [storeEvidence, hdim]
    exact h
  | availability =>
    simp only [storeEvidence, hdim]
    exact ⟨h.window, h.cost, h.authoritative, h.restored, h.verified, h.budget⟩
  | cost =>
    have htime := htime (by rw [hdim]; decide)
    by_cases hk : o.kind = .costWindowBudget
    · simp only [storeEvidence, hdim, if_pos hk]
      refine ⟨h.window, fun p hp => ?_, h.authoritative, h.restored, h.verified, h.budget⟩
      exact forall_mem_push.mpr ⟨h.cost, htime⟩ p ((add_suffix _ _ _ _).subset hp)
    · simp only [storeEvidence, hdim, if_neg hk]
      exact h.sample htime

theorem offer (h : Timed b a) (o : Objective R) {e : EvidenceRecord R}
    (htime : e.dimension ≠ .availability → InSpan b e.time) : Timed b (offer o a e).1 := by
  have hnoted : Timed b (a.remember e.id) :=
    ⟨h.window, h.cost, h.authoritative, h.restored, h.verified, h.budget⟩
  rcases offer_spec o a e with ⟨_, ho⟩ | ⟨_, _, ho⟩ | ⟨_, _, ho⟩ <;> rw [ho]
  · exact h
  · exact hnoted
  · exact hnoted.store o htime

end Evidence

end Timed

/-- All accumulators of the table are timed, each by the base of its objective. -/
def AllTimed (base : ObjectiveId → Int) (t : Accumulators R) : Prop :=
  ∀ a ∈ t.rows, Timed (base a.defn.id) a

namespace AllTimed

variable {base : ObjectiveId → Int} {t : Accumulators R}

theorem acquired (h : AllTimed base t) (o : Objective R) : Timed (base o.id) (acquire t o) := by
  have hacq := @acquire_of_id R (fun a => Timed (base a.defn.id) a) t o h (.make _ o)
    fun a hid ha => by
      simp only [hid] at ha
      exact ha.reset o
  simpa only [acquire_id] using hacq

theorem insert (h : AllTimed base t) {a : ObjectiveAccumulator R} {k : ObjectiveId}
    (hid : a.defn.id = k) (ha : Timed (base k) a) : AllTimed base (t.insert a) :=
  KeyedTable.forall_insert h (by rwa [hid])

theorem foldl_getAccumulator : ∀ (os : List (Objective R)) {t : Accumulators R},
    AllTimed base t → AllTimed base (os.foldl getAccumulator t)
  | [], _, h => h
  | o :: os, t, h => foldl_getAccumulator os (h.insert (acquire_id t o) (h.acquired o))

theorem judged [Double R] (h : AllTimed base t) {o : Objective R} {now : Duration}
    (hnow : InSpan (base o.id) now) : AllTimed base (t.insert (judged t o now)) := by
  have hroll := (h.acquired o).roll hnow
  exact h.insert (judged_id t o now) ⟨hroll.window, hroll.cost, hroll.authoritative,
    hroll.restored, hroll.verified, hroll.budget⟩

theorem accumulatorsAfter [Double R] {now : Duration} : ∀ {os : List (Objective R)}
    {t : Accumulators R}, (∀ o ∈ os, InSpan (base o.id) now) → AllTimed base t →
    AllTimed base (accumulatorsAfter t now os)
  | [], _, _, h => h
  | o :: os, t, hnow, h => by
      have hturn := h.judged (hnow o List.mem_cons_self)
      show AllTimed base (SloFabric.accumulatorsAfter (t.insert (SloFabric.judged t o now)) now os)
      exact AllTimed.accumulatorsAfter (fun o' ho' => hnow o' (List.mem_cons_of_mem _ ho')) hturn

theorem setCooldown (h : AllTimed base t) (id : ObjectiveId)
    (stop : Duration) : AllTimed base (setCooldown t id stop) := by
  unfold SloFabric.setCooldown
  cases hfind : t.find id with
  | none => exact h
  | some a =>
    have ha := h a (KeyedTable.find_mem hfind)
    exact h.insert rfl
      ⟨ha.window, ha.cost, ha.authoritative, ha.restored, ha.verified, ha.budget⟩

theorem restoreStates {cs : Contracts R} {l : List PersistedObjectiveState}
    (hl : l.all objstateStorable = true)
    (hstart : ∀ ps ∈ l, ps.budgetTotal ≠ 0 → InSpan (base ps.objectiveId) ps.budgetWindowStart) :
    AllTimed base (restoreStates cs l) := by
  refine restoreStates_of_id (fun o _ => .make _ o) (fun a o _ hid h => ?_)
    fun a ps hps hid h => ?_
  · have hreset := h.reset o
    rwa [hid] at hreset
  · have htotal : 0 ≤ ps.budgetTotal := by
      have hstorable := List.all_eq_true.mp hl ps hps
      simp only [objstateStorable, nonneg, Bool.and_eq_true, decide_eq_true_eq] at hstorable
      exact hstorable.1
    unfold restore
    by_cases hbudget : ps.budgetTotal ≠ 0
    · simp only [if_pos hbudget]
      have hspan := hstart ps hps hbudget
      rw [← hid] at hspan
      exact ⟨h.window, h.cost, h.authoritative, h.restored, h.verified, fun _ => ⟨htotal, hspan⟩⟩
    · simp only [if_neg hbudget]
      exact ⟨h.window, h.cost, h.authoritative, h.restored, h.verified, h.budget⟩

/-- Every objective of a contract is judged on a timed accumulator. -/
theorem turns [Double R] {now : Duration} : ∀ {os : List (Objective R)} {t : Accumulators R},
    (∀ o ∈ os, InSpan (base o.id) now) → AllTimed base t →
    ∀ x ∈ turns t now os, Timed (base x.obj.id) x.acc ∧ InSpan (base x.obj.id) now
  | [], _, _, _, x, hx => absurd hx List.not_mem_nil
  | o :: os, t, hnow, h, x, hx => by
      rcases List.mem_cons.mp hx with rfl | hx
      · exact ⟨h.acquired o, hnow o List.mem_cons_self⟩
      · exact AllTimed.turns (fun o' ho' => hnow o' (List.mem_cons_of_mem _ ho'))
          (h.judged (hnow o List.mem_cons_self)) x hx

end AllTimed

/-! ## 3. Runs -/

section Runs

variable [Pod R] [Double R] {base : ObjectiveId → Int}

/-- **What a step has to keep to**: the times that reach an objective lie within the half of the
    range that begins at its base, those of a budget's window, too, which begins at `0`; where an
    availability record reaches the totals, its serving units, a double, can be cast, and there is
    room for them and its weight; and a cooldown ends in range. -/
def Paced (base : ObjectiveId → Int) (s : State R) : Op R → Prop
  | .ingest e _ =>
    if e.dimension = .availability then
      ∀ o ∈ offeredTo s e, let a := acquire s.accumulators o
        a.seen e.id = false → unitCompatible o e = true →
          InRange ((a.avail.eligibleIn o.availabilityMode).toInt + (evidenceWeight e).toInt) ∧
          Adds (a.avail.servedIn o.availabilityMode) (exactUnits e)
    else InSpan (base e.objectiveId) e.time
  | .recordRecoveryEvent id _ time => InSpan (base id) time
  | .setObjectiveBudget id _ _ => InSpan (base id) 0
  | .evaluate service workload now =>
    ∀ c ∈ judgedContract s service workload now, ∀ o ∈ c.objectives, InSpan (base o.id) now
  | .authorize intent now =>
    (s.accumulators.find intent.objectiveId).isSome → InRange (now.toInt + intent.cooldown.toInt)
  | .load file =>
    ∀ st, loadState R file = .ok st → ∀ ps ∈ st.objectiveStates, ps.budgetTotal ≠ 0 →
      InSpan (base ps.objectiveId) ps.budgetWindowStart
  | _ => True

/-- **The step lemma.** -/
theorem timed_step [Platform R] {s s' : State R} {op : Op R} {r : Response R}
    (h : apply s op = some (s', r)) (hpaced : Paced base s op) (hs : AllTimed base s.accumulators) :
    AllTimed base s'.accumulators := by
  cases frame_cases h with
  | policies h' | contracts _ h' | dispatched h' | saved h' | failed _ h' => rw [h']; exact hs
  | @ingested e now =>
    cases h
    rcases ingest_offered s e now with ⟨_, h', _⟩ | ⟨o, ho, h', _⟩
    · rw [h']
      exact hs
    · have hid : o.id = e.objectiveId := (definitionOf_some (offeredTo_definition ho)).1
      rw [h']
      have hkey : (offer o (acquire s.accumulators o) e).1.defn.id = o.id := by
        rw [(offer_conduct o _ e).defn, acquire_id]
      refine hs.insert hkey ((hs.acquired o).offer o fun hdim => ?_)
      rw [hid]
      simpa only [Paced, if_neg hdim] using hpaced
  | objectives hop =>
    cases op with
    | recordRecoveryEvent id phase time =>
      cases h
      rcases recordRecoveryEvent_cases s id phase time with ⟨_, h'⟩ | ⟨o, hd, h'⟩
      · rw [h']
        exact hs
      · rw [h']
        have hid : o.id = id := (definitionOf_some hd).1
        exact hs.insert (acquire_id _ o) ((hs.acquired o).recover phase (hid ▸ hpaced))
    | ingestViolationEvent id now =>
      cases h
      have ht := AllTimed.foldl_getAccumulator (violationDefinitions s.contracts id) hs
      rcases ingestViolationEvent_cases s id now with ⟨_, _, h'⟩ | ⟨_, acc, _, hacc, _, h'⟩
      · rw [h']
        exact ht
      · have ha := ht acc (KeyedTable.find_mem hacc)
        rw [h']
        exact ht.insert rfl (ha.fund ha.budget)
    | setObjectiveBudget id total window =>
      cases h
      rcases setObjectiveBudget_cases s id total window with
        ⟨_, h', _⟩ | ⟨o, hd, ⟨h', _⟩ | ⟨htotal, h', _⟩⟩
      · rw [h']
        exact hs
      · rw [h']
        exact hs.insert (acquire_id _ o) (hs.acquired o)
      · have hid : o.id = id := (definitionOf_some hd).1
        rw [h']
        exact hs.insert (acquire_id _ o)
          ((hs.acquired o).fund fun _ => ⟨htotal, hid ▸ hpaced⟩)
    | _ => cases hop
  | @evaluated service workload now _ hx =>
    rcases evaluate_judged hx with ⟨_, h'⟩ | ⟨c, hc, h'⟩
    · rw [h']
      exact hs
    · rw [h']
      exact hs.accumulatorsAfter (hpaced c hc)
  | @authorized intent now _ hx =>
    rcases authorize_cases s intent now with ⟨_, h'⟩ | ⟨_, _, _, _, _, _, _, _, _, h'⟩
    · cases hx.symm.trans h'
      exact hs
    · cases hx.symm.trans h'
      exact hs.setCooldown _ _
  | transition hx | completed hx => cases hx; exact hs
  | loaded hst h' =>
    rw [h']
    exact AllTimed.restoreStates (loadState_objstates hst) (hpaced _ hst)

/-! ## 4. Results in range -/

omit [Pod R] in
theorem windowSums_inRange {b : Int} {w : SampleWindow R} {time : Duration}
    (hw : ∀ x ∈ w.samples, InSpan b x.time) (htime : InSpan b time) (value : R) (seq : UInt64) :
    ∀ n ∈ w.sums time value seq, InRange n := by
  intro n hn
  unfold SampleWindow.sums at hn
  simp only [List.mem_ite_nil_left] at hn
  obtain ⟨_, _, _, _, hn⟩ := hn
  cases htype : w.type with
  | instantaneous | rollingCount =>
    simp only [htype] at hn
    exact absurd hn List.not_mem_nil
  | sliding =>
    simp only [htype, List.mem_ite_nil_left] at hn
    exact frontSubs_inRange htime (List.forall_mem_map.mpr hw) n hn.2
  | tumbling | fixedInterval =>
    simp only [htype, List.mem_ite_nil_left, List.mem_ite_nil_right] at hn
    obtain ⟨hpos, _, hn⟩ := hn
    have hpos := Int64.not_le.mp hpos
    rw [List.mem_singleton.mp hn, toInt_div_pos hpos]
    exact div_mul_range hpos

omit [Pod R] in
theorem storeSums_inRange {b : Int} {o : Objective R} {a : ObjectiveAccumulator R}
    {e : EvidenceRecord R} (ha : Timed b a)
    (hroom : e.dimension = .availability →
      InRange ((a.avail.eligibleIn o.availabilityMode).toInt + (evidenceWeight e).toInt) ∧
      Adds (a.avail.servedIn o.availabilityMode) (exactUnits e))
    (htime : e.dimension ≠ .availability → InSpan b e.time) :
    ∀ n ∈ storeSums o a e, InRange n := by
  unfold storeSums
  cases hdim : e.dimension with
  | recoveryTime => exact List.forall_mem_nil InRange
  | availability =>
    obtain ⟨heligible, hserved⟩ := hroom hdim
    exact List.forall_mem_cons.mpr ⟨heligible, List.forall_mem_singleton.mpr hserved.toInt64⟩
  | latency | throughput | memoryPressure =>
    exact windowSums_inRange ha.window (htime (by rw [hdim]; decide)) _ _
  | cost =>
    have htime := htime (by rw [hdim]; decide)
    simp only
    split
    · split
      · exact frontSubs_inRange htime (List.forall_mem_map.mpr ha.cost)
      · exact List.forall_mem_nil InRange
    · exact windowSums_inRange ha.window htime _ _

/-- **The results of `ingest` fit.** -/
theorem ingestSums_inRange {s : State R} (hs : AllTimed base s.accumulators)
    {e : EvidenceRecord R} {now : Duration} (hpaced : Paced base s (.ingest e now)) :
    ∀ n ∈ ingestSums s e, InRange n := by
  unfold ingestSums
  cases ho : offeredTo s e with
  | none => exact List.forall_mem_nil InRange
  | some o =>
    have hid : o.id = e.objectiveId := (definitionOf_some (offeredTo_definition ho)).1
    have ha := hs.acquired o
    have hnoted : Timed (base o.id) ((acquire s.accumulators o).remember e.id) :=
      ⟨ha.window, ha.cost, ha.authoritative, ha.restored, ha.verified, ha.budget⟩
    simp only [Paced] at hpaced
    simp only
    split
    · exact List.forall_mem_nil InRange
    · rename_i hseen
      split
      · exact List.forall_mem_nil InRange
      · rename_i hunit
        refine storeSums_inRange hnoted (fun hdim => ?_) fun hdim => ?_
        · rw [if_pos hdim] at hpaced
          exact hpaced o ho (Bool.eq_false_iff.mpr hseen) (by simpa using hunit)
        · rw [if_neg hdim, ← hid] at hpaced
          exact hpaced

omit [Pod R] [Double R] in
/-- What is left of a budget fits: neither count is negative. -/
theorem stateSums_inRange {b : ErrorBudget} (htotal : 0 ≤ b.total) :
    ∀ n ∈ b.stateSums, InRange n := by
  unfold ErrorBudget.stateSums
  split
  · exact List.forall_mem_nil InRange
  · have htotal := ErrorBudget.nonneg_iff.mp htotal
    have hconsumed := ErrorBudget.nonneg_iff.mp b.consumed_nonneg
    have hmax := Int64.toInt_lt b.total
    have hmax' := Int64.toInt_lt b.consumed
    refine List.forall_mem_singleton.mpr ?_
    unfold InRange exactSub
    omega

omit [Pod R] [Double R] in
theorem rolledSums_inRange {base : Int} {b : ErrorBudget} {now : Duration}
    (hnow : InSpan base now) (hstart : InSpan base b.windowStart) :
    ∀ n ∈ b.rolledSums now, InRange n := by
  unfold ErrorBudget.rolledSums
  split
  · exact List.forall_mem_nil InRange
  · exact List.forall_mem_singleton.mpr (hnow.sub hstart)

omit [Pod R] [Double R] in
theorem recoverySums_inRange {b : Int} {a : ObjectiveAccumulator R} {now : Duration}
    (ha : Timed b a) (hnow : InSpan b now) : ∀ n ∈ recoverySums a now, InRange n := by
  unfold recoverySums
  split
  · rename_i h
    rw [Bool.and_eq_true] at h
    refine List.forall_mem_singleton.mpr (InSpan.sub ?_ (ha.authoritative h.2))
    split
    · exact ha.verified ‹_›
    · split
      · exact ha.restored ‹_›
      · exact hnow
  · exact List.forall_mem_nil InRange

omit [Pod R] [Double R] in
theorem freshnessSums_inRange {b : Int} {a : ObjectiveAccumulator R} {now : Duration}
    (ha : Timed b a) (hnow : InSpan b now) : ∀ n ∈ freshnessSums a now, InRange n := by
  unfold freshnessSums
  split
  · exact List.forall_mem_nil InRange
  · intro n hn
    obtain ⟨latest, hlatest, rfl⟩ := Option.map_eq_some_iff.mp (Option.mem_toList.mp hn)
    exact hnow.sub (ha.window latest (List.mem_of_getLast? hlatest))

omit [Pod R] [Double R] in
theorem riskSums_inRange {b : Int} {o : Objective R} {a : ObjectiveAccumulator R} {now : Duration}
    (ha : Timed b a) (hnow : InSpan b now) : ∀ n ∈ riskSums o a now, InRange n := by
  unfold riskSums
  split
  · intro n hn
    obtain ⟨first, hfirst, rfl⟩ := Option.map_eq_some_iff.mp (Option.mem_toList.mp hn)
    exact hnow.sub (ha.cost first (List.mem_of_head? hfirst))
  · exact List.forall_mem_nil InRange

omit [Pod R] in
/-- **The results of a turn fit.** -/
theorem turnSums_inRange {b : Int} {x : Turn R} {now : Duration} (hx : Timed b x.acc)
    (hnow : InSpan b now) : ∀ n ∈ x.sums now, InRange n := by
  have hhas : (rollBudget x.acc now).hasBudget = x.acc.hasBudget := by
    unfold rollBudget
    split <;> rfl
  have hbudget (h : x.acc.hasBudget = true) := (hx.roll hnow).budget (hhas.trans h)
  intro n hn
  simp only [Turn.sums, ErrorBudget.burnSums, List.mem_append, List.mem_ite_nil_left,
    List.mem_ite_nil_right] at hn
  rcases hn with ((hn | hn) | ⟨hhas, hn⟩) | ⟨_, ⟨hhas, hn⟩ | hn⟩
  · exact recoverySums_inRange hx hnow n hn
  · exact freshnessSums_inRange hx hnow n hn
  · obtain ⟨htotal, hstart⟩ := hbudget hhas
    rcases hn with (hn | hn) | ⟨_, hn⟩
    · exact rolledSums_inRange hnow (hx.budget hhas).2 n hn
    · exact stateSums_inRange htotal n hn
    · exact rolledSums_inRange hnow hstart n hn
  · exact stateSums_inRange (hbudget hhas).1 n hn
  · exact riskSums_inRange hx hnow n hn

/-- The results of a step that keeps the pace fit. -/
theorem sums_inRange {s : State R} (hs : AllTimed base s.accumulators) {op : Op R}
    (hpaced : Paced base s op) : ∀ n ∈ sums s op, InRange n := by
  cases op with
  | ingest e now => exact ingestSums_inRange hs hpaced
  | evaluate service workload now =>
    show ∀ n ∈ evaluateSums s service workload now, InRange n
    unfold evaluateSums
    cases hc : judgedContract s service workload now with
    | none => exact List.forall_mem_nil InRange
    | some c =>
      intro n hn
      obtain ⟨x, hx, hn⟩ := List.mem_flatMap.mp hn
      obtain ⟨htimed, hnow⟩ := AllTimed.turns (hpaced c hc) hs x hx
      exact turnSums_inRange htimed hnow n hn
  | authorize intent now =>
    show ∀ n ∈ authorizeSums s intent now, InRange n
    unfold authorizeSums
    split
    · exact List.forall_mem_nil InRange
    · split
      · exact List.forall_mem_singleton.mpr (hpaced ‹_›)
      · exact List.forall_mem_nil InRange
  | _ => exact List.forall_mem_nil InRange

/-- No result of the step overflows. -/
def NoOverflow (s : State R) (op : Op R) : Prop := ∀ n ∈ sums s op, InRange n

/-- **A run that keeps the pace is a run without overflow.** -/
theorem paced_no_overflow [Platform R] {tr : Trace R} {s : State R}
    (h : Run apply (Paced base) (State.fresh R) tr s) :
    Run apply NoOverflow (State.fresh R) tr s := by
  have hfresh : AllTimed base (State.fresh R).accumulators := fun a ha => by
    simp [State.fresh] at ha
  have halong := h.along (J := fun s => AllTimed base s.accumulators) hfresh
    fun s op s' r hs hpaced hstep => timed_step hstep hpaced hs
  exact halong.1.mono fun s op hstep => sums_inRange hstep.2 hstep.1

end Runs

/-! ## 5. Two large samples -/

/-- Evaluations, evidence of latency, policies and contracts at times from `0` on. -/
def fromZero (_ : State Binary64) : Op Binary64 → Bool
  | .setPolicy _ | .addContract _ => true
  | .ingest e _ => e.dimension == .latency && decide (0 ≤ e.time)
  | .evaluate _ _ now => decide (0 ≤ now)
  | _ => false

theorem inSpan_zero {t : Duration} (h : 0 ≤ t) : InSpan 0 t := by
  have ht := ErrorBudget.nonneg_iff.mp h
  have hmax := Int64.toInt_lt t
  exact ⟨ht, by omega⟩

theorem paced_fromZero (s : State Binary64) (op : Op Binary64) (h : fromZero s op = true) :
    Paced (fun _ => 0) s op := by
  cases op with
  | setPolicy | addContract => trivial
  | ingest e now =>
    simp only [fromZero, Bool.and_eq_true, beq_iff_eq, decide_eq_true_eq] at h
    simp only [Paced, h.1]
    exact inSpan_zero h.2
  | evaluate service workload now => exact fun _ _ _ _ => inSpan_zero (of_decide_eq_true h)
  | _ => cases h

/-- A latency is measured and judged. -/
def judgedLatency : List (Op Binary64) :=
  [.setPolicy smallPolicy, .addContract (smallContract 1 1 1 [smallObjective 1 1]),
    .ingest { smallEvidence 1 1 50000000 with time := 5 } 0, .evaluate ⟨1⟩ ⟨1⟩ 7]

theorem paced_no_overflow_small : (afterIf fromZero judgedLatency).evaluationCounter = 1 ∧
    ∃ tr, Run apply NoOverflow (State.fresh Binary64) tr (afterIf fromZero judgedLatency) := by
  obtain ⟨tr, h⟩ := run_afterIf paced_fromZero judgedLatency
  exact ⟨by decide +kernel, tr, paced_no_overflow h⟩

/-- Full availability, by `2 ^ 62` samples. -/
def manySamples (id : UInt64) : EvidenceRecord Binary64 :=
  { id := ⟨id⟩, objectiveId := ⟨1⟩, dimension := .availability, value := .basisPoints 10000
    sampleCount := 4611686018427387904 }

/-- A fabric that was told of them once. -/
def toldOnce : List (Op Binary64) :=
  [.setPolicy smallPolicy,
    .addContract (smallContract 1 1 1 [{ smallObjective 1 1 with
      dim := .availability, kind := .availabilityTime, target := .basisPoints 9900 }]),
    .ingest (manySamples 1) 0]

/-- **The totals of availability do overflow.** -/
theorem no_overflow_fails :
    ¬∀ (s s' : State Binary64) (op : Op Binary64) (r : Response Binary64), Reachable s →
      apply s op = some (s', r) → r.failed = false → NoOverflow s op := by
  intro h
  have hfits := h _ _ (.ingest (manySamples 2) 0) _ (reachable_after toldOnce) rfl
    (by decide +kernel)
  have hsums : (sums (after toldOnce) (.ingest (manySamples 2) 0)).all
      (fun n => decide (n < 2 ^ 63)) = false := by decide +kernel
  have hall := List.all_eq_true.mpr fun n hn => decide_eq_true (hfits n hn).2
  exact absurd (hsums.symm.trans hall) Bool.false_ne_true

end SloFabric
