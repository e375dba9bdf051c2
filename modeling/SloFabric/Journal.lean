/-
  File:      SloFabric/Journal.lean
  Subject:   A journal of what the steps of a run mean for the evidence of one objective.

  * `Entry`, `noteEntry`: of every step, the evidence id that passed the global check, whether the
    objective's accumulator was wiped or replaced, the record it was offered, and the record that
    was accepted;
  * `sinceReset`, `lastEntries`: what the entries say, from the last reset on;
  * `Entry.Truthful`, `entries_truthful`: what an entry says is accepted was offered and taken, by
    an accumulator of the definition's generation;
  * `IntakeRule`: a relation between what was offered since the last reset and the accumulator,
    which holds of a fresh accumulator and which an offer keeps;
  * `IntakeRule.step`, `IntakeRule.run`: it holds in every run.
-/
import SloFabric.Accounts

namespace SloFabric

variable {R : Type}

/-! ## 1. Entries -/

/-- A record, and the definition and the accumulator it is offered to. -/
structure Offering (R : Type) where
  defn : Objective R
  acc : ObjectiveAccumulator R
  record : EvidenceRecord R

/-- What one step means for the evidence of an objective. -/
structure Entry (R : Type) where
  passed : Option EvidenceId
  reset : Bool
  offering : Option (Offering R)
  accepted : Option (EvidenceRecord R)

/-- The evidence id a step lets pass the global check. -/
def passing (s : State R) : Op R → Option EvidenceId
  | .ingest e _ => if (noteEvidence s e.id).2.isOk then some e.id else none
  | _ => none

/-- Is an accumulator wiped when the definitions are handed to `get_accumulator`? It is for one
    of another generation. -/
def wiped (os : List (Objective R)) (a : Option (ObjectiveAccumulator R)) : Bool :=
  a.any fun a => os.any (·.gen ≠ a.defn.gen)

/-- Does a step wipe the accumulator of the objective, or load others? -/
def resets [Pod R] [Double R] (k : ObjectiveId) (s : State R) : Op R → Bool
  | .load file => (loadState R file).toBool
  | op => wiped ((acquires s op).filter (·.id = k)) (s.accumulators.find k)

/-- The record a step offers to the accumulator of the objective. -/
def offering (k : ObjectiveId) (s : State R) : Op R → Option (Offering R)
  | .ingest e _ => ((offeredTo s e).filter (·.id = k)).map fun o =>
      ⟨o, acquire s.accumulators o, e⟩
  | _ => none

/-- The record of the objective a step accepts. -/
def acceptedBy (k : ObjectiveId) : Op R × Response R → Option (EvidenceRecord R)
  | (.ingest e _, .status st) => if st.isOk ∧ e.objectiveId = k then some e else none
  | _ => none

def entryOf [Pod R] [Double R] (k : ObjectiveId) (s : State R) (x : Op R × Response R) :
    Entry R where
  passed := passing s x.1
  reset := resets k s x.1
  offering := offering k s x.1
  accepted := acceptedBy k x

/-- The fabric with the journal of its steps. -/
abbrev Journaled (R : Type) := Watched (State R) (List (Entry R))

def noteEntry [Pod R] [Double R] (k : ObjectiveId) (s : State R) (log : List (Entry R))
    (x : Op R × Response R) : List (Entry R) := log ++ [entryOf k s x]

/-- What the entries say, from the last reset on. -/
def sinceReset {α : Type} (f : Entry R → Option α) (log : List (Entry R)) : List α :=
  log.foldl (fun l x => (if x.reset then [] else l) ++ (f x).toList) []

theorem sinceReset_push {α : Type} (f : Entry R → Option α) (log : List (Entry R)) (x : Entry R) :
    sinceReset f (log ++ [x]) =
      (if x.reset then [] else sinceReset f log) ++ (f x).toList := by
  unfold sinceReset
  rw [List.foldl_append]
  rfl

/-- Without a reset, everything the entries say is added. -/
theorem sinceReset_append {α : Type} (f : Entry R → Option α) (log : List (Entry R)) :
    ∀ later : List (Entry R), (∀ x ∈ later, x.reset = false) →
    sinceReset f (log ++ later) = sinceReset f log ++ later.filterMap f := by
  intro later
  induction later using List.reverseRecOn with
  | nil => simp
  | append_singleton later x ih =>
    intro hno
    have hx : x.reset = false := hno x (by simp)
    have hlater := ih fun y hy => hno y (by simp [hy])
    rw [← List.append_assoc, sinceReset_push, hlater, hx, List.filterMap_append]
    cases h : f x <;> simp [h]

/-- The entries from the last reset on. -/
def lastEntries (log : List (Entry R)) : List (Entry R) := sinceReset some log

/-- What the entries say from the last reset on is what these say. -/
theorem sinceReset_filterMap {α : Type} (f : Entry R → Option α) (log : List (Entry R)) :
    sinceReset f log = (lastEntries log).filterMap f := by
  induction log using List.reverseRecOn with
  | nil => rfl
  | append_singleton log x ih =>
    rw [lastEntries, sinceReset_push, sinceReset_push, List.filterMap_append, ih]
    split <;> cases h : f x <;> simp [lastEntries, h]

/-- A record is accepted if it was offered to the accumulator of the objective and that took it, at
    the generation of the definition. -/
structure Entry.Truthful [Double R] (x : Entry R) : Prop where
  accepted : x.accepted = (x.offering.filter fun off =>
    (offer off.defn off.acc off.record).2.isOk).map (·.record)
  gen : ∀ off, x.offering = some off → off.acc.defn.gen = off.defn.gen

/-! ## 2. What a step does -/

/-- Nothing but recovery, budget, last state and cooldown is other than in `a`. -/
structure SameIntake (a b : ObjectiveAccumulator R) : Prop extends SameEvidence a b where
  recent : b.recent = a.recent
  recentSet : b.recentSet = a.recentSet
  nextSeq : b.nextSeq = a.nextSeq

theorem SameIntake.refl (a : ObjectiveAccumulator R) : SameIntake a a :=
  ⟨⟨rfl, rfl, rfl, rfl⟩, rfl, rfl, rfl⟩

theorem sameIntake_carried : Carried (SameIntake (R := R)) where
  refl := .refl
  trans _ _ _ h h' :=
    ⟨⟨h'.defn.trans h.defn, h'.window.trans h.window, h'.avail.trans h.avail,
      h'.cost.trans h.cost⟩, h'.recent.trans h.recent, h'.recentSet.trans h.recentSet,
      h'.nextSeq.trans h.nextSeq⟩
  defn _ _ h := h.defn
  recover _ _ _ := ⟨⟨rfl, rfl, rfl, rfl⟩, rfl, rfl, rfl⟩
  fund _ _ _ := ⟨⟨rfl, rfl, rfl, rfl⟩, rfl, rfl, rfl⟩
  judge _ _ _ := ⟨⟨rfl, rfl, rfl, rfl⟩, rfl, rfl, rfl⟩

theorem resetForNewGen_intake (a : ObjectiveAccumulator R) (o : Objective R) :
    SameIntake (.make o) (a.resetForNewGen o) := ⟨⟨rfl, rfl, rfl, rfl⟩, rfl, rfl, rfl⟩

/-- Every accumulator a load rebuilds has taken no evidence in. -/
theorem restoreStates_intake {cs : Contracts R} {l : List PersistedObjectiveState} :
    ∀ a ∈ (restoreStates cs l).rows, ∃ o, SameIntake (.make o) a := by
  refine restoreStates_of (fun o _ => ⟨o, .refl _⟩)
    (fun a o _ _ => ⟨o, resetForNewGen_intake a o⟩) fun a ps _ ⟨o, ho⟩ => ⟨o, ?_⟩
  refine sameIntake_carried.trans _ a _ ho ?_
  unfold restore
  simp only
  split <;> exact ⟨⟨rfl, rfl, rfl, rfl⟩, rfl, rfl, rfl⟩

/-- A relation between what was offered to an accumulator since its last reset and what it holds:
    a fresh one holds nothing, and an offer adds what `g` says. -/
structure IntakeRule [Double R] {α : Type} (g : Offering R → Option α)
    (I : List α → ObjectiveAccumulator R → Prop) : Prop where
  make : ∀ o, I [] (.make o)
  same : ∀ l a b, SameIntake a b → I l a → I l b
  offer : ∀ l o a e, I l a → I (l ++ (g ⟨o, a, e⟩).toList) (offer o a e).1

/-- The relation holds of the accumulator, if there is one; else nothing was offered. -/
def Holds {α : Type} (I : List α → ObjectiveAccumulator R → Prop) (l : List α) :
    Option (ObjectiveAccumulator R) → Prop
  | none => l = []
  | some a => I l a

section Rule

variable [Double R] {α : Type} {g : Offering R → Option α}
  {I : List α → ObjectiveAccumulator R → Prop}

/-- Uses of an accumulator without a new record. -/
theorem IntakeRule.used (hI : IntakeRule g I) {l : List α} {os : List (Objective R)}
    {a b : Option (ObjectiveAccumulator R)} (hs : Holds I l a) (h : After SameIntake os a b) :
    Holds I (if wiped os a then [] else l) b := by
  cases h with
  | idle hos =>
    have hkeep : wiped os a = false := by rw [hos]; cases a <;> rfl
    rwa [hkeep]
  | @kept a _ hgen hk =>
    have hkeep : wiped os (some a) = false := by
      simpa [wiped] using hgen
    rw [hkeep]
    exact hI.same _ _ _ hk hs
  | @fresh _ b o ho _ hstale hk =>
    have hempty : (if wiped os a then [] else l) = [] := by
      cases a with
      | none => exact hs
      | some a =>
        have hwiped : wiped os (some a) = true := by
          simpa [wiped] using hstale a rfl
        rw [hwiped]
        rfl
    rw [hempty]
    exact hI.same _ _ _ hk (hI.make o)

end Rule

section Step

variable [Pod R] [Double R] {α : Type} {g : Offering R → Option α}
  {I : List α → ObjectiveAccumulator R → Prop}

/-- What was offered, after one more step. -/
def carry (g : Offering R → Option α) (k : ObjectiveId) (s : State R) (op : Op R) (l : List α) :
    List α := (if resets k s op then [] else l) ++ ((offering k s op).bind g).toList

theorem carry_used {k : ObjectiveId} {s : State R} {op : Op R} (l : List α)
    (hload : ∀ file, op ≠ .load file) (hoffer : offering k s op = none) :
    carry g k s op l = if wiped ((acquires s op).filter (·.id = k)) (s.accumulators.find k) then []
      else l := by
  rw [carry, hoffer]
  cases op with
  | load file => exact absurd rfl (hload file)
  | _ => exact List.append_nil _

/-- A step that offers nothing and uses the accumulator. -/
theorem IntakeRule.idle (hI : IntakeRule g I) {k : ObjectiveId} {s : State R} {op : Op R}
    {l : List α} (hload : ∀ file, op ≠ .load file) (hoffer : offering k s op = none)
    {b : Option (ObjectiveAccumulator R)} (hs : Holds I l (s.accumulators.find k))
    (h : After SameIntake ((acquires s op).filter (·.id = k)) (s.accumulators.find k) b) :
    Holds I (carry g k s op l) b := by
  rw [carry_used l hload hoffer]
  exact hI.used hs h

/-- A record that is offered to the accumulator of the objective. -/
theorem IntakeRule.ingest (hI : IntakeRule g I) {s : State R} {e : EvidenceRecord R}
    {now : Duration} {o : Objective R} {l : List α} (ho : offeredTo s e = some o)
    (hs : Holds I l (s.accumulators.find o.id)) :
    I (carry g o.id s (.ingest e now) l) (SloFabric.offer o (acquire s.accumulators o) e).1 := by
  have hoffer : offering o.id s (.ingest e now) = some ⟨o, acquire s.accumulators o, e⟩ := by
    rw [offering, ho]
    simp
  have hacq : (acquires s (.ingest e now)).filter (·.id = o.id) = [o] := by
    rw [acquires, ho]
    simp
  have hreset : resets o.id s (.ingest e now) = wiped [o] (s.accumulators.find o.id) :=
    congrArg (wiped · (s.accumulators.find o.id)) hacq
  rw [carry, hoffer, hreset]
  exact hI.offer _ _ _ _ (hI.used hs
    (after_acquire sameIntake_carried s.accumulators o (SameIntake.refl _)))

/-- An ingest: the record is offered to at most one accumulator. -/
theorem IntakeRule.ingested (hI : IntakeRule g I) {k : ObjectiveId} {s : State R}
    {e : EvidenceRecord R} {now : Duration} {l : List α}
    (hs : Holds I l (s.accumulators.find k)) :
    Holds I (carry g k s (.ingest e now) l) ((SloFabric.ingest s e now).1.accumulators.find k) := by
  have hload : ∀ file, (.ingest e now : Op R) ≠ .load file := nofun
  rcases ingest_offered s e now with ⟨ho, h, _⟩ | ⟨o, ho, h, _⟩
  · refine hI.idle hload (by rw [offering, ho]; rfl) hs ?_
    rw [h, acquires, ho]
    exact .idle rfl
  · have hid : (SloFabric.offer o (acquire s.accumulators o) e).1.defn.id = o.id := by
      rw [(offer_conduct _ _ _).defn, acquire_id]
    by_cases hk : o.id = k
    · subst hk
      have hnew : I (carry g o.id s (.ingest e now) l) _ := hI.ingest ho hs
      rw [h, s.accumulators.find_insert_key hid]
      exact hnew
    · refine hI.idle hload (by rw [offering, ho]; simp [hk]) hs ?_
      rw [h, acquires, ho, s.accumulators.find_insert_key_ne hid (Ne.symm hk)]
      exact .idle (by simp [hk])

/-- A load that reads the file starts every accumulator afresh; another one changes nothing. -/
theorem IntakeRule.restored (hI : IntakeRule g I) {k : ObjectiveId} {s : State R}
    {file : Option Bytes} {l : List α} (hs : Holds I l (s.accumulators.find k)) :
    Holds I (carry g k s (.load file) l) ((load s file).1.accumulators.find k) := by
  have hoffer : offering k s (.load file) = none := rfl
  rcases load_cases s file with ⟨e, he, h⟩ | ⟨st, hst, h⟩
  · have hkeep : carry g k s (.load file) l = l := by
      rw [carry, hoffer, resets, he]
      exact List.append_nil l
    rw [hkeep, h]
    exact hs
  · have hnil : carry g k s (.load file) l = [] := by
      rw [carry, hoffer, resets, hst]
      rfl
    rw [hnil, h]
    show Holds I [] ((restoreStates _ _).find k)
    cases hfind : (restoreStates _ _).find k with
    | none => rfl
    | some a =>
      obtain ⟨o, ho⟩ := restoreStates_intake a (KeyedTable.find_mem hfind)
      exact hI.same _ _ _ ho (hI.make o)

/-- An authorization starts a cooldown at most. -/
theorem IntakeRule.authorized (hI : IntakeRule g I) {k : ObjectiveId} {s : State R}
    {intent : EnforcementIntent} {now : Duration} {l : List α}
    (hs : Holds I l (s.accumulators.find k)) :
    Holds I (carry g k s (.authorize intent now) l)
      ((authorize s intent now).1.accumulators.find k) := by
  have hload : ∀ file, (.authorize intent now : Op R) ≠ .load file := nofun
  have hkeep : carry g k s (.authorize intent now) l = l := by
    rw [carry_used l hload rfl]
    cases s.accumulators.find k <;> rfl
  rw [hkeep]
  rcases authorize_cases s intent now with ⟨st, h⟩ | ⟨_, _, _, _, _, _, _, _, _, h⟩
  · rw [h]
    exact hs
  · rw [h]
    show Holds I l ((setCooldown _ _ _).find k)
    rw [setCooldown_find]
    split
    · cases hfind : s.accumulators.find k with
      | none => rw [hfind] at hs; exact hs
      | some a =>
        rw [hfind] at hs
        exact hI.same _ a _ ⟨⟨rfl, rfl, rfl, rfl⟩, rfl, rfl, rfl⟩ hs
    · exact hs

/-- Any other call offers nothing. -/
theorem IntakeRule.elsewhere [Platform R] (hI : IntakeRule g I) {k : ObjectiveId} {s s' : State R}
    {op : Op R} {r : Response R} {l : List α} (h : apply s op = some (s', r))
    (hing : ∀ e now, op ≠ .ingest e now) (hload : ∀ file, op ≠ .load file)
    (hauth : ∀ intent now, op ≠ .authorize intent now)
    (hs : Holds I l (s.accumulators.find k)) :
    Holds I (carry g k s op l) (s'.accumulators.find k) := by
  have hoffer : offering k s op = none := by
    cases op with
    | ingest e now => exact absurd rfl (hing e now)
    | _ => rfl
  exact hI.idle hload hoffer hs (account_step sameIntake_carried h hing hload hauth k)

/-- **The step lemma.** -/
theorem IntakeRule.step [Platform R] (hI : IntakeRule g I) {k : ObjectiveId} {s s' : State R}
    {op : Op R} {r : Response R} {l : List α} (h : apply s op = some (s', r))
    (hs : Holds I l (s.accumulators.find k)) :
    Holds I (carry g k s op l) (s'.accumulators.find k) := by
  by_cases hing : ∃ e now, op = .ingest e now
  · obtain ⟨e, now, rfl⟩ := hing
    cases h
    exact hI.ingested hs
  by_cases hload : ∃ file, op = .load file
  · obtain ⟨file, rfl⟩ := hload
    cases h
    exact hI.restored hs
  by_cases hauth : ∃ intent now, op = .authorize intent now
  · obtain ⟨intent, now, rfl⟩ := hauth
    cases h
    exact hI.authorized hs
  exact hI.elsewhere h (fun e now heq => hing ⟨e, now, heq⟩) (fun file heq => hload ⟨file, heq⟩)
    (fun intent now heq => hauth ⟨intent, now, heq⟩) hs

/-- **The run lemma**: in every run the accumulator holds what the journal says was offered to it
    since its last reset. -/
theorem IntakeRule.run [Platform R] (hI : IntakeRule g I) {k : ObjectiveId} {w : Journaled R}
    {tr : Trace R}
    (h : Run (watch apply (noteEntry k)) (fun _ _ => True) ⟨State.fresh R, []⟩ tr w) :
    Holds I (sinceReset (fun x => x.offering.bind g) w.seen) (w.state.accumulators.find k) := by
  refine h.invariant (I := fun w : Journaled R =>
    Holds I (sinceReset (fun x => x.offering.bind g) w.seen) (w.state.accumulators.find k)) rfl
    fun w op w' r hw _ hstep => ?_
  obtain ⟨hs, hseen⟩ := watch_cases hstep
  rw [hseen, noteEntry, sinceReset_push]
  exact hI.step hs hw

end Step

end SloFabric
