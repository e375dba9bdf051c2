/-
  File:      SloFabric/Admission.lean
  Subject:   The checks a record passes before `ingest` hands it to a store.

  * `Reaches`: id, epoch, definition, generation, the accumulator's own ids and the unit, all read
    off the state before;
  * `ingest_reaching`, `ingest_turned_away`: what `ingest` does with a record that reaches one, and
    that any other is refused, with one of the `refusals`;
  * `StoreRule`: a property of what an accumulator stores, which a fresh one has;
  * `StoreRule.step`: whatever the step, all accumulators keep it, if the store that a record
    reaches does.
-/
import SloFabric.Journal

namespace SloFabric

variable {R : Type}

/-! ## 1. A record that reaches a store -/

/-- The record reaches a store of the accumulator of `o`. -/
structure Reaches (s : State R) (e : EvidenceRecord R) (o : Objective R) : Prop where
  offered : offeredTo s e = some o
  unseen : (acquire s.accumulators o).seen e.id = false
  unit : unitCompatible o e = true

theorem Reaches.unique {s : State R} {e : EvidenceRecord R} {o o' : Objective R}
    (h : Reaches s e o) (h' : Reaches s e o') : o = o' :=
  Option.some.inj (h.offered.symm.trans h'.offered)

/-- The accumulator a store of which the record reaches. -/
def receiving (s : State R) (e : EvidenceRecord R) (o : Objective R) : ObjectiveAccumulator R :=
  (acquire s.accumulators o).remember e.id

section Ingest

variable [Double R]

theorem offer_reaching {s : State R} {e : EvidenceRecord R} {o : Objective R}
    (h : Reaches s e o) : offer o (acquire s.accumulators o) e =
      storeEvidence o (receiving s e o) e := by
  rw [offer, h.unseen, h.unit]
  rfl

/-- What `ingest` does with a record that reaches a store is up to the store. -/
theorem ingest_reaching {s : State R} {e : EvidenceRecord R} {o : Objective R}
    (h : Reaches s e o) (now : Duration) :
    (ingest s e now).1.accumulators =
        s.accumulators.insert (storeEvidence o (receiving s e o) e).1 ∧
      (ingest s e now).2 = (storeEvidence o (receiving s e o) e).2 := by
  rcases ingest_offered s e now with ⟨hno, _⟩ | ⟨o', ho, haccs, hst⟩
  · rw [h.offered] at hno
    cases hno
  · rw [h.offered] at ho
    cases ho
    rw [haccs, hst, offer_reaching h]
    exact ⟨rfl, rfl⟩

/-- The accumulator is then handed out as the store has left it. -/
theorem acquire_ingested {s : State R} {e : EvidenceRecord R} {o : Objective R}
    (h : Reaches s e o) (now : Duration) : acquire (ingest s e now).1.accumulators o =
      (storeEvidence o (receiving s e o) e).1 := by
  have hdefn : (storeEvidence o (receiving s e o) e).1.defn =
      (acquire s.accumulators o).defn := (storeEvidence_conduct _ _ _).defn
  rw [(ingest_reaching h now).1, acquire, s.accumulators.find_insert_key
    ((congrArg (·.id) hdefn).trans (acquire_id _ o))]
  exact if_neg (not_not.mpr ((congrArg (·.gen) hdefn).trans (acquire_gen _ o)))

/-- A record that reaches no store is refused. Its id may be remembered. -/
theorem ingest_turned_away {s : State R} {e : EvidenceRecord R} (h : ∀ o, ¬Reaches s e o)
    (now : Duration) :
    (ingest s e now).2.isOk = false ∧
      ((ingest s e now).1.accumulators = s.accumulators ∨
        ∃ o b, offeredTo s e = some o ∧
          (b = acquire s.accumulators o ∨ b = receiving s e o) ∧
          (ingest s e now).1.accumulators = s.accumulators.insert b) := by
  rcases ingest_offered s e now with ⟨_, haccs, hst⟩ | ⟨o, ho, haccs, hst⟩
  · exact ⟨hst, Or.inl haccs⟩
  · rw [haccs, hst]
    rcases offer_spec o (acquire s.accumulators o) e with ⟨_, hoffer⟩ | ⟨_, _, hoffer⟩ |
      ⟨hseen, hunit, _⟩
    · rw [hoffer]
      exact ⟨rfl, Or.inr ⟨o, _, ho, Or.inl rfl, rfl⟩⟩
    · rw [hoffer]
      exact ⟨rfl, Or.inr ⟨o, _, ho, Or.inr rfl, rfl⟩⟩
    · exact absurd ⟨ho, hseen, hunit⟩ (h o)

/-- What `ingest` answers to a record that reaches no store. -/
def refusals : List Status :=
  [invalidInput "evidence id required", cancelled "duplicate evidence id",
    staleAuthority "evidence coordinator epoch does not match current",
    objectiveInvalid "unknown objective", staleAuthority "objective generation mismatch",
    cancelled "duplicate evidence", unitMismatch "evidence unit does not match objective"]

theorem ingest_refusal {s : State R} {e : EvidenceRecord R} (h : ∀ o, ¬Reaches s e o)
    (now : Duration) : (ingest s e now).2 ∈ refusals := by
  have hnote : (noteEvidence s e.id).2.isOk = true ∨ (noteEvidence s e.id).2 ∈ refusals := by
    unfold noteEvidence
    split
    · exact Or.inr (by simp [refusals])
    · split
      · exact Or.inr (by simp [refusals])
      · exact Or.inl rfl
  rcases ingest_offered s e now with ⟨hno, _, _⟩ | ⟨o, ho, _, hst⟩
  · have hframe := noteEvidence_frame s e.id
    unfold offeredTo at hno
    unfold ingest
    generalize noteEvidence s e.id = n at hframe hno hnote
    obtain ⟨s₁, st⟩ := n
    simp only at hframe hno hnote ⊢
    generalize s₁.globalEvidence = ids at hframe
    generalize s₁.globalEvidenceRing = ring at hframe
    subst hframe
    split
    · rename_i hbad
      exact hnote.resolve_left fun hok => by simp [hok] at hbad
    · rename_i hgood
      rw [if_neg hgood] at hno
      split
      · simp [refusals]
      · rename_i hepoch
        rw [if_neg hepoch] at hno
        simp only
        cases hd : definitionOf s.contracts e.objectiveId with
        | none => simp [refusals]
        | some o =>
          simp only
          split
          · simp [refusals]
          · rename_i hgen
            rw [hd, Option.filter_some, Bool.eq_false_iff.mpr hgen] at hno
            cases hno
  · rw [hst]
    rcases offer_spec o (acquire s.accumulators o) e with ⟨_, hoffer⟩ | ⟨_, _, hoffer⟩ |
      ⟨hseen, hunit, _⟩
    · simp [hoffer, refusals]
    · simp [hoffer, refusals]
    · exact absurd ⟨ho, hseen, hunit⟩ (h o)

/-- **What is accepted**: a record that reaches a store which takes it. -/
theorem ingest_ok_iff (s : State R) (e : EvidenceRecord R) (now : Duration) :
    (ingest s e now).2.isOk = true ↔
      ∃ o, Reaches s e o ∧ (storeEvidence o (receiving s e o) e).2.isOk = true := by
  by_cases h : ∃ o, Reaches s e o
  · obtain ⟨o, ho⟩ := h
    rw [(ingest_reaching ho now).2]
    constructor
    · exact fun hok => ⟨o, ho, hok⟩
    · rintro ⟨o', ho', hok⟩
      rw [ho.unique ho']
      exact hok
  · have hno : ∀ o, ¬Reaches s e o := fun o ho => h ⟨o, ho⟩
    rw [(ingest_turned_away hno now).1]
    exact iff_of_false Bool.false_ne_true fun ⟨o, ho, _⟩ => h ⟨o, ho⟩

/-- Availability is taken unseen. -/
theorem availability_ok_iff (s : State R) {e : EvidenceRecord R} (h : e.dimension = .availability)
    (now : Duration) : (ingest s e now).2.isOk = true ↔ ∃ o, Reaches s e o := by
  rw [ingest_ok_iff]
  refine exists_congr fun o => and_iff_left ?_
  simp only [storeEvidence, h]
  rfl

end Ingest

/-! ## 2. Properties of what is stored -/

/-- A property of definition, window, availability and costs, which a fresh accumulator has. -/
structure StoreRule (P : ObjectiveAccumulator R → Prop) : Prop where
  make : ∀ o, P (.make o)
  same : ∀ a b, SameEvidence a b → P a → P b

section Rule

variable {P : ObjectiveAccumulator R → Prop} (hP : StoreRule P)
include hP

theorem StoreRule.acquired {s : State R} (hs : ∀ a ∈ s.accumulators.rows, P a) (o : Objective R) :
    P (acquire s.accumulators o) :=
  acquire_of hs (hP.make o) fun a _ => hP.same _ _ (resetForNewGen_intake a o).toSameEvidence
    (hP.make o)

theorem StoreRule.received {s : State R} (hs : ∀ a ∈ s.accumulators.rows, P a)
    (e : EvidenceRecord R) (o : Objective R) : P (receiving s e o) :=
  hP.same (acquire s.accumulators o) _ ⟨rfl, rfl, rfl, rfl⟩ (hP.acquired hs o)

variable [Double R]

/-- The rule as one of intake, for steps that offer nothing. -/
theorem StoreRule.intake :
    IntakeRule (fun _ : Offering R => some ()) fun l a => l = [] → P a where
  make o _ := hP.make o
  same _ a b h hl hnil := hP.same a b h.toSameEvidence (hl hnil)
  offer l o a e _ hnil := absurd hnil (by simp)

/-- An arriving record. -/
theorem StoreRule.ingested {s : State R} {e : EvidenceRecord R} {now : Duration}
    (hs : ∀ a ∈ s.accumulators.rows, P a)
    (hstore : ∀ o, Reaches s e o → P (storeEvidence o (receiving s e o) e).1) :
    ∀ a ∈ (ingest s e now).1.accumulators.rows, P a := by
  by_cases h : ∃ o, Reaches s e o
  · obtain ⟨o, ho⟩ := h
    rw [(ingest_reaching ho now).1]
    exact KeyedTable.forall_insert hs (hstore o ho)
  · have hno : ∀ o, ¬Reaches s e o := fun o ho => h ⟨o, ho⟩
    rcases (ingest_turned_away hno now).2 with haccs | ⟨o, b, _, hb, haccs⟩
    · rw [haccs]
      exact hs
    · rw [haccs]
      refine KeyedTable.forall_insert hs ?_
      rcases hb with rfl | rfl
      · exact hP.acquired hs o
      · exact hP.received hs e o

/-- **The step rule**: only the store a record reaches is to be looked at. -/
theorem StoreRule.step [Platform R] [Pod R] {s s' : State R} {op : Op R} {r : Response R}
    (h : apply s op = some (s', r)) (hs : ∀ a ∈ s.accumulators.rows, P a)
    (hstore : ∀ e now o, op = .ingest e now → Reaches s e o →
      P (storeEvidence o (receiving s e o) e).1) : ∀ a ∈ s'.accumulators.rows, P a := by
  by_cases hing : ∃ e now, op = .ingest e now
  · obtain ⟨e, now, rfl⟩ := hing
    cases h
    exact hP.ingested hs fun o => hstore e now o rfl
  · intro a ha
    have hbefore : Holds (fun l a => l = [] → P a) ([] : List Unit)
        (s.accumulators.find a.defn.id) := by
      cases hfind : s.accumulators.find a.defn.id with
      | none => rfl
      | some b => exact fun _ => hs b (KeyedTable.find_mem hfind)
    have hafter := hP.intake.step h hbefore
    rw [KeyedTable.mem_rows.mp ha] at hafter
    refine hafter ?_
    have hoffer : offering a.defn.id s op = none := by
      cases op with
      | ingest e now => exact absurd ⟨e, now, rfl⟩ hing
      | _ => rfl
    rw [carry, hoffer]
    split <;> rfl

end Rule

end SloFabric
