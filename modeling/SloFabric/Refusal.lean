/-
  File:      SloFabric/Refusal.lean
  Subject:   What a rejected record leaves behind.

  * `noted`: the fabric with an evidence id remembered, the first thing `ingest` does;
  * `Rejecting`: an accumulator after a record it rejected -- the id remembered, and the markers of
    the window moved, if the record got that far; `Rejecting.measured`: nothing that is read is
    other than before;
  * `rejected_leaves`: nothing else is left behind, and the id is used up;
  * `rejected_leaves_fails`: a record of a wrong unit uses up its id.
-/
import SloFabric.Counting
import SloFabric.Deduplication
import SloFabric.UnitAgreement

namespace SloFabric

variable {R : Type}

/-! ## 1. The window -/

section Offers

variable [Double R]

/-- A window that rejects a sample moves its markers at most. -/
theorem ingest_rejected {w : SampleWindow R} {time : Duration} {value : R} {seq : UInt64}
    (h : (w.ingest time value seq).2 ≠ .accepted) :
    ∃ lastTime lastSeq,
      (w.ingest time value seq).1 = { w with lastTime := lastTime, lastSeq := lastSeq } ∧
      (lastTime = w.lastTime ∨ lastTime = time) ∧ (lastSeq = w.lastSeq ∨ lastSeq = seq) := by
  unfold SampleWindow.ingest at h ⊢
  split
  · exact ⟨_, _, rfl, Or.inl rfl, Or.inl rfl⟩
  · rename_i hvalue
    rw [if_neg hvalue] at h
    split
    · exact ⟨_, _, rfl, Or.inl rfl, Or.inl rfl⟩
    · rename_i hseq
      rw [if_neg hseq] at h
      simp only at h ⊢
      split
      · rename_i hfirst
        rw [if_pos hfirst] at h
        exact absurd rfl h
      · rename_i hlater
        rw [if_neg hlater] at h
        split
        · exact ⟨_, _, rfl, Or.inl rfl, Or.inl rfl⟩
        · rename_i hforth
          rw [if_neg hforth] at h
          cases htype : w.type with
          | instantaneous | sliding | rollingCount =>
            rw [htype] at h
            exact absurd rfl h
          | tumbling | fixedInterval =>
            simp only [htype] at h ⊢
            split
            · exact ⟨_, _, rfl, Or.inl rfl, Or.inr rfl⟩
            · rename_i hinterval
              rw [if_neg hinterval] at h
              split
              · exact ⟨_, _, rfl, Or.inr rfl, Or.inr rfl⟩
              · rename_i hearlier
                rw [if_neg hearlier] at h
                split at h <;> exact absurd rfl h

/-! ## 2. The accumulator -/

/-- The accumulator after a record it rejected: as a duplicate, for its unit or its dimension, or in
    the window. -/
inductive Rejecting (a : ObjectiveAccumulator R) (e : EvidenceRecord R) :
    ObjectiveAccumulator R → Prop where
  | seen (h : a.seen e.id = true) : Rejecting a e a
  | noted : Rejecting a e (a.remember e.id)
  | offered {lastTime : Duration} {lastSeq : UInt64}
      (htime : lastTime = a.window.lastTime ∨ lastTime = e.time)
      (hseq : lastSeq = a.window.lastSeq ∨ lastSeq = a.nextSeq) :
      Rejecting a e
        { a.remember e.id with
          window := { a.window with lastTime := lastTime, lastSeq := lastSeq }
          nextSeq := a.nextSeq + 1 }

/-- A sample the window rejects. -/
theorem sample_rejected {a : ObjectiveAccumulator R} {e : EvidenceRecord R}
    (h : (a.sample e).2 ≠ .accepted) : Rejecting a e ((a.remember e.id).sample e).1 := by
  obtain ⟨lastTime, lastSeq, hw, htime, hseq⟩ := ingest_rejected h
  have hsample : ((a.remember e.id).sample e).1 =
      { a.remember e.id with
        window := { a.window with lastTime := lastTime, lastSeq := lastSeq }
        nextSeq := a.nextSeq + 1 } := by
    rw [← hw]
    rfl
  rw [hsample]
  exact .offered htime hseq

/-- **A rejected record leaves its id and the markers of the window.** -/
theorem offer_rejected {o : Objective R} {a : ObjectiveAccumulator R} {e : EvidenceRecord R}
    (h : (offer o a e).2.isOk = false) : Rejecting a e (offer o a e).1 := by
  rcases offer_spec o a e with ⟨hseen, hoffer⟩ | ⟨_, _, hoffer⟩ | ⟨_, _, hoffer⟩ <;>
    rw [hoffer] at h ⊢
  · exact .seen hseen
  · exact .noted
  · cases hd : e.dimension with
    | availability =>
      simp only [storeEvidence, hd] at h
      cases h
    | cost =>
      simp only [storeEvidence, hd] at h
      split at h <;> cases h
    | recoveryTime =>
      simp only [storeEvidence, hd]
      exact .noted
    | latency | throughput | memoryPressure =>
      simp only [storeEvidence, hd] at h ⊢
      refine sample_rejected fun haccepted => ?_
      have hok := (windowStatus_isOk _).mpr haccepted
      exact absurd (h.symm.trans hok) Bool.false_ne_true

/-- **Nothing that is read is other than before.** -/
theorem Rejecting.measured {a b : ObjectiveAccumulator R} {e : EvidenceRecord R}
    (h : Rejecting a e b) : SameConduct a b ∧ b.window.samples = a.window.samples ∧
      b.avail = a.avail ∧ b.cost = a.cost ∧
      ∀ now, computeMeasured b now = computeMeasured a now ∧
        evaluateFreshness b now = evaluateFreshness a now := by
  cases h with
  | seen => exact ⟨⟨rfl, rfl, rfl, rfl, rfl, rfl, rfl⟩, rfl, rfl, rfl, fun _ => ⟨rfl, rfl⟩⟩
  | noted => exact ⟨⟨rfl, rfl, rfl, rfl, rfl, rfl, rfl⟩, rfl, rfl, rfl, fun _ => ⟨rfl, rfl⟩⟩
  | offered => exact ⟨⟨rfl, rfl, rfl, rfl, rfl, rfl, rfl⟩, rfl, rfl, rfl, fun _ => ⟨rfl, rfl⟩⟩

end Offers

/-! ## 3. The fabric -/

/-- The fabric with an evidence id remembered, at the cost of its oldest one if it must be. -/
def noted (s : State R) (id : EvidenceId) : State R :=
  { s with
    globalEvidenceRing := slide evidenceRingCap s.globalEvidenceRing id
    globalEvidence := insert id (forget evidenceRingCap s.globalEvidenceRing s.globalEvidence) }

/-- An id that is remembered is not noted again. -/
theorem ingest_again [Double R] {s : State R} {e : EvidenceRecord R} (now : Duration)
    (hvalid : e.id.valid = true) (hmem : e.id ∈ s.globalEvidence) :
    ingest s e now = (s, cancelled "duplicate evidence id") := by
  have hnote : noteEvidence s e.id = (s, cancelled "duplicate evidence id") := by
    unfold noteEvidence
    rw [if_neg (by simp [hvalid]), if_pos hmem]
  unfold ingest
  rw [hnote]
  rfl

/-- `ingest` changes the remembered ids and the accumulators only. -/
theorem ingest_frame [Double R] (s : State R) (e : EvidenceRecord R) (now : Duration) :
    (ingest s e now).1 =
      { (noteEvidence s e.id).1 with accumulators := (ingest s e now).1.accumulators } := by
  unfold ingest
  generalize noteEvidence s e.id = n
  obtain ⟨s₁, st⟩ := n
  simp only
  split
  · rfl
  · split
    · rfl
    · split
      · rfl
      · split <;> rfl

/-- **What a rejected record leaves behind.** In every state: a record whose id is missing or
    remembered leaves nothing. Any other one leaves its id remembered, so that no record is accepted
    under it while it is; and if it gets as far as the accumulator of its objective, the accumulator
    `get_accumulator` hands out for the newest definition, in which nothing that is read has
    changed. -/
theorem rejected_leaves [Double R] {s : State R} {e : EvidenceRecord R} {now : Duration}
    (h : (ingest s e now).2.isOk = false) :
    ((noteEvidence s e.id).2.isOk = false ∧ (ingest s e now).1 = s) ∨
    ((noteEvidence s e.id).2.isOk = true ∧
      (∀ e' now', e'.id = e.id → ingest (ingest s e now).1 e' now' =
        ((ingest s e now).1, cancelled "duplicate evidence id")) ∧
      ((offeredTo s e = none ∧ (ingest s e now).1 = noted s e.id) ∨
        ∃ o b, offeredTo s e = some o ∧ Rejecting (acquire s.accumulators o) e b ∧
          (ingest s e now).1 =
            { noted s e.id with accumulators := s.accumulators.insert b })) := by
  have hframe := ingest_frame s e now
  rcases noteEvidence_cases s e.id with ⟨hno, hsame⟩ | ⟨hnote, _, hnoted⟩
  · refine Or.inl ⟨hno, ?_⟩
    unfold ingest
    simp only [hno, hsame, Bool.not_false, if_true]
  · have hnoted : (noteEvidence s e.id).1 = noted s e.id := hnoted
    rw [hnoted] at hframe
    have hvalid : e.id.valid = true := by
      by_contra hinvalid
      unfold noteEvidence at hnote
      rw [if_pos (by simpa using hinvalid)] at hnote
      cases hnote
    refine Or.inr ⟨hnote, fun e' now' hid => ?_, ?_⟩
    · refine ingest_again now' (by rw [hid]; exact hvalid) ?_
      rw [hframe, hid]
      exact Finset.mem_insert_self _ _
    · rcases ingest_offered s e now with ⟨ho, hacc, _⟩ | ⟨o, ho, hacc, hst⟩
      · refine Or.inl ⟨ho, hframe.trans ?_⟩
        rw [hacc]
        rfl
      · rw [hst] at h
        refine Or.inr ⟨o, _, ho, offer_rejected h, hframe.trans ?_⟩
        rw [hacc]

/-! ## 4. A wrong unit -/

/-- A latency that was sent as a count. -/
def countedLatency : EvidenceRecord Binary64 := { smallEvidence 1 1 0 with value := .count 50 }

/-- A fabric with one objective, of latency. -/
def oneObjective : List (Op Binary64) :=
  [.setPolicy smallPolicy, .addContract (smallContract 1 1 1 [smallObjective 1 1])]

/-- **A rejected record uses up its id**: corrected, it is refused as a duplicate. -/
theorem rejected_leaves_fails :
    ¬∀ (s : State Binary64) (e : EvidenceRecord Binary64) (now : Duration), Reachable s →
      (ingest s e now).2.isOk = false →
      (ingest s e now).1 = s ∧ ∀ e', e'.id = e.id →
        (ingest (ingest s e now).1 e' now).2 = (ingest s e' now).2 := by
  intro hall
  have hrejected : (ingest (after oneObjective) countedLatency 0).2.isOk = false := by
    decide +kernel
  obtain ⟨_, hmerits⟩ := hall _ countedLatency 0 (reachable_after oneObjective) hrejected
  have hsame := hmerits (smallEvidence 1 1 50) rfl
  have hduplicate : (ingest (ingest (after oneObjective) countedLatency 0).1
      (smallEvidence 1 1 50) 0).2.isOk = false := by decide +kernel
  have haccepted : (ingest (after oneObjective) (smallEvidence 1 1 50) 0).2.isOk = true := by
    decide +kernel
  rw [hsame, haccepted] at hduplicate
  cases hduplicate

/-- Sent with the id of a record that was accepted, it leaves nothing. Sent with an id of its own,
    it is rejected for its unit, and leaves its id with the fabric and with the accumulator. -/
theorem rejected_leaves_small :
    (ingest (after latencyReported) countedLatency 0).1 = after latencyReported ∧
      ∃ o b, offeredTo (after oneObjective) countedLatency = some o ∧
        Rejecting (acquire (after oneObjective).accumulators o) countedLatency b ∧
        (ingest (after oneObjective) countedLatency 0).1 =
          { noted (after oneObjective) countedLatency.id with
            accumulators := (after oneObjective).accumulators.insert b } := by
  constructor
  · have hrejected : (ingest (after latencyReported) countedLatency 0).2.isOk = false := by
      decide +kernel
    have hknown : (noteEvidence (after latencyReported) countedLatency.id).2.isOk = false := by
      decide +kernel
    rcases rejected_leaves hrejected with ⟨_, hsame⟩ | ⟨hnote, _⟩
    · exact hsame
    · rw [hknown] at hnote
      cases hnote
  · have hrejected : (ingest (after oneObjective) countedLatency 0).2.isOk = false := by
      decide +kernel
    have hnew : (noteEvidence (after oneObjective) countedLatency.id).2.isOk = true := by
      decide +kernel
    have hoffered : (offeredTo (after oneObjective) countedLatency).isSome = true := by
      decide +kernel
    rcases rejected_leaves hrejected with ⟨hnote, _⟩ | ⟨_, _, ⟨hnone, _⟩ | hleft⟩
    · rw [hnew] at hnote
      cases hnote
    · rw [hnone] at hoffered
      cases hoffered
    · exact hleft

end SloFabric
