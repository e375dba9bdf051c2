/-
  File:      SloFabric/Deduplication.lean
  Subject:   How long an evidence id is remembered.

  * `DedupExact`: the rings of remembered ids are bounded, without repetitions, and the lookup sets
    hold exactly their ids;
  * `Protected`: what is accepted twice for an objective was forgotten in between;
  * `DedupInv`, `dedup_step`: the rings hold the last ids of the journal;
  * `dedup_run`: so both hold in every run.
-/
import SloFabric.Journal
import SloFabric.Library.Recency

namespace SloFabric

variable {R : Type}

/-! ## 1. Two memories -/

theorem remember_eq (a : ObjectiveAccumulator R) (id : EvidenceId) :
    a.remember id =
      { a with recent := slide dedupCap a.recent id
               recentSet := insert id (forget dedupCap a.recent a.recentSet) } := by
  unfold ObjectiveAccumulator.remember slide forget
  by_cases hfull : dedupCap ≤ a.recent.length
  · simp only [if_pos hfull]
    cases a.recent <;> rfl
  · simp only [if_neg hfull]

/-- The id is noted, or the call complains and notes nothing. -/
theorem noteEvidence_cases (s : State R) (id : EvidenceId) :
    ((noteEvidence s id).2.isOk = false ∧ (noteEvidence s id).1 = s) ∨
    ((noteEvidence s id).2.isOk = true ∧ id ∉ s.globalEvidence ∧
      (noteEvidence s id).1 =
        { s with
          globalEvidenceRing := slide evidenceRingCap s.globalEvidenceRing id
          globalEvidence :=
            insert id (forget evidenceRingCap s.globalEvidenceRing s.globalEvidence) }) := by
  unfold noteEvidence
  split
  · exact Or.inl ⟨rfl, rfl⟩
  · split
    · exact Or.inl ⟨rfl, rfl⟩
    · rename_i hnew
      refine Or.inr ⟨rfl, hnew, ?_⟩
      unfold slide forget
      by_cases hfull : evidenceRingCap ≤ s.globalEvidenceRing.length
      · simp only [if_pos hfull]
        cases s.globalEvidenceRing <;> rfl
      · simp only [if_neg hfull]

/-- `ingest` keeps the ids `noteEvidence` leaves. -/
theorem ingest_noted [Double R] (s : State R) (e : EvidenceRecord R) (now : Duration) :
    (ingest s e now).1.globalEvidence = (noteEvidence s e.id).1.globalEvidence ∧
      (ingest s e now).1.globalEvidenceRing = (noteEvidence s e.id).1.globalEvidenceRing := by
  unfold ingest
  simp only
  split
  · exact ⟨rfl, rfl⟩
  · split
    · exact ⟨rfl, rfl⟩
    · split
      · exact ⟨rfl, rfl⟩
      · split <;> exact ⟨rfl, rfl⟩

/-- No other step touches the fabric's ids: a load keeps them, too. -/
theorem noted_step [Pod R] [Double R] [Platform R] {s s' : State R} {op : Op R} {r : Response R}
    (h : apply s op = some (s', r)) (hing : ∀ e now, op ≠ .ingest e now) :
    s'.globalEvidence = s.globalEvidence ∧ s'.globalEvidenceRing = s.globalEvidenceRing := by
  cases frame_cases h with
  | policies h' | contracts _ h' | objectives _ h' | evaluated _ h' | authorized _ h'
  | dispatched h' | saved h' | failed _ h' | loaded _ h' => rw [h']; exact ⟨rfl, rfl⟩
  | ingested => exact absurd rfl (hing _ _)
  | transition hx | completed hx => cases hx; exact ⟨rfl, rfl⟩

/-! ## 2. What is claimed -/

/-- **Exact deduplication**: at most 8192 ids of the fabric and at most 4096 of every accumulator,
    none twice, and the lookup sets hold exactly these. -/
structure DedupExact (s : State R) : Prop where
  fabric : Exact evidenceRingCap s.globalEvidenceRing s.globalEvidence
  accumulators : ∀ a ∈ s.accumulators.rows, Exact dedupCap a.recent a.recentSet

/-- The id of an offered record, where the accumulator remembers it from then on. -/
def Offering.remembered (x : Offering R) : Option EvidenceId :=
  if x.acc.seen x.record.id then none else some x.record.id

def Entry.remembered (x : Entry R) : Option EvidenceId := x.offering.bind (·.remembered)

/-- **The window of protection**: between two steps that accept one id for the objective, at least
    8192 other ids passed the global check, and the accumulator was reset before the second one or
    at least 4096 other ids were remembered for the objective. -/
def Protected (log : List (Entry R)) : Prop :=
  ∀ l₁ x l₂ y l₃ e e', log = l₁ ++ x :: l₂ ++ y :: l₃ →
    x.accepted = some e → y.accepted = some e' → e.id = e'.id →
    evidenceRingCap ≤ ((l₂.filterMap (·.passed)).toFinset.erase e.id).card ∧
    ((∃ z ∈ l₂ ++ [y], z.reset = true) ∨
      dedupCap ≤ ((l₂.filterMap (·.remembered)).toFinset.erase e.id).card)

/-! ## 3. The invariant -/

/-- No store remembers an id. -/
theorem storeEvidence_recent [Double R] (o : Objective R) (a : ObjectiveAccumulator R)
    (e : EvidenceRecord R) : (storeEvidence o a e).1.recent = a.recent ∧
      (storeEvidence o a e).1.recentSet = a.recentSet := by
  cases hd : e.dimension with
  | cost =>
    by_cases hk : o.kind = .costWindowBudget
    · simp only [storeEvidence, hd, if_pos hk, and_self]
    · simp only [storeEvidence, hd, if_neg hk]
      exact ⟨rfl, rfl⟩
  | availability | recoveryTime => simp only [storeEvidence, hd, and_self]
  | latency | throughput | memoryPressure =>
    simp only [storeEvidence, hd]
    exact ⟨rfl, rfl⟩

/-- What was remembered since the last reset is what the accumulator remembers. -/
theorem remembers_rule [Double R] :
    IntakeRule (Offering.remembered (R := R)) fun l a =>
      Remembers dedupCap l a.recent a.recentSet where
  make _ := .nil dedupCap
  same l a b h hl := by rwa [h.recent, h.recentSet]
  offer l o a e hl := by
    unfold Offering.remembered
    have hpush (hseen : a.seen e.id = false) :
        Remembers dedupCap (l ++ (if a.seen e.id then none else some e.id).toList)
          (a.remember e.id).recent (a.remember e.id).recentSet := by
      have hnew : e.id ∉ a.recentSet := of_decide_eq_false hseen
      rw [remember_eq, hseen]
      exact hl.push (by decide) hnew
    rcases offer_spec o a e with ⟨hseen, hoffer⟩ | ⟨hseen, _, hoffer⟩ | ⟨hseen, _, hoffer⟩
    · rw [hoffer]
      simpa [hseen] using hl
    · rw [hoffer]
      exact hpush hseen
    · obtain ⟨hring, hset⟩ := storeEvidence_recent o (a.remember e.id) e
      rw [hoffer, hring, hset]
      exact hpush hseen

/-- An accepted record passed the global check and is remembered. -/
def Entry.Sound (x : Entry R) : Prop :=
  ∀ e, x.accepted = some e → x.passed = some e.id ∧ x.remembered = some e.id

/-- The fabric remembers the last ids of the journal; on the way the accumulator of the objective
    never forgot anything else than the oldest one; accepted records were remembered. -/
structure DedupInv (w : Journaled R) : Prop where
  fabric : Remembers evidenceRingCap (w.seen.filterMap (·.passed)) w.state.globalEvidenceRing
    w.state.globalEvidence
  spread : ∀ l, l <+: w.seen → Spread dedupCap (sinceReset (·.remembered) l)
  sound : ∀ x ∈ w.seen, x.Sound

section Step

variable [Pod R] [Double R] [Platform R]

/-- The fabric's memory after one step. -/
theorem fabric_step {s s' : State R} {op : Op R} {r : Response R} {log : List EvidenceId}
    (h : apply s op = some (s', r))
    (hs : Remembers evidenceRingCap log s.globalEvidenceRing s.globalEvidence) :
    Remembers evidenceRingCap (log ++ (passing s op).toList) s'.globalEvidenceRing
      s'.globalEvidence := by
  by_cases hing : ∃ e now, op = .ingest e now
  · obtain ⟨e, now, rfl⟩ := hing
    cases h
    obtain ⟨hset, hring⟩ := ingest_noted s e now
    rw [hset, hring, passing]
    rcases noteEvidence_cases s e.id with ⟨hno, h'⟩ | ⟨hok, hnew, h'⟩
    · rw [hno, h']
      simpa using hs
    · rw [hok, h']
      exact hs.push (by decide) hnew
  · have hing' : ∀ e now, op ≠ .ingest e now := fun e now heq => hing ⟨e, now, heq⟩
    have hpass : passing s op = none := by
      cases op with
      | ingest e now => exact absurd rfl (hing' e now)
      | _ => rfl
    obtain ⟨hset, hring⟩ := noted_step h hing'
    rw [hset, hring, hpass]
    simpa using hs

/-- Only a record that passed the global check and was not remembered is accepted. -/
theorem entryOf_sound {k : ObjectiveId} {s s' : State R} {op : Op R} {r : Response R}
    (h : apply s op = some (s', r)) : (entryOf k s (op, r)).Sound := by
  intro e he
  obtain ⟨now, rfl⟩ : ∃ now, op = .ingest e now := by
    simp only [entryOf] at he
    unfold acceptedBy at he
    split at he
    · rename_i e' now st heq
      cases heq
      obtain ⟨_, he⟩ := Option.ite_none_right_eq_some.mp he
      cases he
      exact ⟨now, rfl⟩
    · cases he
  cases h
  obtain ⟨⟨hok, hk⟩, _⟩ := Option.ite_none_right_eq_some.mp he
  rcases ingest_offered s e now with ⟨_, _, hno⟩ | ⟨o, ho, _, hst⟩
  · rw [hok] at hno
    cases hno
  · have hnoted : (noteEvidence s e.id).2.isOk = true := by
      by_contra hno
      rw [offeredTo, Bool.eq_false_iff.mpr hno] at ho
      cases ho
    have hunseen : (acquire s.accumulators o).seen e.id = false := by
      by_contra hseen
      rw [hst, offer, if_pos (by simpa using hseen)] at hok
      cases hok
    have hid : o.id = k := (offeredTo_id ho).trans hk
    refine ⟨if_pos hnoted, ?_⟩
    have hoffer : (entryOf k s (.ingest e now, .status (ingest s e now).2)).offering =
        some ⟨o, acquire s.accumulators o, e⟩ := by
      simp [entryOf, offering, ho, hid]
    rw [Entry.remembered, hoffer]
    show (if (acquire s.accumulators o).seen e.id then none else some e.id) = some e.id
    rw [hunseen]
    rfl

omit [Pod R] [Double R] [Platform R] in
theorem dedup_fresh : DedupInv (⟨State.fresh R, []⟩ : Journaled R) where
  fabric := .nil evidenceRingCap
  spread l hl := by
    have hnil : l = [] := List.prefix_nil.mp hl
    rw [hnil]
    exact .nil dedupCap
  sound x hx := by cases hx

/-- **The step lemma.** -/
theorem dedup_step {k : ObjectiveId} {w w' : Journaled R} {op : Op R} {r : Response R}
    (hw : DedupInv w)
    (hrun : Holds (fun l a => Remembers dedupCap l a.recent a.recentSet)
      (sinceReset (·.remembered) w'.seen) (w'.state.accumulators.find k))
    (h : watch apply (noteEntry k) w op = some (w', r)) : DedupInv w' := by
  obtain ⟨hs, hseen⟩ := watch_cases h
  have hfabric := fabric_step hs hw.fabric
  refine ⟨?_, fun l hl => ?_, fun x hx => ?_⟩
  · rw [hseen, noteEntry, List.filterMap_append]
    have hone : [entryOf k w.state (op, r)].filterMap (·.passed) = (passing w.state op).toList := by
      cases hp : passing w.state op <;> simp [entryOf, hp]
    rw [hone]
    exact hfabric
  · rw [hseen, noteEntry] at hl
    rcases List.prefix_concat_iff.mp hl with rfl | hl
    · rw [hseen, noteEntry] at hrun
      generalize w'.state.accumulators.find k = a at hrun
      cases a with
      | none =>
        rw [show sinceReset _ _ = [] from hrun]
        exact .nil dedupCap
      | some a => exact hrun.spread
    · exact hw.spread l hl
  · rw [hseen, noteEntry, List.mem_append, List.mem_singleton] at hx
    rcases hx with hx | rfl
    · exact hw.sound x hx
    · exact entryOf_sound hs

omit [Pod R] [Double R] [Platform R] in
theorem DedupInv.protected {w : Journaled R} (hw : DedupInv w) : Protected w.seen := by
  intro l₁ x l₂ y l₃ e e' hlog hx hy hid
  obtain ⟨hpx, hrx⟩ := hw.sound x (by rw [hlog]; simp) e hx
  obtain ⟨hpy, hry⟩ := hw.sound y (by rw [hlog]; simp) e' hy
  rw [← hid] at hpy hry
  constructor
  · have hspread := hw.fabric.spread
    have hpassed : w.seen.filterMap (·.passed) =
        (l₁.filterMap (·.passed) ++ e.id :: l₂.filterMap (·.passed)) ++
          e.id :: l₃.filterMap (·.passed) := by
      rw [hlog]
      simp [hpx, hpy]
    rw [hpassed] at hspread
    exact hspread.front.apart (by decide) (hspread _ _ _ rfl)
  · by_cases hreset : ∃ z ∈ l₂ ++ [y], z.reset = true
    · exact Or.inl hreset
    · refine Or.inr ?_
      have hno : ∀ z ∈ l₂ ++ [y], z.reset = false := fun z hz =>
        Bool.eq_false_iff.mpr fun hz' => hreset ⟨z, hz, hz'⟩
      have hspread := hw.spread (l₁ ++ [x] ++ (l₂ ++ [y])) ⟨l₃, by rw [hlog]; simp⟩
      rw [sinceReset_append _ _ _ hno, sinceReset_push, hrx, List.filterMap_append] at hspread
      have hmemory : ∀ old : List EvidenceId,
          old ++ (some e.id).toList ++
            (l₂.filterMap (·.remembered) ++ [y].filterMap (·.remembered)) =
          (old ++ e.id :: l₂.filterMap (·.remembered)) ++ [e.id] := by
        intro old
        simp [hry]
      rw [hmemory] at hspread
      exact hspread.front.apart (by decide) (hspread _ _ [] rfl)

/-- **Bounded deduplication is exact.** In every run, with the journal of whatever objective: the
    rings and the lookup sets agree within their bounds, and a record id that is accepted twice
    for the objective was forgotten by the fabric and by the accumulator in between. -/
theorem dedup_run {k : ObjectiveId} {w : Journaled R} {tr : Trace R}
    (h : Run (watch apply (noteEntry k)) (fun _ _ => True) ⟨State.fresh R, []⟩ tr w) :
    DedupExact w.state ∧ Protected w.seen := by
  have hinv : DedupInv w := by
    induction h with
    | start => exact dedup_fresh
    | next hrun hc hstep ih => exact dedup_step ih (remembers_rule.run (.next hrun hc hstep)) hstep
  refine ⟨⟨hinv.fabric.exact (by decide), fun a ha => ?_⟩, hinv.protected⟩
  -- the journal of another objective speaks about its accumulator
  have hruns : Runs (State.fresh R) tr w.state := (Run.watched (noteEntry k) []).mpr ⟨w, h, rfl⟩
  obtain ⟨w', hrun', hw'⟩ := (Run.watched (noteEntry a.defn.id) []).mp hruns
  have hholds := remembers_rule.run hrun'
  rw [hw', KeyedTable.mem_rows.mp ha] at hholds
  exact hholds.exact (by decide)

end Step

/-! ## 4. A small run -/

/-- Two records are accepted, and one of them is offered again in vain. -/
theorem dedup_run_small :
    ∃ (tr : Trace Binary64) (w : Journaled Binary64),
      Run (watch apply (noteEntry ⟨1⟩)) (fun _ _ => True) ⟨State.fresh Binary64, []⟩ tr w ∧
      w.seen.filterMap (fun x => x.accepted.map (·.id)) = [⟨1⟩, ⟨2⟩] ∧
      DedupExact w.state ∧ Protected w.seen := by
  have htest : (execute (watch apply (noteEntry ⟨1⟩)) (fun _ _ => true)
      ⟨State.fresh Binary64, []⟩
      [.addContract (smallContract 1 1 1 [smallObjective 1 1]),
        .ingest (smallEvidence 1 1 50000000) 0, .ingest (smallEvidence 2 1 50000000) 0,
        .ingest (smallEvidence 1 1 50000000) 0]).any (fun x =>
          x.1.seen.filterMap (fun y => y.accepted.map (·.id)) = [⟨1⟩, ⟨2⟩]) = true := by
    decide +kernel
  obtain ⟨w, tr, hrun, hw⟩ := Run.of_test (fun _ _ _ => trivial) htest
  exact ⟨tr, w, hrun, of_decide_eq_true hw, dedup_run hrun⟩

end SloFabric
