/-
  File:      SloFabric/Lineage.lean
  Subject:   Coordinator after coordinator over one state file, and the epochs they adopt.

  * `Lineage`, `lineageStep`: the running incarnation, the file, the epochs operated under
    before; the events are calls, saves, loads and crashes, in any order;
  * `Covered`: the file a load reads was saved since the last successful load, by the
    incarnation that made that load, and not under the last epoch there is;
  * `LineageInv`: what every run has whose loads are all covered;
  * `lineage_epochs`: in such a run the running incarnation is past every earlier epoch, and
    the next load adopts an epoch past all of them exactly when it is covered, too;
  * `lineage_epoch_reused`: without that, an epoch comes twice.
-/
import SloFabric.EvidenceFence

namespace SloFabric

variable {R : Type}

/-! ## 1. The lineage of a state file -/

/-- One incarnation after the other over one file. -/
structure Lineage (R : Type) where
  /-- The running incarnation. -/
  fabric : State R
  /-- The content of the state file. -/
  file : Option Bytes := none
  /-- The epochs earlier incarnations operated under, and the running one before its loads. -/
  past : List CoordinatorEpoch := []
  /-- Has any load succeeded? -/
  everLoaded : Bool := false
  /-- Did the running incarnation make the last successful load, if there was one? -/
  newest : Bool := true
  /-- Was the file saved by the incarnation that made the last successful load, after it? -/
  saved : Bool := false

/-- The first incarnation, before anything was saved. -/
def Lineage.start (R : Type) : Lineage R := { fabric := State.fresh R }

inductive Event (R : Type) where
  | call (op : Op R)
  | save (order : List ObjectiveId)
  | load
  | crash

/-- The operations that touch the state file. -/
def Op.usesFile : Op R → Bool
  | .save _ | .load _ => true
  | _ => false

section Step

variable [Pod R] [Double R]

/-- **One event.** A crash gives up the running incarnation for a fresh one; a save that does
    not get to replace the file is no event. -/
def lineageStep [Platform R] (w : Lineage R) : Event R → Option (Lineage R × Option (Response R))
  | .call op =>
    if op.usesFile then none
    else (apply w.fabric op).map fun x => ({ w with fabric := x.1 }, some x.2)
  | .save order =>
    if isOrder w.fabric.accumulators order then
      some ({ w with file := some (save w.fabric order), saved := w.newest },
        some (.saved (save w.fabric order)))
    else none
  | .load =>
    let x := load w.fabric w.file
    if x.2.isOk then
      some ({ w with fabric := x.1, past := w.fabric.epoch :: w.past, everLoaded := true
                     newest := true, saved := false }, some (.status x.2))
    else some (w, some (.status x.2))
  | .crash =>
    some ({ w with fabric := State.fresh R, past := w.fabric.epoch :: w.past
                   newest := !w.everLoaded }, none)

/-- A readable file was saved since the last successful load, by the incarnation that made it,
    and under an epoch that has a successor. -/
def FileCovered (w : Lineage R) : Prop :=
  ∀ st, loadState R w.file = .ok st → w.saved = true ∧ st.epoch.value.toNat + 1 < 2 ^ 64

/-- The condition on runs: every load reads a covered file. -/
def Covered (w : Lineage R) : Event R → Prop
  | .load => FileCovered w
  | _ => True

/-! ## 2. The invariant -/

/-- The epochs operated under so far. -/
def Lineage.operated (w : Lineage R) : List CoordinatorEpoch := w.fabric.epoch :: w.past

structure LineageInv (w : Lineage R) : Prop where
  positive : ∀ e ∈ w.operated, 1 ≤ e.value.toNat
  /-- Before the first load every incarnation is at epoch `1`. -/
  first : w.everLoaded = false → ∀ e ∈ w.operated, e = ⟨1⟩
  /-- The incarnation that made the last load is past all others. -/
  top : w.newest = true → w.everLoaded = true → ∀ e ∈ w.past, e < w.fabric.epoch
  /-- Any other one is at epoch `1`. -/
  old : w.newest = false → w.everLoaded = true ∧ w.fabric.epoch = ⟨1⟩
  beyond : w.everLoaded = true → ∃ e ∈ w.operated, (⟨1⟩ : CoordinatorEpoch) < e
  /-- A saved file is of the newest epoch. -/
  covered : w.saved = true → ∀ st, loadState R w.file = .ok st → ∀ e ∈ w.operated, e ≤ st.epoch
  /-- Any other file is behind. -/
  behind : w.saved = false → ∀ st, loadState R w.file = .ok st → ∃ e ∈ w.operated, st.epoch < e

/-- A file `save` wrote is read back under the epoch it was saved under. -/
theorem loadState_save_epoch {s : State R} {order : List ObjectiveId} {st : DurableState R}
    (h : loadState R (some (save s order)) = .ok st) : st.epoch = s.epoch := by
  have hy := loadState_saveState (durableOf s order)
  unfold Yields at hy
  split at hy
  · have heq := h.symm.trans hy
    rw [Except.ok.injEq] at heq
    rw [heq]
    rfl
  · obtain ⟨m, hm⟩ := hy
    exact absurd (h.symm.trans hm) (by simp)

theorem lineageInv_start : LineageInv (Lineage.start R) where
  positive := by
    intro e he
    rw [List.mem_singleton.mp he]
    exact Nat.le_refl 1
  first _ e he := List.mem_singleton.mp he
  top _ h := by cases h
  old h := by cases h
  beyond h := by cases h
  covered h := by cases h
  behind _ st h := by cases h

theorem lineageInv_call {w : Lineage R} {s : State R} (h : LineageInv w)
    (hs : s.epoch = w.fabric.epoch) : LineageInv { w with fabric := s } := by
  have ho : ({ w with fabric := s } : Lineage R).operated = w.operated := by
    simp only [Lineage.operated, hs]
  refine ⟨?_, ?_, ?_, ?_, ?_, ?_, ?_⟩
  · rw [ho]; exact h.positive
  · rw [ho]; exact h.first
  · simpa only [hs] using h.top
  · simpa only [hs] using h.old
  · rw [ho]; exact h.beyond
  · rw [ho]; exact h.covered
  · rw [ho]; exact h.behind

/-- The newest epoch so far is that of the incarnation that made the last load. -/
theorem LineageInv.le_newest {w : Lineage R} (h : LineageInv w) (hn : w.newest = true) :
    ∀ e ∈ w.operated, e ≤ w.fabric.epoch := by
  intro e he
  rcases List.mem_cons.mp he with rfl | hp
  · exact le_refl _
  · cases hl : w.everLoaded with
    | true => exact (h.top hn hl e hp).le
    | false => rw [h.first hl e he, h.first hl w.fabric.epoch List.mem_cons_self]

theorem lineageInv_save {w : Lineage R} (h : LineageInv w) (order : List ObjectiveId) :
    LineageInv { w with file := some (save w.fabric order), saved := w.newest } where
  positive := h.positive
  first := h.first
  top := h.top
  old := h.old
  beyond := h.beyond
  covered hn st hst e he := by
    rw [loadState_save_epoch hst]
    exact h.le_newest hn e he
  behind hn st hst := by
    obtain ⟨hl, h1⟩ := h.old hn
    rw [loadState_save_epoch hst, h1]
    exact h.beyond hl

theorem lineageInv_load {w : Lineage R} (h : LineageInv w) (hc : FileCovered w)
    {st : DurableState R} (hst : loadState R w.file = .ok st) :
    LineageInv
      { w with fabric := restart w.fabric st, past := w.fabric.epoch :: w.past
               everLoaded := true, newest := true, saved := false } := by
  obtain ⟨hs, hlt⟩ := hc st hst
  have hle := h.covered hs st hst
  have hnext : st.epoch < st.epoch.next := Gen.lt_next hlt
  have hpos := h.positive w.fabric.epoch List.mem_cons_self
  have hfab := hle w.fabric.epoch List.mem_cons_self
  have htop : ∀ e ∈ w.fabric.epoch :: w.past, e < st.epoch.next :=
    fun e he => (hle e he).trans_lt hnext
  rw [Gen.le_iff] at hfab
  refine ⟨fun e he => ?_, ?_, fun _ _ => htop, ?_, fun _ => ?_, ?_, fun _ st' hst' => ?_⟩
  · rcases List.mem_cons.mp he with rfl | he
    · have hn := Gen.lt_iff.mp hnext
      show 1 ≤ st.epoch.next.value.toNat
      omega
    · exact h.positive e he
  · intro hf; cases hf
  · intro hf; cases hf
  · refine ⟨st.epoch.next, List.mem_cons_self, Gen.lt_iff.mpr ?_⟩
    have hn := Gen.lt_iff.mp hnext
    have h1 : (1 : UInt64).toNat = 1 := rfl
    show (1 : UInt64).toNat < st.epoch.next.value.toNat
    omega
  · intro hf; cases hf
  · have heq := hst'.symm.trans hst
    rw [Except.ok.injEq] at heq
    rw [heq]
    exact ⟨st.epoch.next, List.mem_cons_self, hnext⟩

theorem lineageInv_crash {w : Lineage R} (h : LineageInv w) :
    LineageInv
      { w with fabric := State.fresh R, past := w.fabric.epoch :: w.past
               newest := !w.everLoaded } where
  positive e he := by
    rcases List.mem_cons.mp he with rfl | he
    · exact Nat.le_refl 1
    · exact h.positive e he
  first hl e he := by
    rcases List.mem_cons.mp he with rfl | he
    · rfl
    · exact h.first hl e he
  top hn hl := by
    replace hl : w.everLoaded = true := hl
    simp [hl] at hn
  old hn := ⟨by simpa using hn, rfl⟩
  beyond hl := by
    obtain ⟨e, he, h1⟩ := h.beyond hl
    exact ⟨e, List.mem_cons_of_mem _ he, h1⟩
  covered hs st hst e he := by
    have hle := h.covered hs st hst
    rcases List.mem_cons.mp he with rfl | he
    · have hpos := h.positive w.fabric.epoch List.mem_cons_self
      have hfab := Gen.le_iff.mp (hle w.fabric.epoch List.mem_cons_self)
      exact Gen.le_iff.mpr (hpos.trans hfab)
    · exact hle e he
  behind hs st hst := by
    obtain ⟨e, he, hlt⟩ := h.behind hs st hst
    exact ⟨e, List.mem_cons_of_mem _ he, hlt⟩

/-- **The step lemma.** -/
theorem lineageInv_step [Platform R] {w w' : Lineage R} {ev : Event R} {a : Option (Response R)}
    (h : LineageInv w) (hc : Covered w ev) (hs : lineageStep w ev = some (w', a)) :
    LineageInv w' := by
  cases ev with
  | call op =>
    simp only [lineageStep] at hs
    split at hs
    · cases hs
    · rename_i hop
      obtain ⟨⟨s, r⟩, hx, he⟩ := Option.map_eq_some_iff.mp hs
      cases he
      exact lineageInv_call h (epoch_step hx fun file heq => hop (by rw [heq]; rfl))
  | save order =>
    simp only [lineageStep, Option.ite_none_right_eq_some] at hs
    cases hs.2
    exact lineageInv_save h order
  | load =>
    simp only [lineageStep] at hs
    rcases load_cases w.fabric w.file with ⟨e, he, hl⟩ | ⟨st, hst, hl⟩
    · rw [hl, if_neg (by simp [loadState_error he])] at hs
      cases hs
      exact h
    · simp only [hl, isOk_ok, if_true] at hs
      cases hs
      exact lineageInv_load h hc hst
  | crash => cases hs; exact lineageInv_crash h

/-! ## 3. Adopted epochs -/

omit [Pod R] in
/-- Evidence of an epoch that is neither unset nor the current one is refused. -/
theorem ingest_of_other_epoch {s : State R} {e : EvidenceRecord R} (now : Duration)
    (h0 : e.epoch ≠ ⟨0⟩) (h : e.epoch ≠ s.epoch) :
    (ingest s e now).2.isOk = false ∧ (ingest s e now).1.accumulators = s.accumulators := by
  obtain ⟨_, _, ⟨h', hst⟩ | ⟨_, _, _, hep, _⟩⟩ := ingest_cases s e now
  · exact ⟨hst, by rw [h']⟩
  · exact absurd hep (by simp [h0, h])

omit [Pod R] [Double R] in
/-- An intent of another epoch is refused. -/
theorem authorize_of_other_epoch {s : State R} {intent : EnforcementIntent} (now : Duration)
    (h : intent.epoch ≠ s.epoch) : ∃ st, authorize s intent now = (s, .error st) := by
  unfold authorize
  rw [if_pos h]
  exact ⟨_, rfl⟩

/-- A load adopts an epoch past all operated under exactly when its file is covered. -/
theorem adopted_iff {w : Lineage R} (h : LineageInv w) {st : DurableState R}
    (hst : loadState R w.file = .ok st) :
    (∀ e ∈ w.operated, e < st.epoch.next) ↔ FileCovered w := by
  have hnext := Gen.next_toNat st.epoch
  constructor
  · intro hall st' hst'
    have heq := hst'.symm.trans hst
    rw [Except.ok.injEq] at heq
    subst heq
    refine ⟨?_, ?_⟩
    · by_contra hs
      obtain ⟨e, he, hlt⟩ := h.behind (Bool.not_eq_true _ ▸ hs) _ hst'
      have h1 := Gen.lt_iff.mp hlt
      have h2 := Gen.lt_iff.mp (hall e he)
      have h3 := Nat.mod_le (st'.epoch.value.toNat + 1) (2 ^ 64)
      omega
    · by_contra hmax
      have hv := st'.epoch.value.toNat_lt
      have h2 := Gen.lt_iff.mp (hall w.fabric.epoch List.mem_cons_self)
      have h3 : (st'.epoch.value.toNat + 1) % 2 ^ 64 = 0 := by
        rw [show st'.epoch.value.toNat + 1 = 2 ^ 64 by omega]
        exact Nat.mod_self _
      omega
  · intro hc e he
    obtain ⟨hs, hlt⟩ := hc st hst
    exact (h.covered hs st hst e he).trans_lt (Gen.lt_next hlt)

/-- **Epochs across restarts.** In every run whose loads read covered files, an incarnation that
    made the last load is past every epoch operated under before it, so that evidence and
    intents of those epochs are refused; and the next load, when it succeeds, adopts an epoch
    past all of them if and only if its file is covered, too. -/
theorem lineage_epochs [Platform R] {w : Lineage R} {tr : List (Event R × Option (Response R))}
    (h : Run lineageStep Covered (Lineage.start R) tr w) :
    (w.newest = true → w.everLoaded = true → ∀ e ∈ w.past, e < w.fabric.epoch ∧
      (∀ (record : EvidenceRecord R) (now : Duration), record.epoch = e →
        (ingest w.fabric record now).2.isOk = false ∧
          (ingest w.fabric record now).1.accumulators = w.fabric.accumulators) ∧
      ∀ (intent : EnforcementIntent) (now : Duration), intent.epoch = e →
        ∃ st, authorize w.fabric intent now = (w.fabric, .error st)) ∧
    ∀ w' st, lineageStep w .load = some (w', some (.status st)) → st.isOk = true →
      ((∀ e ∈ w'.past, e < w'.fabric.epoch) ↔ FileCovered w) := by
  have hinv : LineageInv w := h.invariant lineageInv_start fun _ _ _ _ => lineageInv_step
  refine ⟨fun hn hl e he => ?_, fun w' st hs hok => ?_⟩
  · have hlt := hinv.top hn hl e he
    have hne : e ≠ w.fabric.epoch := hlt.ne
    refine ⟨hlt, fun record now hr => ?_, fun intent now hi => ?_⟩
    · refine ingest_of_other_epoch now ?_ (hr ▸ hne)
      intro h0
      have hpos := hinv.positive e (List.mem_cons_of_mem _ he)
      rw [← hr, h0] at hpos
      exact absurd hpos (by decide)
    · exact authorize_of_other_epoch now (hi ▸ hne)
  · simp only [lineageStep] at hs
    rcases load_cases w.fabric w.file with ⟨e, he, hload⟩ | ⟨st', hst', hload⟩
    · rw [hload, if_neg (by simp [loadState_error he])] at hs
      cases hs
      rw [loadState_error he] at hok
      cases hok
    · simp only [hload, isOk_ok, if_true] at hs
      cases hs
      exact adopted_iff hinv hst'

end Step

/-! ## 4. One save, two restarts -/

/-- Where a lineage is after some events that each meet a condition. -/
def afterEvents (c : Lineage Binary64 → Event Binary64 → Bool) (evs : List (Event Binary64)) :
    Lineage Binary64 :=
  ((execute lineageStep c (Lineage.start Binary64) evs).map (·.1)).getD (Lineage.start Binary64)

theorem run_afterEvents {c : Lineage Binary64 → Event Binary64 → Bool}
    {C : Lineage Binary64 → Event Binary64 → Prop} (hc : ∀ w ev, c w ev = true → C w ev)
    (evs : List (Event Binary64)) :
    ∃ tr, Run lineageStep C (Lineage.start Binary64) tr (afterEvents c evs) :=
  Run.executed hc _ evs

/-- The epochs of the lineage after a load that succeeds: the adopted one and those before. -/
def adopted (x : Option (Lineage Binary64 × Option (Response Binary64))) :
    Option (CoordinatorEpoch × List CoordinatorEpoch) :=
  match x with
  | some (w, some (.status st)) => if st.isOk then some (w.fabric.epoch, w.past) else none
  | _ => none

theorem of_adopted {x : Option (Lineage Binary64 × Option (Response Binary64))}
    {y : CoordinatorEpoch × List CoordinatorEpoch} (h : adopted x = some y) :
    ∃ w st, x = some (w, some (.status st)) ∧ st.isOk = true ∧ w.fabric.epoch = y.1 ∧
      w.past = y.2 := by
  unfold adopted at h
  split at h
  · split at h
    · rename_i hok
      cases h
      exact ⟨_, _, rfl, hok, rfl, rfl⟩
    · cases h
  · cases h

/-- **An epoch comes twice**: the file of epoch `1` is loaded, the coordinator crashes before it
    saves, and the next one adopts epoch `2` again. -/
theorem lineage_epoch_reused :
    ¬∀ (tr : List (Event Binary64 × Option (Response Binary64))) (w w' : Lineage Binary64)
      (st : Status), Run lineageStep (fun _ _ => True) (Lineage.start Binary64) tr w →
      lineageStep w .load = some (w', some (.status st)) → st.isOk = true →
      ∀ e ∈ w'.past, e < w'.fabric.epoch := by
  intro hall
  obtain ⟨tr, hrun⟩ := run_afterEvents (c := fun _ _ => true) (fun _ _ _ => trivial)
    [.save [], .crash, .load, .crash]
  have hload : adopted (lineageStep (afterEvents (fun _ _ => true)
      [.save [], .crash, .load, .crash]) .load) = some (⟨2⟩, [⟨1⟩, ⟨2⟩, ⟨1⟩, ⟨1⟩]) := by
    decide +kernel
  obtain ⟨w', st, hs, hok, he, hp⟩ := of_adopted hload
  have hlt := hall tr _ w' st hrun hs hok ⟨2⟩ (by rw [hp]; decide)
  rw [he] at hlt
  exact lt_irrefl _ hlt

/-- The condition on runs, as a test. -/
def coveredTest (w : Lineage Binary64) : Event Binary64 → Bool
  | .load =>
    match loadState Binary64 w.file with
    | .ok st => w.saved && decide (st.epoch.value.toNat + 1 < 2 ^ 64)
    | .error _ => true
  | _ => true

theorem covered_of_test (w : Lineage Binary64) (ev : Event Binary64)
    (h : coveredTest w ev = true) : Covered w ev := by
  cases ev with
  | load =>
    intro st hst
    simpa only [coveredTest, hst, Bool.and_eq_true, decide_eq_true_eq] using h
  | _ => trivial

/-- A coordinator that saves after its restart, and one more restart. -/
def savedTwice : Lineage Binary64 :=
  afterEvents coveredTest [.save [], .crash, .load, .save [], .crash, .load]

theorem lineage_epochs_small :
    (∃ tr, Run lineageStep Covered (Lineage.start Binary64) tr savedTwice) ∧
      savedTwice.fabric.epoch = ⟨3⟩ ∧ savedTwice.past = [⟨1⟩, ⟨2⟩, ⟨1⟩, ⟨1⟩] ∧
      ∀ e ∈ savedTwice.past, e < savedTwice.fabric.epoch := by
  obtain ⟨tr, hrun⟩ : ∃ tr, Run lineageStep Covered (Lineage.start Binary64) tr savedTwice :=
    run_afterEvents covered_of_test _
  have hn : savedTwice.newest = true := by decide +kernel
  have hl : savedTwice.everLoaded = true := by decide +kernel
  have he : savedTwice.fabric.epoch = ⟨3⟩ := by decide +kernel
  have hp : savedTwice.past = [⟨1⟩, ⟨2⟩, ⟨1⟩, ⟨1⟩] := by decide +kernel
  exact ⟨⟨tr, hrun⟩, he, hp, fun e h => ((lineage_epochs hrun).1 hn hl e h).1⟩

end SloFabric
