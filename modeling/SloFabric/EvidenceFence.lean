/-
  File:      SloFabric/EvidenceFence.lean
  Subject:   Where the evidence an accumulator holds comes from.

  * `evidenceSinceLoad`: the records of a run that were accepted since the last load;
  * `Fenced`: an accumulator's samples, cost items and availability totals are those of some of
    these records, all of its generation (or unset) and of the epoch (or unset);
  * `offer_cases`: what one record can put into the stores;
  * `fenced_run`: every accumulator of every run is fenced, and so is every accumulator an
    evaluation judges an objective on.
-/
import SloFabric.Decision

namespace SloFabric

variable {R : Type}

open Double

/-! ## 1. The evidence of a run -/

/-- Note one step of a run: an accepted record is evidence, a load starts anew. -/
def noteStep (l : List (EvidenceRecord R)) : Op R × Response R → List (EvidenceRecord R)
  | (.ingest e _, .status st) => if st.isOk then l ++ [e] else l
  | (.load _, .status st) => if st.isOk then [] else l
  | _ => l

theorem noteStep_other {op : Op R} (hing : ∀ e now, op ≠ .ingest e now)
    (hload : ∀ file, op ≠ .load file) (l : List (EvidenceRecord R)) (r : Response R) :
    noteStep l (op, r) = l := by
  cases op with
  | ingest e now => exact absurd rfl (hing e now)
  | load file => exact absurd rfl (hload file)
  | _ => rfl

/-- The records accepted since the last successful load, in order. -/
def evidenceSinceLoad (tr : Trace R) : List (EvidenceRecord R) := tr.foldl noteStep []

theorem evidenceSinceLoad_append (tr : Trace R) (x : Op R × Response R) :
    evidenceSinceLoad (tr ++ [x]) = noteStep (evidenceSinceLoad tr) x := by
  simp [evidenceSinceLoad]

/-- The records of `evidenceSinceLoad` are records some `ingest` of the run accepted. -/
theorem mem_evidenceSinceLoad {tr : Trace R} {e : EvidenceRecord R}
    (h : e ∈ evidenceSinceLoad tr) :
    ∃ now st, (.ingest e now, .status st) ∈ tr ∧ st.isOk = true := by
  induction tr using List.reverseRecOn with
  | nil => simp [evidenceSinceLoad] at h
  | append_singleton tr x ih =>
    rw [evidenceSinceLoad_append] at h
    have hold : e ∈ evidenceSinceLoad tr →
        ∃ now st, (.ingest e now, .status st) ∈ tr ++ [x] ∧ st.isOk = true := by
      intro he
      obtain ⟨now, st, hmem, hst⟩ := ih he
      exact ⟨now, st, List.mem_append_left _ hmem, hst⟩
    unfold noteStep at h
    split at h
    · rename_i e' now st
      split at h
      · rename_i hst
        rcases List.mem_append.mp h with he | he
        · exact hold he
        · cases List.mem_singleton.mp he
          exact ⟨now, st, by simp, hst⟩
      · exact hold h
    · split at h
      · cases h
      · exact hold h
    · exact hold h

/-! ## 2. Fenced accumulators -/

/-- May the record count for the accumulator under the epoch? -/
structure Admitted (epoch : CoordinatorEpoch) (a : ObjectiveAccumulator R)
    (e : EvidenceRecord R) : Prop where
  objective : e.objectiveId = a.defn.id
  generation : e.objectiveGen = ⟨0⟩ ∨ e.objectiveGen = a.defn.gen
  epoch : e.epoch = ⟨0⟩ ∨ e.epoch = epoch

section Fence

variable [Double R]

/-- Add the units of one contribution to the availability totals of its mode. -/
def addUnits (acc : AvailabilityAccount) (c : AvailabilityMode × EvidenceRecord R) :
    AvailabilityAccount :=
  if c.2.dimension = .availability then acc.add c.1 (evidenceWeight c.2) (servingUnits c.2)
  else acc

/-- The value a record enters a store with. -/
def entry (e : EvidenceRecord R) : Duration × R := (e.time, numericOf e.value)

/-- What a window holds, as it was entered. -/
def SampleWindow.entries (w : SampleWindow R) : List (Duration × R) :=
  w.samples.map fun s => (s.time, s.value)

/-- Everything the accumulator holds comes from `contributions`: records of the history, each
    with the availability mode it was counted under, all admitted. -/
structure Fenced (epoch : CoordinatorEpoch) (history : List (EvidenceRecord R))
    (a : ObjectiveAccumulator R) (contributions : List (AvailabilityMode × EvidenceRecord R)) :
    Prop where
  history : (contributions.map (·.2)).Sublist history
  admitted : ∀ c ∈ contributions, Admitted epoch a c.2
  samples : a.window.entries.Sublist (contributions.map fun c => entry c.2)
  items : a.cost.items.Sublist (contributions.map fun c => entry c.2)
  totals : a.avail = contributions.foldl addUnits { mode := a.defn.availabilityMode }

/-- Fresh accumulators are fenced, whatever the epoch and the history. -/
theorem fenced_rule (epoch : CoordinatorEpoch) (history : List (EvidenceRecord R)) :
    RowRule fun a => ∃ l, Fenced epoch history a l := by
  have hempty (o : Objective R) : ∃ l, Fenced epoch history (.make o) l :=
    ⟨[], by simp, by simp, List.Sublist.refl _, List.Sublist.refl _, rfl⟩
  refine .ofEvidence hempty (fun a o _ => ?_) fun a b hab => ?_
  · exact ⟨[], by simp, by simp, List.Sublist.refl _, List.Sublist.refl _, rfl⟩
  · rintro ⟨l, h⟩
    refine ⟨l, h.history, fun c hc => ?_, ?_, ?_, ?_⟩
    · obtain ⟨h₁, h₂, h₃⟩ := h.admitted c hc
      rw [← hab.defn] at h₁ h₂
      exact ⟨h₁, h₂, h₃⟩
    · rw [hab.window]; exact h.samples
    · rw [hab.cost]; exact h.items
    · rw [hab.avail, hab.defn]; exact h.totals

/-! ## 3. One record -/

/-- **What a window does with a sample**: it takes it, giving up some of the older ones, or it
    keeps what it holds. -/
theorem window_ingest_cases (w : SampleWindow R) (time : Duration) (value : R) (seq : UInt64) :
    ((w.ingest time value seq).2 = .accepted ∧
      (w.ingest time value seq).1.samples.Sublist (w.samples ++ [⟨time, value, seq⟩])) ∨
    ((w.ingest time value seq).2 ≠ .accepted ∧
      (w.ingest time value seq).1.samples = w.samples) := by
  have hlast : [(⟨time, value, seq⟩ : WindowSample R)].Sublist
      (w.samples ++ [⟨time, value, seq⟩]) :=
    List.sublist_append_right _ _
  unfold SampleWindow.ingest
  split
  · exact Or.inr ⟨by simp, rfl⟩
  · split
    · exact Or.inr ⟨by simp, rfl⟩
    · simp only
      split
      · exact Or.inl ⟨rfl, List.Sublist.refl _⟩
      · split
        · exact Or.inr ⟨by simp, rfl⟩
        · split
          · exact Or.inl ⟨rfl, hlast⟩
          · refine Or.inl ⟨rfl, (List.drop_sublist _ _).trans ?_⟩
            unfold SampleWindow.evictByAge
            split
            · exact List.Sublist.refl _
            · exact List.dropWhile_sublist _
          · exact Or.inl ⟨rfl, List.drop_sublist _ _⟩
          · split
            · exact Or.inr ⟨by simp, rfl⟩
            · split
              · exact Or.inr ⟨by simp, rfl⟩
              · split
                · exact Or.inl ⟨rfl, hlast⟩
                · exact Or.inl ⟨rfl, List.Sublist.refl _⟩
          · split
            · exact Or.inr ⟨by simp, rfl⟩
            · split
              · exact Or.inr ⟨by simp, rfl⟩
              · split
                · exact Or.inl ⟨rfl, hlast⟩
                · exact Or.inl ⟨rfl, List.Sublist.refl _⟩

/-- Holding what `a` held, with the record `e` at most put behind it under mode `mode`. -/
structure Takes (mode : AvailabilityMode) (e : EvidenceRecord R) (a b : ObjectiveAccumulator R) :
    Prop where
  samples : b.window.entries.Sublist (a.window.entries ++ [entry e])
  items : b.cost.items.Sublist (a.cost.items ++ [entry e])
  totals : b.avail = addUnits a.avail (mode, e)

/-- Holding in its stores exactly what `a` held. -/
structure SameStores (a b : ObjectiveAccumulator R) : Prop where
  samples : b.window.entries = a.window.entries
  items : b.cost.items = a.cost.items
  totals : b.avail = a.avail

theorem takes_window (mode : AvailabilityMode) {e : EvidenceRecord R}
    (a : ObjectiveAccumulator R) (hdim : e.dimension ≠ .availability) :
    Takes mode e a (a.sample e).1 := by
  refine ⟨?_, List.sublist_append_left _ _, by simp [addUnits, hdim, ObjectiveAccumulator.sample]⟩
  rcases window_ingest_cases a.window e.time (numericOf e.value) a.nextSeq with ⟨_, h⟩ | ⟨_, h⟩
  · have hm := h.map fun s => (s.time, s.value)
    rwa [List.map_append] at hm
  · have hm : (a.sample e).1.window.entries = a.window.entries := congrArg (List.map _) h
    rw [hm]
    exact List.sublist_append_left _ _

theorem windowStatus_isOk (st : IngestStatus) : (windowStatus st).isOk = true ↔ st = .accepted := by
  cases st <;> decide

/-- A record for the window: the window takes it, or keeps its samples and complains. -/
theorem sample_cases (mode : AvailabilityMode) {e : EvidenceRecord R} (a : ObjectiveAccumulator R)
    (hdim : e.dimension ≠ .availability) :
    ((windowStatus (a.sample e).2).isOk = true ∧ Takes mode e a (a.sample e).1) ∨
      ((windowStatus (a.sample e).2).isOk = false ∧ SameStores a (a.sample e).1) := by
  rcases window_ingest_cases a.window e.time (numericOf e.value) a.nextSeq with ⟨hs, _⟩ | ⟨hs, h⟩
  · exact Or.inl ⟨(windowStatus_isOk _).mpr hs, takes_window mode a hdim⟩
  · refine Or.inr ⟨?_, congrArg (List.map _) h, rfl, rfl⟩
    rw [← Bool.not_eq_true, windowStatus_isOk]
    exact hs

omit [Double R] in
theorem costWindow_add_items (w : CostWindow R) (t : Duration) (cost : R) (windowNs : Int64) :
    (w.add t cost windowNs).items.Sublist (w.items ++ [(t, cost)]) := by
  unfold CostWindow.add CostWindow.evict
  generalize costWindowCap = cap
  refine (List.drop_sublist _ _).trans ?_
  split
  · exact List.dropWhile_sublist _
  · exact List.Sublist.refl _

/-- **What a record can put into the stores**: it is accepted and taken, or refused and nothing
    changes. -/
theorem storeEvidence_cases (o : Objective R) (a : ObjectiveAccumulator R)
    (e : EvidenceRecord R) :
    ((storeEvidence o a e).2.isOk = true ∧
      Takes o.availabilityMode e a (storeEvidence o a e).1) ∨
    ((storeEvidence o a e).2.isOk = false ∧ SameStores a (storeEvidence o a e).1) := by
  cases hdim : e.dimension with
  | latency | throughput | memoryPressure =>
    simp only [storeEvidence, hdim]
    exact sample_cases o.availabilityMode a (by rw [hdim]; decide)
  | availability =>
    simp only [storeEvidence, hdim]
    exact Or.inl ⟨rfl, List.sublist_append_left _ _, List.sublist_append_left _ _,
      by simp [addUnits, hdim]⟩
  | recoveryTime =>
    simp only [storeEvidence, hdim]
    exact Or.inr ⟨rfl, rfl, rfl, rfl⟩
  | cost =>
    by_cases hk : o.kind = .costWindowBudget
    · simp only [storeEvidence, hdim, if_pos hk]
      exact Or.inl ⟨rfl, List.sublist_append_left _ _, costWindow_add_items _ _ _ _,
        by simp [addUnits, hdim]⟩
    · simp only [storeEvidence, hdim, if_neg hk]
      exact Or.inl ⟨rfl, takes_window _ a (by rw [hdim]; decide)⟩

omit [Double R] in
theorem remember_sameStores (a : ObjectiveAccumulator R) (id : EvidenceId) :
    SameStores a (a.remember id) := ⟨rfl, rfl, rfl⟩

theorem offer_cases (o : Objective R) (a : ObjectiveAccumulator R) (e : EvidenceRecord R) :
    ((offer o a e).2.isOk = true ∧ Takes o.availabilityMode e a (offer o a e).1) ∨
      ((offer o a e).2.isOk = false ∧ SameStores a (offer o a e).1) := by
  obtain ⟨hw, hc, ha⟩ := remember_sameStores a e.id
  rcases offer_spec o a e with ⟨_, hoffer⟩ | ⟨_, _, hoffer⟩ | ⟨_, _, hoffer⟩ <;> rw [hoffer]
  · exact Or.inr ⟨rfl, rfl, rfl, rfl⟩
  · exact Or.inr ⟨rfl, hw, hc, ha⟩
  · have h := storeEvidence_cases o (a.remember e.id) e
    generalize a.remember e.id = b at hw hc ha h
    rcases h with ⟨h₁, h₂, h₃, h₄⟩ | ⟨h₁, h₂, h₃, h₄⟩
    · exact Or.inl ⟨h₁, hw ▸ h₂, hc ▸ h₃, ha ▸ h₄⟩
    · exact Or.inr ⟨h₁, h₂.trans hw, h₃.trans hc, h₄.trans ha⟩

/-! ## 4. Runs -/

/-- An accepted record joins the contributions of its accumulator. -/
theorem Fenced.takes {epoch : CoordinatorEpoch} {history : List (EvidenceRecord R)}
    {a b : ObjectiveAccumulator R} {l : List (AvailabilityMode × EvidenceRecord R)}
    {mode : AvailabilityMode} {e : EvidenceRecord R} (h : Fenced epoch history a l)
    (hd : b.defn = a.defn) (he : Admitted epoch a e) (ht : Takes mode e a b) :
    Fenced epoch (history ++ [e]) b (l ++ [(mode, e)]) where
  history := by simpa using h.history.append (List.Sublist.refl [e])
  admitted c hc := by
    have hc' : Admitted epoch a c.2 := by
      rcases List.mem_append.mp hc with hc | hc
      · exact h.admitted c hc
      · rw [List.mem_singleton.mp hc]; exact he
    exact ⟨hd ▸ hc'.1, hd ▸ hc'.2, hc'.3⟩
  samples := by
    rw [List.map_append]
    exact ht.samples.trans (h.samples.append (List.Sublist.refl _))
  items := by
    rw [List.map_append]
    exact ht.items.trans (h.items.append (List.Sublist.refl _))
  totals := by rw [ht.totals, h.totals, hd, List.foldl_append]; rfl

/-- A refused record leaves the contributions as they are. -/
theorem Fenced.same {epoch : CoordinatorEpoch} {history : List (EvidenceRecord R)}
    {a b : ObjectiveAccumulator R} {l : List (AvailabilityMode × EvidenceRecord R)}
    (h : Fenced epoch history a l) (hd : b.defn = a.defn) (hs : SameStores a b) :
    Fenced epoch history b l where
  history := h.history
  admitted c hc := by
    have hc' := h.admitted c hc
    exact ⟨hd ▸ hc'.1, hd ▸ hc'.2, hc'.3⟩
  samples := by rw [hs.samples]; exact h.samples
  items := by rw [hs.items]; exact h.items
  totals := by rw [hs.totals, hd]; exact h.totals

/-- More history changes nothing. -/
theorem Fenced.mono {epoch : CoordinatorEpoch} {history : List (EvidenceRecord R)}
    {a : ObjectiveAccumulator R} {l : List (AvailabilityMode × EvidenceRecord R)}
    (h : Fenced epoch history a l) (e : EvidenceRecord R) : Fenced epoch (history ++ [e]) a l :=
  ⟨h.history.trans (List.sublist_append_left _ _), h.admitted, h.samples, h.items, h.totals⟩

/-- Every accumulator is fenced. -/
def AllFenced (tr : Trace R) (s : State R) : Prop :=
  ∀ a ∈ s.accumulators.rows, ∃ l, Fenced s.epoch (evidenceSinceLoad tr) a l

variable [Pod R]

/-- **The step lemma.** -/
theorem allFenced_step [Platform R] {tr : Trace R} {s s' : State R} {op : Op R} {r : Response R}
    (hs : AllFenced tr s) (h : apply s op = some (s', r)) : AllFenced (tr ++ [(op, r)]) s' := by
  unfold AllFenced at hs ⊢
  rw [evidenceSinceLoad_append]
  cases evidence_cases h with
  | @offered e now o ho hgen hep hepoch hrows =>
    obtain ⟨hid, _⟩ := definitionOf_some ho
    obtain ⟨l, hl⟩ := (fenced_rule s.epoch (evidenceSinceLoad tr)).acquired hs o
    have hd := (offer_conduct o (acquire s.accumulators o) e).defn
    rw [hepoch, hrows, noteStep]
    rcases offer_cases o (acquire s.accumulators o) e with ⟨hok, ht⟩ | ⟨hok, ht⟩
    · rw [hok, if_pos rfl]
      refine KeyedTable.forall_insert (fun a ha => ?_) ?_
      · obtain ⟨l', hl'⟩ := hs a ha
        exact ⟨l', hl'.mono e⟩
      · refine ⟨_, hl.takes hd ⟨?_, ?_, hep⟩ ht⟩
        · rw [acquire_id, hid]
        · rwa [acquire_gen]
    · rw [hok, if_neg Bool.false_ne_true]
      exact KeyedTable.forall_insert hs ⟨l, hl.same hd ht⟩
  | refused hst hepoch hrows =>
    rw [hepoch, hrows]
    simpa [noteStep, hst] using hs
  | loaded hst hs' =>
    rw [hs']
    exact (fenced_rule _ _).restoreStates _ (loadState_objstates hst)
  | failed hst hs' =>
    rw [hs']
    simpa [noteStep, hst] using hs
  | other hing hload hepoch hrule =>
    rw [noteStep_other hing hload, hepoch]
    exact hrule _ (fenced_rule s.epoch (evidenceSinceLoad tr)) hs

theorem allFenced_run [Platform R] {s : State R} {tr : Trace R} (h : Runs (State.fresh R) tr s) :
    AllFenced tr s := by
  refine h.history (I := AllFenced) (fun a ha => ?_) fun tr s o s' r hs _ => allFenced_step hs
  simp [State.fresh] at ha

omit [Pod R] in
/-- What an objective is judged on is fenced at the objective's own generation. -/
theorem allFenced_judgedOn {s : State R} {tr : Trace R} (h : AllFenced tr s)
    (objs : List (Objective R)) (now : Duration) (obj : Objective R) :
    ∃ l, Fenced s.epoch (evidenceSinceLoad tr) (acquire (accumulatorsAfter s.accumulators now objs)
      obj) l :=
  (fenced_rule _ _).acquired ((fenced_rule _ _).accumulatorsAfter now _ h) obj

/-- **Generation and epoch fence on evidence.** In every state of every run, what an accumulator
    holds comes from records that were accepted since the last load, for its objective, of its
    generation or none, and of the current epoch or none; and so does what any objective of any
    list of objectives would be judged on, at that objective's own generation. These records are
    among those that some `ingest` of the run accepted. -/
theorem fenced_run [Platform R] {s : State R} {tr : Trace R} (h : Runs (State.fresh R) tr s) :
    (∀ a ∈ s.accumulators.rows, ∃ l, Fenced s.epoch (evidenceSinceLoad tr) a l) ∧
    (∀ (objs : List (Objective R)) (now : Duration) (i : Nat) (obj : Objective R),
      let a := acquire (accumulatorsAfter s.accumulators now (objs.take i)) obj
      a.defn.id = obj.id ∧ a.defn.gen = obj.gen ∧
        ∃ l, Fenced s.epoch (evidenceSinceLoad tr) a l) ∧
    ∀ e ∈ evidenceSinceLoad tr, ∃ now st, (.ingest e now, .status st) ∈ tr ∧ st.isOk = true := by
  have hall := allFenced_run h
  exact ⟨hall, fun objs now i obj =>
    ⟨acquire_id _ _, acquire_gen _ _, allFenced_judgedOn hall _ now obj⟩,
    fun e he => mem_evidenceSinceLoad he⟩

/-- A fabric that holds the latency it was given. -/
theorem fenced_run_small :
    let ops := [.setPolicy smallPolicy, .addContract (smallContract 1 1 1 [smallObjective 1 1]),
      .ingest (smallEvidence 1 1 200000000) 0]
    ∃ tr, Runs (State.fresh Binary64) tr (after ops) ∧
      (after ops).accumulators.rows.isEmpty = false ∧
      ∀ a ∈ (after ops).accumulators.rows,
        ∃ l, Fenced (after ops).epoch (evidenceSinceLoad tr) a l := by
  intro ops
  obtain ⟨tr, htr⟩ := reachable_after ops
  exact ⟨tr, htr, by decide +kernel, (fenced_run htr).1⟩

end Fence

end SloFabric
