/-
  File:      SloFabric/Completion.lean
  Subject:   What a completion does with a receipt whose authority has been superseded.

  * `Bond`, `noteBonds`: the fabric with the contract and the policy every receipt it holds was
    authorized under; those of a loaded receipt are whatever `origin` says;
  * `Current`: epoch, contract and policy are still those the receipt was authorized under;
  * `CompletionFenced`: a completion makes only current receipts effective, and fails on others;
  * `completion_iff`: it is fenced exactly when a receipt it can complete is current;
  * `completion_fails`: a receipt of a superseded contract becomes effective.
-/
import SloFabric.Receipts

namespace SloFabric

variable {R : Type}

/-! ## 1. Bonds -/

/-- The contract and the policy a receipt was authorized under. -/
structure Bond where
  contract : SloContractId
  policy : PolicyId
  deriving DecidableEq

section Watch

variable [Pod R] [Double R] [Platform R]

/-- What is noted of a step: the contract the checks of `authorize` passed against, and its
    policy. The bonds go with the receipts of the history. -/
def noteBonds (origin : EnforcementReceipt → Bond) (s : State R) (bonds : List Bond) :
    Op R × Response R → List Bond
  | (.authorize intent _, .authorized (.ok _)) =>
    match intentContract s.contracts intent with
    | some c => pushHistory bonds ⟨c.id, c.policyId⟩
    | none => bonds
  | (.load file, _) =>
    match loadState R file with
    | .ok st => st.enforcementHistory.map origin
    | .error _ => bonds
  | _ => bonds

/-- The fabric with the bonds of the receipts it holds. -/
abbrev Bonded (R : Type) := Watched (State R) (List Bond)

def bondedStep (origin : EnforcementReceipt → Bond) (w : Bonded R) (op : Op R) :
    Option (Bonded R × Response R) :=
  watch apply (noteBonds origin) w op

omit [Platform R] in
theorem noteBonds_other {origin : EnforcementReceipt → Bond} {s : State R} {bonds : List Bond}
    {op : Op R} {r : Response R} (hauth : r.receipt = none) (hload : ∀ file, op ≠ .load file) :
    noteBonds origin s bonds (op, r) = bonds := by
  cases op with
  | authorize intent now =>
    cases r with
    | authorized x =>
      cases x with
      | error st => rfl
      | ok rc => cases hauth
    | _ => rfl
  | load file => exact absurd rfl (hload file)
  | _ => rfl

/-- **Every receipt held has its bond.** -/
theorem bonds_length {origin : EnforcementReceipt → Bond} {w w' : Bonded R} {op : Op R}
    {r : Response R} (hw : w.seen.length = w.state.enforcementHistory.length)
    (h : bondedStep origin w op = some (w', r)) :
    w'.seen.length = w'.state.enforcementHistory.length := by
  obtain ⟨hs, hseen⟩ := watch_cases h
  have hother (hauth : r.receipt = none) (hload : ∀ file, op ≠ .load file) : w'.seen = w.seen :=
    hseen.trans (noteBonds_other hauth hload)
  cases receipts_cases hs with
  | same hsame _ hload hauth =>
    by_cases hop : ∃ file, op = .load file
    · obtain ⟨file, rfl⟩ := hop
      rw [hsame, hseen, noteBonds]
      cases hst : loadState R file with
      | error e => exact hw
      | ok st =>
        have hok : apply w.state (.load file) = some (restart w.state st, .status ok) := by
          simp only [apply, answer, load, hst]
        have hr := (Prod.mk.inj (Option.some.inj (hs.symm.trans hok))).2
        rw [hr] at hload
        cases hload
    · rw [hsame, hother hauth fun file heq => hop ⟨file, heq⟩]
      exact hw
  | issued hc hs' =>
    rw [hseen, noteBonds, hc.found, hs']
    simp only [length_pushHistory, hw]
  | @moved _ id f hmove hs' =>
    have hload : ∀ file, op ≠ .load file := by
      rintro file rfl
      cases hmove
    rw [hother rfl hload, hs', length_updateReceipt]
    exact hw
  | loaded hst hs' =>
    rw [hseen, noteBonds, hst, hs']
    exact List.length_map _

end Watch

/-! ## 2. Completions -/

/-- The receipts held, each with its bond. -/
def docket (w : Bonded R) : List (EnforcementReceipt × Bond) :=
  w.state.enforcementHistory.zip w.seen

/-- **Still current**: the epoch is the receipt's, and the contract and the policy it was
    authorized under are stored at its generations. -/
structure Current (s : State R) (rc : EnforcementReceipt) (bond : Bond) : Prop where
  epoch : rc.epoch = s.epoch
  contract : ∃ c, s.contracts.find bond.contract = some c ∧ c.gen = rc.contractGen
  policy : ∃ p, s.policies.find bond.policy = some p ∧ p.gen = rc.policyGen

/-- The two ways to complete an enforcement. -/
def IsCompletion (op : Op R) (id : EnforcementId) : Prop :=
  ∃ now, op = .transition id .effective now ∨ op = .completeEnforcement id now

/-- The lifecycles the call completes an enforcement in. -/
def completable : Op R → EnforcementLifecycle → Bool
  | .transition _ _ _, l => l == .acknowledged
  | .completeEnforcement _ _, l => l == .acknowledged || l == .effective
  | _, _ => false

variable [Pod R] [Double R] [Platform R]

/-- **Stale completions are rejected**: a receipt the call makes effective is current, and where
    the receipt it names is not, the call fails and changes nothing. -/
structure CompletionFenced (w : Bonded R) (op : Op R) (id : EnforcementId) : Prop where
  effective : ∀ s' r (i : Nat) (rc rc' : EnforcementReceipt) (bond : Bond),
    apply w.state op = some (s', r) → (docket w)[i]? = some (rc, bond) →
    s'.enforcementHistory[i]? = some rc' → rc.lifecycle ≠ .effective →
    rc'.lifecycle = .effective → Current w.state rc bond
  stale : ∀ s' r rc bond, apply w.state op = some (s', r) →
    (docket w).find? (·.1.id = id) = some (rc, bond) → ¬Current w.state rc bond →
    r.fails = true ∧ s' = w.state

omit [Pod R] [Double R] in
/-- What an update does to the first receipt of an id. -/
theorem updateReceipt_first (f : EnforcementLifecycle → Except Status EnforcementLifecycle)
    {id : EnforcementId} {rc : EnforcementReceipt} (after : List EnforcementReceipt)
    (hid : rc.id = id) : ∀ {before : List EnforcementReceipt}, (∀ y ∈ before, y.id ≠ id) →
    updateReceipt f id (before ++ rc :: after) =
      match f rc.lifecycle with
      | .ok l => (before ++ { rc with lifecycle := l } :: after, ok)
      | .error st => (before ++ rc :: after, st)
  | [], _ => by
      rw [List.nil_append, updateReceipt, if_pos hid]
      cases f rc.lifecycle <;> rfl
  | y :: before, hb => by
      obtain ⟨hy, hb⟩ := List.forall_mem_cons.mp hb
      rw [List.cons_append, updateReceipt, if_neg hy, updateReceipt_first f after hid hb]
      cases f rc.lifecycle <;> rfl

omit [Pod R] [Double R] [Platform R] in
/-- A completion looks its receipt up and asks for its lifecycle. -/
theorem completion_move {op : Op R} {id : EnforcementId} (h : IsCompletion op id) :
    ∃ f, op.move = some (id, f) ∧ ∀ l,
      completable op l = true ∧ f l = .ok .effective ∨
      completable op l = false ∧ ∃ st, f l = .error st ∧ st.isOk = false := by
  rcases h with ⟨now, rfl | rfl⟩
  · refine ⟨_, rfl, fun l => ?_⟩
    cases l <;> first
      | exact Or.inl ⟨rfl, rfl⟩
      | exact Or.inr ⟨rfl, _, rfl, rfl⟩
  · refine ⟨_, rfl, fun l => ?_⟩
    cases l <;> first
      | exact Or.inl ⟨rfl, rfl⟩
      | exact Or.inr ⟨rfl, _, rfl, rfl⟩

/-- **What a completion does**: it finds no receipt of the id, or it makes the first one
    effective, or it complains about its lifecycle. -/
theorem completion_cases {w : Bonded R} {op : Op R} {id : EnforcementId}
    (hop : IsCompletion op id) (hlen : w.seen.length = w.state.enforcementHistory.length)
    {s' : State R} {r : Response R} (h : apply w.state op = some (s', r)) :
    ((docket w).find? (·.1.id = id) = none ∧ r.fails = true ∧ s' = w.state) ∨
    ∃ before rc bond after, docket w = before ++ (rc, bond) :: after ∧
      (docket w).find? (·.1.id = id) = some (rc, bond) ∧
      (completable op rc.lifecycle = true ∧ r.fails = false ∧ s'.enforcementHistory =
          before.map (·.1) ++ { rc with lifecycle := .effective } :: after.map (·.1) ∨
        completable op rc.lifecycle = false ∧ r.fails = true ∧ s' = w.state) := by
  obtain ⟨f, hmove, hf⟩ := completion_move hop
  have hfst : (docket w).map (·.1) = w.state.enforcementHistory :=
    List.map_fst_zip (Nat.le_of_eq hlen.symm)
  have hs : s' = { w.state with
        enforcementHistory := (updateReceipt f id w.state.enforcementHistory).1 } ∧
      r = .status (updateReceipt f id w.state.enforcementHistory).2 := by
    cases receipts_cases h with
    | same _ hm _ _ => rw [hmove] at hm; cases hm
    | issued _ _ => cases hmove
    | moved hm hs => rw [hmove] at hm; cases hm; exact ⟨hs, rfl⟩
    | loaded _ _ => cases hmove
  obtain ⟨rfl, rfl⟩ := hs
  rw [← hfst]
  cases hfind : (docket w).find? (·.1.id = id) with
  | none =>
    rcases updateReceipt_cases f id w.state.enforcementHistory with
      ⟨_, hup⟩ | ⟨before, rc, after, _, _, hh, hid, _⟩
    · rw [hfst, hup]
      exact Or.inl ⟨rfl, rfl, rfl⟩
    · have hmem : rc ∈ (docket w).map (·.1) := by rw [hfst, hh]; simp
      obtain ⟨x, hx, rfl⟩ := List.mem_map.mp hmem
      exact absurd hid (by simpa using List.find?_eq_none.mp hfind x hx)
  | some x =>
    obtain ⟨rc, bond⟩ := x
    obtain ⟨hid, before, after, hsplit, hno⟩ := List.find?_eq_some_iff_append.mp hfind
    have hfirst : ∀ y ∈ before.map (·.1), y.id ≠ id := by
      intro y hy
      obtain ⟨x, hx, rfl⟩ := List.mem_map.mp hy
      simpa using hno x hx
    have hup := updateReceipt_first f (after.map (·.1)) (of_decide_eq_true hid) hfirst
    have hmap : (docket w).map (·.1) = before.map (·.1) ++ rc :: after.map (·.1) := by
      rw [hsplit, List.map_append, List.map_cons]
    refine Or.inr ⟨before, rc, bond, after, hsplit, rfl, ?_⟩
    rw [hmap, hup]
    rcases hf rc.lifecycle with ⟨hc, hl⟩ | ⟨hc, st, hl, hst⟩
    · rw [hl]
      exact Or.inl ⟨hc, rfl, rfl⟩
    · rw [hl, ← hmap, hfst]
      refine Or.inr ⟨hc, ?_, rfl⟩
      simp [Response.fails, hst]

omit [Pod R] [Double R] in
/-- Where one element is put for another, the others are as they were. -/
theorem getElem?_replaced {α : Type} {before after : List α} (x y : α) {i : Nat}
    (h : i ≠ before.length) : (before ++ y :: after)[i]? = (before ++ x :: after)[i]? := by
  rcases Nat.lt_or_gt_of_ne h with hlt | hgt
  · rw [List.getElem?_append_left hlt, List.getElem?_append_left hlt]
  · obtain ⟨j, hj⟩ : ∃ j, i - before.length = j + 1 := ⟨i - before.length - 1, by omega⟩
    rw [List.getElem?_append_right (by omega), List.getElem?_append_right (by omega), hj]
    rfl

/-- A completion changes at most the receipt it finds, and only where it can complete it. -/
theorem completion_changes {w : Bonded R} {op : Op R} {id : EnforcementId}
    (hop : IsCompletion op id) (hlen : w.seen.length = w.state.enforcementHistory.length)
    {s' : State R} {r : Response R} (h : apply w.state op = some (s', r)) {i : Nat}
    {rc : EnforcementReceipt} {bond : Bond} (hi : (docket w)[i]? = some (rc, bond)) :
    s'.enforcementHistory[i]? = w.state.enforcementHistory[i]? ∨
      (docket w).find? (·.1.id = id) = some (rc, bond) ∧ completable op rc.lifecycle = true := by
  rcases completion_cases hop hlen h with
    ⟨_, _, h'⟩ | ⟨before, x, bond', after, hsplit, hfind, ⟨hcan, _, h'⟩ | ⟨_, _, h'⟩⟩
  · exact Or.inl (by rw [h'])
  · by_cases hat : i = before.length
    · rw [hsplit, hat, List.getElem?_append_right (Nat.le_refl _), Nat.sub_self] at hi
      cases hi
      exact Or.inr ⟨hfind, hcan⟩
    · -- every other receipt is as it was
      have hfst : w.state.enforcementHistory = before.map (·.1) ++ x :: after.map (·.1) := by
        rw [← List.map_fst_zip (Nat.le_of_eq hlen.symm)]
        show (docket w).map _ = _
        rw [hsplit, List.map_append, List.map_cons]
      rw [h', hfst]
      exact Or.inl (getElem?_replaced _ _ (by rwa [List.length_map]))
  · exact Or.inl (by rw [h'])

/-- **When completions are fenced.** In every run, whatever was superseded, set or loaded, and
    whatever completion comes next: every receipt held has its bond, and the completion is
    fenced if and only if the receipt it names, where its lifecycle lets it be completed, is
    current. -/
theorem completion_iff {origin : EnforcementReceipt → Bond} {w : Bonded R} {tr : Trace R}
    (h : Run (bondedStep origin) (fun _ _ => True) ⟨State.fresh R, []⟩ tr w) {op : Op R}
    {id : EnforcementId} (hop : IsCompletion op id) :
    w.seen.length = w.state.enforcementHistory.length ∧
    (CompletionFenced w op id ↔ ∀ rc bond, (docket w).find? (·.1.id = id) = some (rc, bond) →
      completable op rc.lifecycle = true → Current w.state rc bond) := by
  have hlen : w.seen.length = w.state.enforcementHistory.length :=
    h.invariant (I := fun w => w.seen.length = w.state.enforcementHistory.length) rfl
      fun _ _ _ _ hw _ => bonds_length hw
  refine ⟨hlen, fun hfence rc bond hfind hcan => ?_, fun hcur => ⟨?_, ?_⟩⟩
  · obtain ⟨s', r, hs⟩ : ∃ s' r, apply w.state op = some (s', r) := by
      rcases hop with ⟨now, rfl | rfl⟩ <;> exact ⟨_, _, rfl⟩
    by_contra hstale
    obtain ⟨hfail, _⟩ := hfence.stale s' r rc bond hs hfind hstale
    rcases completion_cases hop hlen hs with ⟨hnone, _⟩ | ⟨_, rc', bond', _, _, hfind', hdone⟩
    · rw [hnone] at hfind
      cases hfind
    · rw [hfind] at hfind'
      cases hfind'
      rcases hdone with ⟨_, hok, _⟩ | ⟨hno, _, _⟩
      · rw [hok] at hfail
        cases hfail
      · rw [hno] at hcan
        cases hcan
  · intro s' r i rc rc' bond hs hi hi' hne heff
    have hrc : w.state.enforcementHistory[i]? = some rc := by
      have hzip := List.getElem?_zip_eq_some.mp hi
      exact hzip.1
    rcases completion_changes hop hlen hs hi with hkept | ⟨hfind, hcan⟩
    · rw [hkept, hrc] at hi'
      cases hi'
      exact absurd heff hne
    · exact hcur rc bond hfind hcan
  · intro s' r rc bond hs hfind hstale
    rcases completion_cases hop hlen hs with
      ⟨hnone, _⟩ | ⟨_, rc', bond', _, _, hfind', ⟨hcan, _, _⟩ | ⟨_, hfail, h'⟩⟩
    · rw [hnone] at hfind
      cases hfind
    · rw [hfind] at hfind'
      cases hfind'
      exact absurd (hcur rc bond hfind hcan) hstale
    · exact ⟨hfail, h'⟩

/-- **A receipt is current when it is handed out.** -/
theorem issued_current {origin : EnforcementReceipt → Bond} {w w' : Bonded R}
    {intent : EnforcementIntent} {now : Duration} {rc : EnforcementReceipt}
    (h : bondedStep origin w (.authorize intent now) = some (w', .authorized (.ok rc))) :
    ∃ bond, w'.seen.getLast? = some bond ∧ w'.state.enforcementHistory.getLast? = some rc ∧
      Current w'.state rc bond := by
  obtain ⟨hs, hseen⟩ := watch_cases h
  cases receipts_cases hs with
  | same _ _ _ hauth => cases hauth
  | @issued _ _ c hc hs' =>
    refine ⟨⟨c.id, c.policyId⟩, ?_, ?_, ?_⟩
    · rw [hseen, noteBonds, hc.found]
      exact List.getLast?_concat
    · rw [hs']
      exact List.getLast?_concat
    · have hrow := (intentContract_some hc.found).1
      rw [hs']
      exact ⟨hc.epoch, ⟨c, KeyedTable.mem_rows.mp hrow, hc.gen⟩, hc.policy⟩

/-! ## 3. A superseded contract -/

/-- A receipt of contract `1` that is acknowledged, and what is done to the contract then. -/
def acknowledged (ops : List (Op Binary64)) : List (Op Binary64) :=
  evaluated 1 ++ [.authorize (smallIntent 1) 0, .transition ⟨1⟩ .dispatched 0,
    .transition ⟨1⟩ .acknowledged 0] ++ ops

/-- Where all receipts come from contract `1`. -/
def smallOrigin (_ : EnforcementReceipt) : Bond := ⟨⟨1⟩, ⟨1⟩⟩

/-- `Current`, as a test. -/
def currentTest (s : State Binary64) (rc : EnforcementReceipt) (bond : Bond) : Bool :=
  rc.epoch = s.epoch && (s.contracts.find bond.contract).any (·.gen = rc.contractGen) &&
    (s.policies.find bond.policy).any (·.gen = rc.policyGen)

theorem current_iff_test {s : State Binary64} {rc : EnforcementReceipt} {bond : Bond} :
    Current s rc bond ↔ currentTest s rc bond = true := by
  simp only [currentTest, Bool.and_eq_true, decide_eq_true_eq, Option.any_eq_true]
  exact ⟨fun h => ⟨⟨h.epoch, h.contract⟩, h.policy⟩, fun h => ⟨h.1.1, h.1.2, h.2⟩⟩

/-- **The receipt of a superseded contract becomes effective.** -/
theorem completion_fails :
    ¬∀ (origin : EnforcementReceipt → Bond) (tr : Trace Binary64) (w : Bonded Binary64)
      (op : Op Binary64) (id : EnforcementId),
      Run (bondedStep origin) (fun _ _ => True) ⟨State.fresh Binary64, []⟩ tr w →
      IsCompletion op id → CompletionFenced w op id := by
  intro hall
  have htest : (execute (bondedStep smallOrigin) (fun _ _ => true) ⟨State.fresh Binary64, []⟩
      (acknowledged [.supersedeContract (smallContract 1 2 1 [smallObjective 1 1]) 0])).any
      (fun x => ((docket x.1).find? (·.1.id = ⟨1⟩)).any fun y =>
        !currentTest x.1.state y.1 y.2 &&
          (completeEnforcement x.1.state ⟨1⟩ 0).2.isOk) = true := by
    decide +kernel
  obtain ⟨w, tr, hrun, hw⟩ := Run.of_test (fun _ _ _ => trivial) htest
  obtain ⟨⟨rc, bond⟩, hfind, hrc⟩ := (Option.any_eq_true _ _).mp hw
  obtain ⟨hstale, hok⟩ := Bool.and_eq_true_iff.mp hrc
  have hfence := hall smallOrigin tr w (.completeEnforcement ⟨1⟩ 0) ⟨1⟩ hrun ⟨0, Or.inr rfl⟩
  have hnot : ¬Current w.state rc bond := by
    rw [current_iff_test]
    simpa using hstale
  obtain ⟨hfail, _⟩ := hfence.stale _ _ rc bond rfl hfind hnot
  simp [Response.fails, hok] at hfail

/-- Without that, the completion is fenced. -/
theorem completion_iff_small :
    ∃ (tr : Trace Binary64) (w : Bonded Binary64),
      Run (bondedStep smallOrigin) (fun _ _ => True) ⟨State.fresh Binary64, []⟩ tr w ∧
      (completeEnforcement w.state ⟨1⟩ 0).2.isOk = true ∧
      CompletionFenced w (.completeEnforcement ⟨1⟩ 0) ⟨1⟩ := by
  have htest : (execute (bondedStep smallOrigin) (fun _ _ => true) ⟨State.fresh Binary64, []⟩
      (acknowledged [])).any (fun x => (completeEnforcement x.1.state ⟨1⟩ 0).2.isOk &&
        ((docket x.1).find? (·.1.id = ⟨1⟩)).all fun y => currentTest x.1.state y.1 y.2) =
      true := by
    decide +kernel
  obtain ⟨w, tr, hrun, hw⟩ := Run.of_test (fun _ _ _ => trivial) htest
  obtain ⟨hok, hcur⟩ := Bool.and_eq_true_iff.mp hw
  refine ⟨tr, w, hrun, hok, (completion_iff hrun ⟨0, Or.inr rfl⟩).2.mpr ?_⟩
  intro rc bond hfind _
  dsimp only at hcur
  rw [hfind] at hcur
  exact current_iff_test.mpr hcur

end SloFabric
