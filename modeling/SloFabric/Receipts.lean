/-
  File:      SloFabric/Receipts.lean
  Subject:   The lifecycle of every receipt, over whole runs.

  * `receipts_cases`: what a step does to the receipts;
  * `noteTrails`, `trailedStep`: the fabric with the trail of every receipt `authorize` created,
    the lifecycles it was seen in, also after the history has given it up;
  * `Lawful`: a trail that starts at Authorized and follows the table, with Dispatched and
    Acknowledged before Effective, and no Effective after an end;
  * `trails_step`, `lifecycle_run`: all trails are lawful, and a call moves at most the receipt
    it names.
-/
import SloFabric.Identity
import SloFabric.Library.Walks

namespace SloFabric

variable {R : Type}

/-! ## 1. Steps on receipts -/

/-- What a lifecycle update does to the receipts is legal. -/
def LegalUpdate (f : EnforcementLifecycle → Except Status EnforcementLifecycle) : Prop :=
  ∀ src dst, f src = .ok dst → dst = src ∨ enforcementTransitionLegal src dst = true

/-- The receipt a call names, and what the call does to its lifecycle. -/
def Op.move : Op R →
    Option (EnforcementId × (EnforcementLifecycle → Except Status EnforcementLifecycle))
  | .transition id dst _ => some (id, transitionTo dst)
  | .completeEnforcement id _ => some (id, completed)
  | _ => none

theorem legalUpdate_transitionTo (dst : EnforcementLifecycle) :
    LegalUpdate (transitionTo dst) := by
  intro src dst' h
  unfold transitionTo at h
  split at h
  · rename_i hlegal
    cases h
    exact Or.inr hlegal
  · cases h

theorem legalUpdate_completed : LegalUpdate completed := by
  intro src dst h
  unfold completed at h
  split at h
  · rename_i hack
    cases h
    rw [hack]
    exact Or.inr rfl
  · split at h
    · rename_i heff
      cases h
      exact Or.inl heff.symm
    · cases h

theorem legalUpdate_move {op : Op R} {id : EnforcementId}
    {f : EnforcementLifecycle → Except Status EnforcementLifecycle}
    (h : op.move = some (id, f)) : LegalUpdate f := by
  cases op with
  | transition id dst now => cases h; exact legalUpdate_transitionTo dst
  | completeEnforcement id now => cases h; exact legalUpdate_completed
  | _ => cases h

variable [Pod R] [Double R] [Platform R]

/-- **What a step does to the receipts**: nothing, or it creates one, changes one, or takes over
    those of a file. -/
inductive ReceiptStep (s s' : State R) : Op R → Response R → Prop where
  | same {op : Op R} {r : Response R} (hs : s'.enforcementHistory = s.enforcementHistory)
      (hmove : op.move = none) (hload : loaded op r = false) (hauth : r.receipt = none) :
      ReceiptStep s s' op r
  | issued {intent : EnforcementIntent} {now : Duration} {c : SloContract R}
      (hc : Checked s intent now c)
      (hs : s' = { s with
        enforcementCounter := s.enforcementCounter + 1
        accumulators := setCooldown s.accumulators intent.objectiveId (now + intent.cooldown)
        enforcementHistory := pushHistory s.enforcementHistory
          (receiptOf intent (s.enforcementCounter + 1)) }) :
      ReceiptStep s s' (.authorize intent now)
        (.authorized (.ok (receiptOf intent (s.enforcementCounter + 1))))
  | moved {op : Op R} {id : EnforcementId}
      {f : EnforcementLifecycle → Except Status EnforcementLifecycle}
      (hmove : op.move = some (id, f))
      (hs : s' = { s with enforcementHistory := (updateReceipt f id s.enforcementHistory).1 }) :
      ReceiptStep s s' op (.status (updateReceipt f id s.enforcementHistory).2)
  | loaded {file : Option Bytes} {st : DurableState R} (hst : loadState R file = .ok st)
      (hs : s' = restart s st) : ReceiptStep s s' (.load file) (.status ok)

theorem receipts_cases {s s' : State R} {op : Op R} {r : Response R}
    (h : apply s op = some (s', r)) : ReceiptStep s s' op r := by
  cases frame_cases h with
  | policies h' | ingested h' | saved h' => rw [h']; exact .same rfl rfl rfl rfl
  | contracts hop h' | objectives hop h' =>
    rw [h']
    cases op with
    | transition id dst now | completeEnforcement id now | load file => cases hop
    | _ => exact .same rfl rfl rfl rfl
  | evaluated _ h' => exact .same (by rw [h']) rfl rfl rfl
  | @authorized intent now _ hx =>
    rcases authorize_cases s intent now with ⟨_, h'⟩ | ⟨c, p, hc, he, ha, hg, hact, hp, hpg, h'⟩
    · cases hx.symm.trans h'
      exact .same rfl rfl rfl rfl
    · cases hx.symm.trans h'
      exact .issued ⟨hc, he, ha, hg, hact, p, hp, hpg⟩ rfl
  | dispatched h' => rw [h']; exact .same rfl rfl rfl rfl
  | transition hx | completed hx => cases hx; exact .moved rfl rfl
  | failed he h' => rw [h']; exact .same rfl rfl (loadState_error he) rfl
  | loaded hst h' => exact .loaded hst h'

/-! ## 2. Trails -/

/-- The lifecycles a receipt was seen in, each once for as long as it lasted. -/
abbrev Trail := List EnforcementLifecycle

/-- Note the present lifecycles of the receipts a history holds: theirs are the last trails. -/
def noteLifecycles (trails : List Trail) (l : List EnforcementReceipt) : List Trail :=
  let gone := trails.length - l.length
  trails.take gone ++ List.zipWith noteChange (trails.drop gone) (l.map (·.lifecycle))

/-- What is noted of a step: a new receipt begins a trail, and all the receipts held are looked
    at. -/
def noteTrails (s : State R) (trails : List Trail) (x : Op R × Response R) : List Trail :=
  match apply s x.1 with
  | none => trails
  | some (s', r) =>
    noteLifecycles (trails ++ (r.receipt.map fun rc => [rc.lifecycle]).toList)
      s'.enforcementHistory

/-- The fabric with the trail of every receipt it created. -/
abbrev Trailed (R : Type) := Watched (State R) (List Trail)

def trailedStep (w : Trailed R) (op : Op R) : Option (Trailed R × Response R) :=
  watch apply noteTrails w op

/-- The table of the legal transitions, as a relation. -/
abbrev Legal (src dst : EnforcementLifecycle) : Prop := enforcementTransitionLegal src dst = true

/-- The lifecycles an enforcement does not take effect after. -/
def EnforcementLifecycle.isEnd : EnforcementLifecycle → Bool
  | .failed | .cancelled | .superseded | .expired | .outcomeUnknown => true
  | _ => false

/-- **A lawful trail**: it starts at Authorized and follows the table, with Dispatched and then
    Acknowledged before Effective, and without Effective after an end. -/
structure Lawful (t : Trail) : Prop where
  walk : Walk Legal .authorized t
  effective : ∀ p q, t = p ++ .effective :: q → ∃ p', p = p' ++ [.dispatched, .acknowledged]
  ended : ∀ p x q, t = p ++ x :: q → x.isEnd = true → .effective ∉ q

theorem legal_effective {src : EnforcementLifecycle} (h : Legal src .effective) :
    src = .acknowledged := by
  cases src <;> first | rfl | cases h

theorem legal_acknowledged {src : EnforcementLifecycle} (h : Legal src .acknowledged) :
    src = .dispatched := by
  cases src <;> first | rfl | cases h

theorem legal_end {src dst : EnforcementLifecycle} (h : Legal src dst) (hsrc : src.isEnd = true) :
    dst.isEnd = true := by
  cases src <;> cases dst <;> first
    | rfl
    | exact absurd h (by decide)
    | exact absurd hsrc (by decide)

/-- Following the table is enough. -/
theorem lawful_of_walk {t : Trail} (h : Walk Legal .authorized t) : Lawful t := by
  refine ⟨h, fun p q ht => ?_, fun p x q ht hx hmem => ?_⟩
  · rw [ht] at h
    obtain ⟨p₁, x, rfl, hx, hp₁⟩ := h.reached (by decide)
    cases legal_effective hx
    obtain ⟨p₂, y, rfl, hy, _⟩ := hp₁.reached (by decide)
    cases legal_acknowledged hy
    exact ⟨p₂, by simp⟩
  · rw [ht] at h
    cases h.closed (E := fun l => l.isEnd = true) (fun _ _ => legal_end) hx _ hmem

/-! ## 3. The invariant -/

/-- The trail ends in the receipt's lifecycle. -/
def Ends (t : Trail) (rc : EnforcementReceipt) : Prop := t.getLast? = some rc.lifecycle

/-- The receipt keeps its lifecycle or gets one the table allows. -/
def Moves (rc rc' : EnforcementReceipt) : Prop :=
  rc'.lifecycle = rc.lifecycle ∨ Legal rc.lifecycle rc'.lifecycle

/-- The receipts held are those of the last trails. -/
def Held (trails : List Trail) (l : List EnforcementReceipt) : Prop :=
  ∃ gone held, trails = gone ++ held ∧ List.Forall₂ Ends held l

omit [Pod R] [Double R] in
theorem moves_updateReceipt {f : EnforcementLifecycle → Except Status EnforcementLifecycle}
    (hf : LegalUpdate f) (id : EnforcementId) :
    ∀ l : List EnforcementReceipt, List.Forall₂ Moves l (updateReceipt f id l).1
  | [] => .nil
  | rc :: rest => by
      have hrefl : ∀ l : List EnforcementReceipt, List.Forall₂ Moves l l :=
        fun l => List.forall₂_same.mpr fun _ _ => Or.inl rfl
      unfold updateReceipt
      split
      · split
        · rename_i lc hlc
          exact .cons (hf _ _ hlc) (hrefl rest)
        · exact hrefl _
      · exact .cons (Or.inl rfl) (moves_updateReceipt hf id rest)

omit [Pod R] [Double R] in
/-- Looking at receipts that moved: every trail goes on lawfully and ends where its receipt
    is. -/
theorem noteChange_moved {held : List Trail} {l : List EnforcementReceipt}
    (hheld : List.Forall₂ Ends held l) (hwalk : ∀ t ∈ held, Walk Legal .authorized t) :
    ∀ {l' : List EnforcementReceipt}, List.Forall₂ Moves l l' →
    List.Forall₂ Ends (List.zipWith noteChange held (l'.map (·.lifecycle))) l' ∧
      ∀ t ∈ List.zipWith noteChange held (l'.map (·.lifecycle)), Walk Legal .authorized t := by
  induction hheld with
  | nil =>
    intro l' hl
    cases hl
    exact ⟨.nil, by simp⟩
  | @cons t rc held l hend hheld ih =>
    intro l' hl
    cases hl with
    | @cons _ rc' _ l' hmove hl =>
      obtain ⟨ht, hrest⟩ := List.forall_mem_cons.mp hwalk
      obtain ⟨hends, hwalks⟩ := ih hrest hl
      have hwalk' : Walk Legal .authorized (noteChange t rc'.lifecycle) := by
        unfold noteChange
        split
        · exact ht
        · rename_i hne
          rcases hmove with hsame | hlegal
          · exact absurd (hsame ▸ hend) hne
          · exact ht.snoc hend hlegal
      exact ⟨.cons (getLast?_noteChange _ _) hends, List.forall_mem_cons.mpr ⟨hwalk', hwalks⟩⟩

/-- Every trail follows the table, and the last ones are those of the receipts held. -/
structure TrailsInv (trails : List Trail) (l : List EnforcementReceipt) : Prop where
  walk : ∀ t ∈ trails, Walk Legal .authorized t
  held : Held trails l

omit [Pod R] [Double R] in
/-- Looking at receipts that moved keeps the invariant. -/
theorem TrailsInv.note {trails : List Trail} {l l' : List EnforcementReceipt}
    (h : TrailsInv trails l) (hl : List.Forall₂ Moves l l') :
    TrailsInv (noteLifecycles trails l') l' := by
  obtain ⟨hwalk, gone, held, rfl, hheld⟩ := h
  have hlen : (gone ++ held).length - l'.length = gone.length := by
    rw [List.length_append, ← hl.length_eq, hheld.length_eq, Nat.add_sub_cancel]
  obtain ⟨hends, hwalks⟩ := noteChange_moved hheld
    (fun t ht => hwalk t (List.mem_append_right _ ht)) hl
  have hnote : noteLifecycles (gone ++ held) l' =
      gone ++ List.zipWith noteChange held (l'.map (·.lifecycle)) := by
    unfold noteLifecycles
    simp only
    rw [hlen, List.take_left, List.drop_left]
  rw [hnote]
  refine ⟨fun t ht => ?_, gone, _, rfl, hends⟩
  rcases List.mem_append.mp ht with ht | ht
  · exact hwalk t (List.mem_append_left _ ht)
  · exact hwalks t ht

omit [Pod R] [Double R] in
/-- A new receipt begins a trail; the history may give up its oldest receipt for it. -/
theorem TrailsInv.push {trails : List Trail} {l : List EnforcementReceipt}
    (h : TrailsInv trails l) {rc : EnforcementReceipt} (hrc : rc.lifecycle = .authorized) :
    TrailsInv (trails ++ [[rc.lifecycle]]) (pushHistory l rc) := by
  obtain ⟨hwalk, gone, held, rfl, hheld⟩ := h
  have hnew : List.Forall₂ Ends [[rc.lifecycle]] [rc] := .cons rfl .nil
  refine ⟨fun t ht => ?_, ?_⟩
  · rcases List.mem_append.mp ht with ht | ht
    · exact hwalk t ht
    · rw [List.mem_singleton.mp ht, hrc]
      exact .single _ _
  · unfold pushHistory
    split
    · cases hheld with
      | nil => exact ⟨gone, [[rc.lifecycle]], by simp, hnew⟩
      | @cons t _ held l _ hheld =>
        exact ⟨gone ++ [t], held ++ [[rc.lifecycle]], by simp, List.rel_append hheld hnew⟩
    · exact ⟨gone, held ++ [[rc.lifecycle]], by simp, List.rel_append hheld hnew⟩

/-- **The step lemma.** -/
theorem trails_step {w w' : Trailed R} {op : Op R} {r : Response R}
    (hw : TrailsInv w.seen w.state.enforcementHistory) (hop : ∀ file, op ≠ .load file)
    (h : trailedStep w op = some (w', r)) : TrailsInv w'.seen w'.state.enforcementHistory := by
  obtain ⟨hs, hseen⟩ := watch_cases h
  have hnote : w'.seen = noteLifecycles
      (w.seen ++ (r.receipt.map fun rc => [rc.lifecycle]).toList) w'.state.enforcementHistory := by
    rw [hseen, noteTrails, hs]
  have hrefl : ∀ l : List EnforcementReceipt, List.Forall₂ Moves l l :=
    fun l => List.forall₂_same.mpr fun _ _ => Or.inl rfl
  cases receipts_cases hs with
  | same hsame _ _ hauth =>
    rw [hnote, hsame, hauth]
    show TrailsInv (noteLifecycles (w.seen ++ []) _) _
    rw [List.append_nil]
    exact hw.note (hrefl _)
  | issued _ hs' =>
    rw [hnote, hs']
    exact (hw.push rfl).note (hrefl _)
  | @moved _ id f hmove hs' =>
    have hmoves := moves_updateReceipt (legalUpdate_move hmove) id w.state.enforcementHistory
    rw [hnote, hs']
    show TrailsInv (noteLifecycles (w.seen ++ []) _) _
    rw [List.append_nil]
    exact hw.note hmoves
  | @loaded file _ _ _ => exact absurd rfl (hop file)

/-! ## 4. Lifecycles -/

/-- Does the answer say that the call failed? -/
def Response.fails : Response R → Bool
  | .status st => !st.isOk
  | .evaluated (.error _) => true
  | .authorized (.error _) => true
  | _ => false

/-- **What a call does to the receipts**: `transition` and `complete_enforcement` change at most
    the lifecycle of the receipt they name, and there is no other of its id; `authorize` adds its
    receipt; no other call and no failing one changes any. -/
structure OnlyNamed (s s' : State R) (op : Op R) (r : Response R) : Prop where
  named : ∀ id f, op.move = some (id, f) → s'.enforcementHistory = s.enforcementHistory ∨
    ∃ before rc after lc, s.enforcementHistory = before ++ rc :: after ∧ rc.id = id ∧
      (∀ z ∈ before ++ after, z.id ≠ id) ∧
      s'.enforcementHistory = before ++ { rc with lifecycle := lc } :: after
  created : op.move = none → s'.enforcementHistory = s.enforcementHistory ∨
    ∃ rc, r.receipt = some rc ∧ s'.enforcementHistory = pushHistory s.enforcementHistory rc
  failing : r.fails = true → s'.enforcementHistory = s.enforcementHistory

omit [Pod R] [Double R] in
/-- An update changes the only receipt of its id, and none when it fails. -/
theorem updateReceipt_named (f : EnforcementLifecycle → Except Status EnforcementLifecycle)
    (id : EnforcementId) {l : List EnforcementReceipt} (hn : (l.map (·.id)).Nodup) :
    ((updateReceipt f id l).1 = l ∨
      ∃ before rc after lc, l = before ++ rc :: after ∧ rc.id = id ∧
        (∀ z ∈ before ++ after, z.id ≠ id) ∧
        (updateReceipt f id l).1 = before ++ { rc with lifecycle := lc } :: after) ∧
    ((updateReceipt f id l).2.isOk = false → (updateReceipt f id l).1 = l) := by
  rcases updateReceipt_cases f id l with ⟨_, h⟩ | ⟨before, rc, after, lc, st, rfl, hid, _, h, hf⟩
  · rw [h]
    exact ⟨Or.inl rfl, fun _ => rfl⟩
  · rw [h]
    refine ⟨Or.inr ⟨before, rc, after, lc, rfl, hid, fun z hz hzid => ?_, rfl⟩, fun hst => ?_⟩
    · -- `z` would be a second receipt of the id
      rw [List.map_append, List.map_cons] at hn
      have hmem : rc.id ∈ before.map (·.id) ++ after.map (·.id) := by
        rw [← List.map_append, hid, ← hzid]
        exact List.mem_map_of_mem hz
      exact (List.nodup_cons.mp (List.nodup_middle.mp hn)).1 hmem
    · rcases hf with ⟨_, rfl⟩ | ⟨_, rfl⟩
      · cases hst
      · rfl

theorem onlyNamed_step {s s' : State R} {op : Op R} {r : Response R}
    (hn : (s.enforcementHistory.map (·.id)).Nodup) (hop : ∀ file, op ≠ .load file)
    (h : apply s op = some (s', r)) : OnlyNamed s s' op r := by
  cases receipts_cases h with
  | same hsame hmove _ _ =>
    refine ⟨fun id f hm => ?_, fun _ => Or.inl hsame, fun _ => hsame⟩
    rw [hmove] at hm
    cases hm
  | issued _ hs =>
    rw [hs]
    exact ⟨nofun, fun _ => Or.inr ⟨_, rfl, rfl⟩, nofun⟩
  | @moved _ id f hmove hs =>
    obtain ⟨hnamed, hfail⟩ := updateReceipt_named f id hn
    rw [hs]
    refine ⟨fun id' f' hm => ?_, fun hm => ?_, fun hr => hfail ?_⟩
    · rw [hmove] at hm
      cases hm
      exact hnamed
    · rw [hmove] at hm
      cases hm
    · simpa [Response.fails] using hr
  | @loaded file _ _ _ => exact absurd rfl (hop file)

omit [Pod R] [Double R] in
theorem length_noteLifecycles (trails : List Trail) (l : List EnforcementReceipt) :
    (noteLifecycles trails l).length = trails.length := by
  unfold noteLifecycles
  simp only [List.length_append, List.length_take, List.length_zipWith, List.length_drop,
    List.length_map]
  omega

/-- The receipts `authorize` created in a run, in order. -/
def receiptsOf (tr : Trace R) : List EnforcementReceipt := tr.filterMap fun x => x.2.receipt

/-- **Every receipt created has a trail.** -/
theorem trails_length {C : Trailed R → Op R → Prop} {w : Trailed R} {tr : Trace R}
    (h : Run trailedStep C ⟨State.fresh R, []⟩ tr w) : w.seen.length = (receiptsOf tr).length := by
  refine h.history (I := fun tr w => w.seen.length = (receiptsOf tr).length) rfl
    fun tr w op w' r hlen _ hstep => ?_
  obtain ⟨hs, hseen⟩ := watch_cases hstep
  rw [hseen, noteTrails, hs, receiptsOf, List.filterMap_append]
  simp only [length_noteLifecycles, List.length_append, hlen, receiptsOf]
  cases hr : r.receipt <;> simp [hr]

/-- **Enforcement lifecycle.** In every run without load: every receipt `authorize` created has
    a trail, all trails are lawful, the receipts held are where their trails end, and the next
    call changes at most the receipt it names. -/
theorem lifecycle_run {w : Trailed R} {tr : Trace R}
    (h : Run trailedStep (fun _ op => ∀ file, op ≠ .load file) ⟨State.fresh R, []⟩ tr w) :
    w.seen.length = (receiptsOf tr).length ∧ (∀ t ∈ w.seen, Lawful t) ∧
    Held w.seen w.state.enforcementHistory ∧
    ∀ (op : Op R) (s' : State R) (r : Response R), (∀ file, op ≠ .load file) →
      apply w.state op = some (s', r) → OnlyNamed w.state s' op r := by
  have htrails : TrailsInv w.seen w.state.enforcementHistory := by
    refine h.invariant (I := fun w => TrailsInv w.seen w.state.enforcementHistory) ?_
      fun w op w' r hw hop => trails_step hw hop
    exact ⟨by simp, [], [], rfl, .nil⟩
  have hclear : HistoriesBounded w.state ∧
      ReceiptsClear w.state.enforcementCounter w.state.enforcementHistory := by
    refine h.invariant (I := fun w => HistoriesBounded w.state ∧
      ReceiptsClear w.state.enforcementCounter w.state.enforcementHistory) ?_ ?_
    · exact ⟨⟨Nat.zero_le _, Nat.zero_le _⟩, Clear.nil _ _⟩
    · intro w op w' r hw hop hstep
      obtain ⟨hs, _⟩ := watch_cases hstep
      exact ⟨historiesBounded_step hw.1 hs, receiptsClear_step hw.2 hw.1
        (fun file _ hload _ => absurd hload (hop file)) hs⟩
  refine ⟨trails_length h, fun t ht => lawful_of_walk (htrails.walk t ht), htrails.held, ?_⟩
  exact fun op s' r hop hs => onlyNamed_step hclear.2.nodup hop hs

/-- An enforcement that takes effect, and is superseded then. -/
theorem lifecycle_run_small :
    ∃ (w : Trailed Binary64) (tr : Trace Binary64),
      w.seen = [[.authorized, .dispatched, .acknowledged, .effective, .superseded]] ∧
      w.seen.length = (receiptsOf tr).length ∧ (∀ t ∈ w.seen, Lawful t) ∧
      Held w.seen w.state.enforcementHistory ∧
      ∀ (op : Op Binary64) (s' : State Binary64) (r : Response Binary64),
        (∀ file, op ≠ .load file) → apply w.state op = some (s', r) →
        OnlyNamed w.state s' op r := by
  have htest : (execute trailedStep (fun _ op => !op.isLoad) ⟨State.fresh Binary64, []⟩
      (evaluated 1 ++ [.authorize (smallIntent 1) 0, .transition ⟨1⟩ .dispatched 0,
        .completeEnforcement ⟨1⟩ 0, .transition ⟨1⟩ .acknowledged 0, .completeEnforcement ⟨1⟩ 0,
        .transition ⟨1⟩ .superseded 0])).any (fun x => x.1.seen =
          [[.authorized, .dispatched, .acknowledged, .effective, .superseded]]) = true := by
    decide +kernel
  obtain ⟨w, tr, hrun, hseen⟩ := Run.of_test (fun _ _ => not_load) htest
  exact ⟨w, tr, of_decide_eq_true hseen, lifecycle_run hrun⟩

end SloFabric
