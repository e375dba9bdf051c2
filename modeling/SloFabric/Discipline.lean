/-
  File:      SloFabric/Discipline.lean
  Subject:   A caller who authorizes what was reported to him, and once, keeps every cooldown.

  * `standing`: the intents for an objective that were reported since it was last authorized, with
    the times of their evaluations;
  * `Disciplined`: only a standing intent is authorized, and not before its evaluation;
  * `evaluate_rested`: an evaluation that asks for an action found the objective rested;
  * `DisciplineInv`, `discipline_step`: it still is while the intent stands;
  * `authorizations_apart`: so any two authorizations are five seconds apart.
-/
import SloFabric.Cooldown

namespace SloFabric

variable {R : Type}

/-! ## 1. Standing intents -/

/-- An intent, with the time of the evaluation that reported it. -/
abbrev Standing := EnforcementIntent × Duration

/-- One more step: an evaluation that asks for an action for the objective adds its intent, an
    authorization of the objective uses them all up. -/
def standingNext (k : ObjectiveId) (l : List Standing) : Op R × Response R → List Standing
  | (.evaluate _ _ t, .evaluated (.ok res)) =>
    if res.intent.objectiveId = k ∧ res.intent.action ≠ .noAction then (res.intent, t) :: l else l
  | (.authorize intent _, .authorized (.ok _)) => if intent.objectiveId = k then [] else l
  | _ => l

/-- An intent that stands after a step stood before, or an evaluation has just reported it. -/
theorem mem_standingNext {k : ObjectiveId} {l : List Standing} {op : Op R} {r : Response R}
    {y : Standing} (h : y ∈ standingNext k l (op, r)) :
    y ∈ l ∨ ∃ service workload t res, op = .evaluate service workload t ∧
      r = .evaluated (.ok res) ∧ res.intent.objectiveId = k ∧ res.intent.action ≠ .noAction ∧
      y = (res.intent, t) := by
  unfold standingNext at h
  split at h
  · rename_i service workload t res heq
    cases heq
    split at h
    · rename_i hnew
      rcases List.mem_cons.mp h with rfl | h
      · exact Or.inr ⟨service, workload, t, res, rfl, rfl, hnew.1, hnew.2, rfl⟩
      · exact Or.inl h
    · exact Or.inl h
  · split at h
    · exact absurd h List.not_mem_nil
    · exact Or.inl h
  · exact Or.inl h

/-- The fabric, with a caller who remembers the standing intents. -/
def attended [Pod R] [Double R] [Platform R] (k : ObjectiveId) :
    Watched (State R) (List Standing) → Op R →
      Option (Watched (State R) (List Standing) × Response R) :=
  watch apply fun _ l x => standingNext k l x

/-- The steps of the caller: no load, one generation, and whatever is authorized for the objective
    stands, was not reported later than it is authorized, and rests within 64 bits. -/
structure Disciplined (k : ObjectiveId) (g : ObjectiveGen)
    (w : Watched (State R) (List Standing)) (op : Op R) : Prop where
  steady : Steady k g w.state op
  stands : ∀ intent now, op = .authorize intent now → intent.objectiveId = k →
    now.toInt + intentCooldown.toInt < 2 ^ 63 ∧ ∃ t, (intent, t) ∈ w.seen ∧ t ≤ now

/-! ## 2. Evaluations -/

/-- The objective has an accumulator whose cooldown is over at a time. -/
def RestedAt (s : State R) (k : ObjectiveId) (t : Duration) : Prop :=
  ∃ a, s.accumulators.find k = some a ∧ a.cooldownUntil ≤ t

/-- **An evaluation that asks for an action found the objective rested.** -/
theorem evaluate_rested [Double R] [Platform R] {s s' : State R} {service : ServiceId}
    {workload : WorkloadId} {now : Duration} {res : EvaluationResult R}
    (h : evaluate s service workload now = some (s', .ok res))
    (hact : res.intent.action ≠ .noAction) :
    res.intent.cooldown = intentCooldown ∧ RestedAt s' res.intent.objectiveId now := by
  rcases evaluate_cases h with ⟨_, hst, _⟩ | ⟨c, policy, overall, binding, digest, _, _, _, ho, hr,
    rfl⟩
  · cases hst
  · rw [Except.ok.injEq] at hr
    subst hr
    rcases overallOf_cases ho with ⟨rfl, _⟩ | ⟨rfl, _⟩ | ⟨ev, hev, rfl, rfl, _⟩
    · exact absurd rfl hact
    · exact absurd rfl hact
    · obtain ⟨i, _, hobj, _⟩ := mem_evaluateObjectives hev
      obtain ⟨_, _, _, hover⟩ := selectAction_ne_noAction hact
      have hsome := accumulatorsAfter_find now c.objectives s.accumulators ev.obj
        (Or.inl (List.mem_of_getElem? hobj))
      obtain ⟨a, ha⟩ := Option.isSome_iff_exists.mp hsome
      rw [cooldownOf, ha] at hover
      exact ⟨rfl, a, ha, Int64.not_lt.mp hover⟩

/-! ## 3. Runs -/

section Runs

variable [Pod R] [Double R] {k : ObjectiveId} {g : ObjectiveGen} {tr : Trace R}
  {w w' : Watched (State R) (List Standing)} {op : Op R} {r : Response R}

/-- The authorizations so far are apart, and the objective has rested at the evaluation of every
    standing intent. -/
structure DisciplineInv (k : ObjectiveId) (g : ObjectiveGen) (tr : Trace R)
    (w : Watched (State R) (List Standing)) : Prop where
  cooldown : CooldownInv k g tr w.state
  apart : (authorizationsOf tr k).Pairwise fun x y => x.1.toInt + x.2.toInt ≤ y.1.toInt
  rests : ∀ x ∈ authorizationsOf tr k, x.2 = intentCooldown
  stands : ∀ x ∈ w.seen, x.1.cooldown = intentCooldown ∧ RestedAt w.state k x.2

omit [Pod R] [Double R] in
/-- The accumulator of the objective keeps its cooldown, where it keeps its generation. -/
theorem RestedAt.after {s s' : State R} {os : List (Objective R)} {t : Duration}
    (hrested : RestedAt s k t) (hgen : ∀ a, s.accumulators.find k = some a → a.defn.gen = g)
    (hos : ∀ o ∈ os, o.gen = g)
    (h : After Resting os (s.accumulators.find k) (s'.accumulators.find k)) :
    RestedAt s' k t := by
  obtain ⟨a, ha, hle⟩ := hrested
  have hag := hgen a ha
  unfold RestedAt
  rw [ha] at h
  generalize s'.accumulators.find k = b at h ⊢
  cases h with
  | idle _ => exact ⟨a, rfl, hle⟩
  | kept _ hk => exact ⟨_, rfl, hk.cooldown ▸ hle⟩
  | fresh _ _ hstale _ =>
    obtain ⟨o, ho, hne⟩ := hstale a rfl
    exact absurd ((hos o ho).trans hag.symm) hne

omit [Pod R] [Double R] in
/-- A standing intent that is authorized finds the objective rested. -/
theorem DisciplineInv.restedFor (hi : DisciplineInv k g tr w) (hc : Disciplined k g w op) :
    RestedFor k w.state op := by
  intro intent now hop hk _
  obtain ⟨hfits, t, hstands, hle⟩ := hc.stands intent now hop hk
  obtain ⟨hcooldown, a, ha, hover⟩ := hi.stands _ hstands
  rw [Rested, hk, hcooldown]
  exact ⟨a, ha, Int64.not_lt.mpr (Int64.le_trans hover hle), by decide, hfits⟩

omit [Pod R] [Double R] in
/-- A step that authorizes nothing for the objective and leaves it rested. -/
theorem DisciplineInv.rest {x : Op R × Response R} (hi : DisciplineInv k g tr w)
    (hcooldown : CooldownInv k g (tr ++ [x]) w'.state) (hx : authorizationOf k x = none)
    (hkeeps : ∀ t, RestedAt w.state k t → RestedAt w'.state k t)
    (hseen : ∀ y ∈ w'.seen, y ∈ w.seen ∨
      y.1.cooldown = intentCooldown ∧ RestedAt w'.state k y.2) :
    DisciplineInv k g (tr ++ [x]) w' := by
  have hsame : authorizationsOf (tr ++ [x]) k = authorizationsOf tr k := by
    rw [authorizationsOf_append, hx]
    exact List.append_nil _
  refine ⟨hcooldown, hsame ▸ hi.apart, hsame ▸ hi.rests, fun y hy => ?_⟩
  rcases hseen y hy with hold | hnew
  · exact ⟨(hi.stands y hold).1, hkeeps _ (hi.stands y hold).2⟩
  · exact hnew

omit [Pod R] [Double R] in
/-- An authorization of a standing intent: whatever was authorized before has rested. -/
theorem DisciplineInv.authorize {intent : EnforcementIntent} {now : Duration}
    {rc : EnforcementReceipt} (hi : DisciplineInv intent.objectiveId g tr w)
    (hc : Disciplined intent.objectiveId g w (.authorize intent now))
    (hcooldown : CooldownInv intent.objectiveId g
      (tr ++ [(.authorize intent now, .authorized (.ok rc))]) w'.state)
    (hseen : w'.seen = []) : DisciplineInv intent.objectiveId g
      (tr ++ [(.authorize intent now, .authorized (.ok rc))]) w' := by
  obtain ⟨_, t, hstands, hle⟩ := hc.stands intent now rfl rfl
  obtain ⟨hrest, a, ha, hover⟩ := hi.stands _ hstands
  have hone : authorizationOf (R := R) intent.objectiveId
      (.authorize intent now, .authorized (.ok rc)) = some (now, intent.cooldown) := if_pos rfl
  have hall : authorizationsOf (tr ++ [(.authorize intent now, .authorized (.ok rc))])
      intent.objectiveId = authorizationsOf tr intent.objectiveId ++ [(now, intent.cooldown)] := by
    rw [authorizationsOf_append, hone]
    rfl
  refine ⟨hcooldown, ?_, ?_, fun y hy => ?_⟩
  · rw [hall]
    refine pairwise_push.mpr ⟨hi.apart, fun x hx => ?_⟩
    obtain ⟨b, hb, hend⟩ := hi.cooldown.known x hx
    rw [ha] at hb
    cases hb
    exact hend.trans (Int64.le_iff_toInt_le.mp (Int64.le_trans hover hle))
  · rw [hall]
    intro x hx
    rcases List.mem_append.mp hx with hold | hnew
    · exact hi.rests x hold
    · rw [List.mem_singleton.mp hnew]
      exact hrest
  · rw [hseen] at hy
    exact absurd hy List.not_mem_nil

/-- **The step lemma.** -/
theorem discipline_step [Platform R] (hi : DisciplineInv k g tr w) (hc : Disciplined k g w op)
    (h : attended k w op = some (w', r)) : DisciplineInv k g (tr ++ [(op, r)]) w' := by
  obtain ⟨hs, hseen⟩ := watch_cases h
  have hcooldown := cooldown_step hi.cooldown hc.steady (hi.restedFor hc) hs
  by_cases hauth : ∃ intent now, op = .authorize intent now
  · obtain ⟨intent, now, rfl⟩ := hauth
    obtain ⟨hstate, hr⟩ := Prod.mk.inj (Option.some.inj hs)
    rcases authorize_cases w.state intent now with ⟨st, h'⟩ | ⟨_, _, _, _, _, _, _, _, _, h'⟩
    · rw [h'] at hstate hr
      subst hr
      refine hi.rest hcooldown rfl (fun t hrested => hstate ▸ hrested) fun y hy => Or.inl ?_
      rw [hseen] at hy
      exact hy
    · rw [h'] at hstate hr
      subst hr
      by_cases hk : intent.objectiveId = k
      · subst hk
        exact hi.authorize hc hcooldown (hseen.trans (if_pos rfl))
      · have hfind : w'.state.accumulators.find k = w.state.accumulators.find k := by
          rw [← hstate]
          exact (setCooldown_find _ _ _ _).trans (if_neg (Ne.symm hk))
        refine hi.rest hcooldown (if_neg hk) (fun t hrested => ?_) fun y hy => Or.inl ?_
        · rwa [RestedAt, hfind]
        · rw [hseen] at hy
          rwa [standingNext, if_neg hk] at hy
  · have hother : ∀ intent now, op ≠ .authorize intent now :=
      fun intent now heq => hauth ⟨intent, now, heq⟩
    have hnone : authorizationOf k (op, r) = none :=
      authorizationOf_ne fun intent now heq => absurd heq (hother intent now)
    have hos : ∀ o ∈ (acquires w.state op).filter (·.id = k), o.gen = g := by
      intro o ho
      obtain ⟨ho, hid⟩ := List.mem_filter.mp ho
      exact hc.steady.generation o (acquires_stored ho) (of_decide_eq_true hid)
    refine hi.rest hcooldown hnone (fun t hrested => hrested.after hi.cooldown.gen hos
      (resting_step hs hc.steady.noLoad hother k)) fun y hy => ?_
    rw [hseen] at hy
    rcases mem_standingNext hy with hold | ⟨service, workload, t, res, rfl, rfl, rfl, hact, rfl⟩
    · exact Or.inl hold
    · obtain ⟨⟨s', x⟩, hx, hr⟩ := Option.map_eq_some_iff.mp hs
      obtain ⟨hstate, hres⟩ := Prod.mk.inj hr
      cases hres
      obtain ⟨hcool, hrested⟩ := evaluate_rested hx hact
      exact Or.inr ⟨hcool, hstate ▸ hrested⟩

/-- **Whoever authorizes standing intents keeps every cooldown.** In every run without loads in
    which all definitions of the objective are of one generation: if each authorization of the
    objective is of an intent that was reported since the one before, no later than it is
    authorized, then any two of them are five seconds apart. -/
theorem authorizations_apart [Platform R]
    (h : Run (attended k) (Disciplined k g) ⟨State.fresh R, []⟩ tr w) :
    (authorizationsOf tr k).Pairwise fun x y => x.1.toInt + 5000000000 ≤ y.1.toInt := by
  have hinv := h.history (I := DisciplineInv k g)
    ⟨⟨.nil, fun _ ha => (by cases ha), fun _ hx => (by cases hx)⟩, .nil,
      fun _ hx => (by cases hx), fun _ hx => (by cases hx)⟩
    fun tr s op s' r hi hc hs => discipline_step hi hc hs
  refine hinv.apart.imp_of_mem fun hx _ hxy => ?_
  rwa [hinv.rests _ hx] at hxy

end Runs

/-! ## 4. Two violations, two authorizations -/

/-- `Disciplined`, as a test. -/
def disciplinedTest (k : ObjectiveId) (g : ObjectiveGen)
    (w : Watched (State Binary64) (List Standing)) (op : Op Binary64) : Bool :=
  steadyTest k g w.state op &&
    match op with
    | .authorize intent now =>
      decide (now.toInt + intentCooldown.toInt < 2 ^ 63) &&
        w.seen.any fun x => decide (x.1 = intent ∧ x.2 ≤ now)
    | _ => true

theorem disciplined_of_test {k : ObjectiveId} {g : ObjectiveGen}
    {w : Watched (State Binary64) (List Standing)} {op : Op Binary64}
    (h : disciplinedTest k g w op = true) : Disciplined k g w op := by
  obtain ⟨hsteady, hstands⟩ := Bool.and_eq_true_iff.mp h
  refine ⟨steady_of_test hsteady, ?_⟩
  rintro intent now rfl _
  obtain ⟨hfits, hany⟩ := Bool.and_eq_true_iff.mp hstands
  obtain ⟨⟨i, t⟩, hmem, hp⟩ := List.any_eq_true.mp hany
  obtain ⟨rfl, hle⟩ := of_decide_eq_true hp
  exact ⟨of_decide_eq_true hfits, t, hmem, hle⟩

/-- A violated latency is reported and answered twice, the second time when the cooldown is
    over. -/
theorem authorizations_apart_small :
    ∃ tr w, Run (attended ⟨1⟩) (Disciplined ⟨1⟩ ⟨1⟩) ⟨State.fresh Binary64, []⟩ tr w ∧
      (authorizationsOf tr ⟨1⟩).length = 2 ∧
      (authorizationsOf tr ⟨1⟩).Pairwise fun x y => x.1.toInt + 5000000000 ≤ y.1.toInt := by
  let ops : List (Op Binary64) := evaluated 1 ++ [.authorize (smallIntent 1) 0,
    .ingest { smallEvidence 2 1 200000000 with time := 5000000000 } 5000000000,
    .evaluate ⟨1⟩ ⟨1⟩ 5000000000, .authorize (smallIntent 2) 5000000000]
  have htest : (execute (attended ⟨1⟩) (disciplinedTest ⟨1⟩ ⟨1⟩) ⟨State.fresh Binary64, []⟩
      ops).any (fun x => decide ((authorizationsOf x.2 ⟨1⟩).length = 2)) = true := by
    decide +kernel
  obtain ⟨w, tr, hrun, hp⟩ := Run.of_test (fun _ _ => disciplined_of_test) htest
  exact ⟨tr, w, hrun, of_decide_eq_true hp, authorizations_apart hrun⟩

end SloFabric
