/-
  File:      SloFabric/Cooldown.lean
  Subject:   How far apart in time the authorizations of one objective are.

  * `authorizationsOf`, `Spaced`: the authorizations of an objective in a run, and that none of
    them falls into the cooldown of an earlier one;
  * `Rested`: what `evaluate` heeds and `authorize` does not ask for -- the objective has an
    accumulator, its cooldown is over, and the new one ends later;
  * `cooldown_step`, `cooldown_run`: authorizations that meet it are spaced;
  * `cooldown_fails`: one intent is authorized twice.
-/
import SloFabric.Accounts
import SloFabric.Authority
import SloFabric.Library.Recency

namespace SloFabric

variable {R : Type}

/-! ## 1. Authorizations -/

/-- When one step authorizes an enforcement of the objective, and for how long it is to rest
    then. -/
def authorizationOf (k : ObjectiveId) : Op R × Response R → Option (Duration × Duration)
  | (.authorize intent now, .authorized (.ok _)) =>
    if intent.objectiveId = k then some (now, intent.cooldown) else none
  | _ => none

/-- The authorizations of an objective in a run, in order. -/
def authorizationsOf (tr : Trace R) (k : ObjectiveId) : List (Duration × Duration) :=
  tr.filterMap (authorizationOf k)

/-- **Cooldown spacing**: no authorization of the objective falls into the cooldown of an
    earlier one. -/
def Spaced (tr : Trace R) (k : ObjectiveId) : Prop :=
  (authorizationsOf tr k).Pairwise fun x y => x.1 ≤ y.1 → x.1.toInt + x.2.toInt ≤ y.1.toInt

/-- The steps the law is about: no load, and all definitions of the objective are of one
    generation. -/
structure Steady (k : ObjectiveId) (g : ObjectiveGen) (s : State R) (op : Op R) : Prop where
  noLoad : ∀ file, op ≠ .load file
  generation : ∀ o ∈ allObjectives s.contracts, o.id = k → o.gen = g

/-- The objective has an accumulator whose cooldown is over, and the cooldown of the intent ends
    later, within 64 bits. -/
def Rested (s : State R) (intent : EnforcementIntent) (now : Duration) : Prop :=
  ∃ a, s.accumulators.find intent.objectiveId = some a ∧ ¬ now < a.cooldownUntil ∧
    0 ≤ intent.cooldown ∧ now.toInt + intent.cooldown.toInt < 2 ^ 63

/-- The condition on runs: the objective is rested whenever `authorize`'s checks pass for it. -/
def RestedFor (k : ObjectiveId) (s : State R) (op : Op R) : Prop :=
  ∀ intent now, op = .authorize intent now → intent.objectiveId = k →
    (∃ c, Checked s intent now c) → Rested s intent now

/-! ## 2. The invariant -/

/-- Definition and cooldown are those of `a`. -/
structure Resting (a b : ObjectiveAccumulator R) : Prop where
  defn : b.defn = a.defn
  cooldown : b.cooldownUntil = a.cooldownUntil

theorem resting_carried : Carried (Resting (R := R)) where
  refl _ := ⟨rfl, rfl⟩
  trans _ _ _ h h' := ⟨h'.defn.trans h.defn, h'.cooldown.trans h.cooldown⟩
  defn _ _ h := h.defn
  recover _ _ _ := ⟨rfl, rfl⟩
  fund _ _ _ := ⟨rfl, rfl⟩
  judge _ _ _ := ⟨rfl, rfl⟩

/-- The authorizations so far are spaced, and the accumulator of the objective, which is there
    since the first of them, knows the end of every cooldown. -/
structure CooldownInv (k : ObjectiveId) (g : ObjectiveGen) (tr : Trace R) (s : State R) :
    Prop where
  spaced : Spaced tr k
  gen : ∀ a, s.accumulators.find k = some a → a.defn.gen = g
  known : ∀ x ∈ authorizationsOf tr k, ∃ a, s.accumulators.find k = some a ∧
    x.1.toInt + x.2.toInt ≤ a.cooldownUntil.toInt

theorem authorizationsOf_append (tr : Trace R) (x : Op R × Response R) (k : ObjectiveId) :
    authorizationsOf (tr ++ [x]) k = authorizationsOf tr k ++ (authorizationOf k x).toList := by
  unfold authorizationsOf
  rw [List.filterMap_append]
  cases h : authorizationOf k x <;> simp [h]

/-- A step that authorizes nothing for the objective and leaves its accumulator at rest. -/
theorem CooldownInv.rest {k : ObjectiveId} {g : ObjectiveGen} {tr : Trace R} {s s' : State R}
    {x : Op R × Response R} {os : List (Objective R)} (hi : CooldownInv k g tr s)
    (hx : authorizationOf k x = none) (hos : ∀ o ∈ os, o.gen = g)
    (h : After Resting os (s.accumulators.find k) (s'.accumulators.find k)) :
    CooldownInv k g (tr ++ [x]) s' := by
  have hsame : authorizationsOf (tr ++ [x]) k = authorizationsOf tr k := by
    rw [authorizationsOf_append, hx]
    exact List.append_nil _
  obtain ⟨hspaced, hgen, hknown⟩ := hi
  generalize s.accumulators.find k = a at h hgen hknown
  refine ⟨by rwa [Spaced, hsame], fun b hb => ?_, fun y hy => ?_⟩
  · rw [hb] at h
    cases h with
    | idle _ => exact hgen b rfl
    | kept _ hk =>
      rw [hk.defn]
      exact hgen _ rfl
    | fresh ho _ _ hk =>
      rw [hk.defn]
      exact hos _ ho
  · rw [hsame] at hy
    obtain ⟨b, rfl, hle⟩ := hknown y hy
    generalize s'.accumulators.find k = a' at h ⊢
    cases h with
    | idle _ => exact ⟨b, rfl, hle⟩
    | kept _ hk => exact ⟨_, rfl, by rwa [hk.cooldown]⟩
    | fresh _ _ hstale _ =>
      -- the accumulator is wiped only for another generation, and there is none
      obtain ⟨o, ho, hne⟩ := hstale b rfl
      exact absurd ((hos o ho).trans (hgen b rfl).symm) hne

/-- Only an authorization for the objective authorizes anything for it. -/
theorem authorizationOf_ne {k : ObjectiveId} {op : Op R} {r : Response R}
    (h : ∀ intent now, op = .authorize intent now → intent.objectiveId ≠ k) :
    authorizationOf k (op, r) = none := by
  unfold authorizationOf
  split
  · rename_i intent now _ heq
    cases heq
    exact if_neg (h intent now rfl)
  · rfl

/-- An authorization that finds the objective rested. -/
theorem CooldownInv.authorize {g : ObjectiveGen} {tr : Trace R} {s : State R}
    {intent : EnforcementIntent} {now : Duration} {rc : EnforcementReceipt}
    (hi : CooldownInv intent.objectiveId g tr s) (hrest : Rested s intent now) {s' : State R}
    (hs : s'.accumulators =
      setCooldown s.accumulators intent.objectiveId (now + intent.cooldown)) :
    CooldownInv intent.objectiveId g (tr ++ [(.authorize intent now, .authorized (.ok rc))])
      s' := by
  obtain ⟨a, ha, hover, hpos, hfits⟩ := hrest
  have hstop : (now + intent.cooldown).toInt = now.toInt + intent.cooldown.toInt := by
    have hlow := Int64.le_toInt now
    rw [Int64.le_iff_toInt_le, Int64.toInt_zero] at hpos
    rw [Int64.toInt_add]
    exact Int.bmod_eq_of_le (by omega) (by omega)
  have hlater : a.cooldownUntil.toInt ≤ now.toInt :=
    Int64.le_iff_toInt_le.mp (Int64.not_lt.mp hover)
  have hfind : s'.accumulators.find intent.objectiveId =
      some { a with cooldownUntil := now + intent.cooldown } := by
    rw [hs, setCooldown_find, if_pos rfl, ha]
    rfl
  have hearlier : ∀ x ∈ authorizationsOf tr intent.objectiveId,
      x.1.toInt + x.2.toInt ≤ now.toInt := by
    intro x hx
    obtain ⟨b, hb, hle⟩ := hi.known x hx
    rw [ha] at hb
    cases hb
    exact hle.trans hlater
  have hone : authorizationOf (R := R) intent.objectiveId
      (.authorize intent now, .authorized (.ok rc)) = some (now, intent.cooldown) :=
    if_pos rfl
  refine ⟨?_, fun b hb => ?_, fun x hx => ?_⟩
  · rw [Spaced, authorizationsOf_append, hone]
    exact pairwise_push.mpr ⟨hi.spaced, fun x hx _ => hearlier x hx⟩
  · rw [hfind] at hb
    cases hb
    exact hi.gen a ha
  · refine ⟨_, hfind, ?_⟩
    show _ ≤ (now + intent.cooldown).toInt
    rw [hstop]
    rw [authorizationsOf_append, hone] at hx
    rcases List.mem_append.mp hx with hx | hx
    · rw [Int64.le_iff_toInt_le, Int64.toInt_zero] at hpos
      have hle := hearlier x hx
      omega
    · rw [List.mem_singleton.mp hx]

/-! ## 3. Runs -/

section Runs

variable [Pod R] [Double R] [Platform R]

/-- Nothing but an authorization or a load sets a cooldown. -/
theorem resting_step {s s' : State R} {op : Op R} {r : Response R} (h : apply s op = some (s', r))
    (hload : ∀ file, op ≠ .load file) (hauth : ∀ intent now, op ≠ .authorize intent now)
    (k : ObjectiveId) : After Resting ((acquires s op).filter (·.id = k))
      (s.accumulators.find k) (s'.accumulators.find k) := by
  by_cases hing : ∃ e now, op = .ingest e now
  · obtain ⟨e, now, rfl⟩ := hing
    cases h
    refine account_ingest resting_carried (fun o a e => ?_) s e now k
    exact ⟨(offer_conduct o a e).defn, (offer_conduct o a e).cooldownUntil⟩
  · exact account_step resting_carried h (fun e now heq => hing ⟨e, now, heq⟩) hload hauth k

/-- **The step lemma.** -/
theorem cooldown_step {k : ObjectiveId} {g : ObjectiveGen} {tr : Trace R} {s s' : State R}
    {op : Op R} {r : Response R} (hi : CooldownInv k g tr s) (hsteady : Steady k g s op)
    (hrest : RestedFor k s op) (h : apply s op = some (s', r)) :
    CooldownInv k g (tr ++ [(op, r)]) s' := by
  have hos : ∀ o ∈ (acquires s op).filter (·.id = k), o.gen = g := by
    intro o ho
    obtain ⟨ho, hid⟩ := List.mem_filter.mp ho
    exact hsteady.generation o (acquires_stored ho) (of_decide_eq_true hid)
  by_cases hauth : ∃ intent now, op = .authorize intent now
  · obtain ⟨intent, now, rfl⟩ := hauth
    cases h
    rcases authorize_cases s intent now with ⟨st, h'⟩ |
      ⟨c, p, hc, he, ha, hg, hcan, hp, hpg, h'⟩
    · rw [h']
      exact hi.rest rfl hos (.idle rfl)
    · rw [h']
      by_cases hk : intent.objectiveId = k
      · subst hk
        have hchecked : Checked s intent now c := ⟨hc, he, ha, hg, hcan, p, hp, hpg⟩
        exact hi.authorize (hrest intent now rfl rfl ⟨c, hchecked⟩) rfl
      · refine hi.rest (if_neg hk) hos ?_
        rw [setCooldown_find, if_neg (Ne.symm hk)]
        exact .idle rfl
  · have hother : ∀ intent now, op ≠ .authorize intent now :=
      fun intent now heq => hauth ⟨intent, now, heq⟩
    have hnone : authorizationOf k (op, r) = none :=
      authorizationOf_ne fun intent now heq => absurd heq (hother intent now)
    by_cases hing : ∃ e now, op = .ingest e now
    · obtain ⟨e, now, rfl⟩ := hing
      cases h
      refine hi.rest hnone hos (account_ingest resting_carried (fun o a e => ?_) s e now k)
      exact ⟨(offer_conduct o a e).defn, (offer_conduct o a e).cooldownUntil⟩
    · exact hi.rest hnone hos (account_step resting_carried h
        (fun e now heq => hing ⟨e, now, heq⟩) hsteady.noLoad hother k)

/-- **Authorizations that find the objective rested are spaced.** In every run without load in
    which all definitions of the objective are of one generation: if the objective is rested
    whenever the checks of `authorize` pass for it, no two authorizations of it are closer than
    the cooldown of the first. -/
theorem cooldown_run {k : ObjectiveId} {g : ObjectiveGen} {tr : Trace R} {s : State R}
    (h : Run apply (fun s op => Steady k g s op ∧ RestedFor k s op) (State.fresh R) tr s) :
    Spaced tr k := by
  refine (h.history (I := CooldownInv k g) ⟨List.Pairwise.nil, fun a ha => ?_, fun x hx => ?_⟩
    fun tr s op s' r hi hc => cooldown_step hi hc.1 hc.2).spaced
  · cases ha
  · cases hx

end Runs

/-! ## 4. One intent, twice -/

/-- `Steady`, as a test. -/
def steadyTest (k : ObjectiveId) (g : ObjectiveGen) (s : State Binary64) (op : Op Binary64) :
    Bool :=
  !op.isLoad && (allObjectives s.contracts).all fun o => o.id ≠ k || o.gen = g

theorem steady_of_test {k : ObjectiveId} {g : ObjectiveGen} {s : State Binary64}
    {op : Op Binary64} (h : steadyTest k g s op = true) : Steady k g s op := by
  obtain ⟨hop, hall⟩ := Bool.and_eq_true_iff.mp h
  refine ⟨not_load hop, fun o ho hid => ?_⟩
  simpa [hid] using List.all_eq_true.mp hall o ho

/-- Is the objective rested for whatever intent is authorized next? -/
def restedTest (s : State Binary64) : Op Binary64 → Bool
  | .authorize intent now =>
    (s.accumulators.find intent.objectiveId).any fun a =>
      !decide (now < a.cooldownUntil) && decide (0 ≤ intent.cooldown) &&
        decide (now.toInt + intent.cooldown.toInt < 2 ^ 63)
  | _ => true

theorem rested_of_test {k : ObjectiveId} {s : State Binary64} {op : Op Binary64}
    (h : restedTest s op = true) : RestedFor k s op := by
  rintro intent now rfl _ _
  obtain ⟨a, ha, hrest⟩ := (Option.any_eq_true _ _).mp h
  simp only [Bool.and_eq_true, Bool.not_eq_true', decide_eq_true_eq, decide_eq_false_iff_not]
    at hrest
  exact ⟨a, ha, hrest.1.1, hrest.1.2, hrest.2⟩

example : nextIntent 0 = some (smallIntent 1) := by decide +kernel

/-- The intent of the first evaluation, authorized at two times. -/
def twice (t₁ t₂ : Duration) : List (Op Binary64) :=
  evaluated 1 ++ [.authorize (smallIntent 1) t₁, .authorize (smallIntent 1) t₂]

/-- **One intent is authorized twice** at once. -/
theorem cooldown_fails :
    ¬∀ (k : ObjectiveId) (g : ObjectiveGen) (tr : Trace Binary64) (s : State Binary64),
      Run apply (Steady k g) (State.fresh Binary64) tr s → Spaced tr k := by
  intro hall
  have htest : (execute apply (steadyTest ⟨1⟩ ⟨1⟩) (State.fresh Binary64) (twice 0 0)).any
      (fun x => authorizationsOf x.2 ⟨1⟩ = [(0, intentCooldown), (0, intentCooldown)]) = true := by
    decide +kernel
  obtain ⟨s, tr, hrun, hauth⟩ := Run.of_test (fun _ _ => steady_of_test) htest
  have hspaced := hall ⟨1⟩ ⟨1⟩ tr s hrun
  rw [Spaced, of_decide_eq_true hauth] at hspaced
  have hpair := (List.pairwise_cons.mp hspaced).1 (0, intentCooldown) (List.mem_singleton.mpr rfl)
  exact absurd (hpair (Int64.le_refl 0)) (by decide)

/-- The second time is when the cooldown is over. -/
theorem cooldown_run_small :
    ∃ tr s, Runs (State.fresh Binary64) tr s ∧
      authorizationsOf tr ⟨1⟩ = [(0, intentCooldown), (intentCooldown, intentCooldown)] ∧
      Spaced tr ⟨1⟩ := by
  have htest : (execute apply (fun s op => steadyTest ⟨1⟩ ⟨1⟩ s op && restedTest s op)
      (State.fresh Binary64) (twice 0 intentCooldown)).any
      (fun x => authorizationsOf x.2 ⟨1⟩ =
        [(0, intentCooldown), (intentCooldown, intentCooldown)]) = true := by
    decide +kernel
  obtain ⟨s, tr, hrun, hauth⟩ := Run.of_test
    (C := fun s op => Steady ⟨1⟩ ⟨1⟩ s op ∧ RestedFor ⟨1⟩ s op) (fun s op h => by
      obtain ⟨hsteady, hrest⟩ := Bool.and_eq_true_iff.mp h
      exact ⟨steady_of_test hsteady, rested_of_test hrest⟩) htest
  exact ⟨tr, s, hrun.mono fun _ _ _ => trivial, of_decide_eq_true hauth, cooldown_run hrun⟩

end SloFabric
