/-
  File:      SloFabric/Generations.lean
  Subject:   The generation of the accumulator stored for an objective.

  `get_accumulator` wipes the stored accumulator for any other generation, an older one included;
  and its callers do not agree on the definition to ask for: the newest one, the one of the contract
  that is judged, or one contract after the other.

  * `Used`: an accumulator with what has been added to it at its generation;
  * `handed`, `used_step`: what a step does to the accumulator of an objective;
  * `Rising`: a step asks for the stored generation only, or for a newer one in the end;
  * `generations_run`: in runs of such steps the generation never decreases, and nothing is wiped
    as long as it stays;
  * `generations_fails`: an evaluation and a violation event that wipe a newer generation.
-/
import SloFabric.Ledger

namespace SloFabric

variable {R : Type}

/-! ## 1. Uses of an accumulator -/

/-- The second accumulator is the first one with what was added to it since: evidence was offered
    to it, a recovery boundary noted, its budget changed, a verdict or a cooldown set. -/
inductive Used [Double R] : ObjectiveAccumulator R → ObjectiveAccumulator R → Prop where
  | refl (a : ObjectiveAccumulator R) : Used a a
  | offered {a b : ObjectiveAccumulator R} (h : Used a b) (o : Objective R)
      (e : EvidenceRecord R) : Used a (offer o b e).1
  | recovered {a b : ObjectiveAccumulator R} (h : Used a b) (phase : RecoveryEventPhase)
      (time : Duration) : Used a { b with recovery := b.recovery.record phase time }
  | funded {a b : ObjectiveAccumulator R} (h : Used a b) (has : Bool) (budget : ErrorBudget) :
      Used a { b with hasBudget := has, budget := budget }
  | judged {a b : ObjectiveAccumulator R} (h : Used a b) (state : ComplianceState)
      (now : Duration) : Used a (b.setLastState state now)
  | cooled {a b : ObjectiveAccumulator R} (h : Used a b) (stop : Duration) :
      Used a { b with cooldownUntil := stop }

namespace Used

variable [Double R] {a b c : ObjectiveAccumulator R}

theorem trans (h : Used a b) (h' : Used b c) : Used a c := by
  induction h' with
  | refl => exact h
  | offered _ o e ih => exact ih.offered o e
  | recovered _ phase time ih => exact ih.recovered phase time
  | funded _ has budget ih => exact ih.funded has budget
  | judged _ state now ih => exact ih.judged state now
  | cooled _ stop ih => exact ih.cooled stop

/-- It stays the accumulator of its definition. -/
theorem defn (h : Used a b) : b.defn = a.defn := by
  induction h with
  | refl => rfl
  | offered _ o e ih => rw [(offer_conduct o _ e).defn, ih]
  | recovered _ _ _ ih | funded _ _ _ ih | judged _ _ _ ih | cooled _ _ ih => exact ih

theorem carried : Carried (Used (R := R)) where
  refl := .refl
  trans _ _ _ := trans
  defn _ _ := defn
  recover a := (refl a).recovered
  fund a := (refl a).funded
  judge a := (refl a).judged

end Used

namespace After

variable {K : ObjectiveAccumulator R → ObjectiveAccumulator R → Prop} {os : List (Objective R)}
  {a : ObjectiveAccumulator R} {c : Option (ObjectiveAccumulator R)}

/-- Where only the stored generation is asked for, the accumulator was used. -/
theorem same (hK : Carried K) (h : After K os (some a) c) (hgen : ∀ o ∈ os, o.gen = a.defn.gen) :
    ∃ b, c = some b ∧ K a b := by
  cases h with
  | idle => exact ⟨a, rfl, hK.refl a⟩
  | kept _ hk => exact ⟨_, rfl, hk⟩
  | fresh _ _ hstale =>
    obtain ⟨o, ho, hne⟩ := hstale a rfl
    exact absurd (hgen o ho) hne

/-- The accumulator ends at the generation asked for last. -/
theorem generation (hK : Carried K) (h : After K os (some a) c) {o : Objective R}
    (hlast : os.getLast? = some o) : ∃ b, c = some b ∧ b.defn.gen = o.gen := by
  cases h with
  | idle hos => rw [hos] at hlast; cases hlast
  | kept hgen hk => exact ⟨_, rfl, by rw [hK.defn _ _ hk, hgen o (List.mem_of_getLast? hlast)]⟩
  | fresh _ hlast' _ hk =>
    refine ⟨_, rfl, ?_⟩
    rw [hK.defn _ _ hk, hlast' o hlast]
    rfl

end After

/-! ## 2. Steps -/

/-- The definitions of `k` a step hands to `get_accumulator`, in order. -/
def handed (k : ObjectiveId) (s : State R) (op : Op R) : List (Objective R) :=
  (acquires s op).filter (·.id = k)

/-- The step loads no state, and of the definitions of `k` it hands to `get_accumulator` all are of
    the stored generation or the last one is of a newer generation. -/
structure Rising (k : ObjectiveId) (s : State R) (op : Op R) : Prop where
  noLoad : ∀ file, op ≠ .load file
  handed : ∀ a, s.accumulators.find k = some a →
    (∀ o ∈ handed k s op, o.gen = a.defn.gen) ∨
      ∃ o, (handed k s op).getLast? = some o ∧ a.defn.gen < o.gen

/-- The accumulator of a later state: of a newer generation, or the same one, used. -/
def Outlives [Double R] (a b : ObjectiveAccumulator R) : Prop :=
  a.defn.gen ≤ b.defn.gen ∧ (b.defn.gen = a.defn.gen → Used a b)

theorem Outlives.trans [Double R] {a b c : ObjectiveAccumulator R} (h : Outlives a b)
    (h' : Outlives b c) : Outlives a c := by
  refine ⟨h.1.trans h'.1, fun hgen => ?_⟩
  have hmid : b.defn.gen = a.defn.gen := le_antisymm (hgen ▸ h'.1) h.1
  exact (h.2 hmid).trans (h'.2 (hgen.trans hmid.symm))

section Runs

variable [Pod R] [Double R] [Platform R]

/-- What a step does to the accumulator of an objective. -/
theorem used_step {s s' : State R} {op : Op R} {r : Response R} (h : apply s op = some (s', r))
    (hload : ∀ file, op ≠ .load file) (k : ObjectiveId) :
    After Used (handed k s op) (s.accumulators.find k) (s'.accumulators.find k) := by
  by_cases hing : ∃ e now, op = .ingest e now
  · obtain ⟨e, now, rfl⟩ := hing
    cases h
    exact account_ingest Used.carried (fun o a e => (Used.refl a).offered o e) s e now k
  · by_cases hauth : ∃ intent now, op = .authorize intent now
    · obtain ⟨intent, now, rfl⟩ := hauth
      cases h
      rcases authorize_cases s intent now with ⟨_, h'⟩ | ⟨_, _, _, _, _, _, _, _, _, h'⟩
      · rw [h']
        exact .idle rfl
      · rw [h', setCooldown_find]
        split
        · cases hfind : s.accumulators.find k with
          | none => exact .idle rfl
          | some a =>
            exact .kept (fun o ho => absurd ho List.not_mem_nil) ((Used.refl a).cooled _)
        · exact .idle rfl
    · exact account_step Used.carried h (fun e now heq => hing ⟨e, now, heq⟩) hload
        (fun intent now heq => hauth ⟨intent, now, heq⟩) k

/-- **The step lemma.** -/
theorem outlived_step {k : ObjectiveId} {s s' : State R} {op : Op R} {r : Response R}
    (hc : Rising k s op) (h : apply s op = some (s', r)) {a : ObjectiveAccumulator R}
    (ha : s.accumulators.find k = some a) :
    ∃ b, s'.accumulators.find k = some b ∧ Outlives a b := by
  have hafter := used_step h hc.noLoad k
  rw [ha] at hafter
  rcases hc.handed a ha with hsame | ⟨o, hlast, hnewer⟩
  · obtain ⟨b, hb, hused⟩ := hafter.same Used.carried hsame
    exact ⟨b, hb, by rw [hused.defn], fun _ => hused⟩
  · obtain ⟨b, hb, hgen⟩ := hafter.generation Used.carried hlast
    refine ⟨b, hb, by rw [hgen]; exact hnewer.le, fun heq => ?_⟩
    exact absurd (heq.symm.trans hgen) hnewer.ne

/-- **Evidence is not discarded for an older generation.** In runs without load, from any state,
    in which every step asks for the stored generation of an objective only or for a newer one in
    the end, the generation of the accumulator never decreases; and while it stays the same, the
    accumulator is the same, too: evidence, verdict and cooldown are added to what is there. -/
theorem generations_run {k : ObjectiveId} {s₀ s : State R} {tr : Trace R}
    (h : Run apply (Rising k) s₀ tr s) {a : ObjectiveAccumulator R}
    (ha : s₀.accumulators.find k = some a) :
    ∃ b, s.accumulators.find k = some b ∧ a.defn.gen ≤ b.defn.gen ∧
      (b.defn.gen = a.defn.gen → Used a b) := by
  refine h.invariant (I := fun s => ∃ b, s.accumulators.find k = some b ∧ Outlives a b)
    ⟨a, ha, le_rfl, fun _ => .refl a⟩ fun s op s' r hi hc hstep => ?_
  obtain ⟨b, hb, hab⟩ := hi
  obtain ⟨c, hc', hbc⟩ := outlived_step hc hstep hb
  exact ⟨c, hc', hab.trans hbc⟩

end Runs

/-! ## 3. Two generations in force -/

/-- `Rising`, as a test. -/
def risingTest (k : ObjectiveId) (s : State Binary64) (op : Op Binary64) : Bool :=
  !op.isLoad && (s.accumulators.find k).all fun a =>
    (handed k s op).all (fun o => o.gen = a.defn.gen) ||
      (handed k s op).getLast?.any fun o => a.defn.gen < o.gen

theorem rising_of_test {k : ObjectiveId} {s : State Binary64} {op : Op Binary64}
    (h : risingTest k s op = true) : Rising k s op := by
  obtain ⟨hload, h⟩ := Bool.and_eq_true_iff.mp h
  refine ⟨not_load hload, fun a ha => ?_⟩
  rw [ha] at h
  rcases Bool.or_eq_true_iff.mp h with h | h
  · exact Or.inl fun o ho => of_decide_eq_true (List.all_eq_true.mp h o ho)
  · obtain ⟨o, ho, hlt⟩ := (Option.any_eq_true _ _).mp h
    exact Or.inr ⟨o, ho, of_decide_eq_true hlt⟩

/-- Evidence for the newer one of two generations, and its cooldown. -/
def newerReported : List (Op Binary64) :=
  twoGenerations ++ [.ingest (smallEvidence 1 1 200000000) 0, .evaluate ⟨1⟩ ⟨2⟩ 0]

/-- The generation, the remembered evidence, the number of samples and the last verdict of
    objective `1`. -/
def accounted (s : State Binary64) : Option (UInt64 × List EvidenceId × Nat × ComplianceState) :=
  (s.accumulators.find ⟨1⟩).map fun a =>
    (a.defn.gen.value, a.recent, a.window.samples.length, a.lastState)

/-- The newer contract is judged again. -/
theorem generations_run_small :
    ∃ (s : State Binary64) (tr : Trace Binary64) (a b : ObjectiveAccumulator Binary64),
      Run apply (Rising ⟨1⟩) (after newerReported) tr s ∧ tr.length = 2 ∧
      (after newerReported).accumulators.find ⟨1⟩ = some a ∧
      s.accumulators.find ⟨1⟩ = some b ∧ a.defn.gen = ⟨2⟩ ∧ b.defn.gen = ⟨2⟩ ∧ Used a b := by
  have htest : (execute apply (risingTest ⟨1⟩) (after newerReported)
      [.evaluate ⟨1⟩ ⟨2⟩ 0, .ingest (smallEvidence 2 1 200000000) 0]).any
      (fun x => x.2.length = 2 && ((after newerReported).accumulators.find ⟨1⟩).any fun a =>
        a.defn.gen = ⟨2⟩ && (x.1.accumulators.find ⟨1⟩).all fun b => b.defn.gen = ⟨2⟩) = true := by
    decide +kernel
  obtain ⟨s, tr, hrun, htr⟩ := Run.of_test (fun _ _ => rising_of_test) htest
  obtain ⟨hlen, htr⟩ := Bool.and_eq_true_iff.mp htr
  obtain ⟨a, ha, htr⟩ := (Option.any_eq_true _ _).mp htr
  obtain ⟨hgen, htr⟩ := Bool.and_eq_true_iff.mp htr
  obtain ⟨b, hb, _, hused⟩ := generations_run hrun ha
  rw [hb] at htr
  have hgen := of_decide_eq_true hgen
  have hgen' := of_decide_eq_true htr
  exact ⟨s, tr, a, b, hrun, of_decide_eq_true hlen, ha, hb, hgen, hgen',
    hused (hgen'.trans hgen.symm)⟩

/-- **An older generation wipes a newer one**: when the older contract is judged, and when a
    violation is reported while the contract with the greatest id has the older definition. -/
theorem generations_fails :
    Reachable (after newerReported) ∧
      accounted (after newerReported) = some (2, [⟨1⟩], 1, .violating) ∧
      accounted (after (newerReported ++ [.evaluate ⟨1⟩ ⟨1⟩ 0])) =
        some (1, [], 0, .insufficientEvidence) ∧
      accounted (after (newerReported ++ [.addContract (smallContract 3 1 3 [smallObjective 1 1]),
        .ingestViolationEvent ⟨1⟩ 0])) = some (1, [], 0, .insufficientEvidence) :=
  ⟨reachable_after _, by decide +kernel, by decide +kernel, by decide +kernel⟩

end SloFabric
