/-
  File:      SloFabric/Severity.lean
  Subject:   Whether a worse measurement ranks as more severe, over exact numbers.

  * `AsBad`: one value is at least as bad as another for an objective;
  * `zone_mono`: then so is its zone;
  * `Guarded`, `magnitude_mono_iff`: and so is its magnitude, but where the guard of the division
    takes `1` for a value that is not positive;
  * `Violates`, `Binds`, `binding_kept`: a binding verdict of a larger magnitude stays the binding
    one, however the platform sorts; `named_kept`: and its objective stays the one named;
  * `never_less_severe_iff`, `never_less_severe_fails`: all three together.
-/
import SloFabric.Order

namespace SloFabric

/-! ## 1. Zones -/

/-- The zones, from good to bad. -/
def Zone.rank : Zone → Nat
  | .compliant => 0
  | .near => 1
  | .violation => 2

/-- `m₂` is at least as bad as `m₁` in the objective's direction. -/
def AsBad (obj : Objective ℚ) (m₁ m₂ : ℚ) : Prop :=
  match obj.comparison with
  | .atMost => m₁ ≤ m₂
  | .atLeast => m₂ ≤ m₁

/-- A zone by two tests gets no better when the tests hold more often. -/
theorem rank_mono {p q p' q' : Prop} [Decidable p] [Decidable q] [Decidable p'] [Decidable q']
    (hp : p → p') (hq : q → q') :
    (if p then Zone.violation else if q then .near else .compliant).rank ≤
      (if p' then Zone.violation else if q' then .near else .compliant).rank := by
  by_cases h' : p'
  · rw [if_pos h']
    split_ifs <;> decide
  · rw [if_neg h', if_neg fun h => h' (hp h)]
    by_cases hq' : q'
    · rw [if_pos hq']
      split_ifs <;> decide
    · rw [if_neg hq', if_neg fun h => hq' (hq h)]

/-- **A value that is as bad is in a zone that is as bad.** -/
theorem zone_mono {obj : Objective ℚ} {m₁ m₂ : ℚ} (h : AsBad obj m₁ m₂) :
    (classifyZone obj m₁).rank ≤ (classifyZone obj m₂).rank := by
  unfold AsBad at h
  unfold classifyZone
  cases hc : obj.comparison with
  | atMost =>
    simp only [hc] at h
    have hup {a : ℚ} : Double.lt a m₁ = true → Double.lt a m₂ = true := fun hlt =>
      decide_eq_true ((of_decide_eq_true hlt).trans_le h)
    simp only
    cases (!Double.eq (numericLimit obj true) (numericLimit obj false)) with
    | true => exact rank_mono hup hup
    | false => exact rank_mono hup hup
  | atLeast =>
    simp only [hc] at h
    have hdown {a : ℚ} : Double.lt m₁ a = true → Double.lt m₂ a = true := fun hlt =>
      decide_eq_true (h.trans_lt (of_decide_eq_true hlt))
    simp only
    cases (!Double.eq (numericLimit obj true) (numericLimit obj false)) with
    | true => exact rank_mono hdown hdown
    | false =>
      exact rank_mono hdown fun hnear => ⟨hdown hnear.1, hnear.2.imp_right hdown⟩

/-! ## 2. Magnitudes -/

/-- The guard of the division takes `1` for the worse value, and the better one is less. -/
def Guarded (obj : Objective ℚ) (m₁ m₂ : ℚ) : Prop :=
  obj.comparison = .atLeast ∧ 0 < (numericLimit obj true : ℚ) ∧ m₂ ≤ 0 ∧ 0 < m₁ ∧ m₁ < 1

/-- The magnitude over exact numbers. -/
theorem magnitude_exact (obj : Objective ℚ) (m : ℚ) : severityMagnitude obj m =
    if (numericLimit obj true : ℚ) ≤ 0 then 0
    else match obj.comparison with
      | .atMost => m / numericLimit obj true
      | .atLeast => numericLimit obj true / if 0 < m then m else 1 := by
  have hle : Double.le (numericLimit obj true) (Double.ofRat 0 : ℚ) =
      decide ((numericLimit obj true : ℚ) ≤ 0) := rfl
  have hlt : Double.lt (Double.ofRat 0) m = decide (0 < m) := rfl
  unfold severityMagnitude
  simp only [hle, hlt, decide_eq_true_eq]
  split
  · rfl
  · cases obj.comparison with
    | atMost => rfl
    | atLeast =>
      simp only
      split <;> rfl

/-- **The magnitude grows with the badness**, but where the division is guarded. -/
theorem magnitude_mono_iff {obj : Objective ℚ} {m₁ m₂ : ℚ} (h : AsBad obj m₁ m₂) :
    (severityMagnitude obj m₁ : ℚ) ≤ severityMagnitude obj m₂ ↔ ¬Guarded obj m₁ m₂ := by
  unfold AsBad at h
  unfold Guarded
  rw [magnitude_exact, magnitude_exact]
  by_cases hb : (numericLimit obj true : ℚ) ≤ 0
  · rw [if_pos hb, if_pos hb]
    exact iff_of_true le_rfl fun hg => absurd hg.2.1 (not_lt.mpr hb)
  · rw [if_neg hb, if_neg hb]
    have hpos : 0 < (numericLimit obj true : ℚ) := not_le.mp hb
    cases hc : obj.comparison with
    | atMost =>
      simp only [hc] at h
      exact iff_of_true (div_le_div_of_nonneg_right h hpos.le) fun hg => by cases hg.1
    | atLeast =>
      simp only [hc] at h
      simp only
      have hinv {a b : ℚ} (ha : 0 < a) (hb : 0 < b) :
          numericLimit obj true / a ≤ numericLimit obj true / b ↔ b ≤ a :=
        div_le_div_iff_of_pos_left hpos ha hb
      by_cases h₁ : 0 < m₁
      · by_cases h₂ : 0 < m₂
        · rw [if_pos h₁, if_pos h₂, hinv h₁ h₂]
          exact iff_of_true h fun hg => absurd hg.2.2.1 (not_le.mpr h₂)
        · rw [if_pos h₁, if_neg h₂, hinv h₁ one_pos]
          refine ⟨fun hone hg => absurd hg.2.2.2.2 (not_lt.mpr hone), fun hno => ?_⟩
          exact not_lt.mp fun hlt => hno ⟨trivial, hpos, not_lt.mp h₂, h₁, hlt⟩
      · have h₂ : ¬0 < m₂ := fun h₂ => h₁ (h₂.trans_le h)
        rw [if_neg h₁, if_neg h₂]
        exact iff_of_true le_rfl fun hg => absurd hg.2.2.2.1 h₁

/-! ## 3. The binding verdict -/

/-- A verdict Violating on the value `m` of an objective. -/
structure Violates (e : ObjEval ℚ) (obj : Objective ℚ) (m : ℚ) : Prop where
  about : e.obj = obj
  state : e.state = .violating
  rank : e.severityRank = severityRankOf .violating
  magnitude : e.magnitude = severityMagnitude obj m

/-- One of as large a magnitude ranks the same; one of a larger magnitude comes first. -/
theorem Violates.key {e₁ e₂ : ObjEval ℚ} {obj : Objective ℚ} {m₁ m₂ : ℚ}
    (h₁ : Violates e₁ obj m₁) (h₂ : Violates e₂ obj m₂)
    (h : (severityMagnitude obj m₁ : ℚ) ≤ severityMagnitude obj m₂) :
    exactKey e₂ = exactKey e₁ ∨ exactKey e₂ < exactKey e₁ := by
  simp only [exactKey, keyBy, h₁.rank, h₂.rank, h₁.magnitude, h₂.magnitude, h₁.about, h₂.about]
  rcases eq_or_lt_of_le h with heq | hlt
  · exact Or.inl (by rw [heq])
  · exact Or.inr (Prod.Lex.toLex_lt_toLex.mpr
      (Or.inr ⟨rfl, Prod.Lex.toLex_lt_toLex.mpr (Or.inl (neg_lt_neg hlt))⟩))

theorem nonCompliant_insert {e : ObjEval ℚ} (h : e.state = .violating)
    (front back : List (ObjEval ℚ)) : nonCompliant (front ++ e :: back) =
      nonCompliant front ++ e :: nonCompliant back := by
  unfold nonCompliant
  rw [List.filter_append, List.filter_cons_of_pos (by rw [h]; decide)]

section Binding

variable [Platform ℚ]

/-- The verdict `e` binds: it may come out first, and the overall compliance and the binding
    objective are its own. -/
def Binds (evals : List (ObjEval ℚ)) (e : ObjEval ℚ) : Prop :=
  MayLead moreSevere (nonCompliant evals) e ∧ overallOf evals = some (e.state, some e.obj)

/-- Where a binding objective is named, every verdict rests on a measurement. -/
theorem measured_of_binding {evals : List (ObjEval ℚ)} {overall : ComplianceState}
    {obj : Objective ℚ} (h : overallOf evals = some (overall, some obj)) :
    ∀ e ∈ evals, e.state.isMeasured = true := by
  rcases overallOf_cases h with ⟨hnone, _⟩ | ⟨hnone, _⟩ | ⟨_, _, _, _, hall, _⟩
  · cases hnone
  · cases hnone
  · exact hall

/-- **A binding violation that gets worse stays the binding one.** -/
theorem binding_kept {e₁ e₂ : ObjEval ℚ} {obj : Objective ℚ} {m₁ m₂ : ℚ}
    (h₁ : Violates e₁ obj m₁) (h₂ : Violates e₂ obj m₂)
    (h : (severityMagnitude obj m₁ : ℚ) ≤ severityMagnitude obj m₂) {front back : List (ObjEval ℚ)}
    (hbinds : Binds (front ++ e₁ :: back) e₁) : Binds (front ++ e₂ :: back) e₂ := by
  obtain ⟨hlead, hov⟩ := hbinds
  have hm := measured_of_binding hov
  have hm' : ∀ e ∈ front ++ e₂ :: back, e.state.isMeasured = true := by
    intro e he
    rcases List.mem_append.mp he with he | he
    · exact hm e (List.mem_append_left _ he)
    · rcases List.mem_cons.mp he with rfl | he
      · rw [h₂.state]
        rfl
      · exact hm e (List.mem_append_right _ (List.mem_cons_of_mem _ he))
  have hkeys (l : List (ObjEval ℚ)) : ∀ a ∈ l, ∀ b ∈ l,
      moreSevere a b = true ↔ exactKey a < exactKey b := fun a _ b _ => moreSevere_exact a b
  have hne {e : ObjEval ℚ} (he : e.state = .violating) :
      nonCompliant (front ++ e :: back) ≠ [] := by
    rw [nonCompliant_insert he]
    simp
  have hkey := h₁.key h₂ h
  have hle : exactKey e₂ ≤ exactKey e₁ := hkey.elim le_of_eq le_of_lt
  have hleast := ((mayLead_iff_least (hkeys _)).mp hlead).2
  have hother : ∀ x ∈ nonCompliant (front ++ e₂ :: back),
      x = e₂ ∨ x ∈ nonCompliant (front ++ e₁ :: back) := by
    rw [nonCompliant_insert h₁.state, nonCompliant_insert h₂.state]
    intro x hx
    rcases List.mem_append.mp hx with hx | hx
    · exact Or.inr (List.mem_append_left _ hx)
    · exact (List.mem_cons.mp hx).imp_right fun hx =>
        List.mem_append_right _ (List.mem_cons_of_mem _ hx)
  have hmem : e₂ ∈ nonCompliant (front ++ e₂ :: back) := by
    rw [nonCompliant_insert h₂.state]
    simp
  refine ⟨(mayLead_iff_least (hkeys _)).mpr ⟨hmem, fun x hx => ?_⟩, ?_⟩
  · rcases hother x hx with rfl | hx
    · exact le_rfl
    · exact hle.trans (hleast x hx)
  rcases hkey with heq | hlt
  · -- the sort sees no difference
    have hsame : (e₂.state, some e₂.obj) = (e₁.state, some e₁.obj) := by
      rw [h₁.state, h₂.state, h₁.about, h₂.about]
    rw [overallOf_sorted hm (hne h₁.state)] at hov
    rw [overallOf_sorted hm' (hne h₂.state), hsame, ← hov, ← List.head?_map, ← List.head?_map,
      nonCompliant_insert h₁.state, nonCompliant_insert h₂.state]
    refine congrArg List.head? ((Platform.sort ℚ).sort_congr ?_ ?_)
    · rw [answers_key (hkeys _), answers_key (hkeys _)]
      simp only [List.map_append, List.map_cons, heq]
    · simp only [List.map_append, List.map_cons, hsame]
  · -- nothing else has as small a key
    obtain ⟨g, hg, hfirst, hov'⟩ := overallOf_first hm' (hkeys _) (hne h₂.state)
    rcases hother g hg with rfl | hg
    · exact hov'
    · exact absurd ((hleast g hg).trans (hfirst e₂ hmem)) (not_le.mpr hlt)

/-- So the objective named as the binding one stays named, where no other verdict is about it. -/
theorem named_kept {e₁ e₂ : ObjEval ℚ} {obj : Objective ℚ} {m₁ m₂ : ℚ}
    (h₁ : Violates e₁ obj m₁) (h₂ : Violates e₂ obj m₂)
    (h : (severityMagnitude obj m₁ : ℚ) ≤ severityMagnitude obj m₂) {front back : List (ObjEval ℚ)}
    (honly : ∀ x ∈ front ++ back, x.obj ≠ obj)
    (hnamed : overallOf (front ++ e₁ :: back) = some (.violating, some obj)) :
    overallOf (front ++ e₂ :: back) = some (.violating, some obj) := by
  have hne : nonCompliant (front ++ e₁ :: back) ≠ [] := by
    rw [nonCompliant_insert h₁.state]
    simp
  obtain ⟨e, hlead, hov⟩ := overallOf_leads (measured_of_binding hnamed) hne
  rw [hnamed] at hov
  have hobj : obj = e.obj := Option.some.inj (Prod.mk.inj (Option.some.inj hov)).2
  -- the verdict that leads is the one about the objective
  have he : e = e₁ := by
    have hmem : e ∈ front ++ e₁ :: back := (List.mem_filter.mp hlead.1).1
    rcases List.mem_append.mp hmem with hin | hin
    · exact absurd hobj.symm (honly e (List.mem_append_left _ hin))
    · rcases List.mem_cons.mp hin with heq | hin
      · exact heq
      · exact absurd hobj.symm (honly e (List.mem_append_right _ hin))
  have hbinds : Binds (front ++ e₁ :: back) e₁ := by
    refine ⟨he ▸ hlead, ?_⟩
    rw [hnamed, h₁.state, h₁.about]
  have hkept := (binding_kept h₁ h₂ h hbinds).2
  rwa [h₂.state, h₂.about] at hkept

/-- A verdict Violating of some magnitude. -/
def violation (obj : Objective ℚ) (magnitude : ℚ) : ObjEval ℚ :=
  { (evaluateObjective (State.fresh ℚ).accumulators obj 0).2.1 with
    obj := obj, state := .violating, severityRank := severityRankOf .violating
    magnitude := magnitude }

omit [Platform ℚ] in
theorem violation_violates (obj : Objective ℚ) (m : ℚ) :
    Violates (violation obj (severityMagnitude obj m)) obj m := ⟨rfl, rfl, rfl, rfl⟩

omit [Platform ℚ] in
/-- The larger one comes first. -/
theorem violation_key_lt {a b : ℚ} (h : b < a) (o o' : Objective ℚ) :
    exactKey (violation o a) < exactKey (violation o' b) :=
  Prod.Lex.toLex_lt_toLex.mpr
    (Or.inr ⟨rfl, Prod.Lex.toLex_lt_toLex.mpr (Or.inl (neg_lt_neg h))⟩)

/-- So it binds. -/
theorem violation_binds {a b : ℚ} (h : b < a) (o o' : Objective ℚ) :
    Binds [violation o a, violation o' b] (violation o a) := by
  have hkeys : ∀ x ∈ nonCompliant [violation o a, violation o' b],
      ∀ y ∈ nonCompliant [violation o a, violation o' b],
        moreSevere x y = true ↔ exactKey x < exactKey y := fun x _ y _ => moreSevere_exact x y
  have hm : ∀ e ∈ [violation o a, violation o' b], e.state.isMeasured = true := by
    simp [violation, ComplianceState.isMeasured]
  have hmem : violation o a ∈ nonCompliant [violation o a, violation o' b] :=
    List.mem_filter.mpr ⟨List.mem_cons_self, rfl⟩
  obtain ⟨g, hg, hfirst, hov⟩ := overallOf_first hm hkeys (List.ne_nil_of_mem hmem)
  have hg' := (List.mem_filter.mp hg).1
  rcases List.mem_cons.mp hg' with rfl | hg'
  · exact ⟨(mayLead_iff_least hkeys).mpr ⟨hg, hfirst⟩, hov⟩
  · rw [List.mem_singleton.mp hg'] at hfirst
    exact absurd (violation_key_lt h o o') (not_lt.mpr (hfirst _ hmem))

/-- **Worse is never less severe**: the zone is as bad, the magnitude as large where the limit is
    positive and the values are not negative, a binding violation stays the binding one, and the
    objective named stays named where no other verdict is about it. -/
structure NeverLessSevere (obj : Objective ℚ) (m₁ m₂ : ℚ) : Prop where
  zone : (classifyZone obj m₁).rank ≤ (classifyZone obj m₂).rank
  magnitude : 0 < (numericLimit obj true : ℚ) → 0 ≤ m₁ → 0 ≤ m₂ →
    (severityMagnitude obj m₁ : ℚ) ≤ severityMagnitude obj m₂
  binding : ∀ (front back : List (ObjEval ℚ)) (e₁ e₂ : ObjEval ℚ), Violates e₁ obj m₁ →
    Violates e₂ obj m₂ → Binds (front ++ e₁ :: back) e₁ → Binds (front ++ e₂ :: back) e₂
  named : ∀ (front back : List (ObjEval ℚ)) (e₁ e₂ : ObjEval ℚ), Violates e₁ obj m₁ →
    Violates e₂ obj m₂ → (∀ x ∈ front ++ back, x.obj ≠ obj) →
    overallOf (front ++ e₁ :: back) = some (.violating, some obj) →
    overallOf (front ++ e₂ :: back) = some (.violating, some obj)

/-- **When worse is never less severe**: unless the division is guarded. -/
theorem never_less_severe_iff {obj : Objective ℚ} {m₁ m₂ : ℚ} (h : AsBad obj m₁ m₂) :
    NeverLessSevere obj m₁ m₂ ↔ ¬Guarded obj m₁ m₂ := by
  rw [← magnitude_mono_iff h]
  constructor
  · intro hsevere
    by_contra hless
    -- another objective, between the two magnitudes
    have hlt : (severityMagnitude obj m₂ : ℚ) < severityMagnitude obj m₁ := not_le.mp hless
    obtain ⟨b, hb₂, hb₁⟩ := exists_between hlt
    have hstill := hsevere.binding [] [_] _ _ (violation_violates obj m₁)
      (violation_violates obj m₂) (violation_binds hb₁ obj obj)
    have hother : violation obj b ∈ nonCompliant
        ([] ++ [violation obj (severityMagnitude obj m₂), violation obj b]) :=
      List.mem_filter.mpr ⟨List.mem_cons_of_mem _ List.mem_cons_self, rfl⟩
    have hle := ((mayLead_iff_least fun a _ b _ => moreSevere_exact a b).mp hstill.1).2 _ hother
    exact absurd (violation_key_lt hb₂ obj obj) (not_lt.mpr hle)
  · exact fun hle => ⟨zone_mono h, fun _ _ _ => hle,
      fun _ _ _ _ h₁ h₂ hbinds => binding_kept h₁ h₂ hle hbinds,
      fun _ _ _ _ h₁ h₂ honly hnamed => named_kept h₁ h₂ hle honly hnamed⟩

end Binding

/-- At least a hundred requests a second. -/
def hundredRequests : Objective ℚ where
  id := ⟨1⟩
  gen := ⟨1⟩
  dim := .throughput
  kind := .throughputRate
  comparison := .atLeast
  target := .requestsPerSecond 100
  allowedUncertainty := 0
  percentileRank := 99 / 100

/-- **No request at all is less severe than one in two seconds.** -/
theorem never_less_severe_fails :
    ¬∀ (obj : Objective ℚ) (m₁ m₂ : ℚ), AsBad obj m₁ m₂ → NeverLessSevere obj m₁ m₂ := by
  intro hall
  have hbad : AsBad hundredRequests (1 / 2) 0 := by
    show (0 : ℚ) ≤ 1 / 2
    norm_num
  have hless : ¬(severityMagnitude hundredRequests (1 / 2) : ℚ) ≤
      severityMagnitude hundredRequests 0 := by
    decide +kernel
  exact hless ((hall _ _ _ hbad).magnitude (by decide +kernel) (by norm_num) le_rfl)

/-- Ten requests a second, and five. -/
theorem never_less_severe_iff_small : NeverLessSevere hundredRequests 10 5 := by
  have hbad : AsBad hundredRequests 10 5 := by
    show (5 : ℚ) ≤ 10
    norm_num
  refine (never_less_severe_iff hbad).mpr fun hguarded => ?_
  exact absurd hguarded.2.2.1 (by norm_num)

end SloFabric
