/-
  File:      SloFabric/Ending.lean
  Subject:   What becomes of a contract that was expired or retired.

  * `noteEnded`: an observer of the ids and generations `expire_contract` and `retire_contract`
    ended;
  * `StaysEnded`: no evaluation selects such a contract, no intent is authorized against it, and
    only a higher generation takes its place;
  * `Unrevived`: nothing is loaded and no ended contract is activated, which `activate_contract`
    does not ask for;
  * `ended_step`, `ended_run`: then ended contracts stay ended;
  * `ended_fails`: an expired contract is activated again.
-/
import SloFabric.Contracts
import SloFabric.Authority

namespace SloFabric

variable {R : Type}

/-! ## 1. Ended contracts -/

/-- The fabric with the contracts that were ended, each at the generation it was ended at. -/
abbrev Ended (R : Type) := Watched (State R) (List (SloContractId × SloContractGen))

/-- The contract a step ends: one it has expired or retired. -/
def endedBy (s : State R) : Op R × Response R → Option (SloContractId × SloContractGen)
  | (.expireContract id _, .status st) | (.retireContract id _, .status st) =>
    if st.isOk then (s.contracts.find id).map fun c => (id, c.gen) else none
  | _ => none

def noteEnded (s : State R) (ended : List (SloContractId × SloContractGen))
    (x : Op R × Response R) : List (SloContractId × SloContractGen) :=
  ended ++ (endedBy s x).toList

/-- **The contract stays ended** at the generation: no evaluation selects it, no intent is
    authorized against it, and what can authorize under its id is of a higher generation. -/
structure StaysEnded (s : State R) (id : SloContractId) (g : SloContractGen) : Prop where
  selected : ∀ service workload now c,
    selectContract s.contracts service workload now = some c → c.id = id → c.gen ≠ g
  authorized : ∀ intent now s' rc c, authorize s intent now = (s', .ok rc) →
    intentContract s.contracts intent = some c → c.id = id → c.gen ≠ g
  replaced : ∀ c now, s.contracts.find id = some c → c.canAuthorize now = true → g < c.gen

/-- The condition on runs: nothing is loaded, and no contract is activated at a generation it was
    ended at. -/
structure Unrevived (w : Ended R) (op : Op R) : Prop where
  noLoad : ∀ file, op ≠ .load file
  activated : ∀ id now c, op = .activateContract id now → w.state.contracts.find id = some c →
    (id, c.gen) ∉ w.seen

/-! ## 2. The invariant -/

/-- The contract is stored at a later generation, or at this one and is not active. -/
def Over (s : State R) (x : SloContractId × SloContractGen) : Prop :=
  ∃ c, s.contracts.find x.1 = some c ∧ (x.2 < c.gen ∨ x.2 = c.gen ∧ c.lifecycle ≠ .active)

theorem Over.stays {s : State R} {x : SloContractId × SloContractGen} (h : Over s x) :
    StaysEnded s x.1 x.2 := by
  obtain ⟨c, hc, hover⟩ := h
  have hlate : ∀ c' now, s.contracts.find x.1 = some c' → c'.canAuthorize now = true →
      x.2 < c'.gen := by
    intro c' now hc' hcan
    rw [hc] at hc'
    cases hc'
    refine hover.resolve_right fun ⟨_, hend⟩ => hend ?_
    simp only [SloContract.canAuthorize, SloContract.isActive, Bool.and_eq_true, beq_iff_eq] at hcan
    exact hcan.1.1
  refine ⟨fun service workload now c' hsel hid => ?_,
    fun intent now s' rc c' hauth hfound hid => ?_, hlate⟩
  · obtain ⟨hrow, hscope⟩ := List.mem_filter.mp (newest_some hsel).1
    have hcan : c'.canAuthorize now = true := (of_decide_eq_true hscope).2.2
    exact (hlate c' now (hid ▸ KeyedTable.mem_rows.mp hrow) hcan).ne'
  · obtain ⟨c₁, hchecked⟩ := authorize_ok_iff.mp ⟨s', rc, hauth⟩
    have hsame := hchecked.found
    rw [hfound] at hsame
    cases hsame
    have hrow := (intentContract_some hfound).1
    exact (hlate c' now (hid ▸ KeyedTable.mem_rows.mp hrow) hchecked.active).ne'

/-- A lifecycle call but `activate_contract` leaves its contract inactive. -/
theorem lifecycle_inactive {op : Op R} {id : SloContractId} {f : SloContract R → SloContract R}
    (h : op.lifecycle = some (id, f)) (hact : ∀ now, op ≠ .activateContract id now)
    (c : SloContract R) : (f c).lifecycle ≠ .active := by
  cases op with
  | activateContract id now => cases h; exact absurd rfl (hact now)
  | suspendContract id now => cases h; exact nofun
  | expireContract id now => cases h; exact nofun
  | retireContract id now => cases h; exact nofun
  | _ => cases h

section Step

variable [Pod R] [Double R] [Platform R]

/-- What a step ends is over after it. -/
theorem over_new {s s' : State R} {op : Op R} {r : Response R} (h : apply s op = some (s', r))
    {x : SloContractId × SloContractGen} (hx : endedBy s (op, r) = some x) : Over s' x := by
  have hupdate {id : SloContractId} {f : SloContract R → SloContract R}
      (hf : ∀ c, (f c).id = c.id ∧ (f c).gen = c.gen ∧ (f c).lifecycle ≠ .active)
      (hend : (if (updateContract s id f).2.isOk then
        (s.contracts.find id).map fun c => (id, c.gen) else none) = some x) :
      Over (updateContract s id f).1 x := by
    rw [Option.ite_none_right_eq_some] at hend
    obtain ⟨c, hc, rfl⟩ := Option.map_eq_some_iff.mp hend.2
    obtain ⟨hid, hgen, hend⟩ := hf c
    unfold updateContract
    rw [hc]
    refine ⟨f c, ?_, Or.inr ⟨hgen.symm, hend⟩⟩
    exact KeyedTable.find_insert_key _ (hid.trans (KeyedTable.find_key hc))
  cases op with
  | expireContract id now => cases h; exact hupdate (fun c => ⟨rfl, rfl, nofun⟩) hx
  | retireContract id now => cases h; exact hupdate (fun c => ⟨rfl, rfl, nofun⟩) hx
  | _ => cases hx

/-- What is over stays over, unless it is activated. -/
theorem over_old {s s' : State R} {op : Op R} {r : Response R} (h : apply s op = some (s', r))
    (hload : ∀ file, op ≠ .load file) {x : SloContractId × SloContractGen}
    (hact : ∀ now c, op = .activateContract x.1 now → s.contracts.find x.1 = some c → x.2 ≠ c.gen)
    (hx : Over s x) : Over s' x := by
  obtain ⟨c₀, hc₀, hover⟩ := hx
  cases contracts_cases h with
  | same h' => exact ⟨c₀, h' ▸ hc₀, hover⟩
  | @stored _ _ c _ _ hfits hput =>
    by_cases hid : x.1 = c.id
    · -- what replaces a contract is of a higher generation
      rw [hid] at hc₀
      have hle : x.2 ≤ c₀.gen := hover.elim le_of_lt fun heq => le_of_eq heq.1
      exact ⟨c, hid ▸ hput.found, Or.inl (hle.trans_lt (not_le.mp (hfits c₀ hc₀)))⟩
    · exact ⟨c₀, by rw [hput.others _ hid, hc₀], hover⟩
  | @changed _ id f c hop hc hput =>
    obtain ⟨l, start, stop, hf⟩ := lifecycle_frame hop c
    have hstored : c.id = id := KeyedTable.find_key hc
    have hkey : (f c).id = id := by rw [hf, hstored]
    by_cases hid : x.1 = id
    · subst hid
      obtain rfl : c = c₀ := Option.some.inj (hc.symm.trans hc₀)
      refine ⟨f c, hkey ▸ hput.found, ?_⟩
      have hgen : (f c).gen = c.gen := by rw [hf]
      rw [hgen]
      refine hover.imp_right fun ⟨heq, _⟩ => ⟨heq, ?_⟩
      exact lifecycle_inactive hop (fun now hop' => hact now c hop' hc heq) c
    · exact ⟨c₀, by rw [hput.others _ (hkey ▸ hid), hc₀], hover⟩
  | loaded => exact absurd rfl (hload _)

/-- **The step lemma.** -/
theorem ended_step {w w' : Ended R} {op : Op R} {r : Response R} (hw : ∀ x ∈ w.seen, Over w.state x)
    (hc : Unrevived w op) (h : watch apply noteEnded w op = some (w', r)) :
    ∀ x ∈ w'.seen, Over w'.state x := by
  obtain ⟨hstep, hseen⟩ := watch_cases h
  intro x hx
  rw [hseen, noteEnded, List.mem_append, Option.mem_toList] at hx
  rcases hx with hx | hx
  · refine over_old hstep hc.noLoad (fun now c hop hfind heq => ?_) (hw x hx)
    refine hc.activated x.1 now c hop hfind ?_
    rwa [← heq]
  · exact over_new hstep hx

/-- **Ended contracts stay ended.** In every run that loads nothing and activates no contract at
    a generation it was ended at: what was expired or retired is never selected by an evaluation
    and never authorized against at that generation, and only a replacement of a higher generation
    can become authoritative. -/
theorem ended_run {w : Ended R} {tr : Trace R}
    (h : Run (watch apply noteEnded) Unrevived ⟨State.fresh R, []⟩ tr w) :
    ∀ x ∈ w.seen, StaysEnded w.state x.1 x.2 := by
  have hover : ∀ x ∈ w.seen, Over w.state x :=
    h.invariant (I := fun w => ∀ x ∈ w.seen, Over w.state x) (fun x hx => nomatch hx)
      fun w op w' r hw hc => ended_step hw hc
  exact fun x hx => (hover x hx).stays

end Step

/-! ## 3. A contract that comes back -/

/-- Contract `1` is valid until time `100`, and expired early. -/
def expiredEarly (later : List (Op Binary64)) : List (Op Binary64) :=
  [.setPolicy smallPolicy,
    .addContract { smallContract 1 1 1 [smallObjective 1 1] with expiration := some 100 },
    .expireContract ⟨1⟩ 1] ++ later

/-- `Unrevived`, as a test. -/
def unrevivedTest (w : Ended Binary64) : Op Binary64 → Bool
  | .activateContract id _ =>
    (w.state.contracts.find id).all fun c => decide ((id, c.gen) ∉ w.seen)
  | op => !op.isLoad

theorem unrevived_of_test {w : Ended Binary64} {op : Op Binary64}
    (h : unrevivedTest w op = true) : Unrevived w op := by
  constructor
  · rintro file rfl
    cases h
  · rintro id now c rfl hc
    simp only [unrevivedTest, hc, Option.all_some, decide_eq_true_eq] at h
    exact h

/-- **An expired contract is activated**, and an intent is authorized against it again. -/
theorem ended_fails :
    ¬∀ (tr : Trace Binary64) (w : Ended Binary64),
      Run (watch apply noteEnded) (fun _ op => ∀ file, op ≠ .load file)
        ⟨State.fresh Binary64, []⟩ tr w → ∀ x ∈ w.seen, StaysEnded w.state x.1 x.2 := by
  intro hall
  have htest : (execute (watch apply noteEnded) (fun _ op => !op.isLoad)
      ⟨State.fresh Binary64, []⟩ (expiredEarly [.activateContract ⟨1⟩ 2])).any (fun x =>
        decide (x.1.seen = [(⟨1⟩, ⟨1⟩)]) &&
        (authorize x.1.state (smallIntent 1) 3).2.toBool &&
        (intentContract x.1.state.contracts (smallIntent 1)).any fun c =>
          c.id = ⟨1⟩ && c.gen = ⟨1⟩) = true := by
    decide +kernel
  obtain ⟨w, tr, hrun, hw⟩ := Run.of_test (fun _ _ => not_load) htest
  simp only [Bool.and_eq_true, decide_eq_true_eq, Option.any_eq_true] at hw
  obtain ⟨⟨hseen, hok⟩, c, hc, hid, hgen⟩ := hw
  obtain ⟨s', rc, hrc⟩ := exists_of_toBool hok
  have hstays := hall tr w hrun (⟨1⟩, ⟨1⟩) (by rw [hseen]; exact List.mem_singleton.mpr rfl)
  exact hstays.authorized _ _ s' rc c hrc hc hid hgen

/-- A replacement of the next generation can be activated. -/
theorem ended_run_small :
    ∃ (tr : Trace Binary64) (w : Ended Binary64),
      Run (watch apply noteEnded) Unrevived ⟨State.fresh Binary64, []⟩ tr w ∧
      w.seen = [(⟨1⟩, ⟨1⟩)] ∧ (selectContract w.state.contracts ⟨1⟩ ⟨1⟩ 3).isSome = true ∧
      ∀ x ∈ w.seen, StaysEnded w.state x.1 x.2 := by
  have htest : (execute (watch apply noteEnded) unrevivedTest ⟨State.fresh Binary64, []⟩
      (expiredEarly [.addContract (smallContract 1 2 1 [smallObjective 1 1]),
        .activateContract ⟨1⟩ 2])).any (fun x => decide (x.1.seen = [(⟨1⟩, ⟨1⟩)]) &&
          (selectContract x.1.state.contracts ⟨1⟩ ⟨1⟩ 3).isSome) = true := by
    decide +kernel
  obtain ⟨w, tr, hrun, hw⟩ := Run.of_test (fun _ _ => unrevived_of_test) htest
  obtain ⟨hseen, hsel⟩ := Bool.and_eq_true_iff.mp hw
  exact ⟨tr, w, hrun, of_decide_eq_true hseen, hsel, ended_run hrun⟩

end SloFabric
