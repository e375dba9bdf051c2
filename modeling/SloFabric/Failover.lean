/-
  File:      SloFabric/Failover.lean
  Subject:   Whether the monitor notices that worker A is gone.

  The monitor looks for a worker named A in the table of workers. The thread of a connection takes
  the worker out of the table when the connection is lost, and a hello of another name puts another
  worker in its place.

  * `Signs`: when A was heard last, on whichever connection was granted the name, and what was
    recorded;
  * `KeepsA`: the last worker named A stays in the table, and a handle is not handed out while the
    table has A under it;
  * `Tracked`: the table has a worker named A, heard no later than noted; `tracked_step`: until the
    alarm it does. `Watchful`: it does, or the failure is recorded; `watchful_step`, `watchful_run`;
  * `failure_recorded`: in a run that keeps A until the alarm, A is not silent for longer than two
    seconds at a round of the monitor without the alarm being raised;
  * `failure_recorded_fails`: the connection of A is lost, and the monitor never looks for it.
-/
import SloFabric.Coordinator

namespace SloFabric

variable {R : Type}

open Codec

/-! ## 1. What an observer notes -/

/-- The last time that was read under the lock, the name each connection was granted last, when a
    worker named A was heard last, and the recovery events that were recorded. -/
structure Signs where
  clock : Int64 := 0
  named : SocketHandle → Option Bytes := fun _ => none
  heard : Option Int64 := none
  recorded : List RecoveryEventPhase := []

abbrev FollowedCoordinator (R : Type) := Watched (Coordinator R) Signs

/-- A granted hello, evidence and a heartbeat are signs of the worker. -/
def Signs.note (_ : Coordinator R) (h : Signs) : Act × Effect R → Signs
  | (.accept sock, _) => { h with named := Function.update h.named sock none }
  | (.proceed sock now, .granted g) =>
    { h with
        clock := now
        named := Function.update h.named sock (some g.name)
        heard := if g.name = ascii "A" then some now else h.heard }
  | (.proceed sock now, .stamped) =>
    { h with
        clock := now
        heard := if h.named sock = some (ascii "A") then some now else h.heard }
  | (.proceed _ _, .recorded phase st) =>
    { h with recorded := h.recorded ++ if st.isOk then [phase] else [] }
  | (.tick now, .ticked evs) =>
    { h with clock := now, recorded := h.recorded ++ (evs.filter (·.2.isOk)).map (·.1) }
  | _ => h

/-- The failure is recorded, and recovery called for. -/
structure Alarmed (w : FollowedCoordinator R) : Prop where
  down : w.state.downA = true
  auth : w.state.recoveryAuth = true
  observed : .observed ∈ w.seen.recorded
  authoritative : .authoritative ∈ w.seen.recorded

/-! ## 2. The condition -/

namespace Coordinator

/-- Where the table has A under the handle, it has A under another one, too. -/
def Spared (c : Coordinator R) (sock : SocketHandle) : Prop :=
  ∀ row, c.workers.find sock = some row → row.name = ascii "A" →
    ∃ k row', k ≠ sock ∧ c.workers.find k = some row' ∧ row'.name = ascii "A"

/-- The step keeps A in the table, and A's place in the table to A; the monitor finds the recovery
    objective. -/
def KeepsA (c : Coordinator R) : Act → Prop
  | .accept sock => ∀ row, c.workers.find sock = some row → row.name ≠ ascii "A"
  | .proceed sock _ =>
    match c.threads sock with
    | some .leaving => c.Spared sock
    | some (.registering g) => g.name ≠ ascii "A" → g.bootId ∉ c.seenBoots g.name → c.Spared sock
    | _ => True
  | .tick _ => definitionOf c.fabric.contracts kRecoveryObjId ≠ none
  | _ => True

/-- The time a step reads under the lock. -/
def lockTime (c : Coordinator R) : Act → Option Int64
  | .proceed sock now =>
    match c.threads sock with
    | some .stamping | some (.registering _) => some now
    | _ => none
  | .tick now => some now
  | _ => none

end Coordinator

/-- The steady clock does not run backwards, and until the alarm A is kept. -/
structure Followed (w : FollowedCoordinator R) (act : Act) : Prop where
  steady : ∀ t ∈ w.state.lockTime act, w.seen.clock ≤ t
  keepsA : w.state.downA = false → w.state.KeepsA act

/-! ## 3. What the table knows of A -/

/-- A worker named A that was heard is in the table, and was not heard later than noted. -/
structure Tracked (w : FollowedCoordinator R) : Prop where
  clock : 0 ≤ w.seen.clock
  heard : ∀ t, w.seen.heard = some t → t ≤ w.seen.clock
  named : ∀ k, w.seen.named k = some (ascii "A") → ∃ t, w.seen.heard = some t
  rows : ∀ k row, w.state.workers.find k = some row → row.name = ascii "A" →
    row.alive = true ∧ 0 ≤ row.lastHbMs ∧ ∃ t, w.seen.heard = some t ∧ row.lastHbMs ≤ t
  owner : ∀ k p row, w.state.threads k = some p → w.state.workers.find k = some row →
    row.name = ascii "A" → w.seen.named k = some (ascii "A")
  present : ∀ t, w.seen.heard = some t →
    ∃ k row, w.state.workers.find k = some row ∧ row.name = ascii "A"

/-- Who was heard earlier is silent for longer. -/
theorem longer_silent {now t t' : Int64} (hpos : 0 ≤ t') (hle : t' ≤ t) (hnow : t ≤ now)
    (h : 2000 < now - t) : 2000 < now - t' := by
  rw [Int64.le_iff_toInt_le] at hpos hle hnow
  rw [Int64.lt_iff_toInt_lt] at h ⊢
  have hlt := now.toInt_lt
  have hzero := Int64.toInt_zero
  rw [toInt_sub_of_range (by omega) (by omega)] at h ⊢
  omega

namespace Tracked

variable {w : FollowedCoordinator R} {c' : Coordinator R} {seen' : Signs}

theorem start [Pod R] [Double R] (file : Option (Option Bytes)) (now : Int64) :
    Tracked ⟨.start (R := R) file now, {}⟩ := by
  obtain ⟨hworkers, _, hthreads, _⟩ := Coordinator.start_blank (R := R) file now
  refine ⟨Int64.le_refl 0, nofun, nofun, fun k row hrow => ?_, fun k p row hp => ?_, nofun⟩
  · rw [hworkers] at hrow
    cases hrow
  · rw [hthreads] at hp
    cases hp

/-- The table and what was heard are the same. -/
theorem keep (hI : Tracked w) (hworkers : c'.workers = w.state.workers)
    (hclock : w.seen.clock ≤ seen'.clock) (hheard : seen'.heard = w.seen.heard)
    (hnamed : seen'.named = w.seen.named)
    (hp : ∀ k q, c'.threads k = some q → ∃ p, w.state.threads k = some p) :
    Tracked ⟨c', seen'⟩ where
  clock := Int64.le_trans hI.clock hclock
  heard t ht := Int64.le_trans (hI.heard t (hheard ▸ ht)) hclock
  named k hk := by
    rw [hheard]
    exact hI.named k (hnamed ▸ hk)
  rows k row hrow hname := by
    simp only [hworkers] at hrow
    rw [hheard]
    exact hI.rows k row hrow hname
  owner k q row hq hrow hname := by
    obtain ⟨p, hthread⟩ := hp k q hq
    simp only [hworkers] at hrow
    rw [hnamed]
    exact hI.owner k p row hthread hrow hname
  present t ht := by
    simp only [hworkers]
    exact hI.present t (hheard ▸ ht)

/-- A handle is handed out that the table does not have A under. -/
theorem accept (hI : Tracked w) {sock : SocketHandle}
    (hfree : ∀ row, w.state.workers.find sock = some row → row.name ≠ ascii "A") :
    Tracked ⟨w.state.goTo sock (some .reading),
      { w.seen with named := Function.update w.seen.named sock none }⟩ := by
  refine ⟨hI.clock, hI.heard, fun k hk => ?_, hI.rows, fun k p row hk hrow hname => ?_,
    hI.present⟩
  · rcases update_some hk with ⟨_, hnone⟩ | ⟨_, hold⟩
    · cases hnone
    · exact hI.named k hold
  · rcases update_some hk with ⟨rfl, _⟩ | ⟨hne, hold⟩
    · exact absurd hname (hfree row hrow)
    · exact (Function.update_of_ne hne ..).trans (hI.owner k p row hold hrow hname)

/-- A connection is closed, and A is in the table under another handle, too. -/
theorem close (hI : Tracked w) {sock : SocketHandle} (hspared : w.state.Spared sock) :
    Tracked ⟨{ w.state with workers := w.state.workers.erase sock }.goTo sock none, w.seen⟩ := by
  refine ⟨hI.clock, hI.heard, hI.named,
    fun k row hrow => hI.rows k row (KeyedTable.find_erase_some hrow).2,
    fun k p row hk hrow => ?_, fun t ht => ?_⟩
  · obtain ⟨hne, hold⟩ := KeyedTable.find_erase_some hrow
    exact hI.owner k p row ((Function.update_of_ne hne ..).symm.trans hk) hold
  · obtain ⟨k, row, hrow, hname⟩ := hI.present t ht
    rcases eq_or_ne k sock with rfl | hne
    · obtain ⟨k', row', hne', hrow', hname'⟩ := hspared row hrow hname
      exact ⟨k', row', (KeyedTable.find_erase_ne _ hne').trans hrow', hname'⟩
    · exact ⟨k, row, (KeyedTable.find_erase_ne _ hne).trans hrow, hname⟩

/-- What was heard is not lost when A is heard again. -/
theorem heard_later (hI : Tracked w) {now t : Int64} (hnow : w.seen.clock ≤ now)
    (ht : w.seen.heard = some t) (p : Prop) [Decidable p] :
    ∃ t', (if p then some now else w.seen.heard) = some t' ∧ t ≤ t' := by
  split
  · exact ⟨now, rfl, Int64.le_trans (hI.heard t ht) hnow⟩
  · exact ⟨t, ht, Int64.le_refl t⟩

theorem heard_clock (hI : Tracked w) {now t : Int64} (hnow : w.seen.clock ≤ now) {p : Prop}
    [Decidable p] (ht : (if p then some now else w.seen.heard) = some t) : t ≤ now := by
  split at ht
  · cases ht
    exact Int64.le_refl now
  · exact Int64.le_trans (hI.heard t ht) hnow

/-- A worker is heard. -/
theorem stamp (hI : Tracked w) {sock : SocketHandle} {now : Int64}
    (hp : w.state.threads sock = some .stamping) (hnow : w.seen.clock ≤ now) :
    Tracked ⟨(w.state.stamp sock now).goTo sock (some .reading),
      { w.seen with
          clock := now
          heard := if w.seen.named sock = some (ascii "A") then some now else w.seen.heard }⟩ := by
  obtain ⟨hthreads, _⟩ := w.state.stamp_frame sock now
  have hself := w.state.find_stamp_self sock now
  refine ⟨Int64.le_trans hI.clock hnow, fun t ht => hI.heard_clock hnow ht, fun k hk => ?_,
    fun k row hrow hname => ?_, fun k p row hk hrow hname => ?_, fun t ht => ?_⟩
  · obtain ⟨t, ht⟩ := hI.named k hk
    obtain ⟨t', ht', _⟩ := hI.heard_later hnow ht (w.seen.named sock = some (ascii "A"))
    exact ⟨t', ht'⟩
  · rcases Coordinator.find_stamp_some hrow with ⟨rfl, row', hrow', rfl⟩ | ⟨_, hold⟩
    · obtain ⟨halive, _⟩ := hI.rows k row' hrow' hname
      have howner := hI.owner k _ row' hp hrow' hname
      exact ⟨halive, Int64.le_trans hI.clock hnow, now, if_pos howner, Int64.le_refl now⟩
    · obtain ⟨halive, hpos, t, ht, hle⟩ := hI.rows k row hold hname
      obtain ⟨t', ht', hle'⟩ := hI.heard_later hnow ht (w.seen.named sock = some (ascii "A"))
      exact ⟨halive, hpos, t', ht', Int64.le_trans hle hle'⟩
  · rcases Coordinator.find_stamp_some hrow with ⟨rfl, row', hrow', rfl⟩ | ⟨hne, hold⟩
    · exact hI.owner k _ row' hp hrow' hname
    · have hthread : w.state.threads k = some p := by
        rw [← hthreads]
        exact (Function.update_of_ne hne ..).symm.trans hk
      exact hI.owner k p row hthread hold hname
  · have hsome : ∃ t, w.seen.heard = some t := by
      simp only at ht
      split at ht
      · rename_i howner
        exact hI.named sock howner
      · exact ⟨t, ht⟩
    obtain ⟨t, ht⟩ := hsome
    obtain ⟨k, row, hrow, hname⟩ := hI.present t ht
    rcases eq_or_ne k sock with rfl | hne
    · exact ⟨k, { row with lastHbMs := now }, hself.trans (by rw [hrow]; rfl), hname⟩
    · exact ⟨k, row, (w.state.find_stamp_ne hne now).trans hrow, hname⟩

/-- A hello is granted. -/
theorem grant (hI : Tracked w) {sock : SocketHandle} {g : Hello} {now : Int64}
    (hnew : g.bootId ∉ w.state.seenBoots g.name) (hnow : w.seen.clock ≤ now)
    (hspared : g.name ≠ ascii "A" → w.state.Spared sock) :
    Tracked ⟨(w.state.register sock g now).1,
      { w.seen with
          clock := now
          named := Function.update w.seen.named sock (some g.name)
          heard := if g.name = ascii "A" then some now else w.seen.heard }⟩ := by
  rw [Coordinator.register, if_neg hnew]
  have hself := KeyedTable.find_insert_self w.state.workers
    ({ sock := sock, name := g.name, bootId := g.bootId, lastHbMs := now } : WorkerInfo)
  refine ⟨Int64.le_trans hI.clock hnow, fun t ht => hI.heard_clock hnow ht, fun k hk => ?_,
    fun k row hrow hname => ?_, fun k p row hk hrow hname => ?_, fun t ht => ?_⟩
  · rcases update_some hk with ⟨rfl, hname⟩ | ⟨_, hold⟩
    · exact ⟨now, if_pos (Option.some.inj hname)⟩
    · obtain ⟨t, ht⟩ := hI.named k hold
      obtain ⟨t', ht', _⟩ := hI.heard_later hnow ht (g.name = ascii "A")
      exact ⟨t', ht'⟩
  · rcases KeyedTable.find_insert_some hrow with ⟨_, rfl⟩ | ⟨_, hold⟩
    · exact ⟨rfl, Int64.le_trans hI.clock hnow, now, if_pos hname, Int64.le_refl now⟩
    · obtain ⟨halive, hpos, t, ht, hle⟩ := hI.rows k row hold hname
      obtain ⟨t', ht', hle'⟩ := hI.heard_later hnow ht (g.name = ascii "A")
      exact ⟨halive, hpos, t', ht', Int64.le_trans hle hle'⟩
  · rcases KeyedTable.find_insert_some hrow with ⟨rfl, rfl⟩ | ⟨hne, hold⟩
    · exact (Function.update_self ..).trans (congrArg some hname)
    · exact (Function.update_of_ne hne ..).trans
        (hI.owner k p row ((Function.update_of_ne hne ..).symm.trans hk) hold hname)
  · by_cases hA : g.name = ascii "A"
    · exact ⟨sock, _, hself, hA⟩
    · obtain ⟨k, row, hrow, hname⟩ := hI.present t ((if_neg hA).symm.trans ht)
      rcases eq_or_ne k sock with rfl | hne
      · obtain ⟨k', row', hne', hrow', hname'⟩ := hspared hA row hrow hname
        exact ⟨k', row', (KeyedTable.find_insert_ne _ hne').trans hrow', hname'⟩
      · exact ⟨k, row, (KeyedTable.find_insert_ne _ hne).trans hrow, hname⟩

/-- Where the table has a worker named A for longer than two seconds without a sign, it is lost. -/
theorem lost (hI : Tracked w) {now t : Int64} (hsteady : w.seen.clock ≤ now)
    (ht : w.seen.heard = some t) (hlate : 2000 < now - t) :
    w.state.workers.rows.any (·.lost now) = true := by
  obtain ⟨k, row, hrow, hname⟩ := hI.present t ht
  obtain ⟨halive, hpos, t', ht', hle⟩ := hI.rows k row hrow hname
  cases ht.symm.trans ht'
  refine List.any_eq_true.mpr ⟨row, KeyedTable.find_mem hrow, ?_⟩
  have hlate' : 2000 < now - row.lastHbMs :=
    longer_silent hpos hle (Int64.le_trans (hI.heard t ht) hsteady) hlate
  unfold WorkerInfo.lost
  rw [halive, hname]
  simpa using hlate'

end Tracked

namespace Signs

/-- What is recorded stays recorded. -/
theorem note_recorded (c : Coordinator R) (h : Signs) (x : Act × Effect R)
    {phase : RecoveryEventPhase} (hphase : phase ∈ h.recorded) :
    phase ∈ (h.note c x).recorded := by
  unfold note
  split
  case h_1 => exact hphase
  case h_2 => exact hphase
  case h_3 => exact hphase
  case h_4 => exact List.mem_append_left _ hphase
  case h_5 => exact List.mem_append_left _ hphase
  case h_6 => exact hphase

theorem note_quiet {c : Coordinator R} {act : Act} {e : Effect R} (h : Signs) {sock : SocketHandle}
    (hact : act.sock = some sock) (he : e.quiet) :
    (h.note c (act, e)).clock = h.clock ∧ (h.note c (act, e)).named = h.named ∧
      (h.note c (act, e)).heard = h.heard := by
  cases act with
  | accept => cases hact
  | tick => cases hact
  | lose => exact ⟨rfl, rfl, rfl⟩
  | receive => exact ⟨rfl, rfl, rfl⟩
  | proceed sock₁ now =>
    cases e with
    | granted => cases he
    | stamped => cases he
    | _ => exact ⟨rfl, rfl, rfl⟩

end Signs

section Steps

variable [Pod R] [Double R] [Platform R]

/-- **Until the alarm, one step keeps the table and what was heard together.** -/
theorem tracked_step {w w' : FollowedCoordinator R} {act : Act} {e : Effect R} (hI : Tracked w)
    (hc : Followed w act) (hup : w.state.downA = false) (hup' : w'.state.downA = false)
    (h : watch Coordinator.step Signs.note w act = some (w', e)) : Tracked w' := by
  have hkeep := hc.keepsA hup
  have hsteady := hc.steady
  obtain ⟨c', seen'⟩ := w'
  obtain ⟨hstep, hseen⟩ := watch_cases h
  simp only at hstep hseen hup'
  subst hseen
  cases Coordinator.step_does hstep with
  | accept hp => exact hI.accept hkeep
  | @work _ sock p p' _ _ hact hp hsame hp' hgrant hgrant' hboot he =>
    obtain ⟨hclock, hnamed, hheard⟩ := w.seen.note_quiet (c := w.state) hact he
    refine hI.keep hsame.workers (hclock ▸ Int64.le_refl _) hheard hnamed fun k q hk => ?_
    rw [hp'] at hk
    rcases update_some hk with ⟨rfl, _⟩ | ⟨_, hold⟩
    · exact ⟨p, hp⟩
    · exact ⟨q, hold⟩
  | stay hf hsame hp' he =>
    exact hI.keep hsame.workers (Int64.le_refl _) rfl rfl fun k q hk => ⟨q, hp' ▸ hk⟩
  | @grant sock g now hp hnew =>
    have hnow : w.seen.clock ≤ now := hsteady now (by simp [Coordinator.lockTime, hp])
    have hspared : g.name ≠ ascii "A" → w.state.Spared sock := fun hname => by
      simp only [Coordinator.KeepsA, hp] at hkeep
      exact hkeep hname hnew
    exact hI.grant hnew hnow hspared
  | @ack sock g now hp =>
    refine hI.keep rfl (Int64.le_refl _) rfl rfl fun k q hk => ?_
    rcases update_some hk with ⟨rfl, _⟩ | ⟨_, hold⟩
    · exact ⟨_, hp⟩
    · exact ⟨q, hold⟩
  | @stamp sock now hp =>
    have hnow : w.seen.clock ≤ now := hsteady now (by simp [Coordinator.lockTime, hp])
    exact hI.stamp hp hnow
  | @close sock now hp =>
    have hspared : w.state.Spared sock := by simpa [Coordinator.KeepsA, hp] using hkeep
    exact hI.close hspared
  | @tick now =>
    obtain ⟨hworkers, _, _, hthreads⟩ := w.state.monitor_tables now
    exact hI.keep hworkers (hsteady now rfl) rfl rfl fun k q hk => ⟨q, hthreads ▸ hk⟩

/-- **The two flags change in a round of the monitor only**, and there with the alarm. -/
theorem flags_step {c c' : Coordinator R} {act : Act} {e : Effect R}
    (h : c.step act = some (c', e)) :
    c'.downA = c.downA ∧ c'.recoveryAuth = c.recoveryAuth ∨
      ∃ now, act = .tick now ∧ c.downA = false ∧ c' = (c.alarm now).1 ∧
        e = .ticked (c.alarm now).2 := by
  cases Coordinator.step_does h with
  | accept => exact .inl ⟨rfl, rfl⟩
  | work _ _ hsame => exact .inl ⟨hsame.downA, hsame.recoveryAuth⟩
  | stay _ hsame => exact .inl ⟨hsame.downA, hsame.recoveryAuth⟩
  | grant _ hnew =>
    rw [Coordinator.register, if_neg hnew]
    exact .inl ⟨rfl, rfl⟩
  | ack => exact .inl ⟨rfl, rfl⟩
  | stamp =>
    obtain ⟨_, _, _, hdown, hauth⟩ := Coordinator.stamp_frame c _ _
    exact .inl ⟨hdown, hauth⟩
  | close => exact .inl ⟨rfl, rfl⟩
  | @tick now =>
    rw [Coordinator.monitor_eq]
    split
    · rename_i hlost
      exact .inr ⟨now, rfl, hlost.1, rfl, rfl⟩
    · exact .inl ⟨rfl, rfl⟩

omit [Pod R] [Double R] [Platform R] in
theorem recordRecoveryEvent_ok {s : State R} {id : ObjectiveId}
    (hdef : definitionOf s.contracts id ≠ none) (phase : RecoveryEventPhase) (time : Duration) :
    (recordRecoveryEvent s id phase time).2 = ok := by
  unfold recordRecoveryEvent
  cases h : definitionOf s.contracts id with
  | none => exact absurd h hdef
  | some o => rfl

omit [Pod R] [Platform R] in
/-- Where the fabric defines the recovery objective, both events are recorded. -/
theorem alarm_records {c : Coordinator R} (now : Int64)
    (hdef : definitionOf c.fabric.contracts kRecoveryObjId ≠ none) :
    (c.alarm now).2 = [(.observed, ok), (.authoritative, ok)] := by
  have hobserved := recordRecoveryEvent_ok hdef .observed (nowDur now)
  have hframe := recordRecoveryEvent_frame c.fabric kRecoveryObjId .observed (nowDur now)
  have hdef' : definitionOf (recordRecoveryEvent c.fabric kRecoveryObjId .observed
      (nowDur now)).1.contracts kRecoveryObjId ≠ none := by
    rw [hframe]
    exact hdef
  have hauthoritative := recordRecoveryEvent_ok hdef' .authoritative (nowDur now)
  exact congrArg₂ (fun st st' => [(RecoveryEventPhase.observed, st), (.authoritative, st')])
    hobserved hauthoritative

/-- Until the alarm the table knows of A; then the failure is recorded. -/
structure Watchful (w : FollowedCoordinator R) : Prop where
  up : w.state.downA = false → Tracked w
  down : w.state.downA = true → Alarmed w

/-- **One step keeps it so.** -/
theorem watchful_step {w w' : FollowedCoordinator R} {act : Act} {e : Effect R} (hI : Watchful w)
    (hc : Followed w act) (h : watch Coordinator.step Signs.note w act = some (w', e)) :
    Watchful w' := by
  obtain ⟨hstep, hseen⟩ := watch_cases h
  rcases flags_step hstep with ⟨hdown, hauth⟩ | ⟨now, rfl, hup, hstate, he⟩
  · refine ⟨fun hup' => ?_, fun hdown' => ?_⟩
    · have hup := hdown.symm.trans hup'
      exact tracked_step (hI.up hup) hc hup hup' h
    · obtain ⟨hdown₁, hauth₁, hobserved, hauthoritative⟩ := hI.down (hdown.symm.trans hdown')
      refine ⟨hdown', hauth.trans hauth₁, ?_, ?_⟩
      · rw [hseen]
        exact Signs.note_recorded _ _ _ hobserved
      · rw [hseen]
        exact Signs.note_recorded _ _ _ hauthoritative
  · have hdown' : w'.state.downA = true := by rw [hstate]; rfl
    refine ⟨fun hup' => ?_, fun _ => ?_⟩
    · rw [hdown'] at hup'
      cases hup'
    · have hrecorded : w'.seen.recorded = w.seen.recorded ++ [.observed, .authoritative] := by
        rw [hseen, he, alarm_records now (hc.keepsA hup)]
        rfl
      refine ⟨hdown', by rw [hstate]; rfl, ?_, ?_⟩
      · rw [hrecorded]
        exact List.mem_append_right _ (List.mem_cons_self ..)
      · rw [hrecorded]
        exact List.mem_append_right _ (List.mem_cons_of_mem _ (List.mem_singleton_self _))

theorem watchful_run {file : Option (Option Bytes)} {now : Int64} {tr : List (Act × Effect R)}
    {w : FollowedCoordinator R} (h : Run (watch Coordinator.step Signs.note) Followed
      ⟨.start file now, {}⟩ tr w) : Watchful w := by
  refine h.invariant ⟨fun _ => .start file now, fun hdown => ?_⟩
    fun _ _ _ _ hI hc hs => watchful_step hI hc hs
  cases (Coordinator.start_blank file now).2.2.2.symm.trans hdown

/-! ## 4. The failure is recorded -/

/-- **Where A was silent for longer than two seconds, a round of the monitor leaves the failure
    recorded**, in every run that keeps A until the alarm. -/
theorem failure_recorded {file : Option (Option Bytes)} {start now : Int64}
    {tr : List (Act × Effect R)} {w w' : FollowedCoordinator R} {e : Effect R}
    (h : Run (watch Coordinator.step Signs.note) Followed ⟨.start file start, {}⟩ tr w)
    (hc : Followed w (.tick now))
    (hs : watch Coordinator.step Signs.note w (.tick now) = some (w', e)) {t : Int64}
    (ht : w.seen.heard = some t) (hlate : 2000 < now - t) : Alarmed w' := by
  have hI := watchful_run h
  refine (watchful_step hI hc hs).down ?_
  obtain ⟨hstep, _⟩ := watch_cases hs
  unfold Coordinator.step at hstep
  split_ifs at hstep
  have hstate : (w.state.monitor now).1 = w'.state := (Prod.ext_iff.mp (Option.some.inj hstep)).1
  rw [← hstate, Coordinator.monitor_eq]
  cases hdown : w.state.downA with
  | false =>
    have hlost := (hI.up hdown).lost (hc.steady now rfl) ht hlate
    rw [if_pos ⟨rfl, hlost⟩]
    rfl
  | true =>
    rw [if_neg fun hup => Bool.noConfusion hup.1]
    exact hdown

end Steps

/-! ## 5. A connection that is lost -/

/-- A hello of worker A. -/
def helloOfA : Frame := { kind := .hello, payload := encodeHello ⟨ascii "A", 1001, 1⟩ }

/-- A is registered at time `0` on connection `3`. -/
def registeredA : List Act := [.accept 3, .receive 3 helloOfA 0, .proceed 3 0, .proceed 3 0]

/-- The clock of a step is steady. -/
def steadyClock (w : FollowedCoordinator Binary64) (act : Act) : Bool :=
  (w.state.lockTime act).all fun t => w.seen.clock ≤ t

theorem steady_of_clock {w : FollowedCoordinator Binary64} {act : Act}
    (h : steadyClock w act = true) : ∀ t ∈ w.state.lockTime act, w.seen.clock ≤ t := by
  intro t ht
  unfold steadyClock at h
  rw [ht] at h
  exact of_decide_eq_true h

/-- **The connection of A is lost, and five seconds later no failure is recorded.** -/
theorem failure_recorded_fails :
    ¬∀ (tr : List (Act × Effect Binary64)) (w w' : FollowedCoordinator Binary64)
      (e : Effect Binary64) (now t : Int64),
      Run (watch Coordinator.step Signs.note) (fun w act => ∀ t ∈ w.state.lockTime act,
        w.seen.clock ≤ t) ⟨.start none 0, {}⟩ tr w → w.seen.clock ≤ now →
      watch Coordinator.step Signs.note w (.tick now) = some (w', e) →
      w.seen.heard = some t → 2000 < now - t → Alarmed w' := by
  intro hall
  have htest : (execute (watch Coordinator.step Signs.note) steadyClock
      (⟨.start none 0, {}⟩ : FollowedCoordinator Binary64)
      (registeredA ++ [.lose 3, .proceed 3 0])).any (fun x =>
        decide (x.1.seen.heard = some 0 ∧ x.1.seen.clock ≤ 5000) &&
          (watch Coordinator.step Signs.note x.1 (.tick 5000)).any fun y =>
            !y.1.state.downA) = true := by
    decide +kernel
  obtain ⟨w, tr, hrun, hw⟩ := Run.of_test (fun _ _ => steady_of_clock) htest
  obtain ⟨hheard, hup⟩ := Bool.and_eq_true_iff.mp hw
  obtain ⟨hheard, hclock⟩ := of_decide_eq_true hheard
  obtain ⟨⟨w', e⟩, hs, hup⟩ := (Option.any_eq_true _ _).mp hup
  have halarmed := hall tr w w' e 5000 0 hrun hclock hs hheard (by decide)
  simp only [halarmed.down] at hup
  cases hup

/-- `Followed` of a step that takes nobody out of the table, as a test. -/
def followedTest (w : FollowedCoordinator Binary64) (act : Act) : Bool :=
  steadyClock w act &&
    match act with
    | .accept sock => (w.state.workers.find sock).isNone
    | .proceed sock _ => (w.state.workers.find sock).isNone ||
        (w.state.threads sock).any fun p => p.grant.isSome
    | .tick _ => (definitionOf w.state.fabric.contracts kRecoveryObjId).isSome
    | _ => true

theorem followed_of_test {w : FollowedCoordinator Binary64} {act : Act}
    (h : followedTest w act = true) : Followed w act := by
  obtain ⟨hclock, h⟩ := Bool.and_eq_true_iff.mp h
  refine ⟨steady_of_clock hclock, fun _ => ?_⟩
  cases act with
  | accept sock =>
    intro row hrow
    simp only [hrow] at h
    cases h
  | proceed sock now =>
    simp only [Coordinator.KeepsA]
    rcases Bool.or_eq_true_iff.mp h with h | h
    · have hspared : w.state.Spared sock := by
        intro row hrow
        rw [hrow] at h
        cases h
      split
      · exact hspared
      · exact fun _ _ => hspared
      · trivial
    · obtain ⟨p, hp, hgrant⟩ := (Option.any_eq_true _ _).mp h
      simp only [hp]
      cases p with
      | granting => trivial
      | _ => cases hgrant
  | tick now => exact Option.isSome_iff_ne_none.mp h
  | _ => trivial

/-- A worker that stays connected and falls silent is noticed. -/
theorem failure_recorded_small :
    ∃ (tr : List (Act × Effect Binary64)) (w w' : FollowedCoordinator Binary64)
      (e : Effect Binary64), Run (watch Coordinator.step Signs.note) Followed
        ⟨.start none 0, {}⟩ tr w ∧
      watch Coordinator.step Signs.note w (.tick 5000) = some (w', e) ∧
      w.seen.heard = some 0 ∧ Alarmed w' := by
  have htest : (execute (watch Coordinator.step Signs.note) followedTest
      (⟨.start none 0, {}⟩ : FollowedCoordinator Binary64) registeredA).any (fun x =>
        decide (x.1.seen.heard = some 0) && followedTest x.1 (.tick 5000) &&
          (watch Coordinator.step Signs.note x.1 (.tick 5000)).isSome) = true := by
    decide +kernel
  obtain ⟨w, tr, hrun, hw⟩ := Run.of_test (fun _ _ => followed_of_test) htest
  simp only [Bool.and_eq_true, decide_eq_true_eq] at hw
  obtain ⟨⟨hheard, hc⟩, hs⟩ := hw
  obtain ⟨⟨w', e⟩, hs⟩ := Option.isSome_iff_exists.mp hs
  exact ⟨tr, w, w', e, hrun, hs, hheard,
    failure_recorded hrun (followed_of_test hc) hs hheard (by decide)⟩

end SloFabric
