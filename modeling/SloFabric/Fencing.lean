/-
  File:      SloFabric/Fencing.lean
  Subject:   Whose evidence the coordinator takes.

  A hello is fenced by its boot id; evidence is not looked up in the table of workers. An observer
  notes the hellos that were granted and acknowledged.

  * `History`: what was granted, what was acknowledged, and the evidence a thread read last;
  * `Registered`: an open connection that is in the table of workers is there under the hello it was
    granted last, and the boot ids seen of a name are those granted to it; `registered_step`,
    `registered_run`;
  * `Current`: the table has the boot id on the connection, and none was seen after it;
  * `evidence_fenced`: in a run whose evidence is all current, and whose handles are not handed
    out while they are in the table, evidence reaches the fabric only from the boot last granted;
  * `evidence_fenced_fails`: evidence without a hello changes the fabric.
-/
import SloFabric.Coordinator

namespace SloFabric

variable {R : Type}

open Codec

/-! ## 1. What an observer notes -/

/-- The hello each connection was acknowledged with last, the hellos that were granted, in order,
    and the evidence each thread read last. -/
structure History (R : Type) where
  acked : SocketHandle → Option Hello := fun _ => none
  grants : List (SocketHandle × Hello) := []
  heard : SocketHandle → Option (EvidenceMessage R) := fun _ => none

abbrev FencedCoordinator (R : Type) := Watched (Coordinator R) (History R)

/-- The grants for a name. -/
def History.grantsOf (h : History R) (name : Bytes) : List (SocketHandle × Hello) :=
  h.grants.filter fun g => g.2.name = name

def History.note [Pod R] (_ : Coordinator R) (h : History R) : Act × Effect R → History R
  | (.accept sock, _) => { h with acked := Function.update h.acked sock none }
  | (.receive sock f _, _) =>
    if f.kind = .evidence then
      { h with heard := Function.update h.heard sock (decodeEvidence R f.payload) }
    else h
  | (.proceed sock _, .acked (some g) ack) =>
    if ack.code = 0 then { h with acked := Function.update h.acked sock (some g) } else h
  | (.proceed sock _, .granted g) => { h with grants := h.grants ++ [(sock, g)] }
  | _ => h

/-- The evidence a step is about: the thread reads it, or is at it. -/
def evidenceAt [Pod R] (w : FencedCoordinator R) : Act → Option (SocketHandle × EvidenceMessage R)
  | .receive sock f _ =>
    if f.kind = .evidence then (decodeEvidence R f.payload).map (sock, ·) else none
  | .proceed sock _ =>
    ((w.state.threads sock).bind Phase.bootId).bind fun _ => (w.seen.heard sock).map (sock, ·)
  | _ => none

/-- The evidence is of the coordinator's epoch and of the boot the connection was granted, and that
    is the last grant for the name. -/
structure Entitled (w : FencedCoordinator R) (sock : SocketHandle) (m : EvidenceMessage R) :
    Prop where
  epoch : m.epoch = w.state.epoch.value
  granted : ∃ h, w.seen.acked sock = some h ∧ h.bootId = m.bootId ∧
    (w.seen.grantsOf h.name).getLast? = some (sock, h)

/-! ## 2. Who is registered -/

/-- The table has the boot id on the connection, and it is the last that was seen of the name. -/
def Coordinator.Current (c : Coordinator R) (sock : SocketHandle) (bootId : UInt64) : Prop :=
  ∃ row, c.workers.find sock = some row ∧ row.bootId = bootId ∧
    (c.seenBoots row.name).getLast? = some bootId

structure Registered (w : FencedCoordinator R) : Prop where
  boots : ∀ name, w.state.seenBoots name = (w.seen.grantsOf name).map (·.2.bootId)
  fresh : ∀ name, (w.state.seenBoots name).Nodup
  rows : ∀ sock p row, w.state.threads sock = some p → w.state.workers.find sock = some row →
    ∃ h, p.grant.or (w.seen.acked sock) = some h ∧ (sock, h) ∈ w.seen.grants ∧
      h.name = row.name ∧ h.bootId = row.bootId
  heard : ∀ sock p b, w.state.threads sock = some p → p.bootId = some b →
    ∃ m, w.seen.heard sock = some m ∧ m.bootId = b ∧ m.epoch = w.state.epoch.value

namespace Registered

variable {w : FencedCoordinator R} {c' : Coordinator R} {seen' : History R}

theorem start [Pod R] [Double R] (file : Option (Option Bytes)) (now : Int64) :
    Registered ⟨.start (R := R) file now, {}⟩ := by
  obtain ⟨_, hboots, hthreads, _⟩ := Coordinator.start_blank (R := R) file now
  refine ⟨fun name => ?_, fun name => ?_, fun k p row hp => ?_, fun k p b hp => ?_⟩
  · rw [hboots]
    rfl
  · rw [hboots]
    exact List.nodup_nil
  · rw [hthreads] at hp
    cases hp
  · rw [hthreads] at hp
    cases hp

/-- Nothing was granted. -/
theorem granted (hI : Registered w) (hboots : c'.seenBoots = w.state.seenBoots)
    (hgrants : seen'.grants = w.seen.grants)
    (hrows : ∀ k p row, c'.threads k = some p → c'.workers.find k = some row →
      ∃ h, p.grant.or (seen'.acked k) = some h ∧ (k, h) ∈ w.seen.grants ∧
        h.name = row.name ∧ h.bootId = row.bootId)
    (hheard : ∀ k p b, c'.threads k = some p → p.bootId = some b →
      ∃ m, seen'.heard k = some m ∧ m.bootId = b ∧ m.epoch = c'.epoch.value) :
    Registered ⟨c', seen'⟩ where
  boots name := by
    show c'.seenBoots name = (List.filter _ seen'.grants).map _
    rw [hboots, hgrants]
    exact hI.boots name
  fresh name := by
    show (c'.seenBoots name).Nodup
    rw [hboots]
    exact hI.fresh name
  rows k p row hp hrow := by
    rw [hgrants]
    exact hrows k p row hp hrow
  heard := hheard

/-- Nothing was granted or acknowledged, and no row has changed. -/
theorem keep (hI : Registered w) (hworkers : c'.workers = w.state.workers)
    (hboots : c'.seenBoots = w.state.seenBoots) (hgrants : seen'.grants = w.seen.grants)
    (hacked : seen'.acked = w.seen.acked)
    (hp : ∀ sock q, c'.threads sock = some q →
      ∃ p, w.state.threads sock = some p ∧ p.grant = q.grant)
    (hheard : ∀ sock p b, c'.threads sock = some p → p.bootId = some b →
      ∃ m, seen'.heard sock = some m ∧ m.bootId = b ∧ m.epoch = c'.epoch.value) :
    Registered ⟨c', seen'⟩ := by
  refine hI.granted hboots hgrants (fun k q row hq hrow => ?_) hheard
  obtain ⟨p, hthread, hgrant⟩ := hp k q hq
  rw [hacked, ← hgrant]
  rw [hworkers] at hrow
  exact hI.rows k p row hthread hrow

/-- A thread is done with what it had at hand; the other connections are as they were. -/
theorem turn (hI : Registered w) {sock : SocketHandle} {p' : Option Phase}
    (hp' : c'.threads = Function.update w.state.threads sock p')
    (hboot : p'.bind Phase.bootId = none) (hboots : c'.seenBoots = w.state.seenBoots)
    (hepoch : c'.epoch = w.state.epoch) (hgrants : seen'.grants = w.seen.grants)
    (hheard : seen'.heard = w.seen.heard)
    (hworkers : ∀ k, k ≠ sock → c'.workers.find k = w.state.workers.find k)
    (hacked : ∀ k, k ≠ sock → seen'.acked k = w.seen.acked k)
    (hrow : ∀ p ∈ p', ∀ row, c'.workers.find sock = some row →
      ∃ h, p.grant.or (seen'.acked sock) = some h ∧ (sock, h) ∈ w.seen.grants ∧
        h.name = row.name ∧ h.bootId = row.bootId) : Registered ⟨c', seen'⟩ := by
  refine hI.granted hboots hgrants (fun k p row hk hfind => ?_) fun k p b hk hb => ?_
  · rw [hp'] at hk
    rcases update_some hk with ⟨rfl, hp⟩ | ⟨hne, hold⟩
    · exact hrow p hp row hfind
    · rw [hacked k hne]
      exact hI.rows k p row hold ((hworkers k hne).symm.trans hfind)
  · rw [hp'] at hk
    rw [hheard, hepoch]
    rcases update_some hk with ⟨rfl, rfl⟩ | ⟨_, hold⟩
    · cases hboot.symm.trans hb
    · exact hI.heard k p b hold hb

/-- A thread goes on without the lock. -/
theorem work (hI : Registered w) {sock : SocketHandle} {p : Phase} {p' : Option Phase}
    (hp : w.state.threads sock = some p) (hsame : w.state.SameTables c')
    (hp' : c'.threads = Function.update w.state.threads sock p') (hgrant : p.grant = none)
    (hgrant' : p'.bind Phase.grant = none) (hgrants : seen'.grants = w.seen.grants)
    (hacked : seen'.acked = w.seen.acked)
    (hothers : ∀ k, k ≠ sock → seen'.heard k = w.seen.heard k)
    (hheard : ∀ b ∈ p'.bind Phase.bootId,
      ∃ m, seen'.heard sock = some m ∧ m.bootId = b ∧ m.epoch = w.state.epoch.value) :
    Registered ⟨c', seen'⟩ := by
  refine hI.keep hsame.workers hsame.seenBoots hgrants hacked (fun k q hk => ?_)
    fun k q b hk hb => ?_
  · rw [hp'] at hk
    rcases update_some hk with ⟨rfl, rfl⟩ | ⟨_, hold⟩
    · exact ⟨p, hp, hgrant.trans hgrant'.symm⟩
    · exact ⟨q, hold, rfl⟩
  · rw [hp'] at hk
    rw [hsame.epoch]
    rcases update_some hk with ⟨rfl, rfl⟩ | ⟨hne, hold⟩
    · exact hheard b hb
    · rw [hothers k hne]
      exact hI.heard k q b hold hb

/-- A new boot id is granted. -/
theorem grant (hI : Registered w) {sock : SocketHandle} {g : Hello} {now : Int64}
    (hnew : g.bootId ∉ w.state.seenBoots g.name) :
    Registered ⟨(w.state.register sock g now).1,
      { w.seen with grants := w.seen.grants ++ [(sock, g)] }⟩ := by
  have hboots (name : Bytes) : (History.grantsOf
      { w.seen with grants := w.seen.grants ++ [(sock, g)] } name).map (·.2.bootId) =
      Function.update w.state.seenBoots g.name (w.state.seenBoots g.name ++ [g.bootId]) name := by
    unfold History.grantsOf
    rw [List.filter_append, List.map_append]
    rcases eq_or_ne name g.name with rfl | hne
    · rw [Function.update_self, hI.boots]
      simp [History.grantsOf]
    · rw [Function.update_of_ne hne, hI.boots]
      simp [History.grantsOf, hne.symm]
  rw [Coordinator.register, if_neg hnew]
  refine ⟨fun name => (hboots name).symm, fun name => ?_, fun k p row hk hrow => ?_,
    fun k p b hk hb => ?_⟩
  · show (Function.update w.state.seenBoots g.name _ name).Nodup
    rcases eq_or_ne name g.name with rfl | hne
    · rw [Function.update_self]
      exact List.nodup_append.mpr ⟨hI.fresh g.name, List.nodup_singleton _, by grind⟩
    · rw [Function.update_of_ne hne]
      exact hI.fresh name
  · rcases update_some hk with ⟨rfl, hp⟩ | ⟨hne, hold⟩
    · cases hp
      cases (KeyedTable.find_insert_self ..).symm.trans hrow
      exact ⟨g, rfl, List.mem_append_right _ (List.mem_singleton_self _), rfl, rfl⟩
    · obtain ⟨g', hg', hmem, hg⟩ :=
        hI.rows k p row hold ((KeyedTable.find_insert_ne _ hne).symm.trans hrow)
      exact ⟨g', hg', List.mem_append_left _ hmem, hg⟩
  · rcases update_some hk with ⟨rfl, hp⟩ | ⟨_, hold⟩
    · cases hp
      cases hb
    · exact hI.heard k p b hold hb

/-- A worker that is in the table, and whose boot id is the last seen, holds the last grant. -/
theorem entitled (hI : Registered w) {sock : SocketHandle}
    {p : Phase} {m : EvidenceMessage R} (hp : w.state.threads sock = some p)
    (hgrant : p.grant = none)
    (hcurrent : w.state.Current sock m.bootId) (hepoch : m.epoch = w.state.epoch.value) :
    Entitled w sock m := by
  obtain ⟨row, hrow, hboot, hlast⟩ := hcurrent
  obtain ⟨g, hg, hmem, hname, hbootId⟩ := hI.rows sock p row hp hrow
  rw [hgrant, Option.none_or] at hg
  refine ⟨hepoch, g, hg, hbootId.trans hboot, ?_⟩
  rw [hname]
  have hnodup := hI.fresh row.name
  rw [hI.boots] at hlast hnodup
  rw [List.getLast?_map] at hlast
  obtain ⟨g', hg', hsame⟩ := Option.map_eq_some_iff.mp hlast
  have hin : (sock, g) ∈ w.seen.grantsOf row.name :=
    List.mem_filter.mpr ⟨hmem, decide_eq_true hname⟩
  have heq := List.inj_on_of_nodup_map hnodup (List.mem_of_getLast? hg') hin
    (hsame.trans (hbootId.trans hboot).symm)
  rw [hg', heq]

end Registered

section Steps

variable [Pod R]

namespace History

theorem note_quiet {c : Coordinator R} {act : Act} {e : Effect R} (h : History R)
    {sock : SocketHandle} (hact : act.sock = some sock) (he : e.quiet) :
    (h.note c (act, e)).grants = h.grants ∧ (h.note c (act, e)).acked = h.acked ∧
      ∀ sock', sock' ≠ sock → (h.note c (act, e)).heard sock' = h.heard sock' := by
  cases act with
  | accept => cases hact
  | tick => cases hact
  | lose => exact ⟨rfl, rfl, fun _ _ => rfl⟩
  | receive sock₁ f now =>
    cases hact
    unfold note
    simp only
    split
    · exact ⟨rfl, rfl, fun _ hne => Function.update_of_ne hne _ _⟩
    · exact ⟨rfl, rfl, fun _ _ => rfl⟩
  | proceed sock₁ now =>
    cases e with
    | granted => cases he
    | acked g ack =>
      have hcode : ack.code ≠ 0 := of_decide_eq_true he
      cases g with
      | none => exact ⟨rfl, rfl, fun _ _ => rfl⟩
      | some g =>
        unfold note
        simp only
        rw [if_neg hcode]
        exact ⟨rfl, rfl, fun _ _ => rfl⟩
    | _ => exact ⟨rfl, rfl, fun _ _ => rfl⟩

/-- A thread that works off evidence has noted it. -/
theorem note_heard {w : FencedCoordinator R} {act : Act} {e : Effect R} {sock : SocketHandle}
    {b : UInt64} (hI : Registered w) (he : e.quiet) (h : w.state.WorksOff act sock b) :
    ∃ m, (w.seen.note w.state (act, e)).heard sock = some m ∧ m.bootId = b ∧
      m.epoch = w.state.epoch.value := by
  rcases h with ⟨now, p, rfl, hp, hb⟩ | ⟨f, now, m, rfl, hf, hm, hb, hepoch⟩
  · obtain ⟨m, hheard, hm⟩ := hI.heard sock p b hp hb
    refine ⟨m, ?_, hm⟩
    rw [← hheard]
    cases e with
    | acked g ack =>
      cases g with
      | none => rfl
      | some g =>
        unfold note
        simp only
        split <;> rfl
    | _ => rfl
  · refine ⟨m, ?_, hb, hepoch⟩
    unfold note
    simp only
    rw [if_pos hf]
    exact (Function.update_self ..).trans hm

end History

/-- Evidence that is not of an earlier epoch is current, when it is ingested and when it ends the
    recovery, and a handle that is handed out is not in the table. -/
def Coordinator.Fenced (c : Coordinator R) : Act → Prop
  | .accept sock => c.workers.find sock = none
  | .receive sock f _ => f.kind = .evidence → ∀ m, decodeEvidence R f.payload = some m →
      m.epoch = c.epoch.value → m.dimension = 0 ∨ m.dimension = 2 → c.Current sock m.bootId
  | .proceed sock _ => ∀ b, c.threads sock = some (.restoring b) ∨
      c.threads sock = some (.verifying b) → c.Current sock b
  | _ => True

variable [Double R] [Platform R]

/-- **One step keeps the table and the grants together.** -/
theorem registered_step {w w' : FencedCoordinator R} {act : Act} {e : Effect R}
    (hI : Registered w) (hc : w.state.Fenced act)
    (h : watch Coordinator.step History.note w act = some (w', e)) : Registered w' := by
  obtain ⟨c', seen'⟩ := w'
  obtain ⟨hstep, hseen⟩ := watch_cases h
  simp only at hstep hseen
  subst hseen
  cases Coordinator.step_does hstep with
  | @accept sock hp =>
    have hempty : w.state.workers.find sock = none := hc
    refine hI.turn rfl rfl rfl rfl rfl rfl (fun _ _ => rfl)
      (fun k hne => Function.update_of_ne hne ..) fun p hp row hrow => ?_
    cases hempty.symm.trans hrow
  | work hact hp hsame hp' hgrant hgrant' hboot he =>
    obtain ⟨hgrants, hacked, hothers⟩ := w.seen.note_quiet (c := w.state) hact he
    exact hI.work hp hsame hp' hgrant hgrant' hgrants hacked hothers fun b hb =>
      History.note_heard hI he (hboot b hb)
  | @stay sock f now _ _ hf hsame hp' he =>
    have hnote : w.seen.note w.state (.receive sock f now, e) = w.seen := if_neg hf
    rw [hnote]
    refine hI.keep hsame.workers hsame.seenBoots rfl rfl (fun k q hk => ⟨q, hp' ▸ hk, rfl⟩)
      fun k q b hk hb => ?_
    rw [hsame.epoch]
    exact hI.heard k q b (hp' ▸ hk) hb
  | @grant sock g now hp hnew =>
    exact hI.grant hnew
  | @ack sock g now hp =>
    refine hI.turn rfl rfl rfl rfl rfl rfl (fun _ _ => rfl)
      (fun k hne => Function.update_of_ne hne ..) fun p hp' row hrow => ?_
    cases hp'
    obtain ⟨g', hg', hg⟩ := hI.rows sock _ row hp hrow
    cases hg'
    exact ⟨g, Function.update_self .., hg⟩
  | @stamp sock now hp =>
    obtain ⟨hthreads, hboots, hepoch, _⟩ := w.state.stamp_frame sock now
    refine hI.turn (congrArg (Function.update · sock _) hthreads) rfl hboots hepoch rfl rfl
      (fun k hne => w.state.find_stamp_ne hne now) (fun _ _ => rfl) fun p hp' row hrow => ?_
    cases hp'
    rcases Coordinator.find_stamp_some hrow with ⟨_, row', hrow', rfl⟩ | ⟨hne, _⟩
    · exact hI.rows sock .stamping row' hp hrow'
    · exact absurd rfl hne
  | @close sock now hp =>
    refine hI.turn rfl rfl rfl rfl rfl rfl (fun k hne => KeyedTable.find_erase_ne _ hne)
      (fun _ _ => rfl) fun p hp' => ?_
    cases hp'
  | @tick now =>
    obtain ⟨hworkers, hboots, hepoch, hthreads⟩ := w.state.monitor_tables now
    refine hI.keep hworkers hboots rfl rfl (fun k q hk => ⟨q, hthreads ▸ hk, rfl⟩)
      fun k q b hk hb => ?_
    rw [hepoch]
    exact hI.heard k q b (hthreads ▸ hk) hb

theorem registered_run {file : Option (Option Bytes)} {now : Int64} {tr : List (Act × Effect R)}
    {w : FencedCoordinator R} (h : Run (watch Coordinator.step History.note)
      (fun w act => w.state.Fenced act) ⟨.start file now, {}⟩ tr w) : Registered w :=
  h.invariant (.start file now) fun _ _ _ _ hI hc hs => registered_step hI hc hs

/-! ## 3. Whose evidence is taken -/

omit [Pod R] [Platform R] in
/-- Evidence that changes the fabric is of the epoch, and about a latency or the availability. -/
theorem handleEvidence_reaches {c : Coordinator R} {sock : SocketHandle} {m : EvidenceMessage R}
    {now : Int64} (h : (c.handleEvidence sock m now).1.fabric ≠ c.fabric ∨
      ∃ st, (c.handleEvidence sock m now).2 = .ingested st) :
    m.epoch = c.epoch.value ∧ (m.dimension = 0 ∨ m.dimension = 2) := by
  unfold Coordinator.handleEvidence at h
  split_ifs at h with hepoch hlatency havail
  · rcases h with h | ⟨st, h⟩
    · exact absurd rfl h
    · cases h
  · exact ⟨not_not.mp hepoch, .inl hlatency⟩
  · exact ⟨not_not.mp hepoch, .inr havail⟩
  · rcases h with h | ⟨st, h⟩
    · exact absurd rfl h
    · cases h

/-- Evidence that reaches the fabric is of the epoch, and current. -/
theorem evidence_current {w : FencedCoordinator R} {c' : Coordinator R} {act : Act} {e : Effect R}
    {sock : SocketHandle} {m : EvidenceMessage R} (hI : Registered w) (hc : w.state.Fenced act)
    (hs : w.state.step act = some (c', e)) (hm : evidenceAt w act = some (sock, m))
    (hchange : c'.fabric ≠ w.state.fabric ∨ ∃ st, e = .ingested st) :
    m.epoch = w.state.epoch.value ∧ w.state.Current sock m.bootId ∧
      ∃ p, w.state.threads sock = some p ∧ p.grant = none := by
  unfold Coordinator.step at hs
  split_ifs at hs
  cases act with
  | accept => cases hm
  | lose => cases hm
  | tick => cases hm
  | receive k f now =>
    unfold evidenceAt at hm
    simp only at hm hs
    split_ifs at hm hs with hf hp
    obtain ⟨m', hdecode, he⟩ := Option.map_eq_some_iff.mp hm
    cases he
    unfold Coordinator.receive at hs
    rw [if_neg (by rw [hf]; decide), if_pos hf, hdecode] at hs
    obtain ⟨hfabric, hevent⟩ := Prod.ext_iff.mp (Option.some.inj hs)
    simp only at hfabric hevent
    subst hfabric hevent
    obtain ⟨hepoch, hdim⟩ := handleEvidence_reaches hchange
    exact ⟨hepoch, hc hf m hdecode hepoch hdim, .reading, hp, rfl⟩
  | proceed k now =>
    obtain ⟨b, hb, he⟩ := Option.bind_eq_some_iff.mp hm
    obtain ⟨p, hp, hpb⟩ := Option.bind_eq_some_iff.mp hb
    obtain ⟨m', hheard, he⟩ := Option.map_eq_some_iff.mp he
    cases he
    obtain ⟨m₁, hheard₁, hboot, hepoch⟩ := hI.heard sock p b hp hpb
    cases hheard.symm.trans hheard₁
    simp only [hp, Option.bind_some] at hs
    subst hboot
    cases p with
    | checking =>
      simp only [Coordinator.proceed] at hs
      have hnone : c'.fabric = w.state.fabric ∧ e = .went := by
        split_ifs at hs <;> cases hs <;> exact ⟨rfl, rfl⟩
      rcases hchange with h | ⟨st, h⟩
      · exact absurd hnone.1 h
      · cases hnone.2.symm.trans h
    | restoring =>
      cases hpb
      exact ⟨hepoch, hc m.bootId (.inl hp), _, hp, rfl⟩
    | verifying =>
      cases hpb
      exact ⟨hepoch, hc m.bootId (.inr hp), _, hp, rfl⟩
    | _ => cases hpb

/-- **Evidence is taken only from the boot that was granted last**, in every run whose evidence is
    current and whose handles are not handed out while they are in the table. -/
theorem evidence_fenced {file : Option (Option Bytes)} {now : Int64} {tr : List (Act × Effect R)}
    {w w' : FencedCoordinator R} {act : Act} {e : Effect R}
    (h : Run (watch Coordinator.step History.note) (fun w act => w.state.Fenced act)
      ⟨.start file now, {}⟩ tr w)
    (hc : w.state.Fenced act) (hs : watch Coordinator.step History.note w act = some (w', e))
    {sock : SocketHandle} {m : EvidenceMessage R} (hm : evidenceAt w act = some (sock, m))
    (hchange : w'.state.fabric ≠ w.state.fabric ∨ ∃ st, e = .ingested st) :
    Entitled w sock m := by
  have hI := registered_run h
  obtain ⟨hepoch, hcurrent, p, hp, hgrant⟩ :=
    evidence_current hI hc (watch_cases hs).1 hm hchange
  exact hI.entitled hp hgrant hcurrent hepoch

end Steps

/-! ## 4. Evidence without a hello -/

/-- A latency of worker `7`. -/
def latencyMessage : EvidenceMessage Binary64 :=
  { objectiveId := 1, dimension := 0, value := Double.ofRat 50000000, sampleCount := 1, timeNs := 0
    bootId := 7, epoch := 1 }

def evidenceFrame : Frame := { kind := .evidence, payload := encodeEvidence latencyMessage }

def helloFrame : Frame := { kind := .hello, payload := encodeHello ⟨ascii "A", 7, 1⟩ }

/-- Evidence that the fabric has accepted once the step is taken. -/
def reaches (w : FencedCoordinator Binary64) (act : Act) : Bool :=
  (evidenceAt w act).isSome && (watch Coordinator.step History.note w act).any fun x =>
    x.1.state.fabric.globalEvidenceRing ≠ w.state.fabric.globalEvidenceRing

theorem of_reaches {w : FencedCoordinator Binary64} {act : Act} (h : reaches w act = true) :
    ∃ w' e k m, watch Coordinator.step History.note w act = some (w', e) ∧
      evidenceAt w act = some (k, m) ∧ w'.state.fabric ≠ w.state.fabric := by
  obtain ⟨hat, hring⟩ := Bool.and_eq_true_iff.mp h
  obtain ⟨⟨k, m⟩, hm⟩ := Option.isSome_iff_exists.mp hat
  obtain ⟨⟨w', e⟩, hs, hne⟩ := (Option.any_eq_true _ _).mp hring
  refine ⟨w', e, k, m, hs, hm, fun heq => of_decide_eq_true hne ?_⟩
  rw [heq]

/-- **Evidence on a connection that never said hello changes the fabric.** -/
theorem evidence_fenced_fails :
    ¬∀ (tr : List (Act × Effect Binary64)) (w w' : FencedCoordinator Binary64) (act : Act)
      (e : Effect Binary64) (sock : SocketHandle) (m : EvidenceMessage Binary64),
      Run (watch Coordinator.step History.note) (fun _ _ => True) ⟨.start none 0, {}⟩ tr w →
      watch Coordinator.step History.note w act = some (w', e) →
      evidenceAt w act = some (sock, m) → w'.state.fabric ≠ w.state.fabric →
      Entitled w sock m := by
  intro hall
  have htest : (execute (watch Coordinator.step History.note) (fun _ _ => true)
      (⟨.start none 0, {}⟩ : FencedCoordinator Binary64) [.accept 3]).any (fun x =>
        reaches x.1 (.receive 3 evidenceFrame 0) && (x.1.seen.acked 3).isNone) = true := by
    decide +kernel
  obtain ⟨w, tr, hrun, hw⟩ := Run.of_test (fun _ _ _ => trivial) htest
  obtain ⟨hreach, hnone⟩ := Bool.and_eq_true_iff.mp hw
  obtain ⟨w', e, k, m, hs, hm, hchange⟩ := of_reaches hreach
  obtain ⟨h, hacked, _⟩ := (hall tr w w' _ e k m hrun hs hm hchange).granted
  have hk : k = 3 := by
    unfold evidenceAt at hm
    simp only at hm
    split_ifs at hm
    obtain ⟨_, _, he⟩ := Option.map_eq_some_iff.mp hm
    exact (congrArg Prod.fst he).symm
  rw [hk, Option.isNone_iff_eq_none.mp hnone] at hacked
  cases hacked

/-- `Fenced`, as a test. -/
def fencedTest (w : FencedCoordinator Binary64) : Act → Bool
  | .accept sock => (w.state.workers.find sock).isNone
  | .receive sock f _ => f.kind ≠ .evidence || (decodeEvidence Binary64 f.payload).all fun m =>
      (w.state.workers.find sock).any fun row =>
        row.bootId = m.bootId && (w.state.seenBoots row.name).getLast? = some m.bootId
  | .proceed sock _ => ((w.state.threads sock).bind Phase.bootId).isNone
  | _ => true

theorem fenced_of_test {w : FencedCoordinator Binary64} {act : Act} (h : fencedTest w act = true) :
    w.state.Fenced act := by
  cases act with
  | accept => exact Option.isNone_iff_eq_none.mp h
  | receive sock f now =>
    intro hf m hm _ _
    unfold fencedTest at h
    simp only [hf, hm, Option.all_some, ne_eq, not_true_eq_false, decide_false, Bool.false_or] at h
    obtain ⟨row, hrow, hlast⟩ := (Option.any_eq_true _ _).mp h
    obtain ⟨hboot, hlast⟩ := Bool.and_eq_true_iff.mp hlast
    exact ⟨row, hrow, of_decide_eq_true hboot, of_decide_eq_true hlast⟩
  | proceed sock now =>
    rintro b (hp | hp)
    · unfold fencedTest at h
      simp only [hp] at h
      cases h
    · unfold fencedTest at h
      simp only [hp] at h
      cases h
  | _ => trivial

/-- After a hello it is the boot's own. -/
theorem evidence_fenced_small :
    ∃ (tr : List (Act × Effect Binary64)) (w w' : FencedCoordinator Binary64) (e : Effect Binary64)
      (sock : SocketHandle) (m : EvidenceMessage Binary64),
      Run (watch Coordinator.step History.note) (fun w act => w.state.Fenced act)
        ⟨.start none 0, {}⟩ tr w ∧
      watch Coordinator.step History.note w (.receive 3 evidenceFrame 0) = some (w', e) ∧
      w'.state.fabric ≠ w.state.fabric ∧ Entitled w sock m := by
  have htest : (execute (watch Coordinator.step History.note) fencedTest
      (⟨.start none 0, {}⟩ : FencedCoordinator Binary64)
      [.accept 3, .receive 3 helloFrame 0, .proceed 3 0, .proceed 3 0]).any (fun x =>
        fencedTest x.1 (.receive 3 evidenceFrame 0) &&
          reaches x.1 (.receive 3 evidenceFrame 0)) = true := by
    decide +kernel
  obtain ⟨w, tr, hrun, hw⟩ := Run.of_test (fun _ _ => fenced_of_test) htest
  obtain ⟨hc, hreach⟩ := Bool.and_eq_true_iff.mp hw
  obtain ⟨w', e, k, m, hs, hm, hchange⟩ := of_reaches hreach
  exact ⟨tr, w, w', e, k, m, hrun, hs, hchange,
    evidence_fenced hrun (fenced_of_test hc) hs hm (.inl hchange)⟩

end SloFabric
