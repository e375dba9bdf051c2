/-
  File:      SloFabric/Concurrency.lean
  Subject:   Many threads on one fabric, the file they save to and load from, and crashes.

  A public call holds the mutex from its start to its end, but for two: `save` writes the file after
  it has let go of the mutex, `load` reads it before. Here such a call takes as many steps as it has
  accesses to what is shared, and the steps of all threads may come in any order; opening, writing
  and renaming may fail, and the process may crash between any two steps.

  * `Task`: where a thread is in `save` or `load`; `Process`, `Process.step`;
  * `sections`: the critical sections since the last crash, as a trace of the fabric;
  * `Image`: the file that one `save` made of the state that the fabric was in;
  * `Consistent`, `consistent_step`: the fabric is where its critical sections lead, one after the
    other; every temporary file is a part of an image, and every file that is read or in place is
    an image;
  * `TakesOver`: what the next incarnation makes of a file; `process_run`: so in every run.

  A load reads the file it has opened: renaming replaces the name, not the file. Files are not lost
  in a crash of the process.
-/
import SloFabric.Machine
import SloFabric.Library.Publishing

namespace SloFabric

variable {R : Type}

/-! ## 1. The process -/

abbrev ThreadId := Nat

/-- Where a thread is in `save` or `load`, outside the mutex. -/
inductive Task where
  /-- `save_bytes_atomic` is called; next is the temporary file. -/
  | saving (file : Bytes)
  /-- The temporary file is open, and holds what was written. -/
  | writing (job : Job UInt64 UInt8)
  /-- The file was read; next is the mutex. -/
  | loading (file : Option Bytes)

/-- A process: its fabric, the next number of a temporary file, and its threads. The directory
    outlives it. -/
structure Process (R : Type) where
  fabric : State R := State.fresh R
  tmpSeq : UInt64 := 0
  tasks : ThreadId → Option Task := fun _ => none
  directory : Folder UInt64 UInt8

inductive ProcessAct (R : Type) where
  /-- A call that is one critical section. -/
  | call (thread : ThreadId) (op : Op R)
  | save (thread : ThreadId) (order : List ObjectiveId)
  /-- Open the temporary file, or fail to. -/
  | openTemp (thread : ThreadId) (opens : Bool)
  /-- Write the next bytes; `none` is a write or a flush that fails. -/
  | write (thread : ThreadId) (count : Option Nat)
  | rename (thread : ThreadId) (renames : Bool)
  /-- Open the file and read it. -/
  | read (thread : ThreadId)
  /-- The critical section of `load`. -/
  | install (thread : ThreadId)
  | crash

/-- What a step is: a critical section, with the call and its answer; the end of a `save`; or
    nothing a caller sees. -/
inductive ProcessEffect (R : Type) where
  | locked (op : Op R) (r : Response R)
  | saved (st : Status)
  | went
  | crashed

/-- The calls that do more than one critical section. -/
def Op.external : Op R → Bool
  | .save _ | .load _ => true
  | _ => false

namespace Process

/-- The process with a thread at another place, or done. -/
def goTo (p : Process R) (thread : ThreadId) (task : Option Task) : Process R :=
  { p with tasks := Function.update p.tasks thread task }

section Step

variable [Pod R] [Double R] [Platform R]

/-- **One step.** A thread that is in a call does not begin another one. -/
def step (p : Process R) : ProcessAct R → Option (Process R × ProcessEffect R)
  | .call thread op =>
    if p.tasks thread = none && !op.external then
      (apply p.fabric op).map fun x => ({ p with fabric := x.1 }, .locked op x.2)
    else none
  | .save thread order =>
    if p.tasks thread = none && isOrder p.fabric.accumulators order then
      let file := SloFabric.save p.fabric order
      some (p.goTo thread (some (.saving file)), .locked (.save order) (.saved file))
    else none
  | .openTemp thread opens =>
    match p.tasks thread with
    | some (.saving file) =>
      let p' := { p with tmpSeq := p.tmpSeq + 1 }
      if opens then
        some ({ p' with directory := p.directory.create p.tmpSeq }.goTo thread
          (some (.writing ⟨p.tmpSeq, [], file⟩)), .went)
      else some (p'.goTo thread none, .saved (internal "cannot open temp file for write"))
    | _ => none
  | .write thread count =>
    match p.tasks thread, count with
    | some (.writing job), some n =>
      some ({ p with directory := p.directory.append job.name (job.rest.take n) }.goTo thread
        (some (.writing ⟨job.name, job.written ++ job.rest.take n, job.rest.drop n⟩)), .went)
    | some (.writing _), none => some (p.goTo thread none, .saved (internal "write failed"))
    | _, _ => none
  | .rename thread renames =>
    match p.tasks thread with
    | some (.writing ⟨name, _, []⟩) =>
      if renames then
        some ({ p with directory := p.directory.rename name }.goTo thread none, .saved ok)
      else some (p.goTo thread none, .saved (internal "atomic replace failed"))
    | _ => none
  | .read thread =>
    if p.tasks thread = none then
      some (p.goTo thread (some (.loading p.directory.posted)), .went)
    else none
  | .install thread =>
    match p.tasks thread with
    | some (.loading file) =>
      let x := load p.fabric file
      some ({ p with fabric := x.1 }.goTo thread none, .locked (.load file) (.status x.2))
    | _ => none
  | .crash => some ({ directory := p.directory }, .crashed)

end Step

end Process

/-! ## 2. What happened -/

abbrev ProcessTrace (R : Type) := List (ProcessAct R × ProcessEffect R)

/-- The critical sections after some more steps. -/
def noteSection (tr : Trace R) (x : ProcessAct R × ProcessEffect R) : Trace R :=
  match x.2 with
  | .locked op r => tr ++ [(op, r)]
  | .crashed => []
  | .saved _ | .went => tr

/-- **The critical sections since the last crash**, in order. -/
def sections (tr : ProcessTrace R) : Trace R := tr.foldl noteSection []

theorem sections_snoc (tr : ProcessTrace R) (x : ProcessAct R × ProcessEffect R) :
    sections (tr ++ [x]) = noteSection (sections tr) x := by
  simp [sections]

section Spec

variable [Pod R] [Double R] [Platform R]

/-- No process begins its last but one temporary file: their numbers would come round. -/
def Unwrapped (p : Process R) : ProcessAct R → Prop
  | .openTemp _ _ => p.tmpSeq.toNat + 1 < 2 ^ 64
  | _ => True

/-- The runs of processes, one after the other, on a directory. -/
abbrev ProcessRun (directory : Folder UInt64 UInt8) (tr : ProcessTrace R) (p : Process R) : Prop :=
  Run Process.step Unwrapped { directory := directory } tr p

/-- **The file that some `save` of the run made**, of the state that the fabric was in then. -/
def Image (directory : Folder UInt64 UInt8) (tr : ProcessTrace R) (file : Bytes) : Prop :=
  ∃ tr₁ tr₂ p thread order,
    tr = tr₁ ++ (.save thread order, .locked (.save order) (.saved file)) :: tr₂ ∧
    ProcessRun directory tr₁ p ∧ isOrder p.fabric.accumulators order = true ∧
    file = save p.fabric order

/-- A file as a load finds it: the one from before the run, or an image. -/
def Found (directory : Folder UInt64 UInt8) (tr : ProcessTrace R) (file : Option Bytes) : Prop :=
  file = directory.posted ∨ ∃ bytes, file = some bytes ∧ Image directory tr bytes

theorem Image.snoc {directory : Folder UInt64 UInt8} {tr : ProcessTrace R} {file : Bytes}
    (h : Image directory tr file) (x : ProcessAct R × ProcessEffect R) :
    Image directory (tr ++ [x]) file := by
  obtain ⟨tr₁, tr₂, p, thread, order, rfl, hp⟩ := h
  exact ⟨tr₁, tr₂ ++ [x], p, thread, order, List.append_assoc .., hp⟩

theorem Found.snoc {directory : Folder UInt64 UInt8} {tr : ProcessTrace R} {file : Option Bytes}
    (h : Found directory tr file) (x : ProcessAct R × ProcessEffect R) :
    Found directory (tr ++ [x]) file :=
  h.imp_right fun ⟨bytes, hfile, himage⟩ => ⟨bytes, hfile, himage.snoc x⟩

/-! ## 3. The invariant -/

def Task.job : Task → Option (Job UInt64 UInt8)
  | .writing job => some job
  | _ => none

/-- The temporary files being written, by thread. -/
def Process.jobs (p : Process R) (thread : ThreadId) : Option (Job UInt64 UInt8) :=
  (p.tasks thread).bind Task.job

omit [Pod R] [Double R] [Platform R] in
@[simp] theorem jobs_goTo (p : Process R) (thread : ThreadId) (task : Option Task) :
    (p.goTo thread task).jobs = Function.update p.jobs thread (task.bind Task.job) := by
  funext t
  show (Function.update p.tasks thread task t).bind Task.job = _
  rcases eq_or_ne t thread with rfl | hne
  · rw [Function.update_self, Function.update_self]
  · rw [Function.update_of_ne hne, Function.update_of_ne hne]
    rfl

omit [Pod R] [Double R] [Platform R] in
theorem jobs_writing {p : Process R} {thread : ThreadId} {job : Job UInt64 UInt8}
    (h : p.tasks thread = some (.writing job)) : p.jobs thread = some job := by
  show (p.tasks thread).bind Task.job = _
  rw [h]
  rfl

/-- What a thread has at hand: a file to be written is an image, a file that was read was found. -/
def Task.Genuine (directory : Folder UInt64 UInt8) (tr : ProcessTrace R) : Task → Prop
  | .saving file => Image directory tr file
  | .writing job => Image directory tr job.text
  | .loading file => Found directory tr file

structure Consistent (directory : Folder UInt64 UInt8) (tr : ProcessTrace R) (p : Process R) :
    Prop where
  run : ProcessRun directory tr p
  /-- The fabric is where the critical sections lead, one after the other. -/
  linear : Runs (State.fresh R) (sections tr) p.fabric
  drafted : Drafted p.directory p.jobs
  below : ∀ thread job, p.jobs thread = some job → job.name < p.tmpSeq
  genuine : ∀ thread task, p.tasks thread = some task → task.Genuine directory tr
  posted : Found directory tr p.directory.posted

variable {directory : Folder UInt64 UInt8} {tr : ProcessTrace R} {p p' : Process R}
  {x : ProcessAct R × ProcessEffect R}

theorem Task.Genuine.snoc {task : Task} (h : task.Genuine directory tr)
    (x : ProcessAct R × ProcessEffect R) : task.Genuine directory (tr ++ [x]) := by
  cases task with
  | saving file => exact Image.snoc h x
  | writing job => exact Image.snoc h x
  | loading file => exact Found.snoc h x

namespace Consistent

theorem start (directory : Folder UInt64 UInt8) :
    Consistent (R := R) directory [] { directory := directory } where
  run := .start
  linear := .start
  drafted := .idle _
  below _ _ h := by cases h
  genuine _ _ h := by cases h
  posted := .inl rfl

/-- The threads stay genuine when one of them goes to a genuine task, or is done. -/
theorem genuine_goTo (h : Consistent directory tr p) (thread : ThreadId) {task : Option Task}
    (x : ProcessAct R × ProcessEffect R)
    (htask : ∀ t, task = some t → t.Genuine directory (tr ++ [x])) :
    ∀ k t, (p.goTo thread task).tasks k = some t → t.Genuine directory (tr ++ [x]) := by
  intro k t ht
  rcases update_some ht with ⟨_, hnew⟩ | ⟨_, hold⟩
  · exact htask t hnew
  · exact (h.genuine k t hold).snoc x

/-- A step that is no critical section leaves the fabric where the critical sections lead. -/
theorem aside (h : Consistent directory tr p)
    (hx : noteSection (sections tr) x = sections tr) :
    Runs (State.fresh R) (sections (tr ++ [x])) p.fabric := by
  rw [sections_snoc, hx]
  exact h.linear

/-- A thread leaves its call, or goes to a task without a temporary file. -/
theorem leave (h : Consistent directory tr p) (hrun : ProcessRun directory (tr ++ [x]) p')
    (hlinear : Runs (State.fresh R) (sections (tr ++ [x])) p'.fabric) (thread : ThreadId)
    {task : Option Task} (hjob : task.bind Task.job = none)
    (htask : ∀ t, task = some t → t.Genuine directory (tr ++ [x]))
    (htasks : p'.tasks = (p.goTo thread task).tasks) (hseq : p.tmpSeq ≤ p'.tmpSeq)
    (hdirectory : p'.directory = p.directory) : Consistent directory (tr ++ [x]) p' := by
  have hjobs : p'.jobs = Function.update p.jobs thread none := by
    rw [← hjob, ← jobs_goTo]
    funext t
    show (p'.tasks t).bind Task.job = _
    rw [htasks]
    rfl
  refine ⟨hrun, hlinear, ?_, fun k job hk => ?_, ?_, ?_⟩
  · rw [hjobs, hdirectory]
    exact h.drafted.drop thread
  · rw [hjobs] at hk
    rcases update_some hk with ⟨_, hnone⟩ | ⟨_, hold⟩
    · cases hnone
    · exact UInt64.lt_of_lt_of_le (h.below k job hold) hseq
  · rw [htasks]
    exact h.genuine_goTo thread x htask
  · rw [hdirectory]
    exact h.posted.snoc x

/-- A thread goes on with a temporary file of its own. -/
theorem draft (h : Consistent directory tr p) (hrun : ProcessRun directory (tr ++ [x]) p')
    (hlinear : Runs (State.fresh R) (sections (tr ++ [x])) p'.fabric) (thread : ThreadId)
    {job : Job UInt64 UInt8} (himage : Image directory (tr ++ [x]) job.text)
    (htasks : p'.tasks = (p.goTo thread (some (.writing job))).tasks)
    (hseq : p.tmpSeq ≤ p'.tmpSeq) (hname : job.name < p'.tmpSeq)
    (hposted : p'.directory.posted = p.directory.posted)
    (hdrafted : Drafted p'.directory (Function.update p.jobs thread (some job))) :
    Consistent directory (tr ++ [x]) p' := by
  have hjobs : p'.jobs = Function.update p.jobs thread (some job) := by
    rw [show (some job) = (some (Task.writing job)).bind Task.job from rfl, ← jobs_goTo]
    funext t
    show (p'.tasks t).bind Task.job = _
    rw [htasks]
    rfl
  refine ⟨hrun, hlinear, hjobs ▸ hdrafted, fun k b hk => ?_, ?_, ?_⟩
  · rw [hjobs] at hk
    rcases update_some hk with ⟨_, hnew⟩ | ⟨_, hold⟩
    · cases hnew
      exact hname
    · exact UInt64.lt_of_lt_of_le (h.below k b hold) hseq
  · rw [htasks]
    refine h.genuine_goTo thread x ?_
    rintro _ ⟨⟩
    exact himage
  · rw [hposted]
    exact h.posted.snoc x

/-- The names do not come round, so the next one is above those in use. -/
theorem openTemp (h : Consistent directory tr p) {thread : ThreadId} {opens : Bool}
    {e : ProcessEffect R} (hc : p.tmpSeq.toNat + 1 < 2 ^ 64)
    (hs : p.step (.openTemp thread opens) = some (p', e)) :
    Consistent directory (tr ++ [(.openTemp thread opens, e)]) p' := by
  have hrun : ProcessRun directory (tr ++ [(.openTemp thread opens, e)]) p' := h.run.next hc hs
  simp only [Process.step] at hs
  split at hs
  · rename_i file htask
    have hnext : p.tmpSeq < p.tmpSeq + 1 := by
      have hone : (p.tmpSeq + 1).toNat = p.tmpSeq.toNat + 1 := by
        rw [UInt64.toNat_add]
        exact Nat.mod_eq_of_lt hc
      rw [UInt64.lt_iff_toNat_lt, hone]
      exact Nat.lt_succ_self _
    split at hs
    · cases hs
      refine h.draft hrun (h.aside rfl) thread ?_ rfl (UInt64.le_of_lt hnext) hnext rfl ?_
      · exact (h.genuine thread _ htask : Image directory tr file).snoc _
      · exact h.drafted.create file fun i a _ hi hname => by
          have hlt := h.below i a hi
          rw [hname] at hlt
          exact absurd hlt (UInt64.lt_irrefl _)
    · cases hs
      exact h.leave hrun (h.aside rfl) thread rfl (fun _ ht => by cases ht) rfl
        (UInt64.le_of_lt hnext) rfl
  · cases hs

/-- What was written and what is still to be written remain one image. -/
theorem write (h : Consistent directory tr p) {thread : ThreadId} {count : Option Nat}
    {e : ProcessEffect R} (hs : p.step (.write thread count) = some (p', e)) :
    Consistent directory (tr ++ [(.write thread count, e)]) p' := by
  have hrun : ProcessRun directory (tr ++ [(.write thread count, e)]) p' := h.run.next trivial hs
  simp only [Process.step] at hs
  split at hs
  · rename_i job n htask
    cases hs
    have hjob : p.jobs thread =
        some ⟨job.name, job.written, job.rest.take n ++ job.rest.drop n⟩ := by
      rw [List.take_append_drop]
      exact jobs_writing htask
    refine h.draft hrun (h.aside rfl) thread ?_ rfl (UInt64.le_refl _) ?_ rfl
      (h.drafted.append hjob)
    · have htext := (h.genuine thread _ htask : Image directory tr job.text).snoc
        ((.write thread (some n), .went) : ProcessAct R × ProcessEffect R)
      unfold Job.text at htext ⊢
      rwa [List.append_assoc, List.take_append_drop]
    · have hname := h.below thread _ hjob
      exact hname
  · cases hs
    exact h.leave hrun (h.aside rfl) thread rfl (fun _ ht => by cases ht) rfl (UInt64.le_refl _) rfl
  · cases hs

/-- A draft that takes the place of the file is a whole image. -/
theorem rename (h : Consistent directory tr p) {thread : ThreadId} {renames : Bool}
    {e : ProcessEffect R} (hs : p.step (.rename thread renames) = some (p', e)) :
    Consistent directory (tr ++ [(.rename thread renames, e)]) p' := by
  have hrun : ProcessRun directory (tr ++ [(.rename thread renames, e)]) p' :=
    h.run.next trivial hs
  simp only [Process.step] at hs
  split at hs
  · rename_i name text htask
    have hjob : p.jobs thread = some ⟨name, text, []⟩ := jobs_writing htask
    split at hs
    · cases hs
      obtain ⟨hposted, hdrafted⟩ := h.drafted.rename hjob
      have himage : Image directory tr (text ++ []) := h.genuine thread _ htask
      rw [List.append_nil] at himage
      refine ⟨hrun, h.aside rfl, ?_, fun k job hk => ?_, ?_, .inr ⟨text, hposted, himage.snoc _⟩⟩
      · rw [jobs_goTo]
        exact hdrafted
      · rw [jobs_goTo] at hk
        rcases update_some hk with ⟨_, hnone⟩ | ⟨_, hold⟩
        · cases hnone
        · exact h.below k job hold
      · exact h.genuine_goTo thread _ fun _ ht => by cases ht
    · cases hs
      exact h.leave hrun (h.aside rfl) thread rfl (fun _ ht => by cases ht) rfl (UInt64.le_refl _)
        rfl
  · cases hs

end Consistent

/-- **Every step keeps it.** -/
theorem consistent_step {act : ProcessAct R} {e : ProcessEffect R}
    (h : Consistent directory tr p) (hc : Unwrapped p act) (hs : p.step act = some (p', e)) :
    Consistent directory (tr ++ [(act, e)]) p' := by
  have hrun : ProcessRun directory (tr ++ [(act, e)]) p' := h.run.next hc hs
  cases act with
  | call thread op =>
    simp only [Process.step, Option.ite_none_right_eq_some] at hs
    obtain ⟨y, hy, he⟩ := Option.map_eq_some_iff.mp hs.2
    cases he
    refine ⟨hrun, ?_, h.drafted, h.below, fun k t ht => (h.genuine k t ht).snoc _, h.posted.snoc _⟩
    rw [sections_snoc]
    exact h.linear.next trivial hy
  | save thread order =>
    simp only [Process.step, Option.ite_none_right_eq_some, Bool.and_eq_true] at hs
    obtain ⟨⟨_, horder⟩, he⟩ := hs
    cases he
    refine h.leave hrun ?_ thread rfl ?_ rfl (UInt64.le_refl _) rfl
    · rw [sections_snoc]
      exact h.linear.next trivial (if_pos horder)
    · rintro _ ⟨⟩
      exact ⟨tr, [], p, thread, order, rfl, h.run, horder, rfl⟩
  | openTemp thread opens => exact h.openTemp hc hs
  | write thread count => exact h.write hs
  | rename thread renames => exact h.rename hs
  | read thread =>
    simp only [Process.step, Option.ite_none_right_eq_some] at hs
    obtain ⟨_, he⟩ := hs
    cases he
    refine h.leave hrun (h.aside rfl) thread rfl ?_ rfl (UInt64.le_refl _) rfl
    rintro _ ⟨⟩
    exact h.posted.snoc _
  | install thread =>
    simp only [Process.step] at hs
    split at hs
    · rename_i file htask
      cases hs
      refine h.leave hrun ?_ thread rfl (fun _ ht => by cases ht) rfl (UInt64.le_refl _) rfl
      rw [sections_snoc]
      exact h.linear.next trivial rfl
    · cases hs
  | crash =>
    cases hs
    refine ⟨hrun, ?_, .idle _, nofun, nofun, h.posted.snoc _⟩
    rw [sections_snoc]
    exact .start

/-! ## 4. Every run -/

/-- What the next incarnation makes of a file: nothing, or **one** earlier state, in full. -/
def TakesOver (directory : Folder UInt64 UInt8) (tr : ProcessTrace R) (file : Option Bytes) :
    Prop :=
  ∀ s : State R, (∃ st, st.isOk = false ∧ load s file = (s, st)) ∨
    ∃ tr₁ tr₂ p order, tr = tr₁ ++ tr₂ ∧ ProcessRun directory tr₁ p ∧
      load s file = (restart s (durableOf p.fabric order), ok)

theorem Image.takesOver {file : Bytes} (h : Image directory tr file) :
    TakesOver directory tr (some file) := by
  obtain ⟨tr₁, tr₂, p, _, order, htr, hrun, _, rfl⟩ := h
  intro s
  cases hre : reloadable p.fabric order with
  | true => exact .inr ⟨tr₁, _, p, order, htr, hrun, load_save hre s⟩
  | false =>
    have hst := load_save_refused hre s
    rcases load_cases s (some (save p.fabric order)) with ⟨st, _, hload⟩ | ⟨st, _, hload⟩
    · rw [hload] at hst
      exact .inl ⟨st, hst, hload⟩
    · rw [hload] at hst
      cases hst

/-- **Threads and crashes**: the calls take effect one after the other, and the file is whole. -/
structure CrashConsistent (directory : Folder UInt64 UInt8) (tr : ProcessTrace R)
    (p : Process R) : Prop where
  linear : Runs (State.fresh R) (sections tr) p.fabric
  unfinished : ∀ thread job, p.jobs thread = some job →
    p.directory.drafts job.name = some job.written ∧ Image directory tr job.text
  posted : Found directory tr p.directory.posted
  takeover : p.directory.posted = directory.posted ∨ TakesOver directory tr p.directory.posted

/-- **Every run of any number of threads**, in whatever order their steps come, whichever file
    operation fails and wherever the process crashes and is started again. -/
theorem process_run (h : ProcessRun directory tr p) : CrashConsistent directory tr p := by
  have hI : Consistent directory tr p :=
    h.history (.start directory) fun tr p act p' e hI hc hs => consistent_step hI hc hs
  refine ⟨hI.linear, fun thread job hjob => ⟨hI.drafted.held thread job hjob, ?_⟩, hI.posted, ?_⟩
  · obtain ⟨task, htask, hj⟩ := Option.bind_eq_some_iff.mp hjob
    cases task with
    | writing job' =>
      cases hj
      exact hI.genuine thread _ htask
    | saving => cases hj
    | loading => cases hj
  · rcases hI.posted with hfile | ⟨bytes, hfile, himage⟩
    · exact .inl hfile
    · rw [hfile]
      exact .inr himage.takesOver

/-- Two threads save at once, and the process crashes while one of them writes. -/
theorem process_run_small : ∃ (tr : ProcessTrace Binary64) (p : Process Binary64),
    (ProcessRun ⟨none, fun _ => none⟩ tr p ∧ p.directory.posted.isSome = true) ∧
      CrashConsistent ⟨none, fun _ => none⟩ tr p := by
  have htest : (execute Process.step (fun p _ => decide (p.tmpSeq.toNat + 1 < 2 ^ 64))
      ({ directory := ⟨none, fun _ => none⟩ } : Process Binary64)
      [.call 1 (.setPolicy smallPolicy), .save 1 [], .save 2 [], .openTemp 2 true,
        .openTemp 1 true, .write 1 (some 10), .write 2 (some 1000), .rename 2 true, .crash]).any
      (fun x => x.1.directory.posted.isSome) = true := by decide +kernel
  have hunwrapped : ∀ (p : Process Binary64) act,
      decide (p.tmpSeq.toNat + 1 < 2 ^ 64) = true → Unwrapped p act := by
    intro p act h
    cases act with
    | openTemp =>
      have hseq : p.tmpSeq.toNat + 1 < 2 ^ 64 := of_decide_eq_true h
      exact hseq
    | _ => trivial
  obtain ⟨p, tr, hrun, hposted⟩ := Run.of_test hunwrapped htest
  exact ⟨tr, p, ⟨hrun, hposted⟩, process_run hrun⟩

end Spec

end SloFabric
