/-
  File:      SloFabric/Library/Publishing.lean
  Subject:   Texts that are written aside and then put in place.

  Any number of writers share a folder: one posted text, and drafts under names. A writer creates a
  draft, appends to it, and renames it to the posted text once it is whole.

  * `update_some`: a map with one entry changed;
  * `Folder`, with `create`, `append`, `rename`;
  * `Job`: a writer's draft -- its name, what it holds, what is still to be written; `Job.text`;
  * `Drafted`: every draft holds what its writer has written, and no two writers share one; a rule
    for each thing a writer does;
  * `Drafted.rename`: so what is posted is a whole text, whoever else is writing.
-/
import Mathlib.Logic.Function.Basic

/-- What an updated function has at a place. -/
theorem update_some {α β : Type} [DecidableEq α] {f : α → Option β} {a k : α} {x : Option β}
    {y : β} (h : Function.update f a x k = some y) : k = a ∧ x = some y ∨ k ≠ a ∧ f k = some y := by
  rcases eq_or_ne k a with rfl | hne
  · rw [Function.update_self] at h
    exact .inl ⟨rfl, h⟩
  · rw [Function.update_of_ne hne] at h
    exact .inr ⟨hne, h⟩

variable {N J α : Type} [DecidableEq N] [DecidableEq J]

structure Folder (N α : Type) where
  posted : Option (List α)
  drafts : N → Option (List α)

namespace Folder

/-- An empty draft; one that was left under the name is given up. -/
def create (fd : Folder N α) (n : N) : Folder N α :=
  { fd with drafts := Function.update fd.drafts n (some []) }

def append (fd : Folder N α) (n : N) (chunk : List α) : Folder N α :=
  { fd with drafts := Function.update fd.drafts n ((fd.drafts n).map (· ++ chunk)) }

/-- The draft takes the place of the posted text. -/
def rename (fd : Folder N α) (n : N) : Folder N α :=
  { posted := fd.drafts n, drafts := Function.update fd.drafts n none }

end Folder

structure Job (N α : Type) where
  name : N
  written : List α
  rest : List α

def Job.text (job : Job N α) : List α := job.written ++ job.rest

/-- The drafts of the writers' jobs are in the folder, each under a name of its own. -/
structure Drafted (fd : Folder N α) (jobs : J → Option (Job N α)) : Prop where
  held : ∀ j job, jobs j = some job → fd.drafts job.name = some job.written
  apart : ∀ i j a b, jobs i = some a → jobs j = some b → a.name = b.name → i = j

namespace Drafted

variable {fd : Folder N α} {jobs : J → Option (Job N α)} {j : J} {n : N}

omit [DecidableEq N] [DecidableEq J] in
theorem idle (fd : Folder N α) : Drafted fd (fun _ : J => none) where
  held _ _ h := by cases h
  apart _ _ _ _ h := by cases h

omit [DecidableEq N] in
/-- A writer gives up. -/
theorem drop (h : Drafted fd jobs) (j : J) : Drafted fd (Function.update jobs j none) where
  held i job hi := by
    rcases update_some hi with ⟨_, hx⟩ | ⟨_, hi⟩
    · cases hx
    · exact h.held i job hi
  apart i k a b hi hk := by
    rcases update_some hi with ⟨_, hx⟩ | ⟨_, hi⟩
    · cases hx
    · rcases update_some hk with ⟨_, hx⟩ | ⟨_, hk⟩
      · cases hx
      · exact h.apart i k a b hi hk

/-- What a writer does to its draft is seen by no other one. -/
theorem change (h : Drafted fd jobs) {posted : Option (List α)} {job : Job N α}
    {x : Option (List α)} (hn : job.name = n) (hx : x = some job.written)
    (hfree : ∀ i a, i ≠ j → jobs i = some a → a.name ≠ n) :
    Drafted ⟨posted, Function.update fd.drafts n x⟩ (Function.update jobs j (some job)) where
  held i a hi := by
    rcases update_some hi with ⟨_, hx'⟩ | ⟨hne, hold⟩
    · cases hx'
      rw [hn]
      exact (Function.update_self ..).trans hx
    · exact (Function.update_of_ne (hfree i a hne hold) ..).trans (h.held i a hold)
  apart i k a b hi hk hname := by
    rcases update_some hi with ⟨hij, hx'⟩ | ⟨hne, hold⟩
    · cases hx'
      rcases update_some hk with ⟨hkj, _⟩ | ⟨hne', hold'⟩
      · exact hij.trans hkj.symm
      · exact absurd (hname.symm.trans hn) (hfree k b hne' hold')
    · rcases update_some hk with ⟨_, hx'⟩ | ⟨_, hold'⟩
      · cases hx'
        exact absurd (hname.trans hn) (hfree i a hne hold)
      · exact h.apart i k a b hold hold' hname

/-- A writer creates a draft under a name no other one uses. -/
theorem create (h : Drafted fd jobs) (text : List α)
    (hfree : ∀ i a, i ≠ j → jobs i = some a → a.name ≠ n) :
    Drafted (fd.create n) (Function.update jobs j (some ⟨n, [], text⟩)) :=
  h.change rfl rfl hfree

omit [DecidableEq N] [DecidableEq J] in
/-- No other writer has the name of a job. -/
theorem own (h : Drafted fd jobs) {job : Job N α} (hj : jobs j = some job) :
    ∀ i a, i ≠ j → jobs i = some a → a.name ≠ job.name :=
  fun i a hne hi hname => hne (h.apart i j a job hi hj hname)

/-- A writer goes on. -/
theorem append (h : Drafted fd jobs) {written chunk rest : List α}
    (hj : jobs j = some ⟨n, written, chunk ++ rest⟩) :
    Drafted (fd.append n chunk) (Function.update jobs j (some ⟨n, written ++ chunk, rest⟩)) := by
  have hdraft : fd.drafts n = some written := h.held j _ hj
  refine h.change rfl ?_ (h.own hj)
  rw [hdraft]
  rfl

/-- **A finished draft is posted whole**, and no other draft is touched. -/
theorem rename (h : Drafted fd jobs) {text : List α} (hj : jobs j = some ⟨n, text, []⟩) :
    (fd.rename n).posted = some text ∧ Drafted (fd.rename n) (Function.update jobs j none) := by
  refine ⟨h.held j _ hj, fun i a hi => ?_, (h.drop j).apart⟩
  rcases update_some hi with ⟨_, hx⟩ | ⟨hne, hold⟩
  · cases hx
  · exact (Function.update_of_ne (h.own hj i a hne hold) ..).trans (h.held i a hold)

end Drafted
