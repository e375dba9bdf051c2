/-
  File:      SloFabric/Library/Sorting.lean
  Subject:   Sorting where the order of equivalent elements is left open.

  A sort sees its elements through the answers of a comparison, place by place, and moves them
  around. If the comparison is a strict weak order, they come out in order; in which order
  equivalent ones come out is up to the sort. Of any other comparison no more is known than that
  the elements are moved.

  * `StrictWeak`: the order a sort asks for;
  * `ComparisonSort`, `ComparisonSort.sort`; `ComparisonSort.stable`: by insertion;
  * `sort_perm`, `sort_congr`: it moves the elements, and looks at the comparison only;
  * `MayLead`: what may come out first; `MayLead.of_sort`: nothing else does;
  * `ComparisonSort.leading`, `MayLead.exists_sort`: all of it does, with one sort or another;
  * `StrictWeak.of_key`, `mayLead_iff_least`: where the comparison is that of a key, what comes out
    first has the least one;
  * `list_map_lt_iff`: an embedding of the elements embeds the lists.
-/
import Mathlib.Data.List.Lex
import Mathlib.Data.List.Sort
import Mathlib.Data.List.FinRange
import Mathlib.Data.List.Pairwise

/-- A strict weak order of the elements that meet `p`. -/
structure StrictWeak {α : Type} (p : α → Prop) (lt : α → α → Bool) : Prop where
  asymm : ∀ a b, p a → p b → lt a b = true → lt b a = false
  split : ∀ a b c, p a → p b → p c → lt a c = true → lt a b = true ∨ lt b c = true

/-- The order in which a sort leaves `n` places, by the answers of the comparison at them. -/
structure ComparisonSort where
  order : (n : Nat) → (Nat → Nat → Bool) → List Nat
  perm : ∀ n lt, (order n lt).Perm (List.range n)
  ordered : ∀ n lt, StrictWeak (· < n) lt → (order n lt).Pairwise fun i j => lt j i = false

variable {α β : Type}

/-- The answers of a comparison at the places of a list. -/
def answers (lt : α → α → Bool) (l : List α) (i j : Nat) : Bool :=
  match l[i]?, l[j]? with
  | some a, some b => lt a b
  | _, _ => false

theorem answers_getElem {lt : α → α → Bool} {l : List α} {i j : Nat} {a b : α}
    (ha : l[i]? = some a) (hb : l[j]? = some b) : answers lt l i j = lt a b := by
  simp only [answers, ha, hb]

theorem answers_map {f : β → α} {lt : α → α → Bool} {lt' : β → β → Bool} {l : List β}
    (h : ∀ a ∈ l, ∀ b ∈ l, lt (f a) (f b) = lt' a b) :
    answers lt (l.map f) = answers lt' l := by
  funext i j
  simp only [answers, List.getElem?_map]
  cases hi : l[i]? with
  | none => rfl
  | some a =>
    cases hj : l[j]? with
    | none => rfl
    | some b => exact h a (List.mem_of_getElem? hi) b (List.mem_of_getElem? hj)

/-- An order of the elements is one of the places. -/
theorem strictWeak_answers {lt : α → α → Bool} {l : List α} :
    StrictWeak (· < l.length) (answers lt l) ↔ StrictWeak (· ∈ l) lt := by
  constructor
  · refine fun h => ⟨fun a b ha hb => ?_, fun a b c ha hb hc => ?_⟩
    · obtain ⟨i, hi, hia⟩ := List.getElem_of_mem ha
      obtain ⟨j, hj, hjb⟩ := List.getElem_of_mem hb
      have hia := List.getElem?_eq_some_iff.mpr ⟨hi, hia⟩
      have hjb := List.getElem?_eq_some_iff.mpr ⟨hj, hjb⟩
      have hab : answers lt l i j = lt a b := answers_getElem hia hjb
      have hba : answers lt l j i = lt b a := answers_getElem hjb hia
      rw [← hab, ← hba]
      exact h.asymm i j hi hj
    · obtain ⟨i, hi, hia⟩ := List.getElem_of_mem ha
      obtain ⟨j, hj, hjb⟩ := List.getElem_of_mem hb
      obtain ⟨k, hk, hkc⟩ := List.getElem_of_mem hc
      have hia := List.getElem?_eq_some_iff.mpr ⟨hi, hia⟩
      have hjb := List.getElem?_eq_some_iff.mpr ⟨hj, hjb⟩
      have hkc := List.getElem?_eq_some_iff.mpr ⟨hk, hkc⟩
      have hac : answers lt l i k = lt a c := answers_getElem hia hkc
      have hab : answers lt l i j = lt a b := answers_getElem hia hjb
      have hbc : answers lt l j k = lt b c := answers_getElem hjb hkc
      rw [← hac, ← hab, ← hbc]
      exact h.split i j k hi hj hk
  · refine fun h => ⟨fun i j hi hj => ?_, fun i j k hi hj hk => ?_⟩
    · have hia := List.getElem?_eq_getElem hi
      have hjb := List.getElem?_eq_getElem hj
      rw [answers_getElem hia hjb, answers_getElem hjb hia]
      exact h.asymm _ _ (List.getElem_mem hi) (List.getElem_mem hj)
    · have hia := List.getElem?_eq_getElem hi
      have hjb := List.getElem?_eq_getElem hj
      have hkc := List.getElem?_eq_getElem hk
      rw [answers_getElem hia hkc, answers_getElem hia hjb, answers_getElem hjb hkc]
      exact h.split _ _ _ (List.getElem_mem hi) (List.getElem_mem hj) (List.getElem_mem hk)

namespace ComparisonSort

/-- The list in the order the sort leaves it in. -/
def sort (cs : ComparisonSort) (lt : α → α → Bool) (l : List α) : List α :=
  (cs.order l.length (answers lt l)).filterMap (l[·]?)

/-- **A sort moves the elements.** -/
theorem sort_perm (cs : ComparisonSort) (lt : α → α → Bool) (l : List α) :
    (cs.sort lt l).Perm l := by
  have hrange : (List.range l.length).filterMap (l[·]?) = l := by
    induction l with
    | nil => rfl
    | cons a l ih =>
      rw [List.length_cons, List.range_succ_eq_map, List.filterMap_cons]
      simp only [List.getElem?_cons_zero, List.filterMap_map, Function.comp_def,
        Nat.succ_eq_add_one, List.getElem?_cons_succ]
      rw [ih]
  exact ((cs.perm _ _).filterMap _).trans (.of_eq hrange)

theorem mem_sort {cs : ComparisonSort} {lt : α → α → Bool} {l : List α} {a : α} :
    a ∈ cs.sort lt l ↔ a ∈ l := (cs.sort_perm lt l).mem_iff

@[simp] theorem sort_eq_nil {cs : ComparisonSort} {lt : α → α → Bool} {l : List α} :
    cs.sort lt l = [] ↔ l = [] := by
  have hperm := cs.sort_perm lt l
  exact ⟨fun h => List.nil_perm.mp (h ▸ hperm), fun h => List.perm_nil.mp (h ▸ hperm)⟩

@[simp] theorem sort_singleton (cs : ComparisonSort) (lt : α → α → Bool) (a : α) :
    cs.sort lt [a] = [a] := List.perm_singleton.mp (cs.sort_perm lt [a])

/-- **It looks at the comparison only.** -/
theorem sort_congr (cs : ComparisonSort) {γ : Type} {f : α → γ} {g : β → γ} {lt : α → α → Bool}
    {lt' : β → β → Bool} {l : List α} {l' : List β} (hans : answers lt l = answers lt' l')
    (hmap : l.map f = l'.map g) : (cs.sort lt l).map f = (cs.sort lt' l').map g := by
  have hlen : l.length = l'.length := by
    rw [← List.length_map f, hmap, List.length_map]
  have hplace (i : Nat) : l[i]?.map f = l'[i]?.map g := by
    rw [← List.getElem?_map, hmap, List.getElem?_map]
  simp only [sort, hans, hlen, List.map_filterMap, hplace]

/-- What comes out first, by its place. -/
theorem head_sort (cs : ComparisonSort) (lt : α → α → Bool) (l : List α) :
    (cs.sort lt l).head? = (cs.order l.length (answers lt l)).head?.bind (l[·]?) := by
  rw [sort]
  cases ho : cs.order l.length (answers lt l) with
  | nil => rfl
  | cons i is =>
    have hi : i < l.length := by
      have hmem : i ∈ cs.order l.length (answers lt l) := ho ▸ List.mem_cons_self
      exact List.mem_range.mp ((cs.perm _ _).mem_iff.mp hmem)
    rw [List.filterMap_cons, List.head?_cons, Option.bind_some, List.getElem?_eq_getElem hi]
    rfl

/-- Sorting by insertion: equivalent elements stay in their order. -/
def stable : ComparisonSort where
  order n lt :=
    ((List.finRange n).insertionSort fun i j : Fin n => lt j i = false).map Fin.val
  perm n lt := by
    have hperm := (List.perm_insertionSort (fun i j : Fin n => lt j i = false)
      (List.finRange n)).map Fin.val
    rwa [List.map_coe_finRange_eq_range] at hperm
  ordered n lt h := by
    have htotal : Std.Total fun i j : Fin n => lt j i = false := ⟨fun i j => by
      cases hij : lt j i with
      | false => exact .inl rfl
      | true => exact .inr (h.asymm j i j.2 i.2 hij)⟩
    have htrans : IsTrans (Fin n) fun i j => lt j i = false := ⟨fun i j k hij hjk => by
      cases hik : lt k i with
      | false => rfl
      | true =>
        rcases h.split k j i k.2 j.2 i.2 hik with hkj | hji
        · exact hkj.symm.trans hjk
        · exact hji.symm.trans hij⟩
    exact List.pairwise_map.mpr (List.pairwise_insertionSort _ _)

/-- The sort that puts the place `i` first where it is asked for `n` places and the answers `lt`,
    and does what another sort does elsewhere. -/
noncomputable def leading (cs : ComparisonSort) (n : Nat) (lt : Nat → Nat → Bool) (i : Nat)
    (hi : i < n) (hlead : StrictWeak (· < n) lt → ∀ j, j < n → lt j i = false) :
    ComparisonSort where
  order m lt' :=
    open Classical in
    if m = n ∧ lt' = lt then i :: (cs.order m lt').erase i else cs.order m lt'
  perm m lt' := by
    split
    · rename_i heq
      obtain ⟨rfl, rfl⟩ := heq
      have hmem : i ∈ cs.order m lt' := (cs.perm _ _).mem_iff.mpr (List.mem_range.mpr hi)
      exact (List.perm_cons_erase hmem).symm.trans (cs.perm m lt')
    · exact cs.perm m lt'
  ordered m lt' hweak := by
    split
    · rename_i heq
      obtain ⟨rfl, rfl⟩ := heq
      refine List.pairwise_cons.mpr ⟨fun j hj => ?_,
        (cs.ordered m lt' hweak).sublist List.erase_sublist⟩
      have hmem := (cs.perm m lt').mem_iff.mp (List.mem_of_mem_erase hj)
      exact hlead hweak j (List.mem_range.mp hmem)
    · exact cs.ordered m lt' hweak

end ComparisonSort

/-- **What may come out first**: where the comparison is a strict weak order, an element that no
    other is before; else any of them. -/
def MayLead (lt : α → α → Bool) (l : List α) (e : α) : Prop :=
  e ∈ l ∧ (StrictWeak (· ∈ l) lt → ∀ x ∈ l, lt x e = false)

namespace MayLead

/-- **Nothing else comes out first.** -/
theorem of_sort {cs : ComparisonSort} {lt : α → α → Bool} {l : List α} {e : α}
    (h : (cs.sort lt l).head? = some e) : MayLead lt l e := by
  refine ⟨ComparisonSort.mem_sort.mp (List.mem_of_mem_head? h), fun hweak x hx => ?_⟩
  have hsorted : (cs.sort lt l).Pairwise fun a b => lt b a = false := by
    refine List.pairwise_filterMap.mpr
      ((cs.ordered _ _ (strictWeak_answers.mpr hweak)).imp fun {i j} hij a ha b hb => ?_)
    rwa [answers_getElem hb ha] at hij
  obtain ⟨rest, hrest⟩ : ∃ rest, cs.sort lt l = e :: rest := List.head?_eq_some_iff.mp h
  have hxs : x ∈ cs.sort lt l := ComparisonSort.mem_sort.mpr hx
  rw [hrest] at hsorted hxs
  rcases List.mem_cons.mp hxs with rfl | hx
  · cases hxx : lt x x with
    | false => rfl
    | true => exact hxx.symm.trans (hweak.asymm x x ‹_› ‹_› hxx)
  · exact (List.pairwise_cons.mp hsorted).1 x hx

/-- An element that may come first does, with a sort that elsewhere does as another one. -/
theorem exists_sort {lt : α → α → Bool} {l : List α} {e : α} (h : MayLead lt l e)
    (cs : ComparisonSort) : ∃ cs' : ComparisonSort, (cs'.sort lt l).head? = some e ∧
      ∀ n lt', (n = l.length → lt' ≠ answers lt l) → cs'.order n lt' = cs.order n lt' := by
  obtain ⟨i, hi⟩ := List.mem_iff_getElem?.mp h.1
  have hlt : i < l.length := (List.getElem?_eq_some_iff.mp hi).1
  refine ⟨cs.leading l.length (answers lt l) i hlt fun hweak j hj => ?_, ?_, fun n lt' hne => ?_⟩
  · rw [answers_getElem (List.getElem?_eq_getElem hj) hi]
    exact h.2 (strictWeak_answers.mp hweak) _ (List.getElem_mem hj)
  · rw [ComparisonSort.head_sort, ComparisonSort.leading]
    simp only [and_self, if_true, List.head?_cons, Option.bind_some, hi]
  · rw [ComparisonSort.leading]
    exact if_neg fun heq => hne heq.1 heq.2

end MayLead

/-! ## Keys -/

section Key

variable {K : Type} [LinearOrder K] {key : α → K} {lt : α → α → Bool} {l : List α}

/-- The comparison by a key is a strict weak order. -/
theorem StrictWeak.of_key (h : ∀ a ∈ l, ∀ b ∈ l, lt a b = true ↔ key a < key b) :
    StrictWeak (· ∈ l) lt where
  asymm a b ha hb hlt := by
    rw [← Bool.not_eq_true, h b hb a ha]
    exact ((h a ha b hb).mp hlt).asymm
  split a b c ha hb hc hlt := by
    rw [h a ha b hb, h b hb c hc]
    exact (lt_or_ge (key a) (key b)).imp_right ((h a ha c hc).mp hlt).trans_le'

/-- **What may come out first has the least key.** -/
theorem mayLead_iff_least (h : ∀ a ∈ l, ∀ b ∈ l, lt a b = true ↔ key a < key b) {e : α} :
    MayLead lt l e ↔ e ∈ l ∧ ∀ x ∈ l, key e ≤ key x := by
  refine and_congr_right fun he => ?_
  have hkey (x : α) (hx : x ∈ l) : lt x e = false ↔ key e ≤ key x := by
    rw [← not_lt, ← h x hx e he, Bool.not_eq_true]
  exact ⟨fun hlead x hx => (hkey x hx).mp (hlead (.of_key h) x hx),
    fun hleast _ x hx => (hkey x hx).mpr (hleast x hx)⟩

/-- The answers are those of the keys. -/
theorem answers_key (h : ∀ a ∈ l, ∀ b ∈ l, lt a b = true ↔ key a < key b) :
    answers lt l = answers (fun x y => decide (x < y)) (l.map key) :=
  (answers_map fun a ha b hb => Bool.eq_iff_iff.mpr (by rw [decide_eq_true_iff, h a ha b hb])).symm

end Key

/-- **An embedding of the elements embeds the lists.** -/
theorem list_map_lt_iff {K : Type} [LinearOrder K] [LT β] {f : β → K}
    (hlt : ∀ a b, a < b ↔ f a < f b) (hinj : Function.Injective f) :
    ∀ l l' : List β, l < l' ↔ l.map f < l'.map f
  | [], [] => by simp
  | [], _ :: _ => by simp
  | _ :: _, [] => by simp
  | a :: l, b :: l' => by
      rw [List.map_cons, List.map_cons, List.cons_lt_cons_iff, List.cons_lt_cons_iff,
        hlt a b, list_map_lt_iff hlt hinj l l', hinj.eq_iff]
