/-
  File:      SloFabric/Library/Fields.lean
  Subject:   Texts made of fields that a separator ends.

  * `field_inj`: the first separator of a text ends its first field;
  * `rowText`, `rowText_inj`: a row of pairs of fields is read off its text, where the separator is
    in no field;
  * `rowText_inj_of_heads`: or where the first fields are known, and it is in no second field;
  * `eq_iff_gaps`: a list is what is taken out of it, and what is left with its gaps.
-/
import Mathlib.Data.List.Basic

variable {α : Type}

/-- **The first separator ends the first field.** -/
theorem field_inj {x : α} : ∀ {a b as bs : List α}, x ∉ a → x ∉ b →
    a ++ x :: as = b ++ x :: bs → a = b ∧ as = bs
  | [], [], _, _, _, _, h => ⟨rfl, (List.cons.inj h).2⟩
  | [], _ :: _, _, _, _, hb, h => absurd (List.mem_cons.mpr (Or.inl (List.cons.inj h).1)) hb
  | _ :: _, [], _, _, ha, _, h => absurd (List.mem_cons.mpr (Or.inl (List.cons.inj h).1.symm)) ha
  | y :: a, z :: b, _, _, ha, hb, h => by
      obtain ⟨hyz, htail⟩ := List.cons.inj h
      obtain ⟨hab, hrest⟩ := field_inj (fun hx => ha (List.mem_cons_of_mem _ hx))
        (fun hx => hb (List.mem_cons_of_mem _ hx)) htail
      exact ⟨by rw [hyz, hab], hrest⟩

/-- A row of pairs of fields, each ended by a separator. -/
def rowText (x : α) (l : List (List α × List α)) : List α :=
  l.flatMap fun p => p.1 ++ x :: p.2 ++ [x]

@[simp] theorem rowText_nil (x : α) : rowText x [] = [] := rfl

theorem rowText_cons (x : α) (p : List α × List α) (l : List (List α × List α)) :
    rowText x (p :: l) = p.1 ++ x :: (p.2 ++ x :: rowText x l) := by
  simp [rowText]

theorem rowText_cons_ne_nil (x : α) (p : List α × List α) (l : List (List α × List α)) :
    rowText x (p :: l) ≠ [] := by
  rw [rowText_cons]
  simp

/-- **A row is read off its text.** -/
theorem rowText_inj {x : α} : ∀ {l l' : List (List α × List α)},
    (∀ p ∈ l, x ∉ p.1 ∧ x ∉ p.2) → (∀ p ∈ l', x ∉ p.1 ∧ x ∉ p.2) →
    rowText x l = rowText x l' → l = l'
  | [], [], _, _, _ => rfl
  | [], p :: l', _, _, h => absurd h.symm (rowText_cons_ne_nil x p l')
  | p :: l, [], _, _, h => absurd h (rowText_cons_ne_nil x p l)
  | p :: l, p' :: l', hl, hl', h => by
      obtain ⟨hp, hl⟩ := List.forall_mem_cons.mp hl
      obtain ⟨hp', hl'⟩ := List.forall_mem_cons.mp hl'
      rw [rowText_cons, rowText_cons] at h
      obtain ⟨hfst, h⟩ := field_inj hp.1 hp'.1 h
      obtain ⟨hsnd, h⟩ := field_inj hp.2 hp'.2 h
      rw [Prod.ext hfst hsnd, rowText_inj hl hl' h]

/-- The same, where the first fields are known. -/
theorem rowText_inj_of_heads {x : α} : ∀ {l l' : List (List α × List α)},
    l.map Prod.fst = l'.map Prod.fst → (∀ p ∈ l, x ∉ p.2) → (∀ p ∈ l', x ∉ p.2) →
    rowText x l = rowText x l' → l = l'
  | [], [], _, _, _, _ => rfl
  | [], p :: l', _, _, _, h => absurd h.symm (rowText_cons_ne_nil x p l')
  | p :: l, [], _, _, _, h => absurd h (rowText_cons_ne_nil x p l)
  | p :: l, p' :: l', hheads, hl, hl', h => by
      obtain ⟨hp, hl⟩ := List.forall_mem_cons.mp hl
      obtain ⟨hp', hl'⟩ := List.forall_mem_cons.mp hl'
      obtain ⟨hfst, hheads⟩ := List.cons.inj hheads
      rw [rowText_cons, rowText_cons, hfst, List.append_cancel_left_eq] at h
      obtain ⟨hsnd, h⟩ := field_inj hp hp' (List.cons.inj h).2
      rw [Prod.ext hfst hsnd, rowText_inj_of_heads hheads hl hl' h]

/-- **A list is what is taken out of it, and what is left with its gaps.** -/
theorem eq_iff_gaps (p : α → Bool) : ∀ {l l' : List α}, l = l' ↔
    l.map (fun a => if p a then none else some a) =
        l'.map (fun a => if p a then none else some a) ∧ l.filter p = l'.filter p
  | [], [] => by simp
  | [], _ :: _ => by simp
  | _ :: _, [] => by simp
  | a :: l, b :: l' => by
      refine ⟨fun h => by rw [h]; exact ⟨rfl, rfl⟩, fun ⟨hgaps, htaken⟩ => ?_⟩
      obtain ⟨hab, hgaps⟩ := List.cons.inj hgaps
      by_cases ha : p a = true
      · have hb : p b = true := by
          by_contra hb
          simp [ha, hb] at hab
        rw [List.filter_cons_of_pos ha, List.filter_cons_of_pos hb] at htaken
        obtain ⟨hhead, htaken⟩ := List.cons.inj htaken
        rw [hhead, (eq_iff_gaps p).mpr ⟨hgaps, htaken⟩]
      · have hb : ¬p b = true := by
          intro hb
          simp [ha, hb] at hab
        rw [List.filter_cons_of_neg ha, List.filter_cons_of_neg hb] at htaken
        simp only [ha, hb, Bool.false_eq_true, if_false, Option.some.injEq] at hab
        rw [hab, (eq_iff_gaps p).mpr ⟨hgaps, htaken⟩]
