/-
  File:      SloFabric/Library/KeyedTable.lean
  Subject:   Finite maps whose key is read off the value.

  A `KeyedTable key` is a list of values strictly sorted by `key`: a map in which no key
  occurs twice and no value sits under a foreign key, by construction.

  * `find`, `insert`: lookup and insert-or-replace, with `find_insert` for both cases, and
    `find_insert_some` for what is found;
  * `rows_replace`: an insertion under a taken key replaces the row in its place;
  * `erase`: removal, with `find_erase_self`, `find_erase_ne` and `find_erase_some`;
  * `mem_rows`, `keys_nodup`: the rows are exactly what `find` finds;
  * `AgreeOn`: two tables find the same under the keys of a set, with `filter_rows_congr`: rows that
    two tables have in common are listed alike, and `ext_find`: a table is what it finds;
  * `ofList`: the table a list builds by successive insertion (a later value replaces an
    earlier one of the same key), with `ofList_rows`: a table is rebuilt from its rows, and
    `find_ofList_last`: it finds the last value of a key.
-/
import Mathlib.Order.Lattice
import Mathlib.Data.List.Induction
import Mathlib.Data.List.Nodup

variable {K V : Type} [LinearOrder K]

/-- A list of values strictly sorted by their key. -/
structure KeyedTable (key : V → K) where
  rows : List V
  sorted : rows.Pairwise fun a b => key a < key b

namespace KeyedTable

variable {key : V → K}

instance [DecidableEq V] : DecidableEq (KeyedTable key) := fun a b =>
  decidable_of_iff (a.rows = b.rows)
    ⟨fun h => by cases a; cases b; cases h; rfl, fun h => h ▸ rfl⟩

/-- The empty table. -/
def empty (key : V → K) : KeyedTable key := ⟨[], .nil⟩

/-- The value stored under `k`. -/
def find (t : KeyedTable key) (k : K) : Option V := t.rows.find? fun v => key v = k

/-- Insert `v` into a sorted list, replacing a value of the same key. -/
def insertRow (key : V → K) (v : V) : List V → List V
  | [] => [v]
  | w :: ws =>
    if key v < key w then v :: w :: ws
    else if key v = key w then v :: ws
    else w :: insertRow key v ws

theorem mem_insertRow {v : V} : ∀ {l : List V}, l.Pairwise (fun a b => key a < key b) →
    ∀ w, w ∈ insertRow key v l ↔ w = v ∨ w ∈ l ∧ key w ≠ key v
  | [], _, w => by simp [insertRow]
  | x :: xs, hs, w => by
      obtain ⟨hx, hxs⟩ := List.pairwise_cons.mp hs
      unfold insertRow
      split
      · rename_i hlt
        have hne : w ∈ x :: xs → key w ≠ key v := by
          intro hw
          rcases List.mem_cons.mp hw with rfl | hw
          · exact hlt.ne'
          · exact (hlt.trans (hx w hw)).ne'
        rw [List.mem_cons]
        exact or_congr_right ⟨fun hw => ⟨hw, hne hw⟩, And.left⟩
      · split
        · rename_i _ heq
          have hne : w ∈ xs → key w ≠ key v := fun hw => heq ▸ (hx w hw).ne'
          simp only [List.mem_cons]
          constructor
          · rintro (rfl | hw)
            · exact Or.inl rfl
            · exact Or.inr ⟨Or.inr hw, hne hw⟩
          · rintro (rfl | ⟨rfl | hw, h⟩)
            · exact Or.inl rfl
            · exact absurd heq.symm h
            · exact Or.inr hw
        · rename_i _ hne
          simp only [List.mem_cons, mem_insertRow hxs]
          constructor
          · rintro (rfl | rfl | ⟨hw, h⟩)
            · exact Or.inr ⟨Or.inl rfl, fun e => hne e.symm⟩
            · exact Or.inl rfl
            · exact Or.inr ⟨Or.inr hw, h⟩
          · rintro (rfl | ⟨rfl | hw, h⟩)
            · exact Or.inr (Or.inl rfl)
            · exact Or.inl rfl
            · exact Or.inr (Or.inr ⟨hw, h⟩)

theorem insertRow_sorted (v : V) : ∀ {l : List V}, l.Pairwise (fun a b => key a < key b) →
    (insertRow key v l).Pairwise fun a b => key a < key b
  | [], _ => by simp [insertRow]
  | x :: xs, hs => by
      obtain ⟨hx, hxs⟩ := List.pairwise_cons.mp hs
      unfold insertRow
      split
      · rename_i hlt
        refine List.pairwise_cons.mpr ⟨fun w hw => ?_, hs⟩
        rcases List.mem_cons.mp hw with rfl | hw
        · exact hlt
        · exact hlt.trans (hx w hw)
      · split
        · rename_i _ heq
          exact List.pairwise_cons.mpr ⟨fun w hw => heq ▸ hx w hw, hxs⟩
        · rename_i hlt hne
          refine List.pairwise_cons.mpr ⟨fun w hw => ?_, insertRow_sorted v hxs⟩
          rcases (mem_insertRow hxs w).mp hw with rfl | ⟨hw, _⟩
          · exact lt_of_le_of_ne (not_lt.mp hlt) fun e => hne e.symm
          · exact hx w hw

/-- Insert `v`, replacing a value of the same key. -/
def insert (t : KeyedTable key) (v : V) : KeyedTable key :=
  ⟨insertRow key v t.rows, insertRow_sorted v t.sorted⟩

/-- The table built by inserting the values of `l` in order. -/
def ofList (key : V → K) (l : List V) : KeyedTable key := l.foldl insert (empty key)

/-! ## Rows and lookups -/

/-- No key occurs twice. -/
theorem keys_nodup (t : KeyedTable key) : (t.rows.map key).Nodup :=
  List.pairwise_map.mpr (t.sorted.imp fun h => h.ne)

theorem key_inj (t : KeyedTable key) {a b : V} (ha : a ∈ t.rows) (hb : b ∈ t.rows)
    (h : key a = key b) : a = b :=
  List.inj_on_of_nodup_map t.keys_nodup ha hb h

/-- The rows are exactly what `find` finds under a key. -/
theorem find_eq_some {t : KeyedTable key} {k : K} {v : V} :
    t.find k = some v ↔ v ∈ t.rows ∧ key v = k := by
  unfold find
  constructor
  · intro h
    exact ⟨List.mem_of_find?_eq_some h, by simpa using List.find?_some h⟩
  · rintro ⟨hv, rfl⟩
    cases h : t.rows.find? fun w => key w = key v with
    | none => simpa using List.find?_eq_none.mp h v hv
    | some w =>
      have hw : key w = key v := by simpa using List.find?_some h
      rw [t.key_inj (List.mem_of_find?_eq_some h) hv hw]

theorem mem_rows {t : KeyedTable key} {v : V} : v ∈ t.rows ↔ t.find (key v) = some v := by
  simp [find_eq_some]

theorem find_key {t : KeyedTable key} {k : K} {v : V} (h : t.find k = some v) : key v = k :=
  (find_eq_some.mp h).2

theorem find_mem {t : KeyedTable key} {k : K} {v : V} (h : t.find k = some v) : v ∈ t.rows :=
  (find_eq_some.mp h).1

@[simp] theorem find_empty (k : K) : (empty key).find k = none := rfl

@[simp] theorem rows_empty : (empty key).rows = [] := rfl

theorem mem_insert {t : KeyedTable key} {v w : V} :
    w ∈ (t.insert v).rows ↔ w = v ∨ w ∈ t.rows ∧ key w ≠ key v :=
  mem_insertRow t.sorted w

@[simp] theorem find_insert_self (t : KeyedTable key) (v : V) :
    (t.insert v).find (key v) = some v :=
  find_eq_some.mpr ⟨mem_insert.mpr (Or.inl rfl), rfl⟩

theorem find_insert_ne (t : KeyedTable key) {v : V} {k : K} (h : k ≠ key v) :
    (t.insert v).find k = t.find k := by
  ext w
  rw [find_eq_some, find_eq_some, mem_insert]
  constructor
  · rintro ⟨rfl | ⟨hw, _⟩, hk⟩
    · exact absurd hk.symm h
    · exact ⟨hw, hk⟩
  · rintro ⟨hw, hk⟩
    exact ⟨Or.inr ⟨hw, hk ▸ h⟩, hk⟩

theorem find_insert (t : KeyedTable key) (v : V) (k : K) :
    (t.insert v).find k = if k = key v then some v else t.find k := by
  split
  · rename_i h; rw [h, find_insert_self]
  · rename_i h; exact find_insert_ne t h

/-- The same two, for a value whose key is known. -/
theorem find_insert_key (t : KeyedTable key) {v : V} {k : K} (h : key v = k) :
    (t.insert v).find k = some v :=
  h ▸ find_insert_self t v

theorem find_insert_key_ne (t : KeyedTable key) {v : V} {k k' : K} (h : key v = k)
    (hne : k' ≠ k) : (t.insert v).find k' = t.find k' :=
  find_insert_ne t (h ▸ hne)

/-- What is found after an insertion. -/
theorem find_insert_some {t : KeyedTable key} {v w : V} {k : K} (h : (t.insert v).find k = some w) :
    k = key v ∧ w = v ∨ k ≠ key v ∧ t.find k = some w := by
  rw [find_insert] at h
  split at h
  · rename_i hk
    exact Or.inl ⟨hk, (Option.some.inj h).symm⟩
  · rename_i hk
    exact Or.inr ⟨hk, h⟩

theorem insertRow_replace {v : V} : ∀ {l : List V}, l.Pairwise (fun a b => key a < key b) →
    (∃ w ∈ l, key w = key v) →
    insertRow key v l = l.map fun w => if key w = key v then v else w
  | [], _, ⟨_, hw, _⟩ => absurd hw List.not_mem_nil
  | x :: xs, hs, ⟨w, hw, hk⟩ => by
      obtain ⟨hx, hxs⟩ := List.pairwise_cons.mp hs
      have hnot : ¬key v < key x := by
        rw [← hk, not_lt]
        rcases List.mem_cons.mp hw with rfl | hw
        · exact le_rfl
        · exact (hx w hw).le
      unfold insertRow
      rw [if_neg hnot, List.map_cons]
      by_cases heq : key v = key x
      · have hrest : xs.map (fun w => if key w = key v then v else w) = xs.map id :=
          List.map_congr_left fun y hy => if_neg (heq ▸ (hx y hy).ne')
        rw [if_pos heq, if_pos heq.symm, hrest, List.map_id]
      · have hw : w ∈ xs := (List.mem_cons.mp hw).resolve_left fun h => heq (h ▸ hk).symm
        rw [if_neg heq, if_neg (Ne.symm heq), insertRow_replace hxs ⟨w, hw, hk⟩]

/-- Where the key is taken, an insertion replaces the row in its place. -/
theorem rows_replace {t : KeyedTable key} {v : V} {k : K} {w : V} (h : t.find k = some w)
    (hk : key v = k) :
    (t.insert v).rows = t.rows.map fun w => if key w = key v then v else w :=
  insertRow_replace t.sorted ⟨w, find_mem h, (find_key h).trans hk.symm⟩

/-- What holds of every row and of `v` holds of every row after inserting `v`. -/
theorem forall_insert {P : V → Prop} {t : KeyedTable key} {v : V} (ht : ∀ w ∈ t.rows, P w)
    (hv : P v) : ∀ w ∈ (t.insert v).rows, P w := by
  intro w hw
  rcases mem_insert.mp hw with rfl | ⟨hw, _⟩
  · exact hv
  · exact ht w hw

/-! ## Removal -/

/-- Remove the value stored under `k`. -/
def erase (t : KeyedTable key) (k : K) : KeyedTable key :=
  ⟨t.rows.filter fun v => key v ≠ k, t.sorted.filter _⟩

theorem mem_erase {t : KeyedTable key} {k : K} {v : V} :
    v ∈ (t.erase k).rows ↔ v ∈ t.rows ∧ key v ≠ k := by
  simp [erase]

@[simp] theorem find_erase_self (t : KeyedTable key) (k : K) : (t.erase k).find k = none := by
  cases h : (t.erase k).find k with
  | none => rfl
  | some v => exact absurd (find_key h) (mem_erase.mp (find_mem h)).2

theorem find_erase_ne (t : KeyedTable key) {k k' : K} (h : k' ≠ k) :
    (t.erase k).find k' = t.find k' := by
  cases hf : t.find k' with
  | none =>
    cases he : (t.erase k).find k' with
    | none => rfl
    | some v =>
      have hv := find_eq_some.mpr ⟨(mem_erase.mp (find_mem he)).1, find_key he⟩
      rw [hf] at hv
      cases hv
  | some v =>
    have hkey := find_key hf
    exact find_eq_some.mpr ⟨mem_erase.mpr ⟨find_mem hf, hkey ▸ h⟩, hkey⟩

/-- What is found after a removal. -/
theorem find_erase_some {t : KeyedTable key} {k k' : K} {v : V} (h : (t.erase k).find k' = some v) :
    k' ≠ k ∧ t.find k' = some v := by
  have hne : k' ≠ k := by
    rintro rfl
    rw [find_erase_self] at h
    cases h
  exact ⟨hne, (find_erase_ne t hne).symm.trans h⟩

/-! ## Agreement -/

/-- The tables find the same under every key of the set. -/
def AgreeOn (S : Set K) (t t' : KeyedTable key) : Prop := ∀ k ∈ S, t.find k = t'.find k

namespace AgreeOn

variable {S : Set K} {t t' t'' : KeyedTable key}

theorem refl (t : KeyedTable key) : AgreeOn S t t := fun _ _ => rfl

theorem symm (h : AgreeOn S t t') : AgreeOn S t' t := fun k hk => (h k hk).symm

theorem trans (h : AgreeOn S t t') (h' : AgreeOn S t' t'') : AgreeOn S t t'' :=
  fun k hk => (h k hk).trans (h' k hk)

/-- The same value is stored in both. -/
theorem insert (h : AgreeOn S t t') (v : V) : AgreeOn S (t.insert v) (t'.insert v) := by
  intro k hk
  rw [find_insert, find_insert, h k hk]

end AgreeOn

/-- A value is stored under a key outside of the set. -/
theorem agreeOn_insert {S : Set K} (t : KeyedTable key) {v : V} (hv : key v ∉ S) :
    AgreeOn S t (t.insert v) :=
  fun _ hk => (find_insert_ne t fun h => hv (h ▸ hk)).symm

/-- **The rows two tables have in common are listed alike.** -/
theorem filter_rows_congr {t t' : KeyedTable key} {p : V → Bool}
    (h : ∀ v, p v = true → (v ∈ t.rows ↔ v ∈ t'.rows)) :
    t.rows.filter p = t'.rows.filter p := by
  have hnodup (t : KeyedTable key) : (t.rows.filter p).Nodup :=
    (List.Nodup.of_map key t.keys_nodup).filter p
  have hperm : (t.rows.filter p).Perm (t'.rows.filter p) := by
    refine (List.perm_ext_iff_of_nodup (hnodup t) (hnodup t')).mpr fun v => ?_
    rw [List.mem_filter, List.mem_filter]
    exact and_congr_left fun hp => h v hp
  exact hperm.eq_of_pairwise (fun a b _ _ hab hba => absurd (hab.trans hba) (lt_irrefl _))
    (t.sorted.filter p) (t'.sorted.filter p)

/-- Tables that find the same are the same. -/
theorem ext_find {t t' : KeyedTable key} (h : ∀ k, t.find k = t'.find k) : t = t' := by
  have hrows : t.rows.filter (fun _ => true) = t'.rows.filter fun _ => true :=
    filter_rows_congr fun v _ => by rw [mem_rows, mem_rows, h]
  rw [List.filter_true, List.filter_true] at hrows
  cases t
  cases t'
  cases hrows
  rfl

/-! ## Rebuilding a table -/

theorem insertRow_append {v : V} : ∀ {l : List V}, (∀ w ∈ l, key w < key v) →
    insertRow key v l = l ++ [v]
  | [], _ => rfl
  | x :: xs, h => by
      have hx := h x List.mem_cons_self
      unfold insertRow
      rw [if_neg hx.not_gt, if_neg hx.ne',
        insertRow_append fun w hw => h w (List.mem_cons_of_mem _ hw)]
      rfl

theorem foldl_insert_rows : ∀ (l : List V) (t : KeyedTable key),
    (t.rows ++ l).Pairwise (fun a b => key a < key b) → (l.foldl insert t).rows = t.rows ++ l
  | [], t, _ => by simp
  | v :: vs, t, h => by
      have hv : ∀ w ∈ t.rows, key w < key v := fun w hw =>
        (List.pairwise_append.mp h).2.2 w hw v List.mem_cons_self
      have e : (t.insert v).rows = t.rows ++ [v] := insertRow_append hv
      rw [List.foldl_cons, foldl_insert_rows vs (t.insert v) (by rw [e]; simpa using h), e]
      simp

/-- **A table is rebuilt from its rows.** -/
theorem ofList_rows (t : KeyedTable key) : ofList key t.rows = t := by
  have e : (ofList key t.rows).rows = t.rows :=
    foldl_insert_rows t.rows (empty key) (by simpa using t.sorted)
  cases h : ofList key t.rows
  rw [h] at e
  cases t
  cases e
  rfl

/-- Every row of a table built from a list comes from the list. -/
theorem mem_ofList {l : List V} {w : V} (h : w ∈ (ofList key l).rows) : w ∈ l := by
  have go : ∀ (l : List V) (t : KeyedTable key), w ∈ (l.foldl insert t).rows →
      w ∈ t.rows ∨ w ∈ l := by
    intro l
    induction l with
    | nil => intro t h; exact Or.inl h
    | cons v vs ih =>
      intro t h
      rcases ih _ h with h | h
      · rcases mem_insert.mp h with rfl | ⟨h, _⟩
        · exact Or.inr List.mem_cons_self
        · exact Or.inl h
      · exact Or.inr (List.mem_cons_of_mem _ h)
  rcases go l (empty key) h with h | h
  · simp at h
  · exact h

/-- Where no key occurs twice, every value of the list is found under its key. -/
theorem find_ofList {l : List V} (hn : (l.map key).Nodup) {v : V} (hv : v ∈ l) :
    (ofList key l).find (key v) = some v := by
  have go : ∀ (l : List V) (t : KeyedTable key), (l.map key).Nodup →
      (v ∈ l ∨ t.find (key v) = some v ∧ ∀ w ∈ l, key w ≠ key v) →
      (l.foldl insert t).find (key v) = some v := by
    intro l
    induction l with
    | nil =>
      rintro t _ (h | ⟨h, _⟩)
      · exact absurd h List.not_mem_nil
      · exact h
    | cons w l ih =>
      intro t hn h
      obtain ⟨hw, hn⟩ := List.nodup_cons.mp hn
      refine ih _ hn ?_
      rcases h with h | ⟨h, hne⟩
      · rcases List.mem_cons.mp h with rfl | h
        · refine Or.inr ⟨find_insert_self t v, fun w hwl heq => hw ?_⟩
          exact List.mem_map.mpr ⟨w, hwl, heq⟩
        · exact Or.inl h
      · refine Or.inr ⟨?_, fun w hwl => hne w (List.mem_cons_of_mem _ hwl)⟩
        rw [find_insert_ne t (hne w List.mem_cons_self).symm, h]
  exact go l (empty key) hn (Or.inl hv)

/-- A table built from a list finds the last value of a key. -/
theorem find_ofList_last (l : List V) (k : K) :
    (ofList key l).find k = l.reverse.find? (key · = k) := by
  induction l using List.reverseRecOn with
  | nil => rfl
  | append_singleton l v ih =>
    have hpush : ofList key (l ++ [v]) = (ofList key l).insert v := by
      rw [ofList, List.foldl_append]
      rfl
    rw [hpush, find_insert, ih, List.reverse_append]
    by_cases hk : key v = k
    · simp [hk]
    · simp [hk, Ne.symm hk]

end KeyedTable
