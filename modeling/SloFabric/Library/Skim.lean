/-
  File:      SloFabric/Library/Skim.lean
  Subject:   Readers beside a description of their format: what they accept, byte for byte.

  A skim passes over the bytes of a format without reading them as values; it reports marks,
  the bytes someone wants to speak about.

  * `skip`, `note`, `inOrder`, `repeated`: how skims are built;
  * `Survey`: a stretch of input against what a writer would have written there;
  * `Skims r s w e`: on whatever `r` reads, `s` passes the same bytes; they are as many as `w`
    writes for the value, exactly those if and only if every mark is `good`, and the values of
    the marks are `e`;
  * `Finishes`: the same of the rest of a reader, after some bytes have been written, with a
    rule for each way to go on (`Finishes.bind`, `check`, `pure`, `map`);
  * `Skims.of_finishes`: a reader is the rest of itself.
-/
import SloFabric.Library.Codec

namespace Codec

variable {M N α β : Type}

/-! ## 1. Skims -/

/-- Pass over `n` bytes. -/
def skip (M : Type) (n : Nat) : Reader (List M) := (fun _ => []) <$> take n

/-- Pass over a byte and report it. -/
def note (f : UInt8 → M) : Reader (List M) := (fun bs => bs.map f) <$> take 1

def both (s t : Reader (List M)) : Reader (List M) := do
  let x ← s
  let y ← t
  pure (x ++ y)

def inOrder (l : List (Reader (List M))) : Reader (List M) := l.foldr both (pure [])

def repeated (s : Reader (List M)) : Nat → Reader (List M)
  | 0 => pure []
  | n + 1 => both s (repeated s n)

theorem run_both {s t : Reader (List M)} {bs mid rest : List UInt8} {x y : List M}
    (hs : s.run bs = some (x, mid)) (ht : t.run mid = some (y, rest)) :
    (both s t).run bs = some (x ++ y, rest) := by
  rw [both, run_bind hs, run_bind ht]
  rfl

/-- What a successful step leaves is read on from. -/
theorem of_run_bind {r : Reader α} {f : α → Reader β} {bs rest : List UInt8} {b : β}
    (h : (r >>= f).run bs = some (b, rest)) :
    ∃ a mid, r.run bs = some (a, mid) ∧ (f a).run mid = some (b, rest) := by
  rw [StateT.run_bind] at h
  cases hx : r.run bs with
  | none => rw [hx] at h; cases h
  | some x =>
    rw [hx] at h
    exact ⟨x.1, x.2, rfl, h⟩

theorem of_run_map {r : Reader α} {f : α → β} {bs rest : List UInt8} {b : β}
    (h : (f <$> r).run bs = some (b, rest)) : ∃ a, r.run bs = some (a, rest) ∧ b = f a := by
  rw [map_eq_pure_bind] at h
  obtain ⟨a, mid, ha, hb⟩ := of_run_bind h
  cases hb
  exact ⟨a, ha, rfl⟩

theorem of_run_check {b : Bool} {u : Unit} {bs rest : List UInt8}
    (h : (check b).run bs = some (u, rest)) : b = true ∧ bs = rest := by
  rw [run_check] at h
  split at h
  · rename_i hb
    cases h
    exact ⟨hb, rfl⟩
  · cases h

theorem of_run_take {n : Nat} {a bs rest : List UInt8} (h : (take n).run bs = some (a, rest)) :
    bs = a ++ rest ∧ a.length = n := by
  have hrun : (take n).run bs = if n ≤ bs.length then some (bs.take n, bs.drop n) else none := rfl
  rw [hrun] at h
  split at h
  · rename_i hn
    cases h
    exact ⟨(List.take_append_drop n bs).symm, by rw [List.length_take]; omega⟩
  · cases h

theorem run_skip {n : Nat} {a rest : List UInt8} (h : a.length = n) :
    (skip M n).run (a ++ rest) = some ([], rest) := by
  rw [skip, StateT.run_map, run_take_append h]
  rfl

theorem run_note {f : UInt8 → M} (b : UInt8) (rest : List UInt8) :
    (note f).run (b :: rest) = some ([f b], rest) := rfl

/-! ## 2. Surveys -/

variable (good : M → Prop) (value : M → Option N)

/-- The bytes `pre` between `bs` and `rest`, with their marks, against what was `written` there
    and the values meant. -/
structure Survey (bs pre rest : List UInt8) (marks : List M) (written : List UInt8)
    (values : List N) : Prop where
  split : bs = pre ++ rest
  length : pre.length = written.length
  exact : pre = written ↔ ∀ m ∈ marks, good m
  values : marks.filterMap value = values

/-- `r` accepts what `w` writes but for marks that are not good, and `s` passes the same bytes. -/
def Skims (r : Reader α) (s : Reader (List M)) (w : α → List UInt8) (e : α → List N) : Prop :=
  ∀ bs a rest, r.run bs = some (a, rest) → ∃ pre marks,
    s.run bs = some (marks, rest) ∧ Survey good value bs pre rest marks (w a) (e a)

/-- The same of the rest of a reader, when `c` and `v` stand for what came before. -/
def Finishes (r : Reader β) (s : Reader (List M)) (w : β → List UInt8) (e : β → List N)
    (c : List UInt8) (v : List N) : Prop :=
  ∀ bs b rest, r.run bs = some (b, rest) → ∃ pre marks written values,
    s.run bs = some (marks, rest) ∧ w b = c ++ written ∧ e b = v ++ values ∧
      Survey good value bs pre rest marks written values

variable {good value}

theorem Survey.append {bs pre₁ mid pre₂ rest w₁ w₂ : List UInt8} {m₁ m₂ : List M} {v₁ v₂ : List N}
    (h₁ : Survey good value bs pre₁ mid m₁ w₁ v₁)
    (h₂ : Survey good value mid pre₂ rest m₂ w₂ v₂) :
    Survey good value bs (pre₁ ++ pre₂) rest (m₁ ++ m₂) (w₁ ++ w₂) (v₁ ++ v₂) where
  split := by rw [h₁.split, h₂.split, List.append_assoc]
  length := by rw [List.length_append, List.length_append, h₁.length, h₂.length]
  exact := by
    constructor
    · intro h
      obtain ⟨hl, hr⟩ := List.append_inj h h₁.length
      intro m hm
      rcases List.mem_append.mp hm with hm | hm
      · exact h₁.exact.mp hl m hm
      · exact h₂.exact.mp hr m hm
    · intro h
      rw [h₁.exact.mpr fun m hm => h m (List.mem_append_left _ hm),
        h₂.exact.mpr fun m hm => h m (List.mem_append_right _ hm)]
  values := by rw [List.filterMap_append, h₁.values, h₂.values]

/-- Bytes without marks that are what was written. -/
theorem Survey.plain {bs pre rest written : List UInt8} (hs : bs = pre ++ rest)
    (hw : pre = written) : Survey good value bs pre rest [] written [] where
  split := hs
  length := by rw [hw]
  exact := by simp [hw]
  values := rfl

namespace Skims

variable {r : Reader α} {s : Reader (List M)} {w : α → List UInt8} {e : α → List N}

theorem of_finishes (h : Finishes good value r s w e [] []) : Skims good value r s w e := by
  intro bs a rest ha
  obtain ⟨pre, marks, written, values, hs, hw, he, hsurvey⟩ := h bs a rest ha
  rw [List.nil_append] at hw he
  exact ⟨pre, marks, hs, hw ▸ he ▸ hsurvey⟩

/-- A number of `n` bytes that is written back as it was read. -/
theorem number {n : Nat} {f : Nat → α} {w : α → List UInt8}
    (h : ∀ v, v < 256 ^ n → w (f v) = leBytes n v) :
    Skims good value (f <$> readLE n) (skip M n) w (fun _ => ([] : List N)) := by
  intro bs a rest ha
  obtain ⟨v, hv, rfl⟩ := of_run_map ha
  obtain ⟨pre, hpre, rfl⟩ := of_run_map hv
  obtain ⟨hsplit, hlen⟩ := of_run_take hpre
  refine ⟨pre, [], ?_, .plain hsplit ?_⟩
  · rw [hsplit]
    exact run_skip hlen
  · rw [h _ (hlen ▸ leNat_lt pre), ← hlen, leBytes_leNat]

theorem readLE (n : Nat) :
    Skims good value (readLE n) (skip M n) (leBytes n) (fun _ => ([] : List N)) := by
  have h : Skims good value (id <$> Codec.readLE n) (skip M n) (leBytes n)
      (fun _ => ([] : List N)) := number fun v _ => rfl
  rwa [id_map] at h

theorem map {f : α → β} {w' : β → List UInt8} {e' : β → List N} (h : Skims good value r s w e)
    (hw : ∀ a, w' (f a) = w a) (he : ∀ a, e' (f a) = e a) :
    Skims good value (f <$> r) s w' e' := by
  intro bs b rest hb
  obtain ⟨a, ha, rfl⟩ := of_run_map hb
  rw [hw, he]
  exact h bs a rest ha

/-- A value that has to pass a check and is read as another one. -/
theorem decoded {p : α → Bool} {f : α → β} {w' : β → List UInt8} {e' : β → List N}
    (h : Skims good value r s w e) (hw : ∀ a, p a = true → w' (f a) = w a)
    (he : ∀ a, p a = true → e' (f a) = e a) :
    Skims good value (do let a ← r; check (p a); pure (f a)) s w' e' := by
  intro bs b rest hb
  obtain ⟨a, mid, ha, hrest⟩ := of_run_bind hb
  obtain ⟨u, mid', hu, hpure⟩ := of_run_bind hrest
  obtain ⟨hp, rfl⟩ := of_run_check hu
  cases hpure
  rw [hw a hp, he a hp]
  exact h bs _ _ ha

/-- Without marks, what was read is what is written. -/
theorem plain {n : Nat} (h : Skims good value r (skip M n) w e) {bs rest : List UInt8} {a : α}
    (ha : r.run bs = some (a, rest)) : bs = w a ++ rest := by
  obtain ⟨pre, marks, hs, hsurvey⟩ := h bs a rest ha
  obtain ⟨_, _, hmarks⟩ := of_run_map hs
  rw [← hsurvey.exact.mpr (by simp [hmarks]), ← hsurvey.split]

theorem list (h : Skims good value r s w e) : ∀ n, ∀ bs l rest,
    (readList r n).run bs = some (l, rest) → l.length = n ∧ ∃ pre marks,
      (repeated s n).run bs = some (marks, rest) ∧
        Survey good value bs pre rest marks (l.flatMap w) (l.flatMap e)
  | 0, bs, l, rest, hl => by
      cases hl
      exact ⟨rfl, [], [], rfl, .plain rfl rfl⟩
  | n + 1, bs, l, rest, hl => by
      obtain ⟨a, mid, ha, hrest⟩ := of_run_bind hl
      obtain ⟨as, mid', has, hpure⟩ := of_run_bind hrest
      cases hpure
      obtain ⟨pre₁, m₁, hs₁, h₁⟩ := h bs a mid ha
      obtain ⟨hlen, pre₂, m₂, hs₂, h₂⟩ := list h n mid as rest has
      exact ⟨by rw [List.length_cons, hlen], _, _, run_both hs₁ hs₂, h₁.append h₂⟩

end Skims

namespace Finishes

variable {r : Reader α} {f : α → Reader β} {s t : Reader (List M)} {w : α → List UInt8}
  {e : α → List N} {W : β → List UInt8} {E : β → List N} {c : List UInt8} {v : List N}

/-- Read a value and go on. -/
theorem bind (h : Skims good value r s w e)
    (hf : ∀ a, Finishes good value (f a) t W E (c ++ w a) (v ++ e a)) :
    Finishes good value (r >>= f) (both s t) W E c v := by
  intro bs b rest hb
  obtain ⟨a, mid, ha, hrest⟩ := of_run_bind hb
  obtain ⟨pre₁, m₁, hs₁, h₁⟩ := h bs a mid ha
  obtain ⟨pre₂, m₂, written, values, hs₂, hW, hE, h₂⟩ := hf a mid b rest hrest
  exact ⟨_, _, _, _, run_both hs₁ hs₂, by rw [hW, List.append_assoc],
    by rw [hE, List.append_assoc], h₁.append h₂⟩

/-- Check what was read and go on. -/
theorem check {b : Bool} {g : Unit → Reader β} {q : Reader (List M)}
    (h : b = true → Finishes good value (g ()) q W E c v) :
    Finishes good value (check b >>= g) q W E c v := by
  intro bs x rest hx
  obtain ⟨u, mid, hu, hrest⟩ := of_run_bind hx
  obtain ⟨hb, rfl⟩ := of_run_check hu
  exact h hb bs x rest hrest

/-- Nothing more is read. -/
theorem pure {b : β} (hW : W b = c) (hE : E b = v) :
    Finishes good value (Pure.pure b) (inOrder []) W E c v := by
  intro bs x rest hx
  cases hx
  exact ⟨[], [], [], [], rfl, by rw [hW, List.append_nil], by rw [hE, List.append_nil],
    .plain rfl rfl⟩

/-- The last value decides what it is all about. -/
theorem map {g : α → β} (h : Skims good value r s w e) (hW : ∀ a, W (g a) = c ++ w a)
    (hE : ∀ a, E (g a) = v ++ e a) : Finishes good value (g <$> r) s W E c v := by
  intro bs b rest hb
  obtain ⟨a, ha, rfl⟩ := of_run_map hb
  obtain ⟨pre, marks, hs, hsurvey⟩ := h bs a rest ha
  exact ⟨pre, marks, w a, e a, hs, hW a, hE a, hsurvey⟩

end Finishes

end Codec
