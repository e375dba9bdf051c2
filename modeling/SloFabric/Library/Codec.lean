/-
  File:      SloFabric/Library/Codec.lean
  Subject:   Byte strings: little-endian numbers, readers, and readers that undo a writer.

  * `leBytes`, `leNat`: the `n` low bytes of a number, least significant first, and back;
  * `ascii`, `decimal`: text as bytes, with `decimal_inj`: another number has other digits;
  * `Reader`: a parser that takes bytes off the front of its input or fails;
  * `take`, `readLE`, `readList`: the readers everything else is built from;
  * `ByteEnum`: an enumeration stored as one byte, with its reader and writer;
  * `Decodes cap r w P`: on what `w` writes (up to `cap` bytes), `r` answers the value it was
    written from when the value meets `P` and fails when it does not. Reader and writer agree
    AND the reader's checks are exactly `P`; `Decodes.list` carries that over to lists;
  * `Ensures r P`: whatever the input, what `r` reads meets `P`;
  * `Extends r`: `r` looks at nothing behind what it takes;
  * `Inverts r w P`: `r` reads exactly what `w` writes for the values that meet `P`; with
    `Inverts.bind_iff` a record is taken apart field by field.
-/
import Mathlib.Algebra.Group.Nat.Defs
import Mathlib.Data.List.Basic

namespace Codec

/-! ## 1. Little-endian numbers -/

/-- The `n` low bytes of `v`, least significant first: byte `i` is `(v >> 8 i) & 0xFF`. -/
def leBytes : Nat → Nat → List UInt8
  | 0, _ => []
  | n + 1, v => UInt8.ofNat v :: leBytes n (v / 256)

/-- The number a little-endian byte string denotes. -/
def leNat : List UInt8 → Nat
  | [] => 0
  | b :: bs => b.toNat + 256 * leNat bs

@[simp] theorem leBytes_length : ∀ (n v : Nat), (leBytes n v).length = n
  | 0, _ => rfl
  | n + 1, v => by simp [leBytes, leBytes_length n]

theorem leNat_leBytes : ∀ (n v : Nat), leNat (leBytes n v) = v % 256 ^ n
  | 0, v => by simp [leBytes, leNat, Nat.mod_one]
  | n + 1, v => by
      have hb : (UInt8.ofNat v).toNat = v % 256 := by simp
      rw [leBytes, leNat, leNat_leBytes n, hb, Nat.pow_succ', Nat.mod_mul]

theorem leNat_lt : ∀ bs : List UInt8, leNat bs < 256 ^ bs.length
  | [] => by decide
  | b :: bs => by
      have hb := b.toNat_lt
      have ih := leNat_lt bs
      rw [leNat, List.length_cons, Nat.pow_succ']
      omega

/-- A byte string is the encoding of its number. -/
theorem leBytes_leNat : ∀ bs : List UInt8, leBytes bs.length (leNat bs) = bs
  | [] => rfl
  | b :: bs => by
      have hb := b.toNat_lt
      have hlow : UInt8.ofNat (b.toNat + 256 * leNat bs) = b := by
        apply UInt8.toNat_inj.mp
        rw [UInt8.toNat_ofNat']
        omega
      have hhigh : (b.toNat + 256 * leNat bs) / 256 = leNat bs := by omega
      rw [List.length_cons, leNat, leBytes, hlow, hhigh, leBytes_leNat bs]

theorem leNat_inj {a b : List UInt8} (hlen : a.length = b.length) (h : leNat a = leNat b) :
    a = b := by
  rw [← leBytes_leNat a, ← leBytes_leNat b, hlen, h]

/-- Byte `i` of the encoding is the `i`th byte of the number. -/
theorem leBytes_getElem : ∀ (n v i : Nat) (h : i < (leBytes n v).length),
    (leBytes n v)[i] = UInt8.ofNat (v / 256 ^ i)
  | 0, _, _, h => by simp [leBytes] at h
  | n + 1, v, 0, _ => by simp [leBytes]
  | n + 1, v, i + 1, h => by
      simp only [leBytes, List.getElem_cons_succ]
      rw [leBytes_getElem n (v / 256) i (by simpa [leBytes] using h), Nat.div_div_eq_div_mul,
        Nat.pow_succ']

/-! ## 2. Text -/

/-- The bytes of an ASCII text. -/
def ascii (s : String) : List UInt8 := s.toList.map fun c => UInt8.ofNat c.toNat

/-- The decimal digits of a number. -/
def decimal (n : Nat) : List UInt8 := (Nat.toDigits 10 n).map fun c => UInt8.ofNat c.toNat

/-- The byte of a digit. -/
theorem digit_byte : ∀ d < 10, UInt8.ofNat d.digitChar.toNat = UInt8.ofNat (48 + d) := by
  decide

theorem decimal_of_lt {n : Nat} (h : n < 10) : decimal n = [UInt8.ofNat (48 + n)] := by
  rw [decimal, Nat.toDigits_of_lt_base h, List.map_singleton, digit_byte n h]

theorem decimal_of_le {n : Nat} (h : 10 ≤ n) :
    decimal n = decimal (n / 10) ++ [UInt8.ofNat (48 + n % 10)] := by
  rw [decimal, Nat.toDigits_of_base_le (by omega) h, List.map_append, List.map_singleton,
    digit_byte _ (Nat.mod_lt n (by omega))]
  rfl

theorem decimal_ne_nil (n : Nat) : decimal n ≠ [] := by
  simp [decimal]

/-- Only digits occur. -/
theorem digit_of_mem_decimal {b : UInt8} : ∀ {n : Nat}, b ∈ decimal n → 48 ≤ b ∧ b ≤ 57 := by
  intro n
  induction n using Nat.strongRecOn with
  | ind n ih =>
    have hdigit : ∀ d < 10, 48 ≤ UInt8.ofNat (48 + d) ∧ UInt8.ofNat (48 + d) ≤ 57 := by decide
    intro h
    by_cases hlt : n < 10
    · rw [decimal_of_lt hlt, List.mem_singleton] at h
      rw [h]
      exact hdigit n hlt
    · rw [decimal_of_le (Nat.not_lt.mp hlt), List.mem_append, List.mem_singleton] at h
      rcases h with h | rfl
      · exact ih (n / 10) (by omega) h
      · exact hdigit _ (Nat.mod_lt n (by omega))

/-- **Another number has other digits.** -/
theorem decimal_inj : ∀ {n m : Nat}, decimal n = decimal m → n = m := by
  have hdigit : ∀ d < 10, ∀ e < 10, UInt8.ofNat (48 + d) = UInt8.ofNat (48 + e) → d = e := by
    decide
  intro n
  induction n using Nat.strongRecOn with
  | ind n ih =>
    intro m h
    -- a number of several digits has one in front of the last
    have hlong {k j : Nat} (hk : k < 10) (hj : 10 ≤ j) : decimal k ≠ decimal j := by
      intro h
      rw [decimal_of_lt hk, decimal_of_le hj] at h
      have hlen := congrArg List.length h
      rw [List.length_append] at hlen
      have hpos := List.length_pos_iff.mpr (decimal_ne_nil (j / 10))
      simp only [List.length_singleton] at hlen
      omega
    by_cases hn : n < 10 <;> by_cases hm : m < 10
    · rw [decimal_of_lt hn, decimal_of_lt hm] at h
      exact hdigit n hn m hm (List.cons.inj h).1
    · exact absurd h (hlong hn (Nat.not_lt.mp hm))
    · exact absurd h.symm (hlong hm (Nat.not_lt.mp hn))
    · rw [decimal_of_le (Nat.not_lt.mp hn), decimal_of_le (Nat.not_lt.mp hm)] at h
      obtain ⟨hfront, hlast⟩ := List.append_inj' h rfl
      have hdiv := ih (n / 10) (by omega) hfront
      have hmod := hdigit _ (Nat.mod_lt n (by omega)) _ (Nat.mod_lt m (by omega))
        (List.cons.inj hlast).1
      omega
/-! ## 3. Readers -/

/-- A reader takes bytes off the front of its input, or fails. -/
abbrev Reader (α : Type) := StateT (List UInt8) Option α

variable {α β : Type}

/-- The next `n` bytes, when so many remain. -/
def take (n : Nat) : Reader (List UInt8) := fun bs =>
  if n ≤ bs.length then some (bs.take n, bs.drop n) else none

/-- A little-endian number of `n` bytes. -/
def readLE (n : Nat) : Reader Nat := leNat <$> take n

/-- `n` values in a row. -/
def readList (r : Reader α) : Nat → Reader (List α)
  | 0 => pure []
  | n + 1 => do
    let a ← r
    let as ← readList r n
    pure (a :: as)

/-- Fail unless `b`. -/
def check (b : Bool) : Reader Unit := if b then pure () else failure

@[simp] theorem run_check (b : Bool) (bs : List UInt8) :
    (check b).run bs = if b then some ((), bs) else none := by
  cases b <;> rfl

theorem run_take_append {n : Nat} {a : List UInt8} (h : a.length = n) (rest : List UInt8) :
    (take n).run (a ++ rest) = some (a, rest) := by
  subst h
  simp [take, StateT.run]

theorem run_readLE_append (n v : Nat) (rest : List UInt8) :
    (readLE n).run (leBytes n v ++ rest) = some (v % 256 ^ n, rest) := by
  simp [readLE, run_take_append, leNat_leBytes]

/-- Read on after a value. -/
theorem run_bind {r : Reader α} {f : α → Reader β} {bs rest : List UInt8} {a : α}
    (h : r.run bs = some (a, rest)) : (r >>= f).run bs = (f a).run rest := by
  rw [StateT.run_bind, h]
  rfl

/-- Read on after a value that had to pass a check. -/
theorem run_bind_ite {r : Reader α} {f : α → Reader β} {bs rest : List UInt8} {a : α} {b : Bool}
    (h : r.run bs = if b then some (a, rest) else none) :
    (r >>= f).run bs = if b then (f a).run rest else none := by
  rw [StateT.run_bind, h]
  cases b <;> rfl

/-! ## 4. Enumerations stored as one byte -/

/-- An enumeration with the byte of each enumerator; `last` is the greatest byte a reader lets
    through. -/
class ByteEnum (E : Type) where
  code : E → Nat
  ofCode : Nat → E
  last : Nat
  code_le : ∀ e, code e ≤ last
  last_lt : last < 256
  ofCode_code : ∀ e, ofCode (code e) = e

variable {E : Type} [ByteEnum E]

def writeEnum (e : E) : List UInt8 := [UInt8.ofNat (ByteEnum.code e)]

def readEnum (E : Type) [ByteEnum E] : Reader E := do
  let b ← readLE 1
  check (b ≤ ByteEnum.last E)
  pure (ByteEnum.ofCode b)

@[simp] theorem writeEnum_length (e : E) : (writeEnum e).length = 1 := rfl

@[simp] theorem run_readEnum (e : E) (rest : List UInt8) :
    (readEnum E).run (writeEnum e ++ rest) = some (e, rest) := by
  have hle := ByteEnum.code_le e
  have hlt := ByteEnum.last_lt (E := E)
  have hw : writeEnum e = leBytes 1 (ByteEnum.code e) := rfl
  rw [hw, readEnum, StateT.run_bind, run_readLE_append]
  rw [Nat.mod_eq_of_lt (by omega)]
  simp [hle, ByteEnum.ofCode_code]

/-! ## 5. Readers that undo a writer -/

/-- On what `w` writes, `r` gives the value back when it meets `P`, and fails when not. -/
def Decodes (cap : Nat) (r : Reader α) (w : α → List UInt8) (P : α → Bool) : Prop :=
  ∀ a rest, (w a).length ≤ cap → r.run (w a ++ rest) = if P a then some (a, rest) else none

/-- Where every value takes at least one byte, a list is no longer than its encoding. -/
theorem length_le_length_flatMap {w : α → List UInt8} (hw : ∀ a, 0 < (w a).length) :
    ∀ l : List α, l.length ≤ (l.flatMap w).length
  | [] => Nat.le_refl 0
  | a :: l => by
      have := hw a
      have := length_le_length_flatMap hw l
      rw [List.flatMap_cons, List.length_append, List.length_cons]
      omega

/-- **Lists**: a reader that undoes a writer on one value undoes it on a list of known length. -/
theorem Decodes.list {cap : Nat} {r : Reader α} {w : α → List UInt8} {P : α → Bool}
    (h : Decodes cap r w P) : ∀ (l : List α) (rest : List UInt8), (l.flatMap w).length ≤ cap →
    (readList r l.length).run (l.flatMap w ++ rest) = if l.all P then some (l, rest) else none
  | [], rest, _ => rfl
  | a :: l, rest, hl => by
      rw [List.flatMap_cons, List.length_append] at hl
      have ha := h a (l.flatMap w ++ rest) (by omega)
      have ih := Decodes.list h l rest (by omega)
      rw [List.flatMap_cons, List.append_assoc]
      simp only [List.length_cons, readList, StateT.run_bind, ha, List.all_cons]
      by_cases hp : P a = true
      · by_cases hps : l.all P = true
        · simp [hp, hps, ih]
        · simp [hp, hps, ih]
      · simp [hp]

/-! ## 6. What a reader lets through -/

/-- Whatever `r` reads meets `P`. -/
def Ensures (r : Reader α) (P : α → Prop) : Prop :=
  ∀ bs a rest, r.run bs = some (a, rest) → P a

namespace Ensures

variable {r : Reader α} {f : α → Reader β} {P : β → Prop} {Q : α → Prop}

theorem bind (hr : Ensures r Q) (hf : ∀ a, Q a → Ensures (f a) P) : Ensures (r >>= f) P := by
  intro bs b rest h
  rw [StateT.run_bind] at h
  cases hx : r.run bs with
  | none => rw [hx] at h; cases h
  | some x =>
    rw [hx] at h
    exact hf x.1 (hr bs x.1 x.2 hx) x.2 b rest h

/-- A value nothing is said about. -/
theorem next (hf : ∀ a, Ensures (f a) P) : Ensures (r >>= f) P :=
  bind (Q := fun _ => True) (fun _ _ _ _ => trivial) fun a _ => hf a

theorem pure {a : α} (h : Q a) : Ensures (Pure.pure a) Q := by
  intro bs b rest hb
  cases hb
  exact h

theorem map {g : α → β} (hr : Ensures r Q) (hg : ∀ a, Q a → P (g a)) : Ensures (g <$> r) P := by
  rw [map_eq_pure_bind]
  exact hr.bind fun a ha => pure (hg a ha)

theorem check (b : Bool) : Ensures (check b) fun _ => b = true := by
  intro bs a rest h
  rw [run_check] at h
  cases b with
  | true => rfl
  | false => cases h

theorem list (hr : Ensures r Q) : ∀ n, Ensures (readList r n) fun l =>
    l.length = n ∧ ∀ a ∈ l, Q a
  | 0 => pure ⟨rfl, by simp⟩
  | n + 1 => by
      refine hr.bind fun a ha => (list hr n).bind fun l hl => pure ⟨?_, ?_⟩
      · rw [List.length_cons, hl.1]
      · simpa using ⟨ha, hl.2⟩

end Ensures

/-! ## 7. Readers that look no further -/

/-- More input changes neither what `r` reads nor what it leaves of the input it had. -/
def Extends (r : Reader α) : Prop :=
  ∀ bs a rest more, r.run bs = some (a, rest) → r.run (bs ++ more) = some (a, rest ++ more)

namespace Extends

variable {r : Reader α} {f : α → Reader β}

theorem bind (hr : Extends r) (hf : ∀ a, Extends (f a)) : Extends (r >>= f) := by
  intro bs b rest more h
  rw [StateT.run_bind] at h
  cases hx : r.run bs with
  | none => rw [hx] at h; cases h
  | some x =>
    rw [hx] at h
    rw [run_bind (hr bs x.1 x.2 more hx)]
    exact hf x.1 x.2 b rest more h

theorem pure (a : α) : Extends (Pure.pure a) := by
  intro bs b rest more h
  cases h
  rfl

theorem map (g : α → β) (hr : Extends r) : Extends (g <$> r) := by
  rw [map_eq_pure_bind]
  exact hr.bind fun _ => pure _

theorem failure : Extends (failure : Reader α) := by
  intro bs a rest more h
  cases h

theorem check (b : Bool) : Extends (check b) := by
  cases b with
  | true => exact pure ()
  | false => exact failure

theorem take (n : Nat) : Extends (take n) := by
  intro bs a rest more h
  have hrun (l : List UInt8) : (Codec.take n).run l =
      if n ≤ l.length then some (l.take n, l.drop n) else none := rfl
  rw [hrun] at h ⊢
  split at h
  · rename_i hn
    cases h
    rw [if_pos (by rw [List.length_append]; omega), List.take_append_of_le_length hn,
      List.drop_append_of_le_length hn]
  · cases h

theorem readLE (n : Nat) : Extends (readLE n) := (take n).map _

theorem list (hr : Extends r) : ∀ n, Extends (readList r n)
  | 0 => pure []
  | n + 1 => hr.bind fun _ => (list hr n).bind fun _ => pure _

theorem enum : Extends (readEnum E) := (readLE 1).bind fun _ => (check _).bind fun _ => pure _

end Extends

/-! ## 8. Readers with an exact inverse -/

/-- `r` reads exactly what `w` writes for the values that meet `P`, whatever follows. -/
def Inverts (r : Reader α) (w : α → List UInt8) (P : α → Prop) : Prop :=
  ∀ bs a rest, r.run bs = some (a, rest) ↔ bs = w a ++ rest ∧ P a

namespace Inverts

variable {r : Reader α} {w : α → List UInt8} {P : α → Prop}

/-- **Field by field**: what a record is read from begins with its first field. -/
theorem bind_iff (h : Inverts r w P) {f : α → Reader β} {bs rest : List UInt8} {b : β} :
    (r >>= f).run bs = some (b, rest) ↔
      ∃ a bs', (bs = w a ++ bs' ∧ P a) ∧ (f a).run bs' = some (b, rest) := by
  rw [StateT.run_bind]
  constructor
  · intro hrun
    obtain ⟨x, hx, hf⟩ := Option.bind_eq_some_iff.mp hrun
    exact ⟨x.1, x.2, (h bs x.1 x.2).mp hx, hf⟩
  · rintro ⟨a, bs', ha, hf⟩
    rw [(h bs a bs').mpr ha]
    exact hf

/-- The value read under another name. -/
theorem map (h : Inverts r w P) (g : α → β) (g' : β → α) (hg : ∀ a, P a → g' (g a) = a)
    (hg' : ∀ b, g (g' b) = b) : Inverts (g <$> r) (fun b => w (g' b)) fun b => P (g' b) := by
  intro bs b rest
  rw [map_eq_pure_bind, h.bind_iff]
  constructor
  · rintro ⟨a, bs', ⟨hbs, ha⟩, hrun⟩
    cases hrun
    simp only [hg a ha]
    exact ⟨hbs, ha⟩
  · rintro ⟨hbs, hb⟩
    refine ⟨g' b, rest, ⟨hbs, hb⟩, ?_⟩
    rw [hg' b]
    rfl

theorem congr {w' : α → List UInt8} {Q : α → Prop} (h : Inverts r w P) (hw : ∀ a, w a = w' a)
    (hPQ : ∀ a, P a ↔ Q a) : Inverts r w' Q := by
  intro bs a rest
  rw [h bs a rest, hPQ a, hw a]

theorem take (n : Nat) : Inverts (take n) (fun bs => bs) fun bs => bs.length = n := by
  intro bs a rest
  constructor
  · intro h
    rw [show (Codec.take n).run bs = if n ≤ bs.length then some (bs.take n, bs.drop n) else none
      from rfl] at h
    split at h
    · rename_i hn
      cases h
      exact ⟨(List.take_append_drop n bs).symm, List.length_take_of_le hn⟩
    · cases h
  · rintro ⟨rfl, ha⟩
    exact run_take_append ha rest

theorem readLE (n : Nat) : Inverts (readLE n) (leBytes n) fun v => v < 256 ^ n := by
  intro bs v rest
  constructor
  · intro h
    rw [Codec.readLE, map_eq_pure_bind] at h
    obtain ⟨a, bs', ⟨hbs, ha⟩, hrun⟩ := (take n).bind_iff.mp h
    cases hrun
    have hlt := leNat_lt a
    rw [ha] at hlt
    refine ⟨?_, hlt⟩
    rw [← ha, leBytes_leNat]
    exact hbs
  · rintro ⟨rfl, hv⟩
    rw [run_readLE_append, Nat.mod_eq_of_lt hv]

end Inverts

end Codec
