/-
  File:      SloFabric/Library/PrefixCode.lean
  Subject:   Streams of a prefix code.

  * `PrefixCode enc P`: among the values that meet `P`, no encoding is the beginning of another
    one's, and different values have different encodings;
  * `Torn enc P tail`: no encoding stands at the front of `tail`, as where a stream was cut off in
    the middle of one (`PrefixCode.torn_take`);
  * `PrefixCode.stream`: what can be taken off the front of a stream, encoding by encoding, are the
    values it was made from, in their order, and nothing behind the cut.
-/
import Mathlib.Data.List.Basic

variable {α β : Type} {enc : α → List β} {P : α → Prop}

def PrefixCode (enc : α → List β) (P : α → Prop) : Prop :=
  ∀ a b, P a → P b → enc a <+: enc b → a = b

/-- No encoding stands at the front of `tail`. -/
def Torn (enc : α → List β) (P : α → Prop) (tail : List β) : Prop :=
  ∀ a, P a → ¬enc a <+: tail

/-- A true part of an encoding is torn. -/
theorem PrefixCode.torn_take (hcode : PrefixCode enc P) {a : α} {k : Nat} (ha : P a)
    (hk : k < (enc a).length) : Torn enc P ((enc a).take k) := by
  intro b hb hpre
  have hab : b = a := hcode b a hb ha (hpre.trans (List.take_prefix k _))
  have hlen := hpre.length_le
  rw [hab, List.length_take] at hlen
  omega

/-- **What can be taken off a stream** is a part of what it was made from. -/
theorem PrefixCode.stream (hcode : PrefixCode enc P) {tail : List β} (htail : Torn enc P tail) :
    ∀ xs ys : List α, (∀ x ∈ xs, P x) → (∀ y ∈ ys, P y) →
      xs.flatMap enc <+: ys.flatMap enc ++ tail → xs <+: ys
  | [], ys, _, _, _ => List.nil_prefix
  | x :: xs, [], hx, _, h => by
      rw [List.flatMap_cons] at h
      exact absurd ((List.prefix_append _ _).trans h) (htail x (hx x List.mem_cons_self))
  | x :: xs, y :: ys, hx, hy, h => by
      rw [List.flatMap_cons, List.flatMap_cons, List.append_assoc] at h
      have hPx := hx x List.mem_cons_self
      have hPy := hy y List.mem_cons_self
      have hxy : x = y := by
        have hleft := (List.prefix_append (enc x) (xs.flatMap enc)).trans h
        rcases List.prefix_or_prefix_of_prefix hleft (List.prefix_append _ _) with hpre | hpre
        · exact hcode x y hPx hPy hpre
        · exact (hcode y x hPy hPx hpre).symm
      rw [hxy, List.prefix_append_right_inj] at h
      rw [hxy, List.cons_prefix_cons]
      exact ⟨rfl, stream hcode htail xs ys (fun a ha => hx a (List.mem_cons_of_mem _ ha))
        (fun a ha => hy a (List.mem_cons_of_mem _ ha)) h⟩
