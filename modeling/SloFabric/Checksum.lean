/-
  File:      SloFabric/Checksum.lean
  Subject:   The CRC-32 of frames and files: how it is computed, and what it detects.

  * `register`: the register of `crc32` after a string of bytes, with `crc32_register`: it is
    the one of the general check at the polynomial of the source;
  * `crc32Table`, `crc32Seeded`, `crc32Bitwise`: the check by table and bit by bit, with
    `crc32_table_bitwise`: they agree;
  * `register_residue`: after data and its own checksum the register holds a constant;
  * `register_burst`: a burst of at most four bytes changes the register for good;
  * `short_burst_rejected`: so no frame and no file with such a burst is accepted.
-/
import SloFabric.Frame
import SloFabric.Library.Crc

namespace SloFabric

open Codec

/-! ## 1. The register -/

/-- The polynomial of CRC-32, reflected. -/
def crcPolynomial : BitVec 32 := 0xEDB88320

/-- The register `crc32` starts from, and what it adds at the end. -/
def crcMask : BitVec 32 := 0xFFFFFFFF

/-- The register after a string of bytes. -/
def register (data : Bytes) : BitVec 32 := Crc.feed crcPolynomial crcMask data

theorem crcPolynomial_msb : crcPolynomial.msb = true := by decide

theorem low_bit (c : UInt32) : (c &&& 1 = 1) ↔ c.toBitVec.getLsbD 0 = true := by
  have hand : (c &&& 1).toNat = c.toNat % 2 := by
    rw [UInt32.toNat_and]
    exact Nat.and_one_is_mod _
  have hbit : c.toBitVec.getLsbD 0 = decide (c.toNat % 2 = 1) := by
    rw [BitVec.getLsbD, UInt32.toNat_toBitVec, Nat.testBit_zero]
  rw [hbit, decide_eq_true_eq, ← UInt32.toNat_inj, hand]
  rfl

theorem toBitVec_crc32Round (c : UInt32) :
    (crc32Round c).toBitVec = Crc.round crcPolynomial c.toBitVec := by
  unfold crc32Round Crc.round
  by_cases h : c &&& 1 = 1
  · rw [if_pos h, if_pos ((low_bit c).mp h)]
    rfl
  · rw [if_neg h, if_neg (fun hb => h ((low_bit c).mpr hb))]
    rfl

theorem toBitVec_crc32Entry (i : UInt32) :
    (crc32Entry i).toBitVec = (Crc.round crcPolynomial)^[8] i.toBitVec := by
  have hsemi : Function.Semiconj UInt32.toBitVec crc32Round (Crc.round crcPolynomial) :=
    toBitVec_crc32Round
  exact hsemi.iterate_right 8 i

/-- One turn of the loop of `crc32` feeds a byte. -/
theorem toBitVec_crc32_turn (c : UInt32) (b : UInt8) :
    (crc32Entry ((c ^^^ b.toUInt32) &&& 0xFF) ^^^ (c >>> 8)).toBitVec =
      Crc.feedByte crcPolynomial c.toBitVec b := by
  have hx : (c ^^^ b.toUInt32).toBitVec = c.toBitVec ^^^ BitVec.ofNat 32 b.toNat := by
    apply BitVec.eq_of_toNat_eq
    have hb := b.toNat_lt
    rw [UInt32.toNat_toBitVec, UInt32.toNat_xor, BitVec.toNat_xor, BitVec.toNat_ofNat,
      Nat.mod_eq_of_lt (by omega)]
    rfl
  have hlow : ((c ^^^ b.toUInt32) &&& 0xFF).toBitVec =
      BitVec.ofNat 32 ((c.toBitVec ^^^ BitVec.ofNat 32 b.toNat).toNat % 2 ^ 8) := by
    apply BitVec.eq_of_toNat_eq
    rw [← hx, UInt32.toNat_toBitVec, UInt32.toNat_and, BitVec.toNat_ofNat,
      UInt32.toNat_toBitVec, Nat.mod_mod_of_dvd' (by decide)]
    exact Nat.and_two_pow_sub_one_eq_mod _ 8
  have hhigh : (c >>> 8).toBitVec = (c.toBitVec ^^^ BitVec.ofNat 32 b.toNat) >>> 8 := by
    have hb : BitVec.ofNat 32 b.toNat >>> 8 = 0#32 := by
      apply BitVec.eq_of_toNat_eq
      have hlt := b.toNat_lt
      rw [BitVec.toNat_ushiftRight, BitVec.toNat_ofNat, Nat.mod_eq_of_lt (by omega),
        Nat.shiftRight_eq_div_pow, Nat.div_eq_of_lt (by omega)]
      rfl
    rw [BitVec.ushiftRight_xor_distrib, hb, BitVec.xor_zero]
    rfl
  rw [Crc.feedByte, Crc.rounds_table, UInt32.toBitVec_xor, toBitVec_crc32Entry, hlow, hhigh]

/-- The loop of `crc32` feeds the string. -/
theorem toBitVec_crc32_loop : ∀ (data : Bytes) (c : UInt32),
    (data.foldl (fun c b => crc32Entry ((c ^^^ b.toUInt32) &&& 0xFF) ^^^ (c >>> 8)) c).toBitVec =
      Crc.feed crcPolynomial c.toBitVec data
  | [], _ => rfl
  | b :: data, c => by
      rw [List.foldl_cons, toBitVec_crc32_loop data, toBitVec_crc32_turn]
      rfl

/-- **`crc32` is the general check** at the polynomial of the source. -/
theorem crc32_register (data : Bytes) : (crc32 data).toBitVec = register data ^^^ crcMask := by
  unfold crc32
  rw [UInt32.toBitVec_xor, toBitVec_crc32_loop]
  rfl

/-! ## 2. The table -/

/-- The table `crc32_table` fills. -/
def crc32Table : Vector UInt32 256 := Vector.ofFn fun i => crc32Entry (UInt32.ofNat i)

theorem low_octet_lt (c : UInt32) : (c &&& 0xFF).toNat < 256 := by
  rw [UInt32.toNat_and]
  exact Nat.lt_succ_of_le Nat.and_le_right

/-- One turn of the loop of `crc32`, with the entry looked up. -/
def crc32Turn (c : UInt32) (b : UInt8) : UInt32 :=
  crc32Table.get ⟨((c ^^^ b.toUInt32) &&& 0xFF).toNat, low_octet_lt _⟩ ^^^ (c >>> 8)

/-- `crc32` with the seed as an argument. -/
def crc32Seeded (data : Bytes) (seed : UInt32) : UInt32 :=
  data.foldl crc32Turn seed ^^^ 0xFFFFFFFF

/-- The check without a table: the message is shifted in bit by bit, the lowest bit of a byte
    first, and the register is complemented at the end. -/
def crc32Bitwise (data : Bytes) (seed : UInt32) : UInt32 :=
  ~~~⟨Crc.feedBits crcPolynomial seed.toBitVec (data.flatMap Crc.byteBits)⟩

/-- What is looked up is what the table was filled with. -/
theorem crc32Turn_eq (c : UInt32) (b : UInt8) :
    crc32Turn c b = crc32Entry ((c ^^^ b.toUInt32) &&& 0xFF) ^^^ (c >>> 8) := by
  have hlookup (i : Fin 256) : crc32Table.get i = crc32Entry (UInt32.ofNat i) :=
    Vector.getElem_ofFn i.isLt
  rw [crc32Turn, hlookup, UInt32.ofNat_toNat]

theorem toBitVec_crc32Seeded (data : Bytes) (seed : UInt32) :
    (crc32Seeded data seed).toBitVec = ~~~Crc.feed crcPolynomial seed.toBitVec data := by
  have hturn : crc32Turn = fun c b => crc32Entry ((c ^^^ b.toUInt32) &&& 0xFF) ^^^ (c >>> 8) :=
    funext fun c => funext fun b => crc32Turn_eq c b
  unfold crc32Seeded
  rw [hturn, UInt32.toBitVec_xor, toBitVec_crc32_loop]
  exact BitVec.xor_allOnes

/-- **The table computes the check bit by bit**, from any seed; it goes on from the complement of
    what it answered; and from the seed of the source it is the checksum of frames and files. -/
theorem crc32_table_bitwise :
    (∀ data seed, crc32Seeded data seed = crc32Bitwise data seed) ∧
      (∀ x y seed, crc32Seeded (x ++ y) seed = crc32Seeded y (~~~crc32Seeded x seed)) ∧
      ∀ data, crc32Seeded data 0xFFFFFFFF = crc32 data := by
  refine ⟨fun data seed => ?_, fun x y seed => ?_, fun data => ?_⟩
  · apply UInt32.toBitVec_inj.mp
    rw [toBitVec_crc32Seeded, ← Crc.feedBits_bytes (by decide)]
    rfl
  · apply UInt32.toBitVec_inj.mp
    rw [toBitVec_crc32Seeded, toBitVec_crc32Seeded, UInt32.toBitVec_not, toBitVec_crc32Seeded,
      BitVec.not_not, Crc.feed_append]
  · apply UInt32.toBitVec_inj.mp
    rw [toBitVec_crc32Seeded, crc32_register]
    exact BitVec.xor_allOnes.symm

example : crc32Bitwise (ascii "123456789") 0xFFFFFFFF = 0xCBF43926 := by decide +kernel

/-! ## 3. Bursts -/

/-- `b'` is `b` with other bytes at up to four consecutive positions. -/
def Burst (b b' : Bytes) : Prop :=
  ∃ a x y c, b = a ++ x ++ c ∧ b' = a ++ y ++ c ∧ x.length = y.length ∧ x.length ≤ 4 ∧ x ≠ y

/-- What the register holds after data and its checksum. -/
def residue : BitVec 32 := (Crc.round crcPolynomial)^[32] crcMask

/-- **After data and its own checksum the register holds a constant.** -/
theorem register_residue (data : Bytes) :
    register (data ++ writeU32 (crc32 data)) = residue := by
  have hown : leNat (writeU32 (crc32 data)) = (register data ^^^ crcMask).toNat := by
    rw [leNat_writeU32, ← crc32_register, UInt32.toNat_toBitVec]
  have hfit : 8 * (writeU32 (crc32 data)).length ≤ 32 := by rw [length_writeU32]
  unfold register
  rw [Crc.feed_append]
  exact Crc.feed_own hfit hown

/-- **A burst changes the register for good.** -/
theorem register_burst {b b' : Bytes} (h : Burst b b') : register b ≠ register b' := by
  obtain ⟨a, x, y, c, rfl, rfl, hlen, hfour, hne⟩ := h
  intro heq
  unfold register at heq
  simp only [Crc.feed_append] at heq
  have hburst := Crc.feed_injective crcPolynomial_msb c heq
  exact Crc.feed_burst crcPolynomial_msb _ hlen (by omega) hne hburst

/-- An accepted frame ends in its checksum. -/
theorem register_frame {b : Bytes} {f : Frame} (h : decodeFrame b = .ok f) :
    register b = residue := by
  rw [(decodeFrame_ok.mp h).2]
  exact register_residue _

section File

variable {R : Type} [Pod R] [Double R]

/-- An accepted file ends in its checksum. -/
theorem register_file {b : Bytes} {st : DurableState R} (h : loadState R (some b) = .ok st) :
    register b = residue := by
  simp only [loadState, ne_eq, ite_not] at h
  split at h
  · cases h
  · rename_i hshort
    split at h
    · cases h
    · split at h
      · rename_i hcrc
        have hlen : (b.drop (b.length - 4)).length = 4 := by rw [List.length_drop]; omega
        have hfoot := writeU32_of_leNat hlen hcrc
        rw [← List.take_append_drop (b.length - 4) b, hfoot]
        simpa using register_residue (b.take (b.length - 4))
      · cases h

/-- **The checksum catches every short burst**, in a frame and in a saved file, wherever it
    lies. -/
theorem short_burst_rejected :
    (∀ (f : Frame) (b : Bytes), f.payload.length ≤ kMaxFramePayload → Burst (encodeFrame f) b →
      ∃ e, decodeFrame b = .error e) ∧
    ∀ (state : DurableState R) (b : Bytes), Burst (saveState state) b →
      ∃ e, loadState R (some b) = .error e := by
  constructor
  · intro f b _ hburst
    cases h : decodeFrame b with
    | error e => exact ⟨e, rfl⟩
    | ok g =>
      have hkept : register (encodeFrame f) = register b :=
        (register_residue _).trans (register_frame h).symm
      exact (register_burst hburst hkept).elim
  · intro state b hburst
    cases h : loadState R (some b) with
    | error e => exact ⟨e, rfl⟩
    | ok st =>
      have hkept : register (saveState state) = register b :=
        (register_residue _).trans (register_file h).symm
      exact (register_burst hburst hkept).elim

end File

/-- A frame with a byte of its length and one of its payload changed, and the file of a fresh
    state with its last byte and most of its checksum overwritten. -/
theorem short_burst_rejected_small :
    let file : DurableState Binary64 := { epoch := ⟨7⟩, policies := [], contracts := []
                                          objectiveStates := [], enforcementHistory := []
                                          evaluationHistory := [] }
    (∃ e, decodeFrame ((encodeFrame { payload := [5] }).take 9 ++ [1, 6] ++
      (encodeFrame { payload := [5] }).drop 11) = .error e) ∧
    ∃ e, loadState Binary64 (some ((saveState file).take 55 ++ [1, 2, 3, 4] ++
      (saveState file).drop 59)) = .error e := by
  intro file
  refine ⟨(short_burst_rejected (R := Binary64)).1 { payload := [5] } _ (by decide)
      ⟨_, [0, 5], _, _, ?_, rfl, rfl, by decide, by decide⟩,
    short_burst_rejected.2 file _
      ⟨_, ((saveState file).drop 55).take 4, _, _, ?_, rfl, ?_, ?_, ?_⟩⟩ <;> decide +kernel

end SloFabric
