/-
  File:      SloFabric/Frame.lean
  Subject:   The frames of the TCP protocol: their encoding and the decoder of a whole buffer.

  * `encodeFrame`, `decodeFrame`;
  * `decodeFrame_parts`: the decoder on a header and what follows it;
  * `decodeFrame_ok`: what it accepts are the encodings of the frames within the payload bound,
    each with its own frame; round trip, canonicity and the length checks are corollaries.
-/
import SloFabric.Persistence
import Mathlib.Data.List.GetD

namespace SloFabric

open Codec

/-! ## 1. The format -/

def protocolError (m : String) : Status := ⟨.protocolError, m⟩

/-- An enumeration over a byte. A cast keeps any byte, a declared enumerator or not. -/
structure FrameKind where
  byte : UInt8
  deriving DecidableEq, Repr

def FrameKind.unknown : FrameKind := ⟨255⟩

def kFrameMagic : UInt32 := 0x534C4631

/-- 4 MiB. -/
def kMaxFramePayload : Nat := 4 * 1024 * 1024

structure Frame where
  kind : FrameKind := .unknown
  flags : UInt8 := 0
  payload : Bytes := []
  deriving DecidableEq

/-- The part of a frame under its checksum: magic, kind, flags, length, payload. -/
def frameBody (f : Frame) : Bytes :=
  writeU32 kFrameMagic ++
    f.kind.byte :: f.flags :: (writeU32 (UInt32.ofNat f.payload.length) ++ f.payload)

def encodeFrame (f : Frame) : Bytes := frameBody f ++ writeU32 (crc32 (frameBody f))

/-- `decode_frame`, on data that is there. -/
def decodeFrame (data : Bytes) : Except Status Frame :=
  if data.length < 14 then .error (persistenceCorrupt "frame too short")
  else if leNat (data.take 4) ≠ kFrameMagic.toNat then .error (protocolError "bad frame magic")
  else
    let len := leNat ((data.drop 6).take 4)
    if kMaxFramePayload < len then .error (protocolError "oversized frame")
    else
      let total := 10 + len + 4
      if data.length < total then .error (protocolError "truncated frame")
      else if total < data.length then .error (protocolError "trailing garbage")
      else
        let stored := leNat (data.drop (10 + len))
        let computed := crc32 (data.take (10 + len))
        if computed.toNat ≠ stored then .error (protocolError "frame checksum mismatch")
        else
          .ok { kind := ⟨data.getD 4 0⟩, flags := data.getD 5 0
                payload := (data.drop 10).take len }

/-! ## 2. What the decoder accepts -/

/-- Ten bytes are a header. -/
theorem header_split {hdr : Bytes} (h : hdr.length = 10) :
    ∃ m k fl l, hdr = m ++ k :: fl :: l ∧ m.length = 4 ∧ l.length = 4 := by
  refine ⟨hdr.take 4, hdr.getD 4 0, hdr.getD 5 0, hdr.drop 6, ?_, ?_, ?_⟩
  · have h₄ : 4 < hdr.length := by omega
    have h₅ : 5 < hdr.length := by omega
    rw [List.getD_eq_getElem _ _ h₄, List.getD_eq_getElem _ _ h₅,
      ← List.drop_eq_getElem_cons h₅, ← List.drop_eq_getElem_cons h₄, List.take_append_drop]
  · rw [List.length_take]; omega
  · rw [List.length_drop]; omega

section Parts

variable {m l rest : Bytes} {k fl : UInt8} (hm : m.length = 4) (hl : l.length = 4)

include hm

theorem parts_magic : (m ++ k :: fl :: (l ++ rest)).take 4 = m := by
  rw [← hm, List.take_left]

theorem parts_kind : (m ++ k :: fl :: (l ++ rest)).getD 4 0 = k := by
  rw [← hm, List.getD_append_right _ _ _ _ (Nat.le_refl _), Nat.sub_self]
  rfl

theorem parts_flags : (m ++ k :: fl :: (l ++ rest)).getD 5 0 = fl := by
  have h₅ : 5 = m.length + 1 := by omega
  rw [h₅, List.getD_append_right _ _ _ _ (Nat.le_add_right _ 1),
    Nat.add_sub_cancel_left]
  rfl

include hl

theorem parts_length : ((m ++ k :: fl :: (l ++ rest)).drop 6).take 4 = l := by
  have h₆ : 6 = m.length + 2 := by omega
  rw [h₆, List.drop_length_add_append, List.drop_succ_cons, List.drop_succ_cons, List.drop_zero,
    ← hl, List.take_left]

theorem parts_drop (n : Nat) : (m ++ k :: fl :: (l ++ rest)).drop (10 + n) = rest.drop n := by
  have h₁ : 10 + n = m.length + (n + 6) := by omega
  have h₂ : n + 4 = l.length + n := by omega
  rw [h₁, List.drop_length_add_append, List.drop_succ_cons, List.drop_succ_cons, h₂,
    List.drop_length_add_append]

theorem parts_take (n : Nat) : (m ++ k :: fl :: (l ++ rest)).take (10 + n) =
    m ++ k :: fl :: (l ++ rest.take n) := by
  have h₁ : 10 + n = m.length + (n + 6) := by omega
  have h₂ : n + 4 = l.length + n := by omega
  rw [h₁, List.take_length_add_append, List.take_succ_cons, List.take_succ_cons, h₂,
    List.take_length_add_append]

/-- **The decoder on a header and what follows it.** -/
theorem decodeFrame_parts : decodeFrame (m ++ k :: fl :: (l ++ rest)) =
    if rest.length < 4 then .error (persistenceCorrupt "frame too short")
    else if leNat m ≠ kFrameMagic.toNat then .error (protocolError "bad frame magic")
    else if kMaxFramePayload < leNat l then .error (protocolError "oversized frame")
    else if rest.length < leNat l + 4 then .error (protocolError "truncated frame")
    else if leNat l + 4 < rest.length then .error (protocolError "trailing garbage")
    else if (crc32 (m ++ k :: fl :: (l ++ rest.take (leNat l)))).toNat ≠
      leNat (rest.drop (leNat l)) then .error (protocolError "frame checksum mismatch")
    else .ok { kind := ⟨k⟩, flags := fl, payload := rest.take (leNat l) } := by
  have hlen : (m ++ k :: fl :: (l ++ rest)).length = rest.length + 10 := by
    simp only [List.length_append, List.length_cons, hm, hl]
    omega
  have h₁ : (rest.length + 10 < 14) = (rest.length < 4) := by
    rw [eq_iff_iff]; omega
  have h₂ : (rest.length + 10 < 10 + leNat l + 4) = (rest.length < leNat l + 4) := by
    rw [eq_iff_iff]; omega
  have h₃ : (10 + leNat l + 4 < rest.length + 10) = (leNat l + 4 < rest.length) := by
    rw [eq_iff_iff]; omega
  have hpayload : (m ++ k :: fl :: (l ++ rest)).drop 10 = rest := parts_drop hm hl 0
  simp only [decodeFrame, hlen, parts_magic hm, parts_kind hm, parts_flags hm,
    parts_length hm hl, parts_drop hm hl, parts_take hm hl, hpayload, h₁, h₂, h₃]

end Parts

theorem leNat_writeU32 (v : UInt32) : leNat (writeU32 v) = v.toNat := by
  rw [writeU32, leNat_leBytes]
  exact Nat.mod_eq_of_lt v.toNat_lt

/-- Four bytes are the encoding of the number they denote. -/
theorem writeU32_of_leNat {bs : Bytes} {v : UInt32} (hlen : bs.length = 4)
    (h : leNat bs = v.toNat) : bs = writeU32 v := by
  rw [writeU32, ← h, ← hlen, leBytes_leNat]

/-- A payload within the bound has a length of 32 bits. -/
theorem payload_length {n : Nat} (h : n ≤ kMaxFramePayload) : (UInt32.ofNat n).toNat = n := by
  have hmax : kMaxFramePayload < 2 ^ 32 := by decide
  rw [UInt32.toNat_ofNat']
  exact Nat.mod_eq_of_lt (by omega)

/-- A header of the format, the payload it announces and the checksum are an encoding. -/
theorem encodeFrame_parts {m l payload foot : Bytes} {k fl : UInt8} (hm : m.length = 4)
    (hl : l.length = 4) (hfoot : foot.length = 4) (hmagic : leNat m = kFrameMagic.toNat)
    (hpayload : payload.length = leNat l) (hmax : payload.length ≤ kMaxFramePayload)
    (hcrc : leNat foot = (crc32 (m ++ k :: fl :: (l ++ payload))).toNat) :
    m ++ k :: fl :: (l ++ (payload ++ foot)) =
      encodeFrame { kind := ⟨k⟩, flags := fl, payload := payload } := by
  have hm' := writeU32_of_leNat hm hmagic
  have hl' : l = writeU32 (UInt32.ofNat payload.length) :=
    writeU32_of_leNat hl (by rw [payload_length hmax, hpayload])
  have hc' := writeU32_of_leNat hfoot hcrc
  simp only [encodeFrame, frameBody, ← hm', ← hl', ← hc', List.append_assoc, List.cons_append]

/-- What is accepted is an encoding: the checks of `decode_frame`, read back in their order. -/
theorem decodeFrame_sound {data : Bytes} {f : Frame} (h : decodeFrame data = .ok f) :
    f.payload.length ≤ kMaxFramePayload ∧ data = encodeFrame f := by
  have h₁₄ : ¬data.length < 14 := by
    intro hlt
    rw [decodeFrame, if_pos hlt] at h
    cases h
  have hten : (data.take 10).length = 10 := by rw [List.length_take]; omega
  obtain ⟨m, k, fl, l, hdr, hm, hl⟩ := header_split hten
  have hdata : data = m ++ k :: fl :: (l ++ data.drop 10) := by
    conv => lhs; rw [← List.take_append_drop 10 data, hdr]
    simp
  generalize data.drop 10 = rest at hdata
  rw [hdata, decodeFrame_parts hm hl] at h
  simp only [ite_not] at h
  split at h
  · cases h
  · split at h
    · rename_i hmagic
      split at h
      · cases h
      · rename_i hmax
        split at h
        · cases h
        · split at h
          · cases h
          · split at h
            · rename_i hcrc
              cases h
              have hrest : (rest.take (leNat l)).length = leNat l := by
                rw [List.length_take]; omega
              have hfoot : (rest.drop (leNat l)).length = 4 := by
                rw [List.length_drop]; omega
              have hle : (rest.take (leNat l)).length ≤ kMaxFramePayload := by omega
              refine ⟨hle, hdata.trans ?_⟩
              rw [← encodeFrame_parts hm hl hfoot hmagic hrest hle hcrc.symm,
                List.take_append_drop]
            · cases h
    · cases h

/-- An encoding within the payload bound passes every check. -/
theorem decodeFrame_encoded {f : Frame} (hmax : f.payload.length ≤ kMaxFramePayload) :
    decodeFrame (encodeFrame f) = .ok f := by
  have hl := payload_length hmax
  have hdata : encodeFrame f = writeU32 kFrameMagic ++ f.kind.byte :: f.flags ::
      (writeU32 (UInt32.ofNat f.payload.length) ++
        (f.payload ++ writeU32 (crc32 (frameBody f)))) := by
    simp [encodeFrame, frameBody]
  rw [hdata, decodeFrame_parts (length_writeU32 _) (length_writeU32 _)]
  have hbody : writeU32 kFrameMagic ++ f.kind.byte :: f.flags ::
      (writeU32 (UInt32.ofNat f.payload.length) ++ f.payload) = frameBody f := rfl
  simp only [leNat_writeU32, hl, List.length_append, length_writeU32, List.take_left,
    List.drop_left, hbody]
  simp [Nat.not_lt.mpr hmax]

/-- **What `decode_frame` accepts**: the encodings of frames within the payload bound. -/
theorem decodeFrame_ok {data : Bytes} {f : Frame} :
    decodeFrame data = .ok f ↔ f.payload.length ≤ kMaxFramePayload ∧ data = encodeFrame f := by
  constructor
  · exact decodeFrame_sound
  · rintro ⟨hmax, rfl⟩
    exact decodeFrame_encoded hmax

/-! ## 3. The codec -/

@[simp] theorem length_encodeFrame (f : Frame) :
    (encodeFrame f).length = f.payload.length + 14 := by
  simp only [encodeFrame, frameBody, List.length_append, List.length_cons, length_writeU32]
  omega

/-- **No encoding goes on after another one**: the header says where a frame ends. -/
theorem encodeFrame_extended {f g : Frame} {x : Bytes} (hf : f.payload.length ≤ kMaxFramePayload)
    (hg : g.payload.length ≤ kMaxFramePayload) (h : encodeFrame f ++ x = encodeFrame g) :
    x = [] := by
  have hlen := congrArg List.length h
  rw [List.length_append, length_encodeFrame, length_encodeFrame] at hlen
  simp only [encodeFrame, frameBody, List.append_assoc, List.cons_append] at h
  have hafter := (List.cons.inj (List.cons.inj (List.append_cancel_left h)).2).2
  have hsize := congrArg leNat (List.append_inj hafter rfl).1
  rw [leNat_writeU32, leNat_writeU32, payload_length hf, payload_length hg] at hsize
  exact List.eq_nil_of_length_eq_zero (by omega)

/-- **The frame codec is a bijection** between the frames within the payload bound and what
    `decode_frame` accepts; nothing longer or shorter than an accepted frame is accepted. -/
theorem frame_codec_bijective :
    (∀ f : Frame, f.payload.length ≤ kMaxFramePayload → decodeFrame (encodeFrame f) = .ok f) ∧
    (∀ (b : Bytes) (f : Frame), decodeFrame b = .ok f → encodeFrame f = b) ∧
    ∀ (b x : Bytes) (f : Frame), x ≠ [] →
      (decodeFrame b = .ok f → ∃ e, decodeFrame (b ++ x) = .error e) ∧
      (decodeFrame (b ++ x) = .ok f → ∃ e, decodeFrame b = .error e) := by
  refine ⟨fun f hf => decodeFrame_ok.mpr ⟨hf, rfl⟩, fun b f h => (decodeFrame_ok.mp h).2.symm,
    fun b x f hx => ?_⟩
  have hnot (f g : Frame) (hf : decodeFrame b = .ok f) (hg : decodeFrame (b ++ x) = .ok g) :
      False := by
    obtain ⟨hfmax, hfb⟩ := decodeFrame_ok.mp hf
    obtain ⟨hgmax, hgb⟩ := decodeFrame_ok.mp hg
    rw [hfb] at hgb
    exact hx (encodeFrame_extended hfmax hgmax hgb)
  constructor
  · intro hf
    cases hg : decodeFrame (b ++ x) with
    | error e => exact ⟨e, rfl⟩
    | ok g => exact (hnot f g hf hg).elim
  · intro hg
    cases hf : decodeFrame b with
    | error e => exact ⟨e, rfl⟩
    | ok g => exact (hnot g f hf hg).elim

/-- Every byte is a kind, and an empty payload is one. -/
theorem frame_codec_bijective_small :
    decodeFrame (encodeFrame { kind := ⟨200⟩, flags := 3, payload := [1, 2] }) =
        .ok { kind := ⟨200⟩, flags := 3, payload := [1, 2] } ∧
      ∃ e, decodeFrame (encodeFrame {} ++ [0]) = .error e :=
  ⟨frame_codec_bijective.1 _ (by decide),
    (frame_codec_bijective.2.2 (encodeFrame {}) [0] {} (by decide)).1
      (frame_codec_bijective.1 _ (by decide))⟩

end SloFabric
