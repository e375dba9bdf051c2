/-
  File:      SloFabric/Messages.lean
  Subject:   The payloads of the distributed proof: what each decoder accepts.

  * `encodeAck`, `decodeAck`, `encodeReply`, `decodeReply`: the coordinator's answers (those of the
    workers are in Coordinator.lean);
  * `inverts_…`: the primitive readers are exact inverses of their writers;
  * `decodeHello_iff`, `decodeAck_iff`, `decodeEvidence_iff`, `decodeReply_iff`: **a payload is
    accepted as a message exactly if it begins with the encoding of that message**, and the texts
    are within their bounds; what follows the message is not looked at;
  * `messages_exact`: all four.
-/
import SloFabric.Coordinator

namespace SloFabric

variable {R : Type}

open Codec

/-! ## 1. The coordinator's answers -/

/-- What a worker reads of the answer to its hello. -/
structure AckMessage where
  epoch : UInt64
  grantedBoot : UInt64
  statusCode : UInt8
  status : Bytes
  deriving DecidableEq

def encodeAck (m : AckMessage) : Bytes :=
  writeU64 m.epoch ++ writeU64 m.grantedBoot ++ m.statusCode :: writeString m.status

def decodeAck (p : Bytes) : Option AckMessage :=
  ((AckMessage.mk <$> readU64 <*> readU64 <*> readU8 <*> readStringOf 512).run p).map (·.1)

/-- What a control client reads of the answer to its request. -/
structure ReplyMessage (R : Type) where
  epoch : UInt64
  contractGen : UInt64
  policyGen : UInt64
  compliance : UInt8
  bindingDimension : UInt8
  action : UInt8
  objectiveId : UInt64
  measured : R
  text : Bytes

def encodeReply [Pod R] (m : ReplyMessage R) : Bytes :=
  writeU64 m.epoch ++ writeU64 m.contractGen ++ writeU64 m.policyGen ++
    m.compliance :: m.bindingDimension :: m.action ::
      (writeU64 m.objectiveId ++ writePod m.measured ++ writeString m.text)

def decodeReply (R : Type) [Pod R] (p : Bytes) : Option (ReplyMessage R) :=
  ((ReplyMessage.mk <$> readU64 <*> readU64 <*> readU64 <*> readU8 <*> readU8 <*> readU8 <*>
    readU64 <*> readPod R <*> readStringOf 2048).run p).map (·.1)

/-! ## 2. Primitive readers -/

theorem inverts_readU8 : Inverts readU8 (fun b => [b]) fun _ => True := by
  have h := (Inverts.readLE 1).map UInt8.ofNat UInt8.toNat
    (fun v hv => by rw [UInt8.toNat_ofNat']; exact Nat.mod_eq_of_lt hv) fun b => by simp
  exact h.congr (fun b => by simp [leBytes]) fun b => iff_true_intro b.toNat_lt

theorem inverts_readU64 : Inverts readU64 writeU64 fun _ => True := by
  have h := (Inverts.readLE 8).map UInt64.ofNat UInt64.toNat
    (fun v hv => by rw [UInt64.toNat_ofNat']; exact Nat.mod_eq_of_lt hv) fun b => by simp
  exact h.congr (fun _ => rfl) fun v => iff_true_intro v.toNat_lt

theorem inverts_readI64 : Inverts readI64 writeI64 fun _ => True :=
  inverts_readU64.map UInt64.toInt64 Int64.toUInt64 (fun _ _ => rfl) fun _ => rfl

theorem inverts_readPod : Inverts (readPod Binary64) writePod fun _ => True :=
  inverts_readU64.map Pod.ofBits Binary64.bits (fun _ _ => rfl) fun _ => rfl

/-- A text within the bound, which is one of a 64-bit length. -/
theorem inverts_readStringOf (bound : Nat) (hbound : bound < 2 ^ 64) :
    Inverts (readStringOf bound) writeString fun s => s.length ≤ bound := by
  intro bs s rest
  unfold readStringOf
  rw [inverts_readU64.bind_iff]
  constructor
  · rintro ⟨len, bs', ⟨rfl, _⟩, hrun⟩
    rw [StateT.run_bind, run_check] at hrun
    split at hrun
    · rename_i hlen
      obtain ⟨rfl, hs⟩ := (Inverts.take len.toNat bs' s rest).mp hrun
      rw [decide_eq_true_eq] at hlen
      refine ⟨?_, hs.le.trans hlen⟩
      rw [writeString, hs, UInt64.ofNat_toNat, List.append_assoc]
    · cases hrun
  · rintro ⟨rfl, hs⟩
    have hlen : (UInt64.ofNat s.length).toNat = s.length := by
      rw [UInt64.toNat_ofNat']
      exact Nat.mod_eq_of_lt (by omega)
    refine ⟨UInt64.ofNat s.length, s ++ rest, ⟨by rw [writeString, List.append_assoc], trivial⟩, ?_⟩
    rw [StateT.run_bind, run_check, hlen, if_pos (decide_eq_true hs)]
    exact (Inverts.take s.length (s ++ rest) s rest).mpr ⟨rfl, rfl⟩

/-! ## 3. Payloads -/

/-- What is decoded is read off the front. -/
theorem decoded_iff {α : Type} {r : Reader α} {p : Bytes} {a : α} :
    (r.run p).map (·.1) = some a ↔ ∃ rest, r.run p = some (a, rest) := by
  rw [Option.map_eq_some_iff]
  constructor
  · rintro ⟨⟨b, rest⟩, hrun, rfl⟩
    exact ⟨rest, hrun⟩
  · rintro ⟨rest, hrun⟩
    exact ⟨(a, rest), hrun, rfl⟩

theorem decodeHello_iff {p : Bytes} {h : Hello} :
    decodeHello p = some h ↔ ∃ rest, p = encodeHello h ++ rest ∧ h.name.length ≤ 256 := by
  unfold decodeHello encodeHello
  rw [decoded_iff]
  simp only [map_eq_pure_bind, seq_eq_bind_map, bind_assoc, pure_bind,
    (inverts_readStringOf 256 (by decide)).bind_iff, inverts_readU64.bind_iff]
  constructor
  · rintro ⟨rest, name, p₁, ⟨rfl, hname⟩, bootId, p₂, ⟨rfl, _⟩, epoch, p₃, ⟨rfl, _⟩, hrun⟩
    cases hrun
    exact ⟨rest, by simp only [List.append_assoc], hname⟩
  · rintro ⟨rest, rfl, hname⟩
    simp only [List.append_assoc]
    exact ⟨rest, h.name, _, ⟨rfl, hname⟩, h.bootId, _, ⟨rfl, trivial⟩, h.epoch, rest,
      ⟨rfl, trivial⟩, rfl⟩

theorem decodeAck_iff {p : Bytes} {m : AckMessage} :
    decodeAck p = some m ↔ ∃ rest, p = encodeAck m ++ rest ∧ m.status.length ≤ 512 := by
  unfold decodeAck encodeAck
  rw [decoded_iff]
  simp only [map_eq_pure_bind, seq_eq_bind_map, bind_assoc, pure_bind, inverts_readU64.bind_iff,
    inverts_readU8.bind_iff, (inverts_readStringOf 512 (by decide)).bind_iff]
  constructor
  · rintro ⟨rest, epoch, p₁, ⟨rfl, _⟩, boot, p₂, ⟨rfl, _⟩, code, p₃, ⟨rfl, _⟩, status, p₄,
      ⟨rfl, hstatus⟩, hrun⟩
    cases hrun
    exact ⟨rest, by simp only [List.append_assoc, List.cons_append, List.nil_append], hstatus⟩
  · rintro ⟨rest, rfl, hstatus⟩
    simp only [List.append_assoc, List.cons_append, List.nil_append]
    exact ⟨rest, m.epoch, _, ⟨rfl, trivial⟩, m.grantedBoot, _, ⟨rfl, trivial⟩, m.statusCode, _,
      ⟨rfl, trivial⟩, m.status, rest, ⟨rfl, hstatus⟩, rfl⟩

theorem decodeEvidence_iff {p : Bytes} {m : EvidenceMessage Binary64} :
    decodeEvidence Binary64 p = some m ↔ ∃ rest, p = encodeEvidence m ++ rest := by
  unfold decodeEvidence encodeEvidence
  rw [decoded_iff]
  simp only [map_eq_pure_bind, seq_eq_bind_map, bind_assoc, pure_bind, inverts_readU64.bind_iff,
    inverts_readU8.bind_iff, inverts_readI64.bind_iff, inverts_readPod.bind_iff]
  constructor
  · rintro ⟨rest, id, p₁, ⟨rfl, _⟩, dim, p₂, ⟨rfl, _⟩, value, p₃, ⟨rfl, _⟩, count, p₄, ⟨rfl, _⟩,
      time, p₅, ⟨rfl, _⟩, boot, p₆, ⟨rfl, _⟩, epoch, p₇, ⟨rfl, _⟩, hrun⟩
    cases hrun
    exact ⟨rest, by simp only [List.append_assoc, List.cons_append, List.nil_append]⟩
  · rintro ⟨rest, rfl⟩
    simp only [List.append_assoc, List.cons_append, List.nil_append]
    exact ⟨rest, m.objectiveId, _, ⟨rfl, trivial⟩, m.dimension, _, ⟨rfl, trivial⟩, m.value, _,
      ⟨rfl, trivial⟩, m.sampleCount, _, ⟨rfl, trivial⟩, m.timeNs, _, ⟨rfl, trivial⟩, m.bootId, _,
      ⟨rfl, trivial⟩, m.epoch, rest, ⟨rfl, trivial⟩, rfl⟩

theorem decodeReply_iff {p : Bytes} {m : ReplyMessage Binary64} :
    decodeReply Binary64 p = some m ↔ ∃ rest, p = encodeReply m ++ rest ∧ m.text.length ≤ 2048 := by
  unfold decodeReply encodeReply
  rw [decoded_iff]
  simp only [map_eq_pure_bind, seq_eq_bind_map, bind_assoc, pure_bind, inverts_readU64.bind_iff,
    inverts_readU8.bind_iff, inverts_readPod.bind_iff,
    (inverts_readStringOf 2048 (by decide)).bind_iff]
  constructor
  · rintro ⟨rest, epoch, p₁, ⟨rfl, _⟩, contract, p₂, ⟨rfl, _⟩, policy, p₃, ⟨rfl, _⟩, compliance, p₄,
      ⟨rfl, _⟩, dim, p₅, ⟨rfl, _⟩, action, p₆, ⟨rfl, _⟩, id, p₇, ⟨rfl, _⟩, measured, p₈, ⟨rfl, _⟩,
      text, p₉, ⟨rfl, htext⟩, hrun⟩
    cases hrun
    exact ⟨rest, by simp only [List.append_assoc, List.cons_append, List.nil_append], htext⟩
  · rintro ⟨rest, rfl, htext⟩
    simp only [List.append_assoc, List.cons_append, List.nil_append]
    exact ⟨rest, m.epoch, _, ⟨rfl, trivial⟩, m.contractGen, _, ⟨rfl, trivial⟩, m.policyGen, _,
      ⟨rfl, trivial⟩, m.compliance, _, ⟨rfl, trivial⟩, m.bindingDimension, _, ⟨rfl, trivial⟩,
      m.action, _, ⟨rfl, trivial⟩, m.objectiveId, _, ⟨rfl, trivial⟩, m.measured, _, ⟨rfl, trivial⟩,
      m.text, rest, ⟨rfl, htext⟩, rfl⟩

/-- **What the decoders of the four payloads accept**, byte for byte. -/
theorem messages_exact (p : Bytes) :
    (∀ h, decodeHello p = some h ↔ ∃ rest, p = encodeHello h ++ rest ∧ h.name.length ≤ 256) ∧
    (∀ m, decodeAck p = some m ↔ ∃ rest, p = encodeAck m ++ rest ∧ m.status.length ≤ 512) ∧
    (∀ m, decodeEvidence Binary64 p = some m ↔ ∃ rest, p = encodeEvidence m ++ rest) ∧
    ∀ m, decodeReply Binary64 p = some m ↔
      ∃ rest, p = encodeReply m ++ rest ∧ m.text.length ≤ 2048 :=
  ⟨fun _ => decodeHello_iff, fun _ => decodeAck_iff, fun _ => decodeEvidence_iff,
    fun _ => decodeReply_iff⟩

end SloFabric
