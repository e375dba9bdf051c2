/-
  File:      SloFabric/Socket.lean
  Subject:   Frames over a stream socket: sending, and the decoder that reads a frame piece by
             piece.

  * `Socket`: one end of a connection -- what the peer has written and is still to be read,
    what was sent, and how often the transport was asked; `cut` says how many bytes the
    transport moves at each call, at most (`0` stands for a closed or failing connection);
  * `recvExact`, `sendExact`: the loops over partial reads and writes, with what they do over a
    transport that always moves something (`recvExact_succeeds`, `sendExact_sent`);
  * `recvFrame`, `sendFrame`; `recvFrame_ok`, `recvFrame_encoded`: what a frame is received from;
  * `recvFrames_stream`, `stream_agrees_with_buffer`: the stream decoder and the buffer decoder
    agree.
-/
import SloFabric.Frame

namespace SloFabric

open Codec

/-! ## 1. Partial reads and writes -/

/-- One end of a connection. -/
structure Socket where
  incoming : Bytes := []
  sent : Bytes := []
  calls : Nat := 0
  deriving DecidableEq

variable (cut : Nat → Nat)

/-- `recv` of up to `n` bytes. -/
def recv (s : Socket) (n : Nat) : Bytes × Socket :=
  let k := min (cut s.calls) (min n s.incoming.length)
  (s.incoming.take k, { s with incoming := s.incoming.drop k, calls := s.calls + 1 })

/-- `send` of some of the bytes: how many went out. -/
def send (s : Socket) (data : Bytes) : Nat × Socket :=
  let k := min (cut s.calls) data.length
  (k, { s with sent := s.sent ++ data.take k, calls := s.calls + 1 })

/-- Fill `buf`. What was not filled keeps its old bytes. -/
def recvExact (buf : Bytes) (s : Socket) : Bool × Bytes × Socket :=
  if buf.length = 0 then (true, buf, s)
  else
    let r := recv cut s buf.length
    if r.1.length = 0 then (false, buf, r.2)
    else
      let q := recvExact (buf.drop r.1.length) r.2
      (q.1, r.1 ++ q.2.1, q.2.2)
termination_by buf.length
decreasing_by
  rename_i hbuf hr
  rw [List.length_drop]
  exact Nat.sub_lt (Nat.pos_of_ne_zero hbuf) (Nat.pos_of_ne_zero hr)

/-- Send all of `data`. -/
def sendExact (data : Bytes) (s : Socket) : Bool × Socket :=
  if data.length = 0 then (true, s)
  else
    let r := send cut s data
    if r.1 = 0 then (false, r.2)
    else sendExact (data.drop r.1) r.2
termination_by data.length
decreasing_by
  rename_i hdata hr
  rw [List.length_drop]
  exact Nat.sub_lt (Nat.pos_of_ne_zero hdata) (Nat.pos_of_ne_zero hr)

/-- What a call of `recv` hands over is the front of the stream. -/
theorem recv_front (s : Socket) (n : Nat) :
    (recv cut s n).1.length ≤ n ∧ (recv cut s n).1.length ≤ s.incoming.length ∧
      recv cut s n = (s.incoming.take (recv cut s n).1.length,
        { s with incoming := s.incoming.drop (recv cut s n).1.length, calls := s.calls + 1 }) := by
  have hk : (recv cut s n).1.length = min (cut s.calls) (min n s.incoming.length) := by
    simp only [recv, List.length_take]
    omega
  rw [hk]
  exact ⟨by omega, by omega, rfl⟩

theorem recvExact_turn {buf : Bytes} {s : Socket} (hbuf : buf.length ≠ 0)
    (hr : (recv cut s buf.length).1.length ≠ 0) : recvExact cut buf s =
      let r := recv cut s buf.length
      let q := recvExact cut (buf.drop r.1.length) r.2
      (q.1, r.1 ++ q.2.1, q.2.2) := by
  conv => lhs; unfold recvExact
  rw [if_neg hbuf]
  exact if_neg hr

/-- **A read that succeeds fills the buffer with the next bytes of the stream**, however the
    transport cuts it. -/
theorem recvExact_true {buf : Bytes} {s : Socket} (h : (recvExact cut buf s).1 = true) :
    buf.length ≤ s.incoming.length ∧ ∃ j, recvExact cut buf s =
      (true, s.incoming.take buf.length, { s with
        incoming := s.incoming.drop buf.length, calls := j }) := by
  induction buf, s using recvExact.induct cut with
  | case1 buf s hbuf =>
    rw [List.eq_nil_of_length_eq_zero hbuf]
    refine ⟨Nat.zero_le _, s.calls, ?_⟩
    unfold recvExact
    rfl
  | case2 buf s hbuf r hr =>
    unfold recvExact at h
    rw [if_neg hbuf] at h
    simp only at h
    rw [if_pos hr] at h
    cases h
  | case3 buf s hbuf r hr ih =>
    have hturn : recvExact cut buf s = ((recvExact cut (buf.drop r.1.length) r.2).1,
        r.1 ++ (recvExact cut (buf.drop r.1.length) r.2).2.1,
        (recvExact cut (buf.drop r.1.length) r.2).2.2) := recvExact_turn cut hbuf hr
    have hfront : r.1.length ≤ buf.length ∧ r.1.length ≤ s.incoming.length ∧
        r = (s.incoming.take r.1.length, { s with
          incoming := s.incoming.drop r.1.length, calls := s.calls + 1 }) :=
      recv_front cut s buf.length
    clear_value r
    rw [hturn] at h ⊢
    obtain ⟨hlen, j, hj⟩ := ih h
    obtain ⟨hn, hall, hr'⟩ := hfront
    have hrest : r.2.incoming = s.incoming.drop r.1.length := congrArg (·.2.incoming) hr'
    have hsent : r.2.sent = s.sent := congrArg (·.2.sent) hr'
    have hgot : r.1 = s.incoming.take r.1.length := congrArg (·.1) hr'
    have hsum : r.1.length + (buf.length - r.1.length) = buf.length := by omega
    rw [hrest, List.length_drop, List.length_drop] at hlen
    refine ⟨by omega, j, ?_⟩
    have hbytes : r.1 ++ (s.incoming.drop r.1.length).take (buf.length - r.1.length) =
        s.incoming.take buf.length := by
      conv => rhs; rw [← hsum, List.take_add, ← hgot]
    rw [hj, hrest, hsent, List.drop_drop, List.length_drop, hsum, hbytes]

/-- **A read succeeds** where the stream has enough bytes and the transport always moves
    something. -/
theorem recvExact_succeeds (hcut : ∀ i, 1 ≤ cut i) {buf : Bytes} {s : Socket}
    (h : buf.length ≤ s.incoming.length) : (recvExact cut buf s).1 = true := by
  induction buf, s using recvExact.induct cut with
  | case1 buf s hbuf =>
    unfold recvExact
    rw [if_pos hbuf]
  | case2 buf s hbuf r hr =>
    have hk : r.1.length = min (cut s.calls) (min buf.length s.incoming.length) := by
      simp only [r, recv, List.length_take]
      omega
    have := hcut s.calls
    omega
  | case3 buf s hbuf r hr ih =>
    have hturn : (recvExact cut buf s).1 = (recvExact cut (buf.drop r.1.length) r.2).1 :=
      congrArg (·.1) (recvExact_turn cut hbuf hr)
    have hrest : r.2.incoming = s.incoming.drop r.1.length :=
      congrArg (·.2.incoming) (recv_front cut s buf.length).2.2
    rw [hturn]
    exact ih (by rw [hrest, List.length_drop, List.length_drop]; omega)

/-- **A write over a transport that always moves something sends all.** -/
theorem sendExact_sent (hcut : ∀ i, 1 ≤ cut i) (data : Bytes) (s : Socket) :
    ∃ j, sendExact cut data s = (true, { s with sent := s.sent ++ data, calls := j }) := by
  induction data, s using sendExact.induct cut with
  | case1 data s hdata =>
    rw [List.eq_nil_of_length_eq_zero hdata]
    refine ⟨s.calls, ?_⟩
    unfold sendExact
    simp
  | case2 data s hdata r hr =>
    have hk : r.1 = min (cut s.calls) data.length := rfl
    have := hcut s.calls
    omega
  | case3 data s hdata r hr ih =>
    obtain ⟨j, hj⟩ := ih
    refine ⟨j, ?_⟩
    unfold sendExact
    rw [if_neg hdata]
    simp only
    rw [if_neg hr, hj]
    simp only [r, send, List.append_assoc, List.take_append_drop]

/-! ## 2. Frames -/

/-- `send_frame`. -/
def sendFrame (s : Socket) (f : Frame) : Status × Socket :=
  let bytes := encodeFrame f
  if kMaxFramePayload + 14 < bytes.length then (protocolError "oversized frame to send", s)
  else
    let r := sendExact cut bytes s
    if r.1 then (ok, r.2) else (protocolError "send failed", r.2)

/-- `v.resize(n)`. -/
def resize (v : Bytes) (n : Nat) : Bytes := v.take n ++ List.replicate (n - v.length) 0

@[simp] theorem length_resize (v : Bytes) (n : Nat) : (resize v n).length = n := by
  simp only [resize, List.length_append, List.length_take, List.length_replicate]
  omega

/-- **`recv_frame`**: the status, the frame given as output parameter, the socket. -/
def recvFrame (s : Socket) (out : Frame) (maxPayload : Nat) : Status × Frame × Socket :=
  let (got, hdr, s) := recvExact cut (List.replicate 10 0) s
  if !got then (protocolError "recv header failed", out, s)
  else if leNat (hdr.take 4) ≠ kFrameMagic.toNat then (protocolError "bad frame magic", out, s)
  else
    let out := { out with kind := ⟨hdr.getD 4 0⟩, flags := hdr.getD 5 0 }
    let len := leNat ((hdr.drop 6).take 4)
    if min (maxPayload % 2 ^ 32) kMaxFramePayload < len then
      (protocolError "oversized frame", out, s)
    else
      let (got, payload, s) := recvExact cut (resize out.payload len) s
      let out := { out with payload := payload }
      if !got then (protocolError "recv payload failed", out, s)
      else
        let (got, crcb, s) := recvExact cut (List.replicate 4 0) s
        if !got then (protocolError "recv checksum failed", out, s)
        else if (crc32 (hdr ++ out.payload)).toNat ≠ leNat crcb then
          (protocolError "frame checksum mismatch", out, s)
        else (ok, out, s)

theorem protocolError_ne_ok (m : String) : protocolError m ≠ ok := fun h =>
  absurd (congrArg Status.code h) (by decide : StatusCode.protocolError ≠ StatusCode.ok)

/-- A frame within the payload bound is sent as it is encoded. -/
theorem sendFrame_sent (hcut : ∀ i, 1 ≤ cut i) {f : Frame}
    (hf : f.payload.length ≤ kMaxFramePayload) (s : Socket) :
    ∃ j, sendFrame cut s f = (ok, { s with sent := s.sent ++ encodeFrame f, calls := j }) := by
  obtain ⟨j, hj⟩ := sendExact_sent cut hcut (encodeFrame f) s
  refine ⟨j, ?_⟩
  have hsize : ¬kMaxFramePayload + 14 < (encodeFrame f).length := by
    rw [length_encodeFrame]; omega
  simp only [sendFrame, if_neg hsize, hj, if_true]

/-- **What a frame is received from**: its encoding, at the front of the stream. -/
theorem recvFrame_ok {s s' : Socket} {out f : Frame}
    (h : recvFrame cut s out kMaxFramePayload = (ok, f, s')) :
    f.payload.length ≤ kMaxFramePayload ∧ s.incoming = encodeFrame f ++ s'.incoming := by
  have hne {m : String} {o : Frame} {x : Socket} (hx : (protocolError m, o, x) = (ok, f, s')) :
      False := protocolError_ne_ok m (congrArg (·.1) hx)
  have hbound : min (kMaxFramePayload % 2 ^ 32) kMaxFramePayload = kMaxFramePayload := by decide
  unfold recvFrame at h
  rw [hbound] at h
  cases h₁ : (recvExact cut (List.replicate 10 0) s).1 with
  | false => simp only [h₁] at h; exact (hne h).elim
  | true =>
    obtain ⟨hlen₁, j₁, hread₁⟩ := recvExact_true cut h₁
    rw [List.length_replicate] at hlen₁ hread₁
    have hten : (s.incoming.take 10).length = 10 := by rw [List.length_take]; omega
    obtain ⟨m, k, fl, l, hhdr, hm, hl⟩ := header_split hten
    have hhdr' : s.incoming.take 10 = m ++ k :: fl :: (l ++ []) := by rw [hhdr, List.append_nil]
    have hs : s.incoming = s.incoming.take 10 ++ s.incoming.drop 10 :=
      (List.take_append_drop 10 _).symm
    simp only [hread₁, hhdr', parts_magic hm, parts_kind hm, parts_flags hm,
      parts_length hm hl, Bool.not_true, Bool.false_eq_true, if_false, ne_eq, ite_not] at h
    generalize s.incoming.drop 10 = rest at h hs
    split at h
    · rename_i hmagic
      split at h
      · exact (hne h).elim
      · rename_i hmax
        cases h₂ : (recvExact cut (resize out.payload (leNat l))
          { s with incoming := rest, calls := j₁ }).1 with
        | false => simp only [h₂] at h; exact (hne h).elim
        | true =>
          obtain ⟨hlen₂, j₂, hread₂⟩ := recvExact_true cut h₂
          rw [length_resize] at hlen₂ hread₂
          simp only [hread₂, Bool.not_true, Bool.false_eq_true, if_false] at h
          cases h₃ : (recvExact cut (List.replicate 4 0)
            { s with incoming := rest.drop (leNat l), calls := j₂ }).1 with
          | false => simp only [h₃] at h; exact (hne h).elim
          | true =>
            obtain ⟨hlen₃, j₃, hread₃⟩ := recvExact_true cut h₃
            rw [List.length_replicate] at hlen₃ hread₃
            simp only [hread₃, Bool.not_true, Bool.false_eq_true, if_false] at h
            split at h
            · rename_i hcrc
              cases h
              have hpayload : (rest.take (leNat l)).length = leNat l := by
                rw [List.length_take]
                exact Nat.min_eq_left hlen₂
              have hfoot : ((rest.drop (leNat l)).take 4).length = 4 := by
                rw [List.length_take]
                exact Nat.min_eq_left hlen₃
              have hle : (rest.take (leNat l)).length ≤ kMaxFramePayload := by omega
              rw [List.append_nil, List.append_assoc, List.cons_append, List.cons_append] at hcrc
              refine ⟨hle, ?_⟩
              rw [hs, hhdr, ← encodeFrame_parts hm hl hfoot hmagic hpayload hle hcrc.symm]
              simp
            · exact (hne h).elim
    · exact (hne h).elim

/-- **A frame's encoding is received**, whatever follows it and however the transport cuts it. -/
theorem recvFrame_encoded (hcut : ∀ i, 1 ≤ cut i) {f : Frame} {rest : Bytes} {s : Socket}
    (hf : f.payload.length ≤ kMaxFramePayload) (hs : s.incoming = encodeFrame f ++ rest)
    (out : Frame) : ∃ j, recvFrame cut s out kMaxFramePayload =
      (ok, f, { s with incoming := rest, calls := j }) := by
  have hl := payload_length hf
  have hbound : min (kMaxFramePayload % 2 ^ 32) kMaxFramePayload = kMaxFramePayload := by decide
  have hexact (buf : Bytes) (x : Socket) {got left : Bytes} (hx : x.incoming = got ++ left)
      (hlen : got.length = buf.length) : ∃ j, recvExact cut buf x =
        (true, got, { x with incoming := left, calls := j }) := by
    have hle : buf.length ≤ x.incoming.length := by
      rw [hx, List.length_append]; omega
    obtain ⟨_, j, hj⟩ := recvExact_true cut (recvExact_succeeds cut hcut hle)
    refine ⟨j, ?_⟩
    rw [hj, hx, ← hlen, List.take_left, List.drop_left]
  have hsplit : s.incoming = (writeU32 kFrameMagic ++ f.kind.byte :: f.flags ::
      (writeU32 (UInt32.ofNat f.payload.length) ++ [])) ++
        (f.payload ++ (writeU32 (crc32 (frameBody f)) ++ rest)) := by
    rw [hs]
    simp [encodeFrame, frameBody]
  obtain ⟨j₁, h₁⟩ := hexact (List.replicate 10 0) s hsplit (by simp)
  obtain ⟨j₂, h₂⟩ := hexact (resize out.payload f.payload.length)
    { s with incoming := f.payload ++ (writeU32 (crc32 (frameBody f)) ++ rest), calls := j₁ }
    rfl (length_resize _ _).symm
  obtain ⟨j₃, h₃⟩ := hexact (List.replicate 4 0)
    { s with incoming := writeU32 (crc32 (frameBody f)) ++ rest, calls := j₂ }
    rfl (length_writeU32 _)
  have hbody : (writeU32 kFrameMagic ++ f.kind.byte :: f.flags ::
      (writeU32 (UInt32.ofNat f.payload.length) ++ [])) ++ f.payload = frameBody f := by
    simp [frameBody]
  refine ⟨j₃, ?_⟩
  unfold recvFrame
  simp only [hbound, h₁, h₂, h₃, hbody, parts_magic (length_writeU32 _),
    parts_kind (length_writeU32 _), parts_flags (length_writeU32 _),
    parts_length (length_writeU32 _) (length_writeU32 _), leNat_writeU32, hl]
  simp [Nat.not_lt.mpr hf]

/-! ## 3. The stream -/

/-- `send_frame` for each of some frames. -/
def sendFrames (s : Socket) : List Frame → List Status × Socket
  | [] => ([], s)
  | f :: fs =>
    let (st, s) := sendFrame cut s f
    let (sts, s) := sendFrames s fs
    (st :: sts, s)

/-- `recv_frame` with the default bound, once for each output parameter. -/
def recvFrames (s : Socket) : List Frame → List (Status × Frame) × Socket
  | [] => ([], s)
  | out :: outs =>
    let (st, f, s) := recvFrame cut s out kMaxFramePayload
    let (got, s) := recvFrames s outs
    ((st, f) :: got, s)

/-- **Frames within the payload bound are sent as their encodings, one after the other.** -/
theorem sendFrames_stream (hcut : ∀ i, 1 ≤ cut i) : ∀ (fs : List Frame) (s : Socket),
    (∀ f ∈ fs, f.payload.length ≤ kMaxFramePayload) →
    ∃ j, sendFrames cut s fs = (fs.map fun _ => ok,
      { s with sent := s.sent ++ fs.flatMap encodeFrame, calls := j })
  | [], s, _ => ⟨s.calls, by simp [sendFrames]⟩
  | f :: fs, s, h => by
      obtain ⟨i, hi⟩ := sendFrame_sent cut hcut (h f List.mem_cons_self) s
      obtain ⟨j, hj⟩ := sendFrames_stream hcut fs
        { s with sent := s.sent ++ encodeFrame f, calls := i }
        fun g hg => h g (List.mem_cons_of_mem _ hg)
      exact ⟨j, by simp only [sendFrames, hi, hj, List.map_cons, List.flatMap_cons,
        List.append_assoc]⟩

/-- **Frames are received in order** from the stream of their encodings. -/
theorem recvFrames_stream (hcut : ∀ i, 1 ≤ cut i) : ∀ (fs outs : List Frame) (s : Socket),
    (∀ f ∈ fs, f.payload.length ≤ kMaxFramePayload) → outs.length = fs.length →
    s.incoming = fs.flatMap encodeFrame →
    ∃ j, recvFrames cut s outs = (fs.map fun f => (ok, f), { s with incoming := [], calls := j })
  | [], [], s, _, _, hs => ⟨s.calls, by rw [← show s.incoming = [] from hs]; rfl⟩
  | f :: fs, out :: outs, s, h, hlen, hs => by
      have hs' : s.incoming = encodeFrame f ++ fs.flatMap encodeFrame := hs
      obtain ⟨i, hi⟩ := recvFrame_encoded cut hcut (h f List.mem_cons_self) hs' out
      obtain ⟨j, hj⟩ := recvFrames_stream hcut fs outs
        { s with incoming := fs.flatMap encodeFrame, calls := i }
        (fun g hg => h g (List.mem_cons_of_mem _ hg)) (Nat.succ.inj hlen) rfl
      exact ⟨j, by simp only [recvFrames, hi, hj, List.map_cons]⟩

/-- **The stream decoder and the buffer decoder agree**: successive calls return the frames whose
    encodings make up the stream, however the transport cuts it; and a call succeeds on a prefix
    of a stream if and only if `decode_frame` accepts the prefix, with the same frame. -/
theorem stream_agrees_with_buffer (hcut : ∀ i, 1 ≤ cut i) :
    (∀ (fs outs : List Frame) (s : Socket), (∀ f ∈ fs, f.payload.length ≤ kMaxFramePayload) →
      outs.length = fs.length → s.incoming = fs.flatMap encodeFrame →
      (recvFrames cut s outs).1 = fs.map fun f => (ok, f)) ∧
    ∀ (b rest : Bytes) (f out : Frame) (s : Socket), s.incoming = b ++ rest →
      ((∃ j, recvFrame cut s out kMaxFramePayload =
          (ok, f, { s with incoming := rest, calls := j })) ↔ decodeFrame b = .ok f) := by
  constructor
  · intro fs outs s hfs hlen hs
    obtain ⟨j, hj⟩ := recvFrames_stream cut hcut fs outs s hfs hlen hs
    rw [hj]
  · intro b rest f out s hs
    rw [decodeFrame_ok]
    constructor
    · rintro ⟨j, hj⟩
      obtain ⟨hf, hin⟩ := recvFrame_ok cut hj
      exact ⟨hf, List.append_cancel_right (hs.symm.trans hin)⟩
    · rintro ⟨hf, rfl⟩
      exact recvFrame_encoded cut hcut hf hs out

/-- Two frames, one byte at a time. -/
theorem stream_agrees_with_buffer_small :
    let fs : List Frame := [{ kind := ⟨2⟩, flags := 1, payload := [7, 8] }, {}]
    (recvFrames (fun _ => 1) { incoming := fs.flatMap encodeFrame } [{}, {}]).1 =
        fs.map (fun f => (ok, f)) ∧
      ((∃ j, recvFrame (fun _ => 1) { incoming := encodeFrame {} ++ [9] } {} kMaxFramePayload =
        (ok, {}, { incoming := [9], calls := j })) ↔ decodeFrame (encodeFrame {}) = .ok {}) := by
  intro fs
  have hagree := stream_agrees_with_buffer (fun _ => 1) fun _ => Nat.le_refl 1
  exact ⟨hagree.1 fs [{}, {}] { incoming := fs.flatMap encodeFrame } (by decide) rfl rfl,
    hagree.2 (encodeFrame {}) [9] {} {} { incoming := encodeFrame {} ++ [9] } rfl⟩

end SloFabric
