/-
  File:      SloFabric/Delivery.lean
  Subject:   A connection from one end to the other: what of the frames sent is received.

  * `recvAll`: the loop of a connection's thread around `recv_frame`;
  * `sendExact_spec`: a write over any transport puts the front of its data on the stream, and all
    of it exactly where it answers true; `sendFrame_cases`: what becomes of one frame;
  * `sentFrames`: the frames whose `send_frame` answered ok;
  * `sendFrames_spec`: once a transport that is down stays down, the stream is the encodings of the
    accepted frames and at most one torn encoding behind them;
  * `delivery`: what is received is a part of what was accepted, in the same order, however the
    stream is cut and wherever it ends; where all of it arrives, it is all that was accepted.
-/
import SloFabric.Socket
import SloFabric.Library.PrefixCode

namespace SloFabric

open Codec

/-! ## 1. The receiving end -/

/-- The loop of `handle_client` around `recv_frame`, for at most `n` turns: a fresh frame each
    time, until one is not received. -/
def recvAll (cut : Nat → Nat) : Nat → Socket → List Frame
  | 0, _ => []
  | n + 1, s =>
    let (st, f, s) := recvFrame cut s {} kMaxFramePayload
    if st.isOk then f :: recvAll cut n s else []

theorem recvFrame_isOk {cut : Nat → Nat} {s : Socket} {out : Frame} {m : Nat}
    (h : (recvFrame cut s out m).1.isOk = true) : (recvFrame cut s out m).1 = ok := by
  generalize hr : recvFrame cut s out m = r at h ⊢
  unfold recvFrame at hr
  dsimp only at hr
  split at hr
  · subst hr; cases h
  · split at hr
    · subst hr; cases h
    · split at hr
      · subst hr; cases h
      · split at hr
        · subst hr; cases h
        · split at hr
          · subst hr; cases h
          · split at hr
            · subst hr; cases h
            · subst hr; rfl

def Frame.Fits (f : Frame) : Prop := f.payload.length ≤ kMaxFramePayload

instance (f : Frame) : Decidable f.Fits := inferInstanceAs (Decidable (_ ≤ _))

/-- **The frame format is a prefix code.** -/
theorem encodeFrame_prefixCode : PrefixCode encodeFrame Frame.Fits := by
  rintro f g hf hg ⟨x, hx⟩
  have hnil := encodeFrame_extended hf hg hx
  rw [hnil, List.append_nil] at hx
  have hdec := decodeFrame_encoded hf
  rw [hx, decodeFrame_encoded hg] at hdec
  exact (Except.ok.inj hdec).symm

/-- Every frame that is received stood on the stream, behind the ones before it. -/
theorem recvAll_stream (cut : Nat → Nat) : ∀ (n : Nat) (s : Socket),
    (∀ f ∈ recvAll cut n s, f.Fits) ∧
      (recvAll cut n s).flatMap encodeFrame <+: s.incoming
  | 0, s => ⟨nofun, List.nil_prefix⟩
  | n + 1, s => by
      simp only [recvAll]
      split
      · rename_i hok
        have hrecv : recvFrame cut s {} kMaxFramePayload =
            (ok, (recvFrame cut s {} kMaxFramePayload).2) := Prod.ext (recvFrame_isOk hok) rfl
        obtain ⟨hf, hs⟩ := recvFrame_ok cut hrecv
        obtain ⟨hfits, hrest⟩ := recvAll_stream cut n (recvFrame cut s {} kMaxFramePayload).2.2
        refine ⟨fun f h => ?_, ?_⟩
        · rcases List.mem_cons.mp h with rfl | h
          · exact hf
          · exact hfits f h
        · rw [List.flatMap_cons, hs]
          exact (List.prefix_append_right_inj _).mpr hrest
      · exact ⟨nofun, List.nil_prefix⟩

/-- **All that the stream holds is received**, over a transport that always moves something. -/
theorem recvAll_complete {cut : Nat → Nat} (hcut : ∀ i, 1 ≤ cut i) {tail : Bytes}
    (htail : Torn encodeFrame Frame.Fits tail) : ∀ (fs : List Frame) (n : Nat) (s : Socket),
      (∀ f ∈ fs, f.Fits) → fs.length ≤ n → s.incoming = fs.flatMap encodeFrame ++ tail →
      recvAll cut n s = fs
  | [], n, s, _, _, hs => by
      obtain ⟨hfits, hpre⟩ := recvAll_stream cut n s
      rw [hs] at hpre
      exact List.prefix_nil.mp
        (encodeFrame_prefixCode.stream htail _ [] hfits nofun hpre)
  | f :: fs, n + 1, s, hfits, hn, hs => by
      rw [List.flatMap_cons, List.append_assoc] at hs
      obtain ⟨j, hj⟩ := recvFrame_encoded cut hcut (hfits f List.mem_cons_self) hs {}
      simp only [recvAll, hj, isOk_ok, if_true]
      rw [recvAll_complete hcut htail fs n _ (fun g hg => hfits g (List.mem_cons_of_mem _ hg))
        (Nat.le_of_succ_le_succ hn) rfl]

/-! ## 2. The sending end -/

/-- **A write over any transport**: the front of the data goes out, all of it exactly where the
    answer is true; otherwise the transport was down in one of the calls. -/
theorem sendExact_spec (cut : Nat → Nat) (data : Bytes) (s : Socket) :
    ∃ k j, k ≤ data.length ∧
      (sendExact cut data s).2 = { s with sent := s.sent ++ data.take k, calls := j } ∧
      ((sendExact cut data s).1 = true → k = data.length) ∧
      ((sendExact cut data s).1 = false → k < data.length ∧ ∃ i, i < j ∧ cut i = 0) := by
  induction data, s using sendExact.induct cut with
  | case1 data s hdata =>
    rw [List.eq_nil_of_length_eq_zero hdata]
    unfold sendExact
    exact ⟨0, s.calls, Nat.le_refl 0, by simp, fun _ => rfl, fun h => by simp at h⟩
  | case2 data s hdata r hr =>
    have hk : min (cut s.calls) data.length = 0 := hr
    have hturn : sendExact cut data s = (false, r.2) := by
      unfold sendExact
      rw [if_neg hdata]
      exact if_pos hr
    rw [hturn]
    refine ⟨0, s.calls + 1, Nat.zero_le _, ?_, fun h => Bool.noConfusion h,
      fun _ => ⟨by omega, s.calls, by omega, by omega⟩⟩
    simp only [r, send, hk]
  | case3 data s hdata r hr ih =>
    have hk : r.1 ≤ data.length := Nat.min_le_right _ _
    have hturn : sendExact cut data s = sendExact cut (data.drop r.1) r.2 := by
      conv => lhs; unfold sendExact
      rw [if_neg hdata]
      exact if_neg hr
    obtain ⟨k, j, hle, hsock, htrue, hfalse⟩ := ih
    rw [List.length_drop] at hle htrue hfalse
    rw [hturn]
    refine ⟨r.1 + k, j, by omega, ?_, fun h => ?_, fun h => ?_⟩
    · rw [hsock]
      simp only [r, send, List.append_assoc, List.take_add]
    · have := htrue h
      omega
    · obtain ⟨hlt, hdown⟩ := hfalse h
      exact ⟨by omega, hdown⟩

/-- A transport that is down moves nothing. -/
theorem sendExact_down {cut : Nat → Nat} {data : Bytes} {s : Socket} (hdata : data ≠ [])
    (hdown : cut s.calls = 0) :
    sendExact cut data s = (false, { s with calls := s.calls + 1 }) := by
  unfold sendExact
  rw [if_neg (fun h => hdata (List.eq_nil_of_length_eq_zero h))]
  simp [send, hdown]

/-- The frames whose `send_frame` answered ok. -/
def sentFrames (fs : List Frame) (sts : List Status) : List Frame :=
  ((fs.zip sts).filter (·.2.isOk)).map (·.1)

theorem sentFrames_cons (f : Frame) (fs : List Frame) (st : Status) (sts : List Status) :
    sentFrames (f :: fs) (st :: sts) = (if st.isOk then [f] else []) ++ sentFrames fs sts := by
  unfold sentFrames
  rw [List.zip_cons_cons, List.filter_cons]
  split <;> simp

/-- Once the transport is down, nothing more is sent. -/
theorem sendFrames_down {cut : Nat → Nat} : ∀ (fs : List Frame) (s : Socket),
    (∀ i, s.calls ≤ i → cut i = 0) →
    sentFrames fs (sendFrames cut s fs).1 = [] ∧ (sendFrames cut s fs).2.sent = s.sent
  | [], s, _ => ⟨rfl, rfl⟩
  | f :: fs, s, hdown => by
      have hne : encodeFrame f ≠ [] := by
        intro h
        have := congrArg List.length h
        rw [length_encodeFrame] at this
        cases this
      have hsend : ∃ m j, s.calls ≤ j ∧
          sendFrame cut s f = (protocolError m, { s with calls := j }) := by
        unfold sendFrame
        dsimp only
        split
        · exact ⟨_, s.calls, Nat.le_refl _, rfl⟩
        · rw [sendExact_down hne (hdown _ (Nat.le_refl _))]
          exact ⟨_, s.calls + 1, Nat.le_succ _, rfl⟩
      obtain ⟨m, j, hj, hsend⟩ := hsend
      obtain ⟨hacc, hsent⟩ := sendFrames_down fs { s with calls := j }
        fun i hi => hdown i (hj.trans hi)
      simp only [sendFrames, hsend, sentFrames_cons]
      exact ⟨hacc, hsent⟩

/-- **What `send_frame` does with a frame**: it refuses it before the transport is asked, or all of
    it goes out, or the transport is down in one of its calls. -/
theorem sendFrame_cases (cut : Nat → Nat) (f : Frame) (s : Socket) :
    (¬f.Fits ∧ sendFrame cut s f = (protocolError "oversized frame to send", s)) ∨
    (f.Fits ∧ ∃ j, sendFrame cut s f =
      (ok, { s with sent := s.sent ++ encodeFrame f, calls := j })) ∨
    (f.Fits ∧ ∃ k j i, k < (encodeFrame f).length ∧ i < j ∧ cut i = 0 ∧ sendFrame cut s f =
      (protocolError "send failed",
        { s with sent := s.sent ++ (encodeFrame f).take k, calls := j })) := by
  have hsize : (kMaxFramePayload + 14 < (encodeFrame f).length) ↔ ¬f.Fits := by
    rw [length_encodeFrame, Frame.Fits]; omega
  by_cases hf : f.Fits
  · have hsize' := mt hsize.mp (not_not_intro hf)
    obtain ⟨k, j, hk, hsock, htrue, hfalse⟩ := sendExact_spec cut (encodeFrame f) s
    cases hsent : (sendExact cut (encodeFrame f) s).1 with
    | true =>
      rw [htrue hsent, List.take_length] at hsock
      refine .inr (.inl ⟨hf, j, ?_⟩)
      simp only [sendFrame, if_neg hsize', hsent, if_true, hsock]
    | false =>
      obtain ⟨hlt, i, hi, hcut⟩ := hfalse hsent
      refine .inr (.inr ⟨hf, k, j, i, hlt, hi, hcut, ?_⟩)
      simp only [sendFrame, if_neg hsize', hsent, hsock]
      rfl
  · refine .inl ⟨hf, ?_⟩
    simp only [sendFrame, if_pos (hsize.mpr hf)]

/-- **What a sender puts on the stream**, over a transport that stays down once it is down: the
    encodings of the accepted frames, and behind them at most a torn one. -/
theorem sendFrames_spec {cut : Nat → Nat} (hdown : ∀ i j, i ≤ j → cut i = 0 → cut j = 0) :
    ∀ (fs : List Frame) (s : Socket), ∃ tail,
      Torn encodeFrame Frame.Fits tail ∧
      (sendFrames cut s fs).2.sent =
        s.sent ++ ((sentFrames fs (sendFrames cut s fs).1).flatMap encodeFrame ++ tail) ∧
      sentFrames fs (sendFrames cut s fs).1 <+: fs.filter fun f => decide f.Fits
  | [], s => by
      refine ⟨[], fun f _ h => ?_, by simp [sendFrames, sentFrames], List.nil_prefix⟩
      have := h.length_le
      rw [length_encodeFrame] at this
      cases this
  | f :: fs, s => by
      rcases sendFrame_cases cut f s with ⟨hf, hsend⟩ | ⟨hf, j, hsend⟩ |
        ⟨hf, k, j, i, hlt, hi, hcut, hsend⟩
      · obtain ⟨tail, htail, hstream, hpre⟩ := sendFrames_spec hdown fs s
        refine ⟨tail, htail, ?_, ?_⟩
        · simp only [sendFrames, hsend, sentFrames_cons]
          exact hstream
        · simp only [sendFrames, hsend, sentFrames_cons]
          have hskip : ¬decide f.Fits = true := by rw [decide_eq_true_eq]; exact hf
          rw [List.filter_cons, if_neg hskip]
          exact hpre
      · obtain ⟨tail, htail, hstream, hpre⟩ := sendFrames_spec hdown fs
          { s with sent := s.sent ++ encodeFrame f, calls := j }
        refine ⟨tail, htail, ?_, ?_⟩
        · simp only [sendFrames, hsend, sentFrames_cons, isOk_ok, if_true]
          rw [hstream]
          simp
        · simp only [sendFrames, hsend, sentFrames_cons, isOk_ok, if_true]
          rw [List.filter_cons, if_pos (decide_eq_true hf), List.singleton_append,
            List.cons_prefix_cons]
          exact ⟨rfl, hpre⟩
      · -- the transport is down from here on
        obtain ⟨hacc, hrest⟩ := sendFrames_down fs
          { s with sent := s.sent ++ (encodeFrame f).take k, calls := j }
          fun i' hi' => hdown i i' (hi.le.trans hi') hcut
        have hnone : sentFrames (f :: fs) (sendFrames cut s (f :: fs)).1 = [] := by
          simp only [sendFrames, hsend, sentFrames_cons]
          exact hacc
        refine ⟨(encodeFrame f).take k, encodeFrame_prefixCode.torn_take hf hlt, ?_, ?_⟩
        · rw [hnone]
          simp only [sendFrames, hsend]
          exact hrest
        · rw [hnone]
          exact List.nil_prefix

/-! ## 3. From one end to the other -/

/-- **Delivery.** The sending transport may cut every write and fail for good at any call, the
    receiving one may cut and fail every read, and the stream may end anywhere. No frame is
    received whose sending failed, none twice and none out of order; nothing that was accepted is
    lost where the stream arrives; and what is accepted is a part, without gaps, of the frames
    within the bound. -/
theorem delivery {cut : Nat → Nat} (hdown : ∀ i j, i ≤ j → cut i = 0 → cut j = 0)
    (fs : List Frame) :
    let sending := sendFrames cut {} fs
    (∀ (cut' : Nat → Nat) (n k : Nat), recvAll cut' n { incoming := sending.2.sent.take k } <+:
      sentFrames fs sending.1) ∧
    (∀ (cut' : Nat → Nat) (n : Nat), (∀ i, 1 ≤ cut' i) → (sentFrames fs sending.1).length ≤ n →
      recvAll cut' n { incoming := sending.2.sent } = sentFrames fs sending.1) ∧
    sentFrames fs sending.1 <+: fs.filter fun f => decide f.Fits := by
  obtain ⟨tail, htail, hstream, hpre⟩ := sendFrames_spec hdown fs {}
  have hfits : ∀ f ∈ sentFrames fs (sendFrames cut {} fs).1, f.Fits := fun f hf =>
    of_decide_eq_true (List.mem_filter.mp (hpre.subset hf)).2
  refine ⟨fun cut' n k => ?_, fun cut' n hcut hn => ?_, hpre⟩
  · obtain ⟨hgot, hread⟩ := recvAll_stream cut' n
      { incoming := (sendFrames cut {} fs).2.sent.take k }
    have hsent : (sentFrames fs (sendFrames cut {} fs).1).flatMap encodeFrame ++ tail =
        (sendFrames cut {} fs).2.sent := hstream.symm
    refine encodeFrame_prefixCode.stream htail _ _ hgot hfits ?_
    rw [hsent]
    exact hread.trans (List.take_prefix k _)
  · exact recvAll_complete hcut htail _ n _ hfits hn (by rw [hstream]; rfl)

/-- Two frames over a transport that breaks in the second one. -/
theorem delivery_small :
    let cut : Nat → Nat := fun i => if i < 2 then 14 else 0
    let fs : List Frame := [{ kind := ⟨2⟩ }, { payload := [7, 8] }]
    let sending := sendFrames cut {} fs
    recvAll (fun _ => 1) 2 { incoming := sending.2.sent } = sentFrames fs sending.1 := by
  intro cut fs sending
  have hdown (i j : Nat) (hij : i ≤ j) (h : cut i = 0) : cut j = 0 := by
    have hi : ¬i < 2 := fun hlt => by simp only [cut, if_pos hlt] at h; cases h
    exact if_neg (by omega)
  exact (delivery hdown fs).2.1 (fun _ => 1) 2 (fun _ => Nat.le_refl 1)
    ((List.length_map _).trans_le (List.length_filter_le _ _))

end SloFabric
