/-
  File:      SloFabric/Canonical.lean
  Subject:   What the decoder of the durable state accepts, byte for byte.

  * `Mark`: the bytes the format leaves open -- the presence bytes of optional fields, and the
    bytes of enforcement actions;
  * `skimState`: the format of a serialized state, with its marks (`presenceBytes`,
    `actionBytes`);
  * `accepts_…`: each reader accepts what its writer writes but for presence bytes above `1`;
  * `canonical_iff`: an accepted byte string is written back as it was read if and only if all
    its presence bytes are `0` or `1`.
-/
import SloFabric.Truncation
import SloFabric.Library.Skim

namespace SloFabric

open Codec Double

/-! ## 1. Marks and skims -/

inductive Mark where
  | presence (b : UInt8)
  | action (b : UInt8)
  deriving DecidableEq, Repr

/-- The marks a writer leaves. -/
def Mark.canonical : Mark → Prop
  | .presence b => b ≤ 1
  | .action _ => True

def Mark.presence? : Mark → Option UInt8
  | .presence b => some b
  | .action _ => none

def Mark.action? : Mark → Option UInt8
  | .presence _ => none
  | .action b => some b

def skimString : Reader (List Mark) := do
  let len ← readU64
  skip Mark len.toNat

def skimOption (s : Reader (List Mark)) : Reader (List Mark) := do
  let has ← readU8
  if has != 0 then (fun marks => .presence has :: marks) <$> s else pure [.presence has]

def skimList (s : Reader (List Mark)) : Reader (List Mark) := do
  let n ← readU64
  repeated s n.toNat

def skimEnum : Reader (List Mark) := skip Mark 1
def skimWord : Reader (List Mark) := skip Mark 8
def skimAction : Reader (List Mark) := note .action

/-- A tag and its payload. -/
def skimValue : Reader (List Mark) := both (skip Mark 1) skimWord

def skimObjective : Reader (List Mark) :=
  inOrder [skimWord, skimWord, skimString, skimEnum, skimEnum, skimEnum, skimEnum, skimEnum,
    skimValue, skimOption skimValue, skimOption skimValue, skimWord, skimWord, skimWord, skimWord,
    skimEnum, skimWord, skimWord, skip Mark 4, skimWord, skimEnum, skimEnum]

def skimContract : Reader (List Mark) :=
  inOrder [skimWord, skimWord, skimWord, skimWord, skimWord, skimList skimObjective, skimWord,
    skimWord, skimWord, skimOption skimWord, skimWord, skimEnum, skimString, skimString]

def skimPolicy : Reader (List Mark) :=
  inOrder [skimWord, skimWord, skimEnum, skimEnum, skimString, skimString]

def skimReceipt : Reader (List Mark) :=
  inOrder [skimWord, skimWord, skimAction, skimEnum, skimWord, skimWord, skimWord, skimWord,
    skimWord, skimWord, skimWord, skimWord, skimWord, skimWord, skimString]

def skimObjstate : Reader (List Mark) :=
  inOrder [skimWord, skimWord, skimWord, skimWord, skimWord, skimWord, skimEnum, skimWord,
    skimWord]

def skimEval : Reader (List Mark) :=
  inOrder [skimWord, skimWord, skimWord, skimWord, skimWord, skimWord, skimWord, skimEnum,
    skimEnum, skimWord, skimAction, skimWord]

def skimState : Reader (List Mark) :=
  inOrder [skip Mark 4, skip Mark 4, skimWord, skimList skimPolicy, skimList skimContract,
    skimList skimObjstate, skimList skimReceipt, skimList skimEval]

/-- The marks of a serialized state. -/
def marksOf (b : Bytes) : List Mark := ((skimState.run b).map (·.1)).getD []

/-- The bytes that say whether an optional field is there. -/
def presenceBytes (b : Bytes) : List UInt8 := (marksOf b).filterMap Mark.presence?

/-- The bytes of the actions of receipts and evaluation records. -/
def actionBytes (b : Bytes) : List UInt8 := (marksOf b).filterMap Mark.action?

/-! ## 2. Primitives -/

/-- The reader `r` accepts what `w` writes, on the format `s`, with the actions `e`. -/
abbrev Accepts {α : Type} (r : Reader α) (s : Reader (List Mark)) (w : α → Bytes)
    (e : α → List UInt8) : Prop := Skims Mark.canonical Mark.action? r s w e

/-- An enumeration whose stored bytes are exactly the codes of its enumerators. -/
class ByteEnumFull (E : Type) [ByteEnum E] : Prop where
  code_ofCode : ∀ n, n ≤ ByteEnum.last E → ByteEnum.code (ByteEnum.ofCode n : E) = n

instance : ByteEnumFull Dimension := ⟨by decide⟩
instance : ByteEnumFull ObjectiveKind := ⟨by decide⟩
instance : ByteEnumFull Comparison := ⟨by decide⟩
instance : ByteEnumFull HardSoft := ⟨by decide⟩
instance : ByteEnumFull EnforcementClass := ⟨by decide⟩
instance : ByteEnumFull WindowType := ⟨by decide⟩
instance : ByteEnumFull AvailabilityMode := ⟨by decide⟩
instance : ByteEnumFull RateTag := ⟨by decide⟩
instance : ByteEnumFull ContractLifecycle := ⟨by decide⟩
instance : ByteEnumFull PolicyMode := ⟨by decide⟩
instance : ByteEnumFull TieBreak := ⟨by decide⟩
instance : ByteEnumFull EnforcementAction := ⟨by decide⟩
instance : ByteEnumFull EnforcementLifecycle := ⟨by decide⟩
instance : ByteEnumFull ComplianceState := ⟨by decide⟩

theorem accepts_readU8 : Accepts readU8 (skip Mark 1) (fun v => [v]) fun _ => [] :=
  .number fun _ _ => rfl

theorem accepts_readU32 : Accepts readU32 (skip Mark 4) writeU32 fun _ => [] :=
  .number fun v h => by
    rw [writeU32, UInt32.toNat_ofNat', Nat.mod_eq_of_lt (show v < 2 ^ 32 from h)]

theorem accepts_readI32 : Accepts readI32 (skip Mark 4) writeI32 fun _ => [] :=
  accepts_readU32.map (fun v => by rw [writeI32, UInt32.toUInt32_toInt32]) fun _ => rfl

theorem accepts_readU64 : Accepts readU64 skimWord writeU64 fun _ => [] :=
  .number fun v h => by
    rw [writeU64, UInt64.toNat_ofNat', Nat.mod_eq_of_lt (show v < 2 ^ 64 from h)]

theorem accepts_readI64 : Accepts readI64 skimWord writeI64 fun _ => [] :=
  accepts_readU64.map (fun v => by rw [writeI64, UInt64.toUInt64_toInt64]) fun _ => rfl

theorem accepts_readPod : Accepts (readPod Binary64) skimWord writePod fun _ => [] :=
  accepts_readU64.map (fun _ => rfl) fun _ => rfl

theorem accepts_readId (d : Domain) : Accepts (readId d) skimWord writeId fun _ => [] :=
  accepts_readU64.map (fun _ => rfl) fun _ => rfl

theorem accepts_readGen (d : Domain) : Accepts (readGen d) skimWord writeGen fun _ => [] :=
  accepts_readU64.map (fun _ => rfl) fun _ => rfl

theorem accepts_readI64Of (valid : Int64 → Bool) :
    Accepts (readI64Of valid) skimWord writeI64 fun _ => [] :=
  accepts_readI64.decoded (fun _ _ => rfl) fun _ _ => rfl

theorem accepts_readPodOf (valid : Binary64 → Bool) :
    Accepts (readPodOf Binary64 valid) skimWord writePod fun _ => [] :=
  accepts_readPod.decoded (fun _ _ => rfl) fun _ _ => rfl

/-- The byte of an enumerator that was read is written back. -/
theorem writeEnum_ofCode {E : Type} [ByteEnum E] [ByteEnumFull E] {n : Nat}
    (h : n ≤ ByteEnum.last E) : writeEnum (ByteEnum.ofCode n : E) = leBytes 1 n := by
  rw [writeEnum, ByteEnumFull.code_ofCode n h]
  rfl

theorem accepts_readEnum {E : Type} [ByteEnum E] [ByteEnumFull E] :
    Accepts (readEnum E) skimEnum writeEnum fun _ => [] :=
  (Skims.readLE 1).decoded (fun _ h => writeEnum_ofCode (of_decide_eq_true h)) fun _ _ => rfl

/-- The byte of an action is reported. -/
theorem accepts_readAction :
    Accepts (readEnum EnforcementAction) skimAction writeEnum writeEnum := by
  intro bs a rest ha
  refine ⟨writeEnum a, [.action (UInt8.ofNat (ByteEnum.code a))], ?_, ?_⟩
  · rw [accepts_readEnum.plain ha]
    exact run_note _ rest
  · exact ⟨accepts_readEnum.plain ha, rfl, by simp [Mark.canonical], rfl⟩

theorem accepts_readString : Accepts readString skimString writeString fun _ => [] := by
  intro bs s rest hs
  obtain ⟨len, mid, hlen, hmid⟩ := of_run_bind hs
  obtain ⟨u, mid', hcheck, htake⟩ := of_run_bind hmid
  obtain ⟨_, rfl⟩ := of_run_check hcheck
  obtain ⟨rfl, hsize⟩ := of_run_take htake
  have hwritten : writeU64 len ++ s = writeString s := by
    rw [writeString, hsize, UInt64.ofNat_toNat]
  refine ⟨writeU64 len ++ s, [], ?_, .plain ?_ hwritten⟩
  · rw [skimString, run_bind hlen]
    exact run_skip hsize
  · rw [accepts_readU64.plain hlen, List.append_assoc]

theorem accepts_readValue : Accepts (readValue Binary64) skimValue writeValue fun _ => [] := by
  refine .of_finishes (.bind accepts_readU8 fun tag => ?_)
  have htag {n : Nat} (h : tag.toNat = n) : tag = UInt8.ofNat n := by
    rw [← h, UInt8.ofNat_toNat]
  split
  case h_13 =>
    intro bs v rest h
    cases h
  all_goals
    rename_i h
    rw [htag h]
    first
      | exact .map accepts_readI64 (fun _ => rfl) fun _ => rfl
      | exact .map (accepts_readI64Of _) (fun _ => rfl) fun _ => rfl
      | exact .map (accepts_readPodOf _) (fun _ => rfl) fun _ => rfl

/-- **The lenient reader**: an optional value behind a presence byte of `0`, or of anything else
    for a value that is there. -/
theorem accepts_readOption {α : Type} {r : Reader α} {s : Reader (List Mark)} {w : α → Bytes}
    (h : Accepts r s w fun _ => []) :
    Accepts (readOption r) (skimOption s) (writeOption w) fun _ => [] := by
  intro bs x rest hx
  obtain ⟨has, mid, hhas, hmid⟩ := of_run_bind hx
  obtain ⟨b, hb, rfl⟩ := of_run_map hhas
  have hsplit := accepts_readU8.plain hb
  by_cases hzero : b = 0
  · subst hzero
    cases hmid
    refine ⟨[0], [.presence 0], ?_, hsplit, rfl, by simp [Mark.canonical, writeOption, writeBool],
      rfl⟩
    rw [skimOption, run_bind hb]
    rfl
  · have hne : (b != 0) = true := by simpa using hzero
    rw [hne] at hmid
    obtain ⟨a, ha, rfl⟩ := of_run_map hmid
    obtain ⟨pre, marks, hs, hsurvey⟩ := h mid a rest ha
    have hone : b ≤ 1 ↔ b = 1 := by
      have hpos : b.toNat ≠ 0 := fun hb0 => hzero (UInt8.toNat_inj.mp hb0)
      rw [UInt8.le_iff_toNat_le, ← UInt8.toNat_inj]
      show b.toNat ≤ 1 ↔ b.toNat = 1
      omega
    refine ⟨b :: pre, .presence b :: marks, ?_, ?_, ?_, ?_, ?_⟩
    · rw [skimOption, run_bind hb, hne]
      simp [hs]
    · rw [hsplit, hsurvey.split]
      rfl
    · simp [writeOption, writeBool, hsurvey.length]
    · have hcons : b :: pre = writeOption w (some a) ↔ b = 1 ∧ pre = w a := by
        simp [writeOption, writeBool]
      rw [hcons, hsurvey.exact, List.forall_mem_cons, Mark.canonical, hone]
    · exact hsurvey.values

/-- A list behind its length. -/
theorem accepts_readList {α : Type} {r : Reader α} {s : Reader (List Mark)} {w : α → Bytes}
    {e : α → List UInt8} (h : Accepts r s w e) :
    Accepts (readCount >>= readList r) (skimList s) (writeList w) fun l => l.flatMap e := by
  intro bs l rest hl
  obtain ⟨n, mid, hn, hlist⟩ := of_run_bind hl
  obtain ⟨word, mid', hword, hcheck⟩ := of_run_bind hn
  obtain ⟨u, mid'', hu, hpure⟩ := of_run_bind hcheck
  obtain ⟨_, rfl⟩ := of_run_check hu
  cases hpure
  obtain ⟨hlen, pre, marks, hs, hsurvey⟩ := h.list word.toNat mid l rest hlist
  have hcount : writeU64 word = writeU64 (UInt64.ofNat l.length) := by
    rw [hlen, UInt64.ofNat_toNat]
  have hplain : Survey Mark.canonical Mark.action? bs (writeU64 word) mid [] _ [] :=
    .plain (accepts_readU64.plain hword) hcount
  refine ⟨_, _, ?_, hplain.append hsurvey⟩
  rw [skimList, run_bind hword, hs]
  rfl

/-! ## 3. Records -/

/-- The bytes of the actions of a record. -/
def receiptActions (rc : EnforcementReceipt) : List UInt8 := writeEnum rc.action

def evalActions (e : EvaluationRecord) : List UInt8 := writeEnum e.selectedAction

theorem accepts_policy : Accepts decodePolicy skimPolicy encodePolicy fun _ => [] := by
  unfold decodePolicy
  refine .of_finishes (.bind (accepts_readId _) fun id => .bind (accepts_readGen _) fun gen => ?_)
  refine .bind accepts_readEnum fun mode => .bind accepts_readEnum fun tieBreak => ?_
  refine .bind accepts_readString fun name => .bind accepts_readString fun description => ?_
  exact .pure rfl rfl

theorem accepts_receipt : Accepts decodeReceipt skimReceipt encodeReceipt receiptActions := by
  unfold decodeReceipt
  refine .of_finishes (.bind (accepts_readId _) fun id => .bind (accepts_readGen _) fun gen => ?_)
  refine .bind accepts_readAction fun action => .bind accepts_readEnum fun lifecycle => ?_
  refine .bind (accepts_readGen _) fun epoch => .bind (accepts_readGen _) fun contractGen => ?_
  refine .bind (accepts_readGen _) fun policyGen => .bind (accepts_readId _) fun evaluationId => ?_
  refine .bind (accepts_readGen _) fun evaluationGen => ?_
  refine .bind (accepts_readGen _) fun workloadGen => .bind (accepts_readId _) fun service => ?_
  refine .bind (accepts_readId _) fun workload => .bind (accepts_readId _) fun objectiveId => ?_
  refine .bind (accepts_readGen _) fun objectiveGen => .bind accepts_readString fun reason => ?_
  exact .pure rfl rfl

theorem accepts_objstate : Accepts decodeObjstate skimObjstate encodeObjstate fun _ => [] := by
  unfold decodeObjstate
  refine .of_finishes (.bind (accepts_readId _) fun id => .bind (accepts_readGen _) fun gen => ?_)
  refine .bind (accepts_readI64Of _) fun total => .bind (accepts_readI64Of _) fun consumed => ?_
  refine .bind accepts_readI64 fun window => .bind accepts_readI64 fun windowStart => ?_
  refine .bind accepts_readEnum fun lastState => .bind accepts_readI64 fun lastStateTime => ?_
  exact .bind accepts_readI64 fun cooldownUntil => .pure rfl rfl

theorem accepts_eval : Accepts decodeEval skimEval encodeEval evalActions := by
  unfold decodeEval
  refine .of_finishes (.bind (accepts_readId _) fun evaluationId => ?_)
  refine .bind (accepts_readGen _) fun evaluationGen => ?_
  refine .bind (accepts_readGen _) fun contractGen => .bind (accepts_readGen _) fun policyGen => ?_
  refine .bind (accepts_readGen _) fun evidenceGen => .bind (accepts_readGen _) fun epoch => ?_
  refine .bind accepts_readI64 fun time => .bind accepts_readEnum fun compliance => ?_
  refine .bind accepts_readEnum fun dimension => .bind (accepts_readId _) fun objective => ?_
  exact .bind accepts_readAction fun action => .bind accepts_readU64 fun digest => .pure rfl rfl

theorem accepts_objective :
    Accepts (decodeObjective Binary64) skimObjective encodeObjective fun _ => [] := by
  unfold decodeObjective
  refine .of_finishes (.bind (accepts_readId _) fun id => .bind (accepts_readGen _) fun gen => ?_)
  refine .bind accepts_readString fun name => .bind accepts_readEnum fun dim => ?_
  refine .bind accepts_readEnum fun kind => .bind accepts_readEnum fun comparison => ?_
  refine .bind accepts_readEnum fun hardSoft => .bind accepts_readEnum fun enforcement => ?_
  refine .bind accepts_readValue fun target => ?_
  refine .bind (accepts_readOption accepts_readValue) fun breachThreshold => ?_
  refine .bind (accepts_readOption accepts_readValue) fun recoveryThreshold => ?_
  refine .bind (accepts_readI64Of _) fun minEvidence => ?_
  refine .bind (accepts_readPodOf _) fun allowedUncertainty => ?_
  refine .bind (accepts_readI64Of _) fun freshnessTtl => .bind accepts_readI64 fun gracePeriod => ?_
  refine .bind accepts_readEnum fun windowType => .bind accepts_readI64 fun windowDuration => ?_
  refine .bind (accepts_readI64Of _) fun windowCount => .bind accepts_readI32 fun priority => ?_
  refine .bind (accepts_readPodOf _) fun percentileRank => ?_
  refine .bind accepts_readEnum fun availabilityMode => .bind accepts_readEnum fun rateTag => ?_
  exact .check fun _ => .pure rfl rfl

/-- Read a list behind its length and go on. -/
theorem finishes_list {α β : Type} {r : Reader α} {s t : Reader (List Mark)} {w : α → Bytes}
    {e : α → List UInt8} {f : List α → Reader β} {W : β → Bytes} {E : β → List UInt8} {c : Bytes}
    {v : List UInt8} (h : Accepts r s w e)
    (hf : ∀ l, Finishes Mark.canonical Mark.action? (f l) t W E (c ++ writeList w l)
      (v ++ l.flatMap e)) :
    Finishes Mark.canonical Mark.action? (do let n ← readCount; let l ← readList r n; f l)
      (both (skimList s) t) W E c v := by
  have hbind : (do let n ← readCount; let l ← readList r n; f l) =
      (readCount >>= readList r) >>= f := (bind_assoc _ _ _).symm
  rw [hbind]
  exact .bind (accepts_readList h) hf

theorem accepts_contract :
    Accepts (decodeContract Binary64) skimContract encodeContract fun _ => [] := by
  unfold decodeContract
  refine .of_finishes (.bind (accepts_readId _) fun id => .bind (accepts_readGen _) fun gen => ?_)
  refine .bind (accepts_readId _) fun service => .bind (accepts_readId _) fun workload => ?_
  refine .bind (accepts_readId _) fun tenant => finishes_list accepts_objective fun objectives => ?_
  refine .bind (accepts_readId _) fun policyId => .bind (accepts_readGen _) fun policyGen => ?_
  refine .bind accepts_readI64 fun effectiveFrom => ?_
  refine .bind (accepts_readOption accepts_readI64) fun expiration => ?_
  refine .bind (accepts_readGen _) fun epoch => .bind accepts_readEnum fun lifecycle => ?_
  refine .bind accepts_readString fun name => .bind accepts_readString fun provenance => ?_
  exact .pure rfl (by simp)

/-- The bytes of the actions of a state, in the order they are stored. -/
def stateActions (state : DurableState Binary64) : List UInt8 :=
  state.enforcementHistory.flatMap receiptActions ++ state.evaluationHistory.flatMap evalActions

theorem accepts_state :
    Accepts (readState Binary64) skimState serializeState stateActions := by
  unfold readState
  refine .of_finishes (.bind accepts_readU32 fun magic => .check fun hmagic => ?_)
  refine .bind accepts_readU32 fun version => .check fun hversion => ?_
  rw [eq_of_beq hmagic, eq_of_beq hversion]
  refine .bind (accepts_readGen _) fun epoch => ?_
  refine finishes_list accepts_policy fun policies => ?_
  refine finishes_list accepts_contract fun contracts => ?_
  refine finishes_list accepts_objstate fun objectiveStates => ?_
  refine finishes_list accepts_receipt fun receipts => finishes_list accepts_eval fun evals => ?_
  have hnil {α : Type} (l : List α) : l.flatMap (fun _ => ([] : List UInt8)) = [] := by simp
  exact .pure rfl (by rw [hnil, hnil, hnil]; rfl)

/-! ## 4. The encoding -/

/-- **What `deserialize_state` accepts**: as many bytes as the state is written in, exactly those
    when all presence bytes are canonical, with the actions of the state. -/
theorem deserializeState_survey {b : Bytes} {state : DurableState Binary64}
    (h : deserializeState Binary64 b = .ok state) :
    b.length = (serializeState state).length ∧
      (b = serializeState state ↔ ∀ x ∈ presenceBytes b, x ≤ 1) ∧
      actionBytes b = stateActions state := by
  obtain ⟨pre, marks, hs, hsurvey⟩ := accepts_state b state [] (deserializeState_ok.mp h).2
  have hpre : b = pre := by rw [hsurvey.split, List.append_nil]
  have hmarks : marksOf b = marks := by rw [marksOf, hs]; rfl
  rw [presenceBytes, actionBytes, hmarks]
  refine ⟨hpre ▸ hsurvey.length, ?_, hsurvey.values⟩
  conv => lhs; rw [hpre]
  rw [hsurvey.exact]
  constructor
  · intro hgood x hx
    obtain ⟨m, hm, hmx⟩ := List.mem_filterMap.mp hx
    cases m with
    | presence y => cases hmx; exact hgood _ hm
    | action y => cases hmx
  · intro hle m hm
    cases m with
    | presence y => exact hle y (List.mem_filterMap.mpr ⟨_, hm, rfl⟩)
    | action y => exact trivial

/-- **An accepted byte string is written back as it was read** if and only if all its presence
    bytes are `0` or `1`. -/
theorem canonical_iff {b : Bytes} {state : DurableState Binary64}
    (h : deserializeState Binary64 b = .ok state) :
    serializeState state = b ↔ ∀ x ∈ presenceBytes b, x ≤ 1 :=
  eq_comm.trans (deserializeState_survey h).2.1

/-- A state of one contract that ends at time `5`. -/
def endingState : DurableState Binary64 :=
  { epoch := ⟨1⟩, policies := [], objectiveStates := [], enforcementHistory := []
    evaluationHistory := []
    contracts := [{ id := ⟨1⟩, gen := ⟨1⟩, service := ⟨1⟩, workload := ⟨1⟩, objectives := []
                    policyId := ⟨1⟩, policyGen := ⟨1⟩, expiration := some 5 }] }

/-- Its encoding, with another byte where it says that there is an expiration. -/
def endingBytes (presence : UInt8) : Bytes := (serializeState endingState).set 104 presence

theorem canonical_iff_small :
    serializeState endingState = endingBytes 1 ↔ ∀ x ∈ presenceBytes (endingBytes 1), x ≤ 1 :=
  canonical_iff (by decide +kernel)

/-- Two encodings of one state: a presence byte of `2` is read like a `1`. -/
theorem canonical_fails :
    deserializeState Binary64 (endingBytes 2) = .ok endingState ∧
      deserializeState Binary64 (endingBytes 1) = .ok endingState ∧
      serializeState endingState ≠ endingBytes 2 := by
  decide +kernel

end SloFabric
