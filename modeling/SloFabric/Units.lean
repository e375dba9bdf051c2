/-
  File:      SloFabric/Units.lean
  Subject:   Status codes, typed identities and generations, and units of measurement.

  * `Status` and its constructors: what every operation of the fabric answers;
  * `Id d`, `Gen d`: a 64-bit identity or generation of the domain `d`; identities of
    different domains are different types, and `0` means "not set";
  * `Double R`: the operations of the source's `double` over a number type `R`. The model is
    generic in `R`; `Binary64` is the instance the code runs on;
  * `castable`, `toInt64`: the doubles that have a cast to 64 bits, and the cast; of the others the
    platform makes what it will;
  * `ObjectiveValue R`: the tagged union of units, with `unitKindOf` and `numericOf`.

  Times, durations and counts are the source's `int64_t`, i.e. `Int64`.
-/
import SloFabric.Library.Binary64
import Mathlib.Order.Basic
import Mathlib.Data.Nat.Basic

namespace SloFabric

/-! ## 1. Status -/

inductive StatusCode where
  | ok | invalidInput | staleAuthority | staleEvidence | insufficientEvidence | unitMismatch
  | contractInactive | policySuperseded | objectiveInvalid | persistenceCorrupt | protocolError
  | resourceExhausted | enforcementFailed | outcomeUnknown | cancelled | shuttingDown | notReady
  | notFound | internal
  deriving DecidableEq, Repr

structure Status where
  code : StatusCode
  message : String
  deriving DecidableEq, Repr

def Status.isOk (s : Status) : Bool := s.code == .ok

def ok : Status := ⟨.ok, ""⟩
def invalidInput (m : String) : Status := ⟨.invalidInput, m⟩
def staleAuthority (m : String) : Status := ⟨.staleAuthority, m⟩
def staleEvidence (m : String) : Status := ⟨.staleEvidence, m⟩
def unitMismatch (m : String) : Status := ⟨.unitMismatch, m⟩
def contractInactive (m : String) : Status := ⟨.contractInactive, m⟩
def policySuperseded (m : String) : Status := ⟨.policySuperseded, m⟩
def objectiveInvalid (m : String) : Status := ⟨.objectiveInvalid, m⟩
def persistenceCorrupt (m : String) : Status := ⟨.persistenceCorrupt, m⟩
def enforcementFailed (m : String) : Status := ⟨.enforcementFailed, m⟩
def cancelled (m : String) : Status := ⟨.cancelled, m⟩
def notFound (m : String) : Status := ⟨.notFound, m⟩
def notReady (m : String) : Status := ⟨.notReady, m⟩
def internal (m : String) : Status := ⟨.internal, m⟩

@[simp] theorem isOk_ok : ok.isOk = true := rfl

/-! ## 2. Identities and generations -/

/-- The authority domains of identities and generations. -/
inductive Domain where
  | service | workload | tenant | sloContract | objective | policy | evidence | evaluation
  | enforcement | coordinatorEpoch
  deriving DecidableEq, Repr

/-- A 64-bit identity of domain `d`; `0` is "not set". -/
structure Id (d : Domain) where
  value : UInt64
  deriving DecidableEq, Repr

/-- A 64-bit generation of domain `d`; `0` is "unassigned". -/
structure Gen (d : Domain) where
  value : UInt64
  deriving DecidableEq, Repr

variable {d : Domain}

def Id.valid (i : Id d) : Bool := i.value != 0
def Gen.valid (g : Gen d) : Bool := g.value != 0

/-- `value + 1`, unchecked: the largest generation is followed by `0`. -/
def Gen.next (g : Gen d) : Gen d := ⟨g.value + 1⟩

theorem Id.toNat_inj {a b : Id d} (h : a.value.toNat = b.value.toNat) : a = b := by
  cases a; cases b; cases UInt64.toNat_inj.mp h; rfl

theorem Gen.toNat_inj {a b : Gen d} (h : a.value.toNat = b.value.toNat) : a = b := by
  cases a; cases b; cases UInt64.toNat_inj.mp h; rfl

instance : LinearOrder (Id d) := LinearOrder.lift' (fun i => i.value.toNat) fun _ _ => Id.toNat_inj
instance : LinearOrder (Gen d) :=
  LinearOrder.lift' (fun g => g.value.toNat) fun _ _ => Gen.toNat_inj

theorem Gen.lt_iff {a b : Gen d} : a < b ↔ a.value.toNat < b.value.toNat := Iff.rfl
theorem Gen.le_iff {a b : Gen d} : a ≤ b ↔ a.value.toNat ≤ b.value.toNat := Iff.rfl

theorem Gen.next_toNat (g : Gen d) : g.next.value.toNat = (g.value.toNat + 1) % 2 ^ 64 := by
  simp [Gen.next, UInt64.toNat_add]

/-- A generation that passes a check `g.valid() && g != h` is unset or the one expected. -/
theorem Gen.agrees {g h : Gen d} (hg : ¬(g.valid && g != h) = true) : g = ⟨0⟩ ∨ g = h := by
  obtain ⟨v⟩ := g
  by_cases hv : v = 0
  · exact Or.inl (by rw [hv])
  · refine Or.inr ?_
    by_contra hne
    exact hg (by simp [Gen.valid, hv, hne])

/-- Short of the largest value, `next` is the successor. -/
theorem Gen.lt_next {g : Gen d} (h : g.value.toNat + 1 < 2 ^ 64) : g < g.next := by
  rw [Gen.lt_iff, Gen.next_toNat, Nat.mod_eq_of_lt h]
  omega

abbrev ServiceId := Id .service
abbrev WorkloadId := Id .workload
abbrev TenantId := Id .tenant
abbrev SloContractId := Id .sloContract
abbrev ObjectiveId := Id .objective
abbrev PolicyId := Id .policy
abbrev EvidenceId := Id .evidence
abbrev EvaluationId := Id .evaluation
abbrev EnforcementId := Id .enforcement
abbrev WorkloadGen := Gen .workload
abbrev SloContractGen := Gen .sloContract
abbrev ObjectiveGen := Gen .objective
abbrev PolicyGen := Gen .policy
abbrev EvidenceGen := Gen .evidence
abbrev EvaluationGen := Gen .evaluation
abbrev EnforcementGen := Gen .enforcement
abbrev CoordinatorEpoch := Gen .coordinatorEpoch

/-! ## 3. Numbers -/

/-- Nanoseconds. -/
abbrev Duration := Int64

abbrev Count := Int64

/-- A `std::string`: any bytes. -/
abbrev Bytes := List UInt8

/-- The operations of `double` the source uses. `ofRat` is a numeric literal or a converted
    integer, `trunc` the conversion to an integer, `repr` is `std::to_string`; `outOfRange` is what
    the platform makes of a cast to `std::int64_t` that the standard leaves undefined. -/
class Double (R : Type) where
  ofRat : ℚ → R
  add : R → R → R
  sub : R → R → R
  mul : R → R → R
  div : R → R → R
  lt : R → R → Bool
  le : R → R → Bool
  eq : R → R → Bool
  ceil : R → R
  trunc : R → Int
  outOfRange : R → Int64
  repr : R → Bytes

/-- An x86-64 converts what is out of range, and every NaN, to `INT64_MIN`. -/
instance : Double Binary64 where
  ofRat := Binary64.ofRat
  add := Binary64.add
  sub := Binary64.sub
  mul := Binary64.mul
  div := Binary64.div
  lt := Binary64.lt
  le := Binary64.le
  eq := Binary64.eq
  ceil := Binary64.ceil
  trunc := Binary64.trunc
  outOfRange _ := Int64.minValue
  repr := Binary64.fixed 6

variable {R : Type} [Double R]

open Double

/-- `static_cast<double>` of a 64-bit integer. -/
def ofInt64 (i : Int64) : R := ofRat i.toInt

/-- `static_cast<double>` of a size. -/
def ofSize (n : Nat) : R := ofRat n

/-- The doubles whose cast to `std::int64_t` is defined: no NaN, no infinity, no larger ones. -/
def castable (x : R) : Bool := le (ofRat (-2 ^ 63)) x && lt x (ofRat (2 ^ 63))

/-- `static_cast<std::int64_t>` of a double. -/
def toInt64 (x : R) : Int64 := if castable x then Int64.ofInt (trunc x) else outOfRange x

/-! ## 4. Objective values -/

inductive UnitKind where
  | nanoseconds | microseconds | milliseconds | seconds | bytes | kiloBytes | megaBytes
  | gigaBytes | count | basisPoints | percent | pressureRatio | requestsPerSecond
  | tokensPerSecond | bytesPerSecond | operationsPerSecond | currencyMicros | energyJoules
  deriving DecidableEq, Repr

/-- A value with its unit. -/
inductive ObjectiveValue (R : Type) where
  | duration (ns : Int64)
  | byteCount (bytes : Int64)
  | count (v : Int64)
  | basisPoints (bp : Int64)
  | percentage (p : R)
  | pressureRatio (r : R)
  | requestsPerSecond (v : R)
  | tokensPerSecond (v : R)
  | bytesPerSecond (v : R)
  | operationsPerSecond (v : R)
  | costMicros (micros : Int64)
  | energyJoules (joules : Int64)
  deriving DecidableEq

def unitKindOf : ObjectiveValue R → UnitKind
  | .duration _ => .nanoseconds
  | .byteCount _ => .bytes
  | .count _ => .count
  | .basisPoints _ => .basisPoints
  | .percentage _ => .percent
  | .pressureRatio _ => .pressureRatio
  | .requestsPerSecond _ => .requestsPerSecond
  | .tokensPerSecond _ => .tokensPerSecond
  | .bytesPerSecond _ => .bytesPerSecond
  | .operationsPerSecond _ => .operationsPerSecond
  | .costMicros _ => .currencyMicros
  | .energyJoules _ => .energyJoules

/-- The numeric view used for comparisons. -/
def numericOf : ObjectiveValue R → R
  | .duration i | .byteCount i | .count i | .basisPoints i | .costMicros i | .energyJoules i =>
      ofInt64 i
  | .percentage x | .pressureRatio x | .requestsPerSecond x | .tokensPerSecond x
  | .bytesPerSecond x | .operationsPerSecond x => x

/-- `Percentage::is_valid`. -/
def percentageValid (p : R) : Bool := le (ofRat 0) p && le p (ofRat 100)

/-- `PressureRatio::is_valid`. -/
def pressureRatioValid (r : R) : Bool := le (ofRat 0) r && eq r r

/-- `Rate::is_valid`, i.e. `finite_nonneg`. -/
def rateValid (v : R) : Bool := eq v v && le (ofRat 0) v && le v (ofRat (10 ^ 300))

/-- The value of a unit, from a measured number. -/
def makeValue (u : UnitKind) (v : R) : ObjectiveValue R :=
  match u with
  | .nanoseconds => .duration (toInt64 v)
  | .bytes => .byteCount (toInt64 v)
  | .count => .count (toInt64 v)
  | .basisPoints => .basisPoints (toInt64 v)
  | .percent => .percentage v
  | .pressureRatio => .pressureRatio v
  | .requestsPerSecond => .requestsPerSecond v
  | .tokensPerSecond => .tokensPerSecond v
  | .bytesPerSecond => .bytesPerSecond v
  | .operationsPerSecond => .operationsPerSecond v
  | .currencyMicros => .costMicros (toInt64 v)
  | .energyJoules => .energyJoules (toInt64 v)
  | .microseconds => .duration (toInt64 (mul v (ofRat 1000)))
  | .milliseconds => .duration (toInt64 (mul v (ofRat (10 ^ 6))))
  | .seconds => .duration (toInt64 (mul v (ofRat (10 ^ 9))))
  | .kiloBytes => .byteCount (toInt64 (mul v (ofRat 1024)))
  | .megaBytes => .byteCount (toInt64 (mul (mul v (ofRat 1024)) (ofRat 1024)))
  | .gigaBytes =>
      .byteCount (toInt64 (mul (mul (mul v (ofRat 1024)) (ofRat 1024)) (ofRat 1024)))

/-! ## 5. 64-bit arithmetic without overflow -/

theorem toInt_add_of_range {a b : Int64} (h₁ : -2 ^ 63 ≤ a.toInt + b.toInt)
    (h₂ : a.toInt + b.toInt < 2 ^ 63) : (a + b).toInt = a.toInt + b.toInt := by
  rw [Int64.toInt_add]
  exact Int.bmod_eq_of_le (by omega) (by omega)

theorem toInt_sub_of_range {a b : Int64} (h₁ : -2 ^ 63 ≤ a.toInt - b.toInt)
    (h₂ : a.toInt - b.toInt < 2 ^ 63) : (a - b).toInt = a.toInt - b.toInt := by
  rw [Int64.toInt_sub]
  exact Int.bmod_eq_of_le (by omega) (by omega)

end SloFabric
