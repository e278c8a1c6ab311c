import BeaconHarness.Datum.Arithmetic
import BeaconHarness.Datum.Reading
import BeaconHarness.Network.Spec

/-!
# Time and forks of a network

Slots and epochs follow from the genesis time by division, the fork of an epoch from the fork
epochs: it is the last fork, in activation order, whose epoch has come. The schedule may put forks
into one epoch, leave them out, or name their epochs out of order.

Divisions round down, and a length of zero is a failure rather than a value.

Main statement: a slot lies in an epoch exactly when it is not before the epoch's first slot and
before that of the next one (`slotToEpoch_eq_ok_iff`).
-/

namespace BeaconHarness.Spec

/-- The epoch of a slot. -/
def slotToEpoch (s : Spec) (slot : Int) : Except Failure Datum :=
  Datum.floorDivide slot s.slotsPerEpoch

/-- The first slot of an epoch. -/
def epochStartSlot (s : Spec) (epoch : Int) : Except Failure Datum :=
  Datum.times epoch s.slotsPerEpoch

/-- The slot at a time; the genesis slot before genesis. -/
def timeToSlot (s : Spec) (time genesisTime : Datum) : Except Failure Datum := do
  if ← time.isBelow genesisTime then return .int Preset.genesisSlot
  else
    let time ← time.plainInteger
    let genesisTime ← genesisTime.plainInteger
    Datum.plus Preset.genesisSlot (← Datum.floorDivide (time - genesisTime) s.secondsPerSlot)

/-- The epoch from which a fork is active; the first fork always is. -/
def forkEpoch? (s : Spec) : Fork → Option Datum
  | .phase0 => none
  | .altair => some s.altairForkEpoch
  | .bellatrix => some s.bellatrixForkEpoch
  | .capella => some s.capellaForkEpoch
  | .deneb => some s.denebForkEpoch

/-- Whether a fork's epoch has come. -/
def isScheduled (s : Spec) (epoch : Datum) (f : Fork) : Except Failure Bool :=
  match s.forkEpoch? f with
  | none => .ok true
  | some e => e.isAtMost epoch

/-- The last of some forks whose epoch has come; `active` if none has. -/
def lastScheduled (s : Spec) (epoch : Datum) (active : Fork) : List Fork → Except Failure Fork
  | [] => .ok active
  | f :: rest =>
    match s.isScheduled epoch f with
    | .error e => .error e
    | .ok scheduled => s.lastScheduled epoch (if scheduled then f else active) rest

/-- The fork that is active in an epoch. -/
def forkAtEpoch (s : Spec) (epoch : Datum) : Except Failure Fork :=
  s.lastScheduled epoch .phase0 Fork.all

/-- The version of a fork. -/
def forkVersion (s : Spec) : Fork → Datum
  | .phase0 => s.genesisForkVersion
  | .altair => s.altairForkVersion
  | .bellatrix => s.bellatrixForkVersion
  | .capella => s.capellaForkVersion
  | .deneb => s.denebForkVersion

/-- The version of the fork that is active in an epoch. -/
def forkVersionAtEpoch (s : Spec) (epoch : Datum) : Except Failure Datum :=
  (s.forkAtEpoch epoch).map s.forkVersion

/-! ## Laws -/

/-- A quotient rounded down is the one whole number of lengths that has begun but not ended. -/
theorem fdiv_eq_iff {n d q : Int} (h : 0 < d) : n.fdiv d = q ↔ q * d ≤ n ∧ n < (q + 1) * d := by
  rw [Int.fdiv_eq_ediv_of_nonneg n (Int.le_of_lt h), ← Int.le_ediv_iff_mul_le h,
    ← Int.ediv_lt_iff_lt_mul h]
  omega

/-- A slot lies in the epoch whose first slot has come and whose successor's has not. -/
theorem slotToEpoch_eq_ok_iff {s : Spec} {slot epoch length : Int}
    (hlength : s.slotsPerEpoch = .int length) (h : 0 < length) :
    s.slotToEpoch slot = .ok (.int epoch) ↔
      ∃ first next, s.epochStartSlot epoch = .ok (.int first)
        ∧ s.epochStartSlot (epoch + 1) = .ok (.int next) ∧ first ≤ slot ∧ slot < next := by
  have hd : length ≠ 0 := by omega
  simp [slotToEpoch, epochStartSlot, hlength, hd, fdiv_eq_iff h]

end BeaconHarness.Spec
