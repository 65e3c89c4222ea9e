import GasAnalyzer.Core.Candidates
import GasAnalyzer.Core.Encoding

/-!
# Simulation profiles

The unbounded profile lifts the gas limits of the simulation and bounds the cost of applying what it
extracts: `estimateAppliedPayloadGas` prices a payload and `validate` refuses one over the budget.
-/

namespace GasAnalyzer

def turetzkyUpperGasLimitBls : UInt64 := 250000
def turetzkyUpperGasLimitSchnorr : UInt64 := 50000

inductive SignatureType where
  | bls
  | schnorr
  deriving DecidableEq

def SignatureType.turetzkyUpperGasLimit : SignatureType → UInt64
  | bls => turetzkyUpperGasLimitBls
  | schnorr => turetzkyUpperGasLimitSchnorr

/-- EIP-7825's per-transaction gas cap, `1 << 24`. -/
def unboundedPayloadGasBudget : UInt64 := UInt64.ofNat (2 ^ 24)

inductive SimProfile where
  | chain
  | unbounded
  deriving DecidableEq

/-- The ceiling a profile places on the on-chain cost of the extracted payload, if any. -/
def SimProfile.payloadGasBudget : SimProfile → Option UInt64
  | chain => none
  | unbounded => some unboundedPayloadGasBudget

/-! ### Prices -/

def coldSload : UInt64 := 2100
def sstoreSet : UInt64 := 20000
def unboundedColdSstoreCost : UInt64 := coldSload + sstoreSet
def logBase : UInt64 := 375
def logTopic : UInt64 := 375
def logByte : UInt64 := 8
def txBase : UInt64 := 21000
def calldataZeroByte : UInt64 := 4
def calldataNonzeroByte : UInt64 := 16
def calldataFloorToken : UInt64 := 10
def calldataFloorNonzeroTokens : UInt64 := 4
def unboundedApplyBaseGas : UInt64 := 2000
def unboundedApplyGasPerPayloadByte : UInt64 := 14

def logGas (topics : UInt64) (data : Bytes) : UInt64 :=
  logBase + logTopic * topics + UInt64.ofNat data.length * logByte

/-- What one op costs to apply. Calls and creates are charged at their measured gas instead. -/
def applyGas : StateUpdate → UInt64
  | .store _ => unboundedColdSstoreCost
  | .call _ | .nested _ => 0
  | .log0 data => logGas 0 data
  | .log1 data _ => logGas 1 data
  | .log2 data _ _ => logGas 2 data
  | .log3 data _ _ _ => logGas 3 data
  | .log4 data _ _ _ _ => logGas 4 data
  | .create _ _ | .create2 _ _ _ => 0

/-- Upper bound on the gas required to apply `updates` on-chain. -/
def estimateAppliedPayloadGas (updates : List StateUpdate) (externalCallGas signatureFloor : UInt64) : UInt64 :=
  let gas := satAdd (satAdd (satAdd txBase signatureFloor) externalCallGas) unboundedApplyBaseGas
  let gas := updates.foldl (fun gas update => satAdd gas (applyGas update)) gas
  let payload := encodeStateUpdatesToAbi updates
  let gas := satAdd gas (satMul (UInt64.ofNat payload.length) unboundedApplyGasPerPayloadByte)
  let zeroBytes := UInt64.ofNat (payload.filter (· == 0)).length
  let nonzeroBytes := UInt64.ofNat payload.length - zeroBytes
  let transport := satAdd (satMul zeroBytes calldataZeroByte) (satMul nonzeroBytes calldataNonzeroByte)
  let tokens := satAdd zeroBytes (satMul nonzeroBytes calldataFloorNonzeroTokens)
  let floor := satAdd txBase (satMul tokens calldataFloorToken)
  max (satAdd gas transport) floor

/-! ### The gate -/

structure UnboundedCost where
  stores : Nat := 0
  trackerStores : Nat := 0
  calls : Nat := 0
  logs : Nat := 0
  creates : Nat := 0
  appliedGasUpperBound : UInt64 := 0
  deriving DecidableEq

inductive UnboundedCostViolation where
  | payloadTooExpensive (estimated budget : UInt64) (stores : Nat)
  | createNotAllowed (index : Nat)
  deriving DecidableEq

def UnboundedCostViolation.message : UnboundedCostViolation → String
  | payloadTooExpensive estimated budget stores =>
    "unbounded payload costs up to " ++ toString estimated ++ " gas to apply, over the " ++
      toString budget ++ " budget (" ++ toString stores ++
      " storage writes); reduce the state each transition touches or commit it into fewer slots"
  | createNotAllowed index =>
    "unbounded profile does not allow CREATE/CREATE2 (update #" ++ toString index ++
      "): a net diff cannot reconstruct replayable initcode"

/-- Counts one update; a create is refused unless its initcode can be replayed. -/
def UnboundedCost.count (createsReplayable : Bool) (index : Nat) (cost : UnboundedCost) :
    StateUpdate → Except UnboundedCostViolation UnboundedCost
  | .store s =>
    if s.slot = stateTrackerSlot then .ok { cost with trackerStores := cost.trackerStores + 1 }
    else .ok { cost with stores := cost.stores + 1 }
  | .call _ | .nested _ => .ok { cost with calls := cost.calls + 1 }
  | .log0 _ | .log1 _ _ | .log2 _ _ _ | .log3 _ _ _ _ | .log4 _ _ _ _ _ =>
    .ok { cost with logs := cost.logs + 1 }
  | .create _ _ | .create2 _ _ _ =>
    if createsReplayable then .ok { cost with creates := cost.creates + 1 }
    else .error (.createNotAllowed index)

def countUpdates (createsReplayable : Bool) : List StateUpdate → Nat → UnboundedCost →
    Except UnboundedCostViolation UnboundedCost
  | [], _, cost => .ok cost
  | update :: rest, index, cost => do
    let cost ← cost.count createsReplayable index update
    countUpdates createsReplayable rest (index + 1) cost

def validate (updates : List StateUpdate) (replayedGas : UInt64) (createsReplayable : Bool)
    (signatureFloor budget : UInt64) : Except UnboundedCostViolation UnboundedCost := do
  let cost ← countUpdates createsReplayable updates 0 {}
  let cost := { cost with
    appliedGasUpperBound := estimateAppliedPayloadGas updates replayedGas signatureFloor }
  if budget < cost.appliedGasUpperBound then
    .error (.payloadTooExpensive cost.appliedGasUpperBound budget cost.stores)
  else .ok cost

/-- Applying the updates must cost no more than `budget`, and must not create contracts. -/
def validateUnboundedCost (updates : List StateUpdate) (externalCallGas signatureFloor budget : UInt64) :
    Except UnboundedCostViolation UnboundedCost :=
  validate updates externalCallGas false signatureFloor budget

/-- The same for every frame of a nested tree together, whose creates carry their initcode. -/
def validateUnboundedTreeCost (updates : List StateUpdate)
    (externalCallGas createGas signatureFloor budget : UInt64) :
    Except UnboundedCostViolation UnboundedCost :=
  validate updates (satAdd externalCallGas createGas) true signatureFloor budget

end GasAnalyzer
