import GasAnalyzer.Core.Encoding
import GasAnalyzer.Core.Trace

/-!
# Heuristic estimates

`estimateGasFromStateUpdates` prices an extracted program for the reports. `extractOperationCountsFromTrace` is the
fallback, which builds no state updates: it follows the depth of the trace between the root's frame and the frames
it opens, and counts what the gas of the external calls does not cover.
-/

namespace GasAnalyzer

def baseTxCost : UInt64 := 21000
def maxRefundQuotient : UInt64 := 5
def calldataZeroByteCost : UInt64 := 4
def calldataNonzeroByteCost : UInt64 := 16
def logBaseCost : UInt64 := 375
def logTopicCost : UInt64 := 375
def logDataCostPerByte : UInt64 := 8

/-! ### Programs -/

def calldataGas (data : Bytes) : UInt64 :=
  (data.map fun b => if b = 0 then calldataZeroByteCost else calldataNonzeroByteCost).sum

/-- Net EIP-3529 refunds out of a gross estimate. -/
def applyRefund (gross refundCounter : UInt64) : UInt64 := gross - min refundCounter (gross / maxRefundQuotient)

/-- What one update adds. Writes, calls and creates are in the totals of the trace, and a nested frame's replay is
estimated with its own program. -/
def reportedGas : StateUpdate → UInt64
  | .store _ | .call _ | .nested _ => 0
  | .log0 data => logBaseCost + UInt64.ofNat data.length * logDataCostPerByte
  | .log1 data _ => logBaseCost + logTopicCost + UInt64.ofNat data.length * logDataCostPerByte
  | .log2 data _ _ => logBaseCost + logTopicCost * 2 + UInt64.ofNat data.length * logDataCostPerByte
  | .log3 data _ _ _ => logBaseCost + logTopicCost * 3 + UInt64.ofNat data.length * logDataCostPerByte
  | .log4 data _ _ _ _ => logBaseCost + logTopicCost * 4 + UInt64.ofNat data.length * logDataCostPerByte
  | .create _ _ | .create2 _ _ _ => 0

/-- Estimate gas from a trace extraction using heuristic costs. -/
def estimateGasFromStateUpdates (extract : TraceExtract) : UInt64 :=
  let gas := baseTxCost + calldataGas (encodeStateUpdatesToAbi extract.stateUpdates)
  let gas := gas + extract.callGasTotal + extract.createGasTotal + extract.sstoreGasTotal
  let gas := extract.stateUpdates.foldl (fun gas update => gas + reportedGas update) gas
  applyRefund gas extract.refundCounter

/-! ### The fallback counter -/

/-- Operations and gas data extracted from a trace -/
structure TraceOperations where
  sstoreGasTotal : UInt64 := 0
  /-- `LOG0` to `LOG4` -/
  logCounts : Fin 5 → UInt64 := fun _ => 0
  externalCallGas : UInt64 := 0
  refundCounter : UInt64 := 0

/-- Which of the five counters a `LOG` step is counted in. -/
def Opcode.logIndex : Opcode → Option (Fin 5)
  | log0 => some 0
  | log1 => some 1
  | log2 => some 2
  | log3 => some 3
  | log4 => some 4
  | _ => none

inductive CallType where
  | call | delegatecall
  deriving DecidableEq

/-- The loop state. Of the source's map from depths to call types only the entry of depth 2 is ever written or
read. -/
structure Counting where
  operations : TraceOperations := {}
  gasAfterCallOpcode : Option UInt64 := none
  previousDepth : UInt64 := 0
  inExternalCall : Bool := false
  callTypeAtDepth2 : Option CallType := none
  currentCallType : Option CallType := none

namespace Counting

/-- The call being executed is over, with `gas` left. -/
def accountCall (gas : UInt64) (s : Counting) : TraceOperations :=
  match s.gasAfterCallOpcode with
  | some gasAfterOpcode =>
    if s.callTypeAtDepth2 = some .call ∨ s.callTypeAtDepth2 = some .delegatecall then
      { s.operations with externalCallGas := s.operations.externalCallGas + satSub gasAfterOpcode gas }
    else s.operations
  | none => s.operations

/-- Enters or leaves an external call as the depth goes from 1 to 2 or back. -/
def crossDepth (log : StructLog) (s : Counting) : Counting :=
  if log.depth = 1 ∧ s.previousDepth = 2 then
    if s.inExternalCall then
      { s with
        operations := s.accountCall log.gas
        inExternalCall := false
        gasAfterCallOpcode := none
        callTypeAtDepth2 := none
        currentCallType := none }
    else s
  else if log.depth = 2 ∧ s.previousDepth = 1 then
    { s with
      callTypeAtDepth2 := s.currentCallType.or s.callTypeAtDepth2
      inExternalCall := true }
  else s

/-- Notes the call a step makes: at depth 1, or at depth 2 in a `DELEGATECALL`. -/
def noteCall (log : StructLog) (s : Counting) : Counting :=
  let s := if log.op = .call ∧ log.depth = 1 then
      { s with gasAfterCallOpcode := some log.gas, currentCallType := some .call }
    else s
  let s := if log.op.isDelegate ∧ log.depth = 1 then { s with currentCallType := some .delegatecall } else s
  if log.op = .call ∧ log.depth = 2 ∧ s.callTypeAtDepth2 = some .delegatecall then
    { s with gasAfterCallOpcode := some log.gas }
  else s

/-- Whether the gas of the external calls leaves a step of this depth out. -/
def countedSeparately (log : StructLog) (s : Counting) : Prop :=
  log.depth = 1 ∨ (log.depth = 2 ∧ s.callTypeAtDepth2 = some .delegatecall)

instance (log : StructLog) (s : Counting) : Decidable (s.countedSeparately log) :=
  inferInstanceAs (Decidable (_ ∨ _))

def countOp (log : StructLog) (operations : TraceOperations) : TraceOperations :=
  match log.op.logIndex with
  | some i =>
    { operations with logCounts := Function.update operations.logCounts i (operations.logCounts i + 1) }
  | none =>
    if log.op = .sstore then
      { operations with sstoreGasTotal := operations.sstoreGasTotal + log.gasCost }
    else operations

/-- One iteration of the loop. -/
def step (log : StructLog) (s : Counting) : Counting :=
  let s := (s.crossDepth log).noteCall log
  { s with
    operations := if s.countedSeparately log then countOp log s.operations else s.operations
    previousDepth := log.depth }

def run (logs : List StructLog) (s : Counting) : Counting := logs.foldl (fun s log => s.step log) s

end Counting

/-- Extract operations and gas usage from a trace. -/
def extractOperationCountsFromTrace (trace : DefaultFrame) : TraceOperations :=
  let refundCounter := (trace.structLogs.getLast?.bind StructLog.refundCounter).getD 0
  let s := Counting.run trace.structLogs { operations := { refundCounter } }
  -- Still in an external call at the end.
  match trace.structLogs.getLast? with
  | some lastLog => if s.inExternalCall then s.accountCall lastLog.gas else s.operations
  | none => s.operations

end GasAnalyzer
