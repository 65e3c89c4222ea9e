import Mathlib
import GasAnalyzer.Library.OrdMap
import GasAnalyzer.Core.Types

/-!
# Extraction from struct logs

`decodeStructLog` reads one state update off a step; `computeStateUpdates` is the legacy extractor,
a single pass that follows `DELEGATECALL`/`CALLCODE` by moving its target depth and leaves out
everything inside an extracted `CALL`.
-/

namespace GasAnalyzer

/-! ### Memory -/

/-- Copy memory with bounds checking, zero-padding if needed. No vector holds `2 ^ 63` bytes: a longer range
is never covered by `memory`, and allocating it aborts. -/
def copyMemory (memory : Bytes) (offset length : Nat) : Result Bytes :=
  if 2 ^ 63 ≤ length then .error .capacityOverflow
  else if offset + length ≤ memory.length then .ok ((memory.drop offset).take length)
  else if offset < memory.length then
    let copyLen := min (memory.length - offset) length
    .ok ((memory.drop offset).take copyLen ++ List.replicate (length - copyLen) 0)
  else .ok (List.replicate length 0)

def hexDigit (c : Char) : Option Nat :=
  if '0' ≤ c ∧ c ≤ '9' then some (c.toNat - '0'.toNat)
  else if 'a' ≤ c ∧ c ≤ 'f' then some (c.toNat - 'a'.toNat + 10)
  else if 'A' ≤ c ∧ c ≤ 'F' then some (c.toNat - 'A'.toNat + 10)
  else none

def decodeHex : List Char → Option Bytes
  | [] => some []
  | [_] => none
  | hi :: lo :: rest => do
    let hi ← hexDigit hi
    let lo ← hexDigit lo
    let bytes ← decodeHex rest
    some (UInt8.ofNat (16 * hi + lo) :: bytes)

/-- `strip_prefix("0x").unwrap_or(s)` -/
def stripHexMark : List Char → List Char
  | '0' :: 'x' :: rest => rest
  | chars => chars

def parseTraceMemory : List String → Result Bytes
  | [] => .ok []
  | word :: rest => do
    let bytes ← okOr .invalidHex (decodeHex (stripHexMark word.toList))
    let more ← parseTraceMemory rest
    .ok (bytes ++ more)

/-! ### One step -/

/-- Opcodes whose memory `decodeStructLog` reads. -/
def readsMemory : Opcode → Bool
  | .create | .create2 | .call => true
  | op => op.isLog

def toUsize (what : String) (v : U256) : Result Nat :=
  if v.val < 2 ^ 64 then .ok v.val else .error (.invalidUsize what)

/-- The memory range whose offset and length are the stack words at `i` and `i + 1`. -/
def readRange (stack : List U256) (memory : Bytes) (i : Nat) (what : String) : Result Bytes := do
  let offset ← toUsize (what ++ " offset") (← index stack i)
  let length ← toUsize (what ++ " length") (← index stack (i + 1))
  copyMemory memory offset length

def logData (stack : List U256) (memory : Bytes) : Result Bytes :=
  readRange stack memory 0 "data"

/-- The update a step pushes and the opcode it reports as skipped, on a stack with its top first. -/
def decodeOp (op : Opcode) (stack : List U256) (memory : Bytes) :
    Result (Option StateUpdate × Option Opcode) :=
  match op with
  | .selfdestruct | .tstore => .ok (none, some op)
  | .create => do
    let value ← index stack 0
    let initcode ← readRange stack memory 1 "CREATE"
    .ok (some (.create value initcode), none)
  | .create2 => do
    let value ← index stack 0
    let initcode ← readRange stack memory 1 "CREATE2"
    let salt ← index stack 3
    .ok (some (.create2 salt value initcode), none)
  | .delegatecall | .callcode =>
    .error (.delegateDecoded op)
  | .sstore => do
    let slot ← index stack 0
    let value ← index stack 1
    .ok (some (.store ⟨slot, value⟩), none)
  | .call => do
    let callargs ← readRange stack memory 3 "args"
    let target ← index stack 1
    let value ← index stack 2
    .ok (some (.call ⟨Address.fromWord target, value, callargs⟩), none)
  | .log0 => do
    let data ← logData stack memory
    .ok (some (.log0 data), none)
  | .log1 => do
    let data ← logData stack memory
    .ok (some (.log1 data (← index stack 2)), none)
  | .log2 => do
    let data ← logData stack memory
    .ok (some (.log2 data (← index stack 2) (← index stack 3)), none)
  | .log3 => do
    let data ← logData stack memory
    .ok (some (.log3 data (← index stack 2) (← index stack 3) (← index stack 4)), none)
  | .log4 => do
    let data ← logData stack memory
    .ok (some (.log4 data (← index stack 2) (← index stack 3) (← index stack 4)
      (← index stack 5)), none)
  | .staticcall | .other _ => .ok (none, none)

/-- What `append_state_update_from_struct_log` pushes and returns for one step. -/
def decodeStructLog (log : StructLog) : Result (Option StateUpdate × Option Opcode) := do
  let stack ← okOr .stackIsEmpty log.stack
  match log.memory with
  | none =>
    if (log.op == .call || log.op.isLog) && log.depth == 1 then
      .error (.noMemory log.op)
    else .ok (none, none)
  | some words =>
    let memory ← parseTraceMemory words
    decodeOp log.op stack.reverse memory

/-- Pushes a step's update, emitted at struct log `step`. -/
def appendStateUpdateFromStructLog (updates : List Op) (step : Nat) (log : StructLog) :
    Result (List Op × Option Opcode) := do
  let (update, skipped) ← decodeStructLog log
  .ok (updates ++ update.toList.map (Op.mk · step), skipped)

/-- The resume log of a create: no deployed address, or zero, on top of its stack. -/
def StructLog.deployedNothing (log : StructLog) : Bool :=
  match log.stack.bind List.getLast? with
  | none => true
  | some address => address == 0

/-! ### The legacy extractor -/

structure TraceExtract where
  stateUpdates : List StateUpdate
  skippedOpcodes : Finset Opcode
  callGasTotal : UInt64
  calleeGasTotal : UInt64
  createGasTotal : UInt64
  sstoreGasTotal : UInt64
  refundCounter : UInt64
  reentered : Bool
  /-- The struct log each update was emitted at, kept for reasoning only. -/
  opSteps : List Nat

/-- What a `CALL`'s callee spent of `gasUsed`, the call's whole cost in the trace. -/
def calleeGas (gasUsed gasCost : UInt64) (entryGas : Option UInt64) : UInt64 :=
  match entryGas with
  | none => 0
  | some entry => satSub gasUsed (satSub gasCost entry)

structure CallGas where
  gas : UInt64
  gasCost : UInt64
  entryGas : Option UInt64

/-- The loop state of `compute_state_updates`. The source also keeps the kind of call behind each
depth, which nothing reads. -/
structure Extracting where
  ops : List Op := []
  targetDepth : UInt64 := 1
  skippedOpcodes : Finset Opcode := ∅
  /-- Depth and 1-based update index of the calls being executed, innermost first. -/
  callStack : List (UInt64 × Nat) := []
  callGasTracking : OrdMap Nat CallGas := OrdMap.empty
  awaitingEntry : Option (UInt64 × Nat) := none
  pendingCreate : Option (UInt64 × UInt64) := none
  totalCallGas : UInt64 := 0
  calleeGasTotal : UInt64 := 0
  createGasTotal : UInt64 := 0
  sstoreGasTotal : UInt64 := 0
  reentered : Bool := false

namespace Extracting

def noteEntry (log : StructLog) (s : Extracting) : Extracting :=
  match s.awaitingEntry with
  | none => s
  | some (callDepth, index) =>
    let s := { s with awaitingEntry := none }
    if log.depth = callDepth + 1 then
      match s.callGasTracking.get index with
      | some call =>
        { s with
          callGasTracking := s.callGasTracking.insert index { call with entryGas := some log.gas } }
      | none => s
    else s

def settleCreate (log : StructLog) (s : Extracting) : Result Extracting :=
  match s.pendingCreate with
  | none => .ok s
  | some (createDepth, gasAtOpcode) =>
    if log.depth ≤ createDepth then
      if log.depth ≠ createDepth ∨ log.deployedNothing then .error (.failedCreate createDepth)
      else .ok { s with
        pendingCreate := none
        createGasTotal := s.createGasTotal + satSub gasAtOpcode log.gas }
    else .ok s

def detectReentry (origin : Option Address) (log : StructLog) (s : Extracting) : Extracting :=
  if !s.reentered && 2 ≤ log.depth
      && (log.op == .call || log.op == .staticcall || log.op.isDelegate)
      && origin.isSome && log.callee == origin then
    { s with reentered := true }
  else s

/-- Pops the calls at `log`'s depth or deeper, accounting each at its resume gas. -/
def exitCalls (log : StructLog) : List (UInt64 × Nat) → Extracting → Extracting
  | [], s => { s with callStack := [] }
  | (d, index) :: rest, s =>
    if log.depth ≤ d then
      match s.callGasTracking.get index with
      | some call =>
        let gasUsed := satSub call.gas log.gas
        exitCalls log rest { s with
          callGasTracking := s.callGasTracking.erase index
          totalCallGas := s.totalCallGas + gasUsed
          calleeGasTotal := s.calleeGasTotal + calleeGas gasUsed call.gasCost call.entryGas }
      | none => exitCalls log rest s
    else { s with callStack := (d, index) :: rest }

def stepUp (log : StructLog) (s : Extracting) : Extracting :=
  if log.depth < s.targetDepth then
    { exitCalls log s.callStack s with targetDepth := log.depth }
  else s

/-- The opcodes `compute_state_updates` hands to the decoder. -/
def extracts (op : Opcode) : Bool :=
  op == .call || op == .sstore || op.isLog || op.isCreate

def extractOp (step : Nat) (log : StructLog) (s : Extracting) : Result Extracting :=
  if log.depth = s.targetDepth then
    if log.op.isDelegate then .ok { s with targetDepth := log.depth + 1 }
    else if extracts log.op && s.callStack.isEmpty then do
      let (ops, skipped) ← appendStateUpdateFromStructLog s.ops step log
      match skipped with
      | some op => .ok { s with ops, skippedOpcodes := insert op s.skippedOpcodes }
      | none =>
        if s.ops.length < ops.length then
          let s := { s with ops }
          match log.op with
          | .sstore => .ok { s with sstoreGasTotal := s.sstoreGasTotal + log.gasCost }
          | .create | .create2 => .ok { s with pendingCreate := some (log.depth, log.gas) }
          | .call => .ok { s with
              callStack := (log.depth, ops.length) :: s.callStack
              callGasTracking := s.callGasTracking.insert ops.length ⟨log.gas, log.gasCost, none⟩
              awaitingEntry := some (log.depth, ops.length)
              targetDepth := log.depth + 1 }
          | _ => .ok s
        else .ok { s with ops }
    else .ok s
  else .ok s

/-- One iteration of the extraction loop. -/
def step (origin : Option Address) (index : Nat) (log : StructLog) (s : Extracting) :
    Result Extracting := do
  let s ← (s.noteEntry log).settleCreate log
  ((s.detectReentry origin log).stepUp log).extractOp index log

def run (origin : Option Address) : List StructLog → Nat → Extracting → Result Extracting
  | [], _, s => .ok s
  | log :: rest, index, s => do
    let s ← s.step origin index log
    run origin rest (index + 1) s

end Extracting

/-- Compute state updates from a trace, replaying the target's writes verbatim. -/
def computeStateUpdates (trace : DefaultFrame) (origin : Option Address) : Result TraceExtract := do
  let s ← Extracting.run origin trace.structLogs 0 {}
  match s.pendingCreate with
  | some (depth, _) => .error (.failedCreate depth)
  | none =>
    if !s.callGasTracking.entries.isEmpty then
      .error (.remainingCalls s.callGasTracking.entries.length)
    else .ok {
      stateUpdates := s.ops.map Op.update
      skippedOpcodes := s.skippedOpcodes
      callGasTotal := s.totalCallGas
      calleeGasTotal := s.calleeGasTotal
      createGasTotal := s.createGasTotal
      sstoreGasTotal := s.sstoreGasTotal
      refundCounter := (trace.structLogs.getLast?.bind StructLog.refundCounter).getD 0
      reentered := s.reentered
      opSteps := s.ops.map Op.step }

end GasAnalyzer
