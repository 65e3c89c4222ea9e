import GasAnalyzer.Core.FrameTree
import GasAnalyzer.Core.Heuristic
import GasAnalyzer.Core.Prestate
import GasAnalyzer.Core.SimProfile

/-!
# Entry points of the live analyzer

Both entry points trace a call on a node, extract a program and price it. What the node and the executor
answer is a parameter (`Answers`); the routes between the encodings, their early returns and the budget
check are the source's. Timings, log lines and prefetch hints are left out.
-/

namespace GasAnalyzer

inductive StructLogEncoder where
  | legacy
  | canonical

/-- How the target's storage mutations are laid out in the emitted program. -/
inductive StateEncoding where
  | legacy
  | canonical
  | prestateNet
  deriving DecidableEq

namespace StateEncoding

def signsPrestateNet : StateEncoding → Bool
  | prestateNet => true
  | _ => false

def structLogEncoder : StateEncoding → StructLogEncoder
  | legacy => .legacy
  | canonical | prestateNet => .canonical

end StateEncoding

/-- Which extractor produced the program. -/
inductive Extraction where
  | structLog
  | prestateNet
  | prestateFallback
  deriving DecidableEq

/-- Why the traced call has no program to sign. -/
inductive EvmFailure where
  | returning (value : Bytes)
  | frame (reason : String)
  | muxTracer (reason : String)

inductive SketchFailure where
  | extraction (failure : Failure)
  | evm (failure : EvmFailure)
  | noToAddress
  | legacyCannotSplit
  | payloadRejected (consumer : Address) (violation : UnboundedCostViolation)
  /-- The node or the executor could not answer. -/
  | unanswered (reason : String)

abbrev Sketch := Except SketchFailure

/-! ### What is asked of the node -/

/-- How the node answered one request for both cheap tracers. -/
inductive MuxedTraces where
  | frames (diff : DiffMode) (frame : CallFrame)
  | rejected (reason : String) (isEvmFailure : Bool)
  | unsupported
  | malformed (reason : String)

structure Answers where
  muxPaused : Bool
  muxed : Sketch MuxedTraces
  prestateDiff : Sketch DiffMode
  callFrame : Sketch CallFrame
  trace : Sketch DefaultFrame
  /-- The registry of a contract that reports `IGasKillerNested` at the block. -/
  nestedRegistry : Address → Sketch (Option Address)
  executor : Sketch Unit
  estimateStateChangesGas : Address → List StateUpdate → Sketch UInt64
  estimateFrameTreeGas : List FrameProgram → Sketch (List UInt64)

/-- One `muxTracer` request if the endpoint serves it, else the two tracers separately. -/
def prestateDiffAndCallFrame (a : Answers) : Sketch (DiffMode × CallFrame) := do
  let separately : Sketch (DiffMode × CallFrame) := do
    let diff ← a.prestateDiff
    let frame ← a.callFrame
    .ok (diff, frame)
  if a.muxPaused then separately
  else
    match ← a.muxed with
    | .frames diff frame => .ok (diff, frame)
    | .rejected reason true => .error (.evm (.muxTracer reason))
    | .rejected _ false | .unsupported | .malformed _ => separately

/-- Rejects a trace whose top-level call failed. -/
def ensureCallSucceeded (trace : DefaultFrame) : Sketch Unit :=
  if trace.failed then .error (.evm (.returning trace.returnValue)) else .ok ()

def getTraceFromCall (a : Answers) : Sketch DefaultFrame := do
  let trace ← a.trace
  ensureCallSucceeded trace
  .ok trace

/-- The `CALL` targets of a trace. -/
def traceCallees (trace : DefaultFrame) : List Address :=
  (trace.structLogs.filter (fun l => l.op == .call && !l.errored)).filterMap StructLog.callee

/-- The `CALL` targets that report `IGasKillerNested` and share the root's registry. -/
def nestableCallees (a : Answers) (trace : DefaultFrame) (root : Address) : Sketch (List Address) := do
  match ← a.nestedRegistry root with
  | none => .ok []
  | some registry =>
    let probes ← (traceCallees trace).mapM (fun callee => do
      let r ← a.nestedRegistry callee
      .ok (callee, r))
    .ok ((probes.filter (fun p => p.2 = some registry)).map Prod.fst)

/-! ### Extraction -/

def ofResult {α : Type} (r : Result α) : Sketch α := r.mapError .extraction

/-- The net form when the call admits it; `none` when its struct-log trace must be read. -/
def tryPrestateNet (a : Answers) (consumer : Address) : Sketch (Option (List StateUpdate)) := do
  let (diff, frame) ← prestateDiffAndCallFrame a
  match frameFailure frame with
  | some reason => .error (.evm (.frame reason))
  | none =>
    match classifyPrestateEligibility frame diff consumer with
    | .eligible => .ok (some (buildStateUpdatesFromPrestate consumer diff frame))
    | .fallback _ => .ok none

/-- The net form under the encoding that signs it. -/
def netForm (a : Answers) (consumer : Address) (encoding : StateEncoding) :
    Sketch (Option (List StateUpdate)) :=
  if encoding.signsPrestateNet then tryPrestateNet a consumer else .ok none

structure Extracted where
  stateUpdates : List StateUpdate
  skippedOpcodes : Finset Opcode
  callGasTotal : UInt64
  extraction : Extraction

def structLogRoute (encoding : StateEncoding) : Extraction :=
  if encoding.signsPrestateNet then .prestateFallback else .structLog

def extractStateUpdatesHybrid (H : Hashes) (a : Answers) (consumer : Address) (encoding : StateEncoding) :
    Sketch Extracted := do
  match ← netForm a consumer encoding with
  | some updates =>
    -- The net form carries no `CALL` ops, so no call gas rides with it.
    .ok ⟨updates, ∅, 0, .prestateNet⟩
  | none =>
    let trace ← getTraceFromCall a
    match encoding.structLogEncoder with
    | .legacy =>
      let extract ← ofResult (computeStateUpdates trace none)
      .ok ⟨extract.stateUpdates, extract.skippedOpcodes, extract.callGasTotal, structLogRoute encoding⟩
    | .canonical =>
      let (updates, skipped, callGas) ← ofResult (computeStateUpdatesCanonical H trace consumer)
      .ok ⟨updates, skipped, callGas, structLogRoute encoding⟩

/-! ### Entry points -/

/-- The budget check of a profile, before anything is signed. -/
def checkBudget (profile : SimProfile) (consumer : Address)
    (check : UInt64 → Except UnboundedCostViolation UnboundedCost) : Sketch Unit :=
  match profile.payloadGasBudget with
  | none => .ok ()
  | some budget => do
    let _ ← (check budget).mapError (SketchFailure.payloadRejected consumer)
    .ok ()

structure EncodedStateUpdates where
  storageUpdates : Bytes
  updateCount : Nat
  gasEstimate : UInt64
  skippedOpcodes : Finset Opcode
  extraction : Extraction
  /-- The ops encoded in `storageUpdates` and the gas measured for its `CALL`s; kept for reasoning only. -/
  program : List StateUpdate
  replayedGas : UInt64

def callToEncodedStateUpdatesWithEvmsketchProfiled (H : Hashes) (a : Answers) (toAddr : Option Address)
    (encoding : StateEncoding) (profile : SimProfile) : Sketch EncodedStateUpdates := do
  let contract ← okOr .noToAddress toAddr
  let x ← extractStateUpdatesHybrid H a contract encoding
  a.executor
  checkBudget profile contract (fun budget =>
    validateUnboundedCost x.stateUpdates x.callGasTotal SignatureType.bls.turetzkyUpperGasLimit budget)
  let gasEstimate ← a.estimateStateChangesGas contract x.stateUpdates
  .ok {
    storageUpdates := encodeStateUpdatesToAbi x.stateUpdates
    updateCount := x.stateUpdates.length
    gasEstimate
    skippedOpcodes := x.skippedOpcodes
    extraction := x.extraction
    program := x.stateUpdates
    replayedGas := x.callGasTotal }

/-- A program without its `NESTED` ops. -/
def withoutNestedOps (updates : List StateUpdate) : List StateUpdate :=
  updates.filter (fun u => !u.isNested)

/-- The root's gas, plus every child's less the base transaction cost and plus the nesting overhead. -/
def frameTreeTotal (frameGas : List UInt64) (cost : NestingCostModel) : UInt64 :=
  match frameGas with
  | [] => 0
  | root :: children =>
    children.foldl (fun total gas => satAdd total (satAdd (satSub gas baseTxCost) cost.frameOverheadGas)) root

/-- The transition index a program's tracker store implies. -/
def trackerIndex (updates : List StateUpdate) : Option U256 :=
  updates.findSome? fun
    | .store s => if s.slot = stateTrackerSlot then some (U256.predSat s.value) else none
    | _ => none

structure EncodedFrameTree where
  frames : List FrameProgram
  counterMoves : Finset Address
  gasEstimate : UInt64
  skippedOpcodes : Finset Opcode
  extraction : Extraction
  /-- The gas measured for the `CALL`s and `CREATE`s of the frames; kept for reasoning only. -/
  replayedGas : UInt64

/-- The single frame of a call in net form. -/
def netFrame (root : Address) (updates : List StateUpdate) : FrameProgram where
  target := root
  caller := 0
  value := 0
  calldataHash := 0
  transitionIndex := trackerIndex updates
  updates := updates
  children := []

def callToFrameTreeWithEvmsketch (H : Hashes) (a : Answers) (toAddr : Option Address)
    (encoding : StateEncoding) (profile : SimProfile) (cost : NestingCostModel) :
    Sketch EncodedFrameTree := do
  if encoding = .legacy then .error .legacyCannotSplit
  else
    let root ← okOr .noToAddress toAddr
    match ← netForm a root encoding with
    | some updates =>
      a.executor
      let gasEstimate ← a.estimateStateChangesGas root updates
      .ok {
        frames := [netFrame root updates]
        counterMoves := {root}
        gasEstimate
        skippedOpcodes := ∅
        extraction := .prestateNet
        replayedGas := 0 }
    | none =>
      let trace ← getTraceFromCall a
      let nestable ← nestableCallees a trace root
      a.executor
      let tree ← ofResult (computeFrameTreeCanonical H trace root (fun c => nestable.contains c) cost)
      checkBudget profile root (fun budget =>
        validateUnboundedTreeCost (tree.frames.flatMap (fun f => withoutNestedOps f.updates))
          tree.callGasTotal tree.createGasTotal SignatureType.bls.turetzkyUpperGasLimit budget)
      let frameGas ← a.estimateFrameTreeGas tree.frames
      .ok {
        frames := tree.frames
        counterMoves := tree.counterMoves
        gasEstimate := frameTreeTotal frameGas cost
        skippedOpcodes := tree.skippedOpcodes
        extraction := structLogRoute encoding
        replayedGas := satAdd tree.callGasTotal tree.createGasTotal }

end GasAnalyzer
