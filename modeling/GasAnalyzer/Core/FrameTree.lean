import GasAnalyzer.Core.Encoding
import GasAnalyzer.Core.Walk

/-!
# Frame trees

What the split does once the walk is over: drop the programs of reverted frames, turn back into a
`CALL` every frame that does not pay for its nesting overhead, and renumber what is left.
-/

namespace GasAnalyzer

/-- One frame's program and everything its leaf binds. -/
structure FrameProgram where
  target : Address
  caller : Address
  value : U256
  calldataHash : B256
  transitionIndex : Option U256
  updates : List StateUpdate
  children : List Nat
  deriving DecidableEq

/-- A trace split into per-frame programs, root first. -/
structure FrameTreeExtract where
  frames : List FrameProgram
  skippedOpcodes : Finset Opcode
  callGasTotal : UInt64
  calleeGasTotal : UInt64
  createGasTotal : UInt64
  counterMoves : Finset Address
  /-- For each frame and op, the struct log the op was emitted at; kept for reasoning only. -/
  opSteps : List (List Nat)
  /-- The struct log of the `CALL` each frame but the root stands for; kept for reasoning only. -/
  frameSteps : List Nat

def ProgramState.drop (p : ProgramState) : ProgramState := { p with dropped := true }

/-- A program whose parent is dropped is dropped. -/
def spreadDrop (programs : List ProgramState) (id : Nat) : List ProgramState :=
  match (programs[id]?.bind ProgramState.parent).bind (fun parent => programs[parent]?) with
  | some parent => if parent.dropped then programs.modify id ProgramState.drop else programs
  | none => programs

def dropDescendants (programs : List ProgramState) (ids : List Nat) : List ProgramState :=
  ids.foldl spreadDrop programs

def dropDescendantsOfDropped (programs : List ProgramState) : List ProgramState :=
  dropDescendants programs (List.range' 1 (programs.length - 1))

/-- `program.children.retain(|c| !dropped[*c])` for every program. -/
def retainChildren (programs : List ProgramState) : List ProgramState :=
  let dropped := programs.map ProgramState.dropped
  programs.map (fun p => { p with children := p.children.filter (fun c => !dropped.getD c false) })

def depthOf (programs : List ProgramState) : Nat → Nat → UInt64
  | 0, _ => 0
  | fuel + 1, id =>
    match programs[id]?.bind ProgramState.parent with
    | some parent => depthOf programs fuel parent + 1
    | none => 0

def estimatedProofWords : Nat := 8

def witnessHeadBytes : Nat := 8 * 32

structure Pruning where
  programs : List ProgramState
  witnessBytes : List Nat
  netSavings : List UInt64

/-- Replaces the `position`-th `NESTED` op of a program. -/
def replaceNested (update : StateUpdate) : Nat → List Op → Option (List Op)
  | _, [] => none
  | position, op :: rest =>
    if op.update.isNested then
      match position with
      | 0 => some ({ op with update } :: rest)
      | position + 1 => (replaceNested update position rest).map (op :: ·)
    else (replaceNested update position rest).map (op :: ·)

def ProgramState.dropChild (position : Nat) (updates : List Op) (p : ProgramState) : ProgramState :=
  { p with updates := some updates, children := p.children.eraseIdx position }

def ProgramState.prune (p : ProgramState) : ProgramState := { p with dropped := true, pruned := true }

/-- Turns program `id` back into the `CALL` it replaced. -/
def pruneProgram (id : Nat) (program : ProgramState) (programs : List ProgramState) :
    Result (List ProgramState) := do
  let parentId ← okOr .noParent program.parent
  let parent ← index programs parentId
  let position ← okOr .notAmongChildren (parent.children.idxOf? id)
  let fallback ← okOr .noFallback program.fallback
  let updates ← okOr .noParentProgram parent.updates
  let updates ← okOr .noNestedOp (replaceNested (.call fallback) position updates)
  let programs := programs.modify parentId (ProgramState.dropChild position updates)
  let programs := programs.modify id ProgramState.prune
  .ok (dropDescendants programs (List.range' (id + 1) (programs.length - (id + 1))))

def pruneStep (cost : NestingCostModel) (id : Nat) (s : Pruning) : Result Pruning := do
  let program ← index s.programs id
  if program.dropped then .ok s
  else
    let programBytes :=
      (encodeStateUpdatesToAbi ((program.updates.getD []).map Op.update)).length
    let childrenBytes := (program.children.map (fun c => s.witnessBytes.getD c 0)).sum
    let witness := witnessHeadBytes + programBytes + estimatedProofWords * 32 + childrenBytes
    let s := { s with witnessBytes := s.witnessBytes.set id witness }
    let depth := depthOf s.programs s.programs.length id
    let perByte := cost.witnessByteGas + depth * cost.witnessByteGasPerLevel
    let overhead := satAdd cost.frameOverheadGas (satMul (UInt64.ofNat witness) perByte)
    let computation := satSub (satSub program.nativeGas program.effectGas) program.childCallGas
    let childrenSavings := (program.children.map (fun c => s.netSavings.getD c 0)).sum
    let benefit := satAdd computation childrenSavings
    if overhead < benefit then
      .ok { s with netSavings := s.netSavings.set id (benefit - overhead) }
    else do
      let programs ← pruneProgram id program s.programs
      .ok { s with programs }

def pruneLoop (cost : NestingCostModel) : List Nat → Pruning → Result Pruning
  | [], s => .ok s
  | id :: rest, s => do
    let s ← pruneStep cost id s
    pruneLoop cost rest s

/-- Children first, so a parent's witness is sized with only the children that stay nested. -/
def pruneUnprofitable (programs : List ProgramState) (cost : NestingCostModel) :
    Result (List ProgramState) := do
  let n := programs.length
  let s ← pruneLoop cost (List.range' 1 (n - 1)).reverse
    ⟨programs, List.replicate n 0, List.replicate n 0⟩
  .ok s.programs

/-- Gas of every `CALL` the kept programs replay; `gas` picks a program's (direct, native) figures. -/
def nativeCallGas (programs : List ProgramState) (gas : ProgramState → UInt64 × UInt64) : UInt64 :=
  (programs.map (fun p =>
    if !p.dropped then (gas p).1
    else if p.pruned && (p.parent.bind (fun i => programs[i]?)).any (fun parent => !parent.dropped) then
      (gas p).2
    else 0)).sum

/-- A kept program's new id: how many kept programs precede it. A dropped one keeps `usize::MAX`. -/
def remapId (programs : List ProgramState) (id : Nat) : Nat :=
  if programs[id]?.any (fun p => !p.dropped) then
    ((programs.take id).filter (fun p => !p.dropped)).length
  else 2 ^ 64 - 1

def compactProgram (programs : List ProgramState) (p : ProgramState) : Result FrameProgram := do
  let ops ← okOr .neverReturned p.updates
  .ok {
    target := p.target
    caller := p.caller
    value := p.value
    calldataHash := p.calldataHash
    transitionIndex := p.transitionIndex
    updates := ops.map Op.update
    children := p.children.map (remapId programs) }

def keptPrograms (programs : List ProgramState) : List ProgramState :=
  programs.filter (fun p => !p.dropped)

def compact (programs : List ProgramState) : Result (List FrameProgram) :=
  (keptPrograms programs).mapM (compactProgram programs)

/-- Every contract whose transition counter a journal moves. -/
def counterMoves (journal : Journal) : Finset Address :=
  ((journal.entries.filter (fun e => e.2.contains stateTrackerSlot)).map Prod.fst).toFinset

/-- The root's program and figures. -/
def ProgramState.finishRoot (frame : WalkFrame) (p : ProgramState) : ProgramState :=
  { p with
    updates := some frame.out
    directCallGas := frame.callGas
    directCalleeGas := frame.calleeGas
    directCreateGas := frame.createGas }

/-- The root's final slice. -/
def closeRoot (step : Nat) (w : Walk) : Result Walk := do
  if w.below ≠ [] then
    .error (.unclosedFrames w.below.length)
  else
    let w ← flushSlice step w
    .ok (modifyProgram 0 (ProgramState.finishRoot w.top) w)

/-- The programs of a finished walk: reverted ones dropped, unprofitable ones pruned. -/
def settlePrograms (cost : NestingCostModel) (w : Walk) : Result (List ProgramState) :=
  pruneUnprofitable (retainChildren (dropDescendantsOfDropped w.programs)) cost

def splitFrameTree (H : Hashes) (trace : DefaultFrame) (root : Address) (elig : Eligibility)
    (cost : NestingCostModel) : Result FrameTreeExtract := do
  let (candidates, rootIndex) ← scanCandidates trace.structLogs
  let w ← walk H elig candidates trace.structLogs 0 (initialWalk root rootIndex)
  let w ← closeRoot trace.structLogs.length w
  let programs ← settlePrograms cost w
  let frames ← compact programs
  .ok {
    frames
    skippedOpcodes := w.skippedOpcodes
    callGasTotal := nativeCallGas programs (fun p => (p.directCallGas, p.nativeGas))
    calleeGasTotal := nativeCallGas programs (fun p => (p.directCalleeGas, p.nativeCalleeGas))
    createGasTotal := nativeCallGas programs (fun p => (p.directCreateGas, 0))
    counterMoves := counterMoves w.top.journal
    opSteps := (keptPrograms programs).map (fun p => (p.updates.getD []).map Op.step)
    frameSteps := (keptPrograms programs).map ProgramState.step }

/-- Split a trace into per-frame programs with canonical state checkpointing. -/
def computeFrameTreeCanonical (H : Hashes) (trace : DefaultFrame) (root : Address)
    (isNestable : Address → Bool) (cost : NestingCostModel) : Result FrameTreeExtract :=
  splitFrameTree H trace root (.consumers isNestable) cost

/-- The split had `root` and every contract in `owned` been consumers. -/
def computeFrameTreeHypothetical (H : Hashes) (trace : DefaultFrame) (root : Address)
    (owned : Finset Address) (cost : NestingCostModel) : Result FrameTreeExtract :=
  splitFrameTree H trace root (.hypothetical owned) cost

/-- The root program with nothing nested, its skipped opcodes and its call gas. -/
def computeStateUpdatesCanonical (H : Hashes) (trace : DefaultFrame) (target : Address) :
    Result (List StateUpdate × Finset Opcode × UInt64) := do
  let tree ← computeFrameTreeCanonical H trace target (fun _ => false) nestingCostModelV1
  let root ← okOr .noRootFrame tree.frames.head?
  .ok (root.updates, tree.skippedOpcodes, tree.callGasTotal)

end GasAnalyzer
