import GasAnalyzer.Core.Candidates

/-!
# The canonical walk

One pass over the trace that splits it into per-frame programs. Every open EVM frame keeps a
journal of the writes made in it, merged into its parent when the frame succeeds and dropped when it
reverts. A frame that emits into a program also keeps what that program has stored so far
(`emittedView`), so each boundary emits only the slots that differ from the canonical image.
-/

namespace GasAnalyzer

/-- The hash functions the analyzer takes from its cryptography crates. -/
structure Hashes where
  keccak256 : Bytes → B256
  sha256 : Bytes → B256

structure NestingCostModel where
  frameOverheadGas : UInt64
  witnessByteGas : UInt64
  witnessByteGasPerLevel : UInt64

def nestingCostModelV1 : NestingCostModel := ⟨20000, 16, 1⟩

/-- Which callees a split may turn into frames. -/
inductive Eligibility where
  /-- Deployed consumers: `isNestable`, and the callee's first effect is its counter increment. -/
  | consumers (isNestable : Address → Bool)
  /-- Contracts priced as if they were consumers. -/
  | hypothetical (owned : Finset Address)

/-- The transition index the callee's frame takes, or `none` when the call stays a `CALL`. -/
def Eligibility.frameIndex (e : Eligibility) (candidate : Option Candidate)
    (callee : Option Address) : Option U256 := do
  let candidate ← candidate.filter (fun c => !c.unsupportedOp)
  let callee ← callee
  match e, candidate.bump with
  | .consumers isNestable, .first index => if isNestable callee then some index else none
  | .consumers _, _ => none
  | .hypothetical owned, bump =>
    if callee ∈ owned then
      some (match bump with
        | .first index => index
        | .undecided | .disqualified => 0)
    else none

/-! ### Journals -/

abbrev Slots := OrdMap B256 B256
abbrev Journal := OrdMap Address Slots

namespace Journal

/-- `entry(addr).or_default()` -/
def slots (j : Journal) (a : Address) : Slots := (j.get a).getD OrdMap.empty

def write (j : Journal) (a : Address) (slot value : B256) : Journal :=
  j.insert a ((j.slots a).insert slot value)

/-- `for (addr, slots) in other { entry(addr).or_default().extend(slots) }` -/
def merge (j other : Journal) : Journal :=
  other.entries.foldl (fun j e => j.insert e.1 ((j.slots e.1).extend e.2)) j

end Journal

/-! ### State -/

structure ProgramState where
  target : Address
  caller : Address
  value : U256
  calldataHash : B256
  transitionIndex : Option U256
  parent : Option Nat
  updates : Option (List Op) := none
  children : List Nat := []
  /-- The `CALL` op this frame replaces, restored if the frame is pruned. -/
  fallback : Option Call
  dropped : Bool := false
  nativeGas : UInt64 := 0
  effectGas : UInt64 := 0
  childCallGas : UInt64 := 0
  directCallGas : UInt64 := 0
  nativeCalleeGas : UInt64 := 0
  directCalleeGas : UInt64 := 0
  directCreateGas : UInt64 := 0
  pruned : Bool := false
  /-- The struct log of the `CALL` this frame replaces; like `Op.step`, nothing reads it. -/
  step : Nat := 0

structure WalkFrame where
  depth : UInt64
  storageCtx : Option Address
  /-- The program this frame emits into; `none` for frames that replay natively. -/
  program : Option Nat
  journal : Journal := OrdMap.empty
  out : List Op := []
  callGas : UInt64 := 0
  calleeGas : UInt64 := 0
  createGas : UInt64 := 0
  entryGas : UInt64 := 0
  callGasCost : UInt64 := 0
  emittedView : Slots := OrdMap.empty
  emittedCallGas : Option UInt64 := none
  emittedCreate : Bool := false
  /-- Set on the first frame of a nested program: gas at the `CALL` that opened it. -/
  nestedStartGas : Option UInt64 := none
  /-- Programs with this id or above were opened inside this frame. -/
  firstProgram : Nat := 0

structure PendingFrame where
  parentDepth : UInt64
  storageCtx : Option Address
  program : Option Nat := none
  emittedView : Slots := OrdMap.empty
  emittedCallGas : Option UInt64 := none
  emittedCreate : Bool := false
  nestedStartGas : Option UInt64 := none
  callGasCost : UInt64 := 0

/-- The walk's state. The stack of frames is never empty: `top` is the innermost frame and `below`
holds its ancestors, innermost first. -/
structure Walk where
  programs : List ProgramState
  top : WalkFrame
  below : List WalkFrame := []
  pending : Option PendingFrame := none
  skippedOpcodes : Finset Opcode := ∅

/-! ### Slices -/

/-- The canonical image of `target`: every open frame's journal for it, outermost first. -/
def visibleImage (frames : List WalkFrame) (target : Address) : Slots :=
  frames.foldr (fun f image => image.extend (f.journal.slots target)) OrdMap.empty

/-- The loop body of `flush_slice`: store a slot the view does not already hold at its value. -/
def flushSlot (step : Nat) (f : WalkFrame) (entry : B256 × B256) : WalkFrame :=
  if f.emittedView.get entry.1 ≠ some entry.2 then
    { f with
      out := f.out ++ [⟨.store ⟨entry.1, entry.2⟩, step⟩]
      emittedView := f.emittedView.insert entry.1 entry.2 }
  else f

/-- Emit a canonical state slice for the program the top frame emits into. -/
def flushSlice (step : Nat) (w : Walk) : Result Walk := do
  let id ← okOr .onlyEmittingFramesFlush w.top.program
  let program ← index w.programs id
  let visible := visibleImage (w.top :: w.below) program.target
  .ok { w with top := visible.entries.foldl (flushSlot step) w.top }

def forgetSlots (programs : List ProgramState) (journal : Journal) (f : WalkFrame) : WalkFrame :=
  match f.program.bind (fun p => programs[p]?) with
  | none => f
  | some program =>
    match journal.get program.target with
    | none => f
    | some slots => { f with emittedView := slots.keys.foldl OrdMap.erase f.emittedView }

/-- Forget what each open frame emitted for slots another program's frame, or natively replayed
code, has since written. -/
def forgetOverwritten (journal : Journal) (w : Walk) : Walk :=
  { w with
    top := forgetSlots w.programs journal w.top
    below := w.below.map (forgetSlots w.programs journal) }

def modifyProgram (id : Nat) (f : ProgramState → ProgramState) (w : Walk) : Walk :=
  { w with programs := w.programs.modify id f }

def modifyTop (f : WalkFrame → WalkFrame) (w : Walk) : Walk := { w with top := f w.top }

/-! ### Frames -/

namespace WalkFrame

def write (ctx : Address) (slot value : B256) (f : WalkFrame) : WalkFrame :=
  { f with journal := f.journal.write ctx slot value }

def mergeJournal (journal : Journal) (f : WalkFrame) : WalkFrame :=
  { f with journal := f.journal.merge journal }

def emit (op : Op) (f : WalkFrame) : WalkFrame := { f with out := f.out ++ [op] }

def dropLastOp (f : WalkFrame) : WalkFrame := { f with out := f.out.dropLast }

end WalkFrame

def WalkFrame.charge (create : Bool) (gas callee : UInt64) (f : WalkFrame) : WalkFrame :=
  if create then { f with createGas := f.createGas + gas }
  else { f with callGas := f.callGas + gas, calleeGas := f.calleeGas + callee }

def ProgramState.chargeChild (gas : UInt64) (p : ProgramState) : ProgramState :=
  { p with childCallGas := p.childCallGas + gas }

/-- Gas of a call, charged to the program of the frame that made it. -/
def chargeProgram (gas : UInt64) (w : Walk) : Walk :=
  match w.top.program with
  | some parent => modifyProgram parent (ProgramState.chargeChild gas) w
  | none => w

/-- Gas of a finished call or create, charged to the frame that made it and to its program. -/
def chargeCall (create : Bool) (gas callee : UInt64) (w : Walk) : Walk :=
  chargeProgram gas (modifyTop (WalkFrame.charge create gas callee) w)

/-! ### Arriving at a step -/

/-- The first id a frame's programs can have, with `count` programs open. -/
def PendingFrame.firstProgram (count : Nat) (p : PendingFrame) : Nat :=
  match p.nestedStartGas, p.program with
  | some _, some id => id
  | _, _ => count

def pushFrame (p : PendingFrame) (log : StructLog) (w : Walk) : Walk :=
  { w with
    below := w.top :: w.below
    top := {
      depth := log.depth
      storageCtx := p.storageCtx
      program := p.program
      entryGas := log.gas
      callGasCost := p.callGasCost
      emittedView := p.emittedView
      emittedCallGas := p.emittedCallGas
      emittedCreate := p.emittedCreate
      nestedStartGas := p.nestedStartGas
      firstProgram := p.firstProgram w.programs.length } }

/-- The call of the previous step either opened the frame this step runs in, or completed inline. -/
def enterPending (log : StructLog) (w : Walk) : Result Walk :=
  match w.pending with
  | none => .ok w
  | some p =>
    let w := { w with pending := none }
    if log.depth = p.parentDepth + 1 then .ok (pushFrame p log w)
    else if p.nestedStartGas.isSome then
      .error (.openedNoFrame p.parentDepth)
    else if p.emittedCreate && log.deployedNothing then .error (.failedCreate p.parentDepth)
    else
      match p.emittedCallGas with
      | none => .ok w
      | some gasAfterOpcode => .ok (chargeCall p.emittedCreate (satSub gasAfterOpcode log.gas) 0 w)

/-- Marks the programs opened inside a reverted frame. -/
def dropFrom (first : Nat) (programs : List ProgramState) : List ProgramState :=
  programs.take first ++ (programs.drop first).map (fun p => { p with dropped := true })

def dropOpened (first : Nat) (w : Walk) : Walk := { w with programs := dropFrom first w.programs }

/-- The program of a frame that returned. -/
def ProgramState.finish (nativeGas : UInt64) (frame : WalkFrame) (p : ProgramState) : ProgramState :=
  { p with
    nativeGas
    nativeCalleeGas := calleeGas nativeGas frame.callGasCost (some frame.entryGas)
    updates := some frame.out
    directCallGas := frame.callGas
    directCalleeGas := frame.calleeGas
    directCreateGas := frame.createGas }

def closeNested (start : UInt64) (success : Bool) (log : StructLog) (frame : WalkFrame) (w : Walk) :
    Result Walk := do
  let id ← okOr .nestedFrameEmits frame.program
  if success then
    let nativeGas := satSub start log.gas
    let w := chargeProgram nativeGas (modifyProgram id (ProgramState.finish nativeGas frame) w)
    let w := forgetOverwritten frame.journal w
    .ok (modifyTop (WalkFrame.mergeJournal frame.journal) w)
  else
    -- The callee reverted and its caller carried on: there is nothing to apply.
    match w.top.out.getLast? with
    | some ⟨.nested _, _⟩ => .ok (modifyTop WalkFrame.dropLastOp w)
    | other => .error (.nestedNotLast (other.map Op.update))

/-- What a frame of its parent's program, or of native code, leaves to its parent. -/
def WalkFrame.absorb (frame f : WalkFrame) : WalkFrame :=
  { f with
    journal := f.journal.merge frame.journal
    out := f.out ++ frame.out
    callGas := f.callGas + frame.callGas
    calleeGas := f.calleeGas + frame.calleeGas
    createGas := f.createGas + frame.createGas
    emittedView := if frame.program.isSome then frame.emittedView else f.emittedView }

def closeFrame (success : Bool) (frame : WalkFrame) (w : Walk) : Walk :=
  if success then
    modifyTop frame.absorb (if frame.program.isSome then w else forgetOverwritten frame.journal w)
  else w

def chargeReturn (log : StructLog) (frame : WalkFrame) (w : Walk) : Walk :=
  match frame.emittedCallGas with
  | none => w
  | some gasAfterOpcode =>
    let gas := satSub gasAfterOpcode log.gas
    chargeCall frame.emittedCreate gas (calleeGas gas frame.callGasCost (some frame.entryGas)) w

/-- The walk once the top frame is popped. -/
def Walk.leave (w : Walk) (parent : WalkFrame) (rest : List WalkFrame) : Walk :=
  { w with top := parent, below := rest }

/-- What a popped frame leaves to its parent, now on top of the stack. -/
def returnFrame (success : Bool) (log : StructLog) (frame : WalkFrame) (w : Walk) : Result Walk :=
  if frame.emittedCreate && !success then .error (.failedCreate log.depth)
  else
    let w := chargeReturn log frame (if success then w else dropOpened frame.firstProgram w)
    match frame.nestedStartGas with
    | some start => closeNested start success log frame w
    | none => .ok (closeFrame success frame w)

/-- A frame of its own flushes its last slice when it returns. -/
def lastSlice (step : Nat) (success : Bool) (w : Walk) : Result Walk :=
  if success && w.top.nestedStartGas.isSome then flushSlice step w else .ok w

/-- Pops the top frame at the resume log of its parent. -/
def popFrame (step : Nat) (log : StructLog) (w : Walk) : Result Walk := do
  if w.top.depth ≠ log.depth + 1 then
    .error (.depthJumped w.top.depth log.depth)
  else
    let stack ← okOr (.resumeNoStack log.depth) log.stack
    let flag ← okOr (.resumeEmptyStack log.depth) stack.getLast?
    let success : Bool := flag ≠ 0
    let w ← lastSlice step success w
    match w.below with
    | [] => .error .rootFrameMustRemain
    | parent :: rest => returnFrame success log w.top (w.leave parent rest)

/-- `while frames.last().depth > depth { … }`; the fuel is the number of open frames. -/
def popFrames (step : Nat) (log : StructLog) : Nat → Walk → Result Walk
  | 0, w => .ok w
  | n + 1, w =>
    if log.depth < w.top.depth then do
      let w ← popFrame step log w
      popFrames step log n w
    else .ok w

def arrive (step : Nat) (log : StructLog) (w : Walk) : Result Walk := do
  let w ← enterPending log w
  popFrames step log (w.below.length + 1) w

/-! ### Executing a step -/

def ProgramState.chargeEffect (gas : UInt64) (p : ProgramState) : ProgramState :=
  { p with effectGas := p.effectGas + gas }

/-- A write to a program's own storage is an effect its replay pays again. -/
def ProgramState.chargeStore (ctx : Address) (gas : UInt64) (p : ProgramState) : ProgramState :=
  if p.target = ctx then p.chargeEffect gas else p

def execStore (log : StructLog) (w : Walk) : Result Walk :=
  match w.top.storageCtx with
  | some ctx =>
    if log.errored then .ok w
    else do
      let stack ← okOr (.noStack .sstore) log.stack
      let slot ← index stack.reverse 0
      let value ← index stack.reverse 1
      let w := modifyTop (WalkFrame.write ctx slot value) w
      match w.top.program with
      | some p => .ok (modifyProgram p (ProgramState.chargeStore ctx log.gasCost) w)
      | none => .ok w
  | none => .ok w

def execDelegate (log : StructLog) (w : Walk) : Walk :=
  if log.errored then w
  else { w with pending := some {
    parentDepth := log.depth
    storageCtx := w.top.storageCtx
    program := w.top.program
    emittedView := if w.top.program.isSome then w.top.emittedView else OrdMap.empty } }

def execStaticcall (log : StructLog) (w : Walk) : Result Walk :=
  if log.errored then .ok w
  else do
    let _ ← okOr (.noStack .staticcall) log.stack
    .ok { w with pending := some { parentDepth := log.depth, storageCtx := log.callee } }

def nestedProgram (H : Hashes) (ctx : Option Address) (step parent : Nat) (index : U256)
    (call : Call) : ProgramState where
  target := call.target
  caller := ctx.getD 0
  value := call.value
  calldataHash := H.keccak256 call.callargs
  transitionIndex := some index
  parent := some parent
  fallback := some call
  step := step

/-- A `CALL` that becomes a frame: its program, its `NESTED` op and the frame it will open. -/
def openNested (H : Hashes) (step : Nat) (parent : Nat) (index : U256) (call : Call)
    (log : StructLog) (w : Walk) : Walk :=
  let id := w.programs.length
  let program := nestedProgram H w.top.storageCtx step parent index call
  { w with
    programs := (w.programs ++ [program]).modify parent
      (fun p => { p with children := p.children ++ [id] })
    top := w.top.emit ⟨.nested ⟨call.target, call.value, 0⟩, step⟩
    pending := some {
      parentDepth := log.depth
      storageCtx := log.callee
      program := some id
      nestedStartGas := some log.gas
      callGasCost := log.gasCost } }

def execCall (H : Hashes) (elig : Eligibility) (candidates : OrdMap Nat Candidate) (step : Nat)
    (log : StructLog) (w : Walk) : Result Walk := do
  let _ ← okOr (.noStack .call) log.stack
  let next : PendingFrame :=
    { parentDepth := log.depth, storageCtx := log.callee, callGasCost := log.gasCost }
  if log.errored then .ok w
  else
    match w.top.program with
    | none => .ok { w with pending := some next }
    | some parent =>
      -- Boundary: external code is about to observe the current target's storage.
      let w ← flushSlice step w
      let (decoded, skipped) ← decodeStructLog log
      if skipped.isSome then .error .skippedCall
      else
        match elig.frameIndex (candidates.get step) log.callee, decoded with
        | some index, some (.call call) => .ok (openNested H step parent index call log w)
        | _, some update =>
          .ok { modifyTop (WalkFrame.emit ⟨update, step⟩) w with
            pending := some { next with emittedCallGas := some log.gas } }
        | _, none => .error .callNoUpdate

def execCreate (step : Nat) (log : StructLog) (w : Walk) : Result Walk :=
  if log.errored then .ok w
  else
    match w.top.program with
    | none => .ok { w with pending := some { parentDepth := log.depth, storageCtx := none } }
    | some _ => do
      -- Initcode can call back into the target: boundary here too.
      let w ← flushSlice step w
      let (out, skipped) ← appendStateUpdateFromStructLog w.top.out step log
      if skipped.isSome then .error .skippedCreate
      else .ok { modifyTop (fun f => { f with out }) w with
        pending := some {
          parentDepth := log.depth
          storageCtx := none
          emittedCallGas := some log.gas
          emittedCreate := true } }

def execLog (step : Nat) (log : StructLog) (w : Walk) : Result Walk :=
  match w.top.program with
  | none => .ok w
  | some p =>
    if log.errored then .ok w
    else do
      let (out, _) ← appendStateUpdateFromStructLog w.top.out step log
      .ok (modifyProgram p (ProgramState.chargeEffect log.gasCost)
        (modifyTop (fun f => { f with out }) w))

def execUnsupported (log : StructLog) (w : Walk) : Walk :=
  if w.top.program.isSome then
    { w with skippedOpcodes := insert log.op w.skippedOpcodes }
  else w

def exec (H : Hashes) (elig : Eligibility) (candidates : OrdMap Nat Candidate) (step : Nat)
    (log : StructLog) (w : Walk) : Result Walk :=
  match log.op with
  | .sstore => execStore log w
  | .tstore | .selfdestruct => .ok (execUnsupported log w)
  | .delegatecall | .callcode => .ok (execDelegate log w)
  | .staticcall => execStaticcall log w
  | .call => execCall H elig candidates step log w
  | .create | .create2 => execCreate step log w
  | .log0 | .log1 | .log2 | .log3 | .log4 => execLog step log w
  | .other _ => .ok w

/-- One iteration of the walk. -/
def walkStep (H : Hashes) (elig : Eligibility) (candidates : OrdMap Nat Candidate) (step : Nat)
    (log : StructLog) (w : Walk) : Result Walk := do
  let w ← arrive step log w
  exec H elig candidates step log w

def walk (H : Hashes) (elig : Eligibility) (candidates : OrdMap Nat Candidate) :
    List StructLog → Nat → Walk → Result Walk
  | [], _, w => .ok w
  | log :: rest, step, w => do
    let w ← walkStep H elig candidates step log w
    walk H elig candidates rest (step + 1) w

def initialWalk (root : Address) (rootIndex : Option U256) : Walk where
  programs := [{
    target := root
    caller := 0
    value := 0
    calldataHash := 0
    transitionIndex := rootIndex
    parent := none
    fallback := none }]
  top := { depth := 1, storageCtx := some root, program := some 0 }

end GasAnalyzer
