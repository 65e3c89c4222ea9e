import GasAnalyzer.Core.Trace

/-!
# Candidate frames

The pre-pass of the frame-tree split. A `CALL` is a candidate for its own frame when the first
storage write, external call or log in the callee's scope (its frame and the `DELEGATECALL` and
`CALLCODE` frames below it) increments the callee's transition counter.
-/

namespace GasAnalyzer

/-- `keccak256("gasKiller.stateTracker") - 1` -/
def stateTrackerSlot : B256 := 0xdebfdfd5a50ad117c10898d68b5ccf0893c6b40d4f443f902e2e7646601bdeaf

/-- How the trace treated a `CALL` into a callee, for the eligibility rule. -/
inductive Bump where
  | undecided
  | first (index : U256)
  | disqualified
  deriving DecidableEq

structure Candidate where
  bump : Bump := .undecided
  unsupportedOp : Bool := false
  deriving DecidableEq

/-- Records a callee's first effect; a decided candidate stays decided. -/
def Candidate.settle (bump : Bump) (c : Candidate) : Candidate :=
  if c.bump = .undecided then { c with bump } else c

inductive Scope where
  | root
  | call (index : Nat)
  deriving DecidableEq

/-- An open frame. The source also carries its storage context, which nothing reads. -/
structure ScanFrame where
  depth : UInt64
  scope : Option Scope

structure ScanPending where
  parentDepth : UInt64
  scope : Option Scope

structure Scan where
  candidates : OrdMap Nat Candidate := OrdMap.empty
  rootIndex : Option U256 := none
  /-- Innermost frame first. -/
  frames : List ScanFrame := [⟨1, some .root⟩]
  pending : Option ScanPending := none

namespace Scan

def updateCandidate (s : Scan) (index : Nat) (f : Candidate → Candidate) : Scan :=
  match s.candidates.get index with
  | some c => { s with candidates := s.candidates.insert index (f c) }
  | none => s

def enterPending (log : StructLog) (s : Scan) : Scan :=
  match s.pending with
  | none => s
  | some p =>
    let s := { s with pending := none }
    if log.depth = p.parentDepth + 1 then
      { s with frames := ⟨log.depth, p.scope⟩ :: s.frames }
    else
      match p.scope with
      | some (.call index) => { s with candidates := s.candidates.erase index }
      | _ => s

def popFrames (log : StructLog) (s : Scan) : Scan :=
  { s with frames := s.frames.dropWhile (fun f => log.depth < f.depth) }

def noteStore (scope : Option Scope) (slot value : U256) (s : Scan) : Scan :=
  match scope with
  | some .root =>
    if slot = stateTrackerSlot ∧ s.rootIndex = none then
      { s with rootIndex := some (U256.predSat value) }
    else s
  | some (.call index) =>
    s.updateCandidate index (Candidate.settle
      (if slot = stateTrackerSlot then .first (U256.predSat value) else .disqualified))
  | none => s

def noteUnsupported (scope : Option Scope) (s : Scan) : Scan :=
  match scope with
  | some (.call index) => s.updateCandidate index (fun c => { c with unsupportedOp := true })
  | _ => s

def noteEffect (scope : Option Scope) (s : Scan) : Scan :=
  match scope with
  | some (.call index) => s.updateCandidate index (Candidate.settle .disqualified)
  | _ => s

/-- External calls and logs, which an observer sees. -/
def observable (op : Opcode) : Bool :=
  op == .call || op == .staticcall || op.isCreate || op.isLog

/-- Storage writes and the opcodes no frame can replay. -/
def noteWrite (index : Nat) (log : StructLog) (scope : Option Scope) (s : Scan) : Result Scan :=
  match log.op with
  | .sstore =>
    match log.top 0, log.top 1 with
    | some slot, some value => .ok (s.noteStore scope slot value)
    | _, _ => .error (.shortStack index)
  | .tstore | .selfdestruct => .ok (s.noteUnsupported scope)
  | _ => .ok s

def noteObservable (log : StructLog) (scope : Option Scope) (s : Scan) : Scan :=
  if observable log.op then s.noteEffect scope else s

/-- The frame a step is about to open. -/
def awaitFrame (index : Nat) (log : StructLog) (scope : Option Scope) (s : Scan) : Scan :=
  match log.op with
  | .call => { s with
      candidates := s.candidates.insert index {}
      pending := some ⟨log.depth, some (.call index)⟩ }
  | .staticcall | .create | .create2 => { s with pending := some ⟨log.depth, none⟩ }
  | .delegatecall | .callcode => { s with pending := some ⟨log.depth, scope⟩ }
  | _ => s

/-- The effects of an un-errored step executed in `scope`. -/
def exec (index : Nat) (log : StructLog) (scope : Option Scope) (s : Scan) : Result Scan := do
  let s ← s.noteWrite index log scope
  .ok ((s.noteObservable log scope).awaitFrame index log scope)

def step (index : Nat) (log : StructLog) (s : Scan) : Result Scan :=
  if log.depth = 0 then
    .error (.depthZero index)
  else
    let s := (s.enterPending log).popFrames log
    match s.frames with
    | [] => .error .rootFrameMustRemain
    | cur :: _ => if log.errored then .ok s else s.exec index log cur.scope

def run : List StructLog → Nat → Scan → Result Scan
  | [], _, s => .ok s
  | log :: rest, index, s => do
    let s ← s.step index log
    run rest (index + 1) s

end Scan

/-- Pre-pass deciding which `CALL`s could become nested frames, and the root's index. -/
def scanCandidates (logs : List StructLog) : Result (OrdMap Nat Candidate × Option U256) := do
  let s ← Scan.run logs 0 {}
  .ok (s.candidates, s.rootIndex)

end GasAnalyzer
