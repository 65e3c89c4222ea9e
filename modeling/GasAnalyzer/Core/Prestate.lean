import Mathlib
import GasAnalyzer.Core.Walk

/-!
# The prestate net form

A program built from two cheap tracers: the net storage diff of a call and its call tree with logs. It
exists for calls that change no other account's storage and make no regular `CALL`, `CREATE` or
`SELFDESTRUCT` at the consumer's depth.
-/

namespace GasAnalyzer

structure AccountState where
  storage : Slots := OrdMap.empty

/-- What `prestateTracer` answers in diff mode. -/
structure DiffMode where
  pre : OrdMap Address AccountState := OrdMap.empty
  post : OrdMap Address AccountState := OrdMap.empty

structure CallLogFrame where
  data : Option Bytes := none
  topics : Option (List B256) := none
  position : Option UInt64 := none
  index : Option UInt64 := none

inductive FrameType where
  | call | staticcall | delegatecall | callcode | create | create2 | selfdestruct
  | other (name : String)
  deriving DecidableEq

/-- What `callTracer` answers for a frame. -/
structure CallFrame where
  typ : FrameType := .call
  toAddr : Option Address := none
  error : Option String := none
  revertReason : Option String := none
  logs : List CallLogFrame := []
  calls : List CallFrame := []

/-- Why a call has no net form; the source formats each into a line for its log. -/
inductive FallbackReason where
  | rootTargets (toAddr consumer : Address)
  | topLevelReverted (reason : String)
  | storageChanged (account : Address)
  | regularCall (toAddr : Option Address)
  | creation (typ : FrameType)
  | selfdestruct
  | unhandled (typ : FrameType)
  deriving DecidableEq

inductive PrestateEligibility where
  | eligible
  | fallback (reason : FallbackReason)
  deriving DecidableEq

/-- The failure reason a frame carries, or `none` if it completed successfully. -/
def frameFailure (frame : CallFrame) : Option String := frame.error.or frame.revertReason

def storageOf (accounts : OrdMap Address AccountState) (a : Address) : Slots :=
  ((accounts.get a).map AccountState.storage).getD OrdMap.empty

/-- Keys of two maps in ascending order. -/
def unionKeys {κ ν : Type} [LinearOrder κ] (a b : OrdMap κ ν) : List κ := (a.extend b).keys

/-- The slots of an account whose value differs, with the value they end at. -/
def changedSlots (diff : DiffMode) (a : Address) : List (B256 × B256) :=
  let pre := storageOf diff.pre a
  let post := storageOf diff.post a
  ((unionKeys pre post).filter (fun k => (pre.get k).getD 0 ≠ (post.get k).getD 0)).map
    (fun k => (k, (post.get k).getD 0))

def accountStorageChanged (diff : DiffMode) (a : Address) : Bool := !(changedSlots diff a).isEmpty

mutual

/-- The first frame at target depth that rules out the net form. -/
def scanTargetDepth : CallFrame → Option FallbackReason
  | ⟨_, _, _, _, _, calls⟩ => scanCalls calls

def scanCalls : List CallFrame → Option FallbackReason
  | [] => none
  | c :: rest =>
    match c.typ with
    | .call => some (.regularCall c.toAddr)
    | .create | .create2 => some (.creation c.typ)
    | .selfdestruct => some .selfdestruct
    | .delegatecall | .callcode =>
      match scanTargetDepth c with
      | some reason => some reason
      | none => scanCalls rest
    | .staticcall => scanCalls rest
    | .other _ => some (.unhandled c.typ)

end

/-- Whether a call has a net form. -/
def classifyPrestateEligibility (frame : CallFrame) (diff : DiffMode) (consumer : Address) :
    PrestateEligibility :=
  match frame.toAddr.filter (· ≠ consumer), frameFailure frame with
  | some other, _ => .fallback (.rootTargets other consumer)
  | none, some reason => .fallback (.topLevelReverted reason)
  | none, none =>
    match (unionKeys diff.pre diff.post).find? (fun a => a ≠ consumer && accountStorageChanged diff a) with
    | some account => .fallback (.storageChanged account)
    | none =>
      match scanTargetDepth frame with
      | some reason => .fallback reason
      | none => .eligible

/-! ### Building -/

/-- A log with position `p` was emitted after `p` sub-calls. -/
def CallLogFrame.place (log : CallLogFrame) : Nat := (log.position.getD 0).toNat

mutual

def collectTargetDepthLogs : CallFrame → List CallLogFrame
  | ⟨_, _, _, _, logs, calls⟩ =>
    collectCalls (logs.mergeSort (fun a b => a.place ≤ b.place)) 0 calls

/-- A frame's logs, by position, among those of its transparent sub-calls. -/
def collectCalls (logs : List CallLogFrame) (index : Nat) : List CallFrame → List CallLogFrame
  | [] => logs
  | c :: rest =>
    let early := logs.takeWhile (fun l => l.place ≤ index)
    let inner :=
      if (c.typ = .delegatecall || c.typ = .callcode) && (frameFailure c).isNone then
        collectTargetDepthLogs c
      else []
    early ++ inner ++ collectCalls (logs.dropWhile (fun l => l.place ≤ index)) (index + 1) rest

end

def orderedTargetDepthLogs (frame : CallFrame) : List CallLogFrame :=
  let logs := collectTargetDepthLogs frame
  if 1 < logs.length ∧ logs.all (fun l => l.index.isSome) then
    logs.mergeSort (fun a b => a.index.getD 0 ≤ b.index.getD 0)
  else logs

def logToUpdate (log : CallLogFrame) : StateUpdate :=
  let data := log.data.getD []
  match log.topics.getD [] with
  | [] => .log0 data
  | [topic1] => .log1 data topic1
  | [topic1, topic2] => .log2 data topic1 topic2
  | [topic1, topic2, topic3] => .log3 data topic1 topic2 topic3
  | topic1 :: topic2 :: topic3 :: topic4 :: _ => .log4 data topic1 topic2 topic3 topic4

/-- Stores of the slots that changed, in slot order, then the logs in emission order. -/
def buildStateUpdatesFromPrestate (consumer : Address) (diff : DiffMode) (frame : CallFrame) :
    List StateUpdate :=
  (changedSlots diff consumer).map (fun e => .store ⟨e.1, e.2⟩) ++
    (orderedTargetDepthLogs frame).map logToUpdate

end GasAnalyzer
