import GasAnalyzer.Core.Prestate
import GasAnalyzer.Native.Writes

/-!
# Executions and what the tracers say of them

An execution of the consumer is a call tree with the storage it starts from. Three tracers report it: the struct
logger lists its steps, `prestateTracer` the slots it changes, and `callTracer` its frames with their logs. Clients
differ in how they report a failed frame, in whether they keep its logs, and in whether logs carry a global index.
-/

namespace GasAnalyzer

/-! ### Events -/

/-- A log as the EVM emits it. -/
structure Event where
  data : Bytes
  topics : List B256
  deriving DecidableEq

/-- `length` bytes from `offset` on, of a memory that goes on in zeros. -/
def readMemory (memory : Bytes) (offset length : Nat) : Bytes :=
  (List.range length).map (fun i => memory.getD (offset + i) 0)

def Opcode.topicCount : Opcode → Nat
  | log1 => 1
  | log2 => 2
  | log3 => 3
  | log4 => 4
  | _ => 0

namespace StructLog

def bytes (log : StructLog) : Bytes := (parseTraceMemory (log.memory.getD [])).toOption.getD []

/-- What a `LOG` step emits. -/
def event (log : StructLog) : Event where
  data := readMemory log.bytes ((log.top 0).getD 0).val ((log.top 1).getD 0).val
  topics := ((log.stack.getD []).reverse.drop 2).take log.op.topicCount

def emits (log : StructLog) : Bool := log.op.isLog && !log.errored

/-- A step that `callTracer` shows as a frame of its own. -/
def shown (log : StructLog) : Bool := (log.op.opensFrame || log.op == .selfdestruct) && !log.errored

end StructLog

/-! ### The call tracer -/

/-- What clients differ in. Frames are named by the step of the call that opened them, the whole call by `none`. -/
structure Client where
  error : Option Nat → Option String
  revertReason : Option Nat → Option String
  /-- A frame that failed says so in one of the two fields. -/
  tells : ∀ frame, ((error frame).or (revertReason frame)).isSome = true
  /-- The global index of the log of a step. -/
  index : Nat → Option UInt64
  /-- Whether logs under a failed frame are left out. -/
  strips : Bool

def FrameType.ofOpcode : Opcode → FrameType
  | .call => .call
  | .staticcall => .staticcall
  | .delegatecall => .delegatecall
  | .callcode => .callcode
  | .create => .create
  | .create2 => .create2
  | .selfdestruct => .selfdestruct
  | op => .other op.name

namespace Client

variable (client : Client)

def logFrame (position n : Nat) (log : StructLog) : CallLogFrame where
  data := some log.event.data
  topics := some log.event.topics
  position := some (UInt64.ofNat position)
  index := client.index n

/-- The frame named `name`, with the logs and calls made in it. -/
def frame (name : Option Nat) (typ : FrameType) (toAddr : Option Address) (failed : Bool) (logs : List CallLogFrame)
    (calls : List CallFrame) : CallFrame where
  typ := typ
  toAddr := toAddr
  error := if failed then client.error name else none
  revertReason := if failed then client.revertReason name else none
  logs := logs
  calls := calls

end Client

namespace CallTree

/-- Who the frame of a step runs for, or who a `SELFDESTRUCT` pays. -/
def frameTo (log : StructLog) (rest : CallTree) : Option Address :=
  if log.op.isCreate then if rest.succeeds then deployed rest else none
  else if log.op = .selfdestruct then (log.top 0).map Address.fromWord
  else log.callee

section

variable (client : Client)

/-- The logs of a frame itself, each with the number of calls the frame made before it. -/
def frameLogs : Nat → Nat → CallTree → List CallLogFrame
  | _, _, done => []
  | position, n, step log rest =>
    (if log.emits then [client.logFrame position n log] else []) ++
      rest.frameLogs (if log.shown then position + 1 else position) (n + 1)
  | position, n, enter _ body rest => rest.frameLogs (position + 1) (n + 1 + body.size)

/-- The frames a frame opens; `lost` says whether it or a frame around it failed. -/
def callFrames : Bool → Nat → CallTree → List CallFrame
  | _, _, done => []
  | lost, n, step log rest =>
    (if log.shown then
      [client.frame (some n) (.ofOpcode log.op) (frameTo log rest) (log.op.opensFrame && !rest.succeeds) [] []]
    else []) ++ rest.callFrames lost (n + 1)
  | lost, n, enter call body rest =>
    client.frame (some n) (.ofOpcode call.op) (frameTo call rest) (!rest.succeeds)
        (if client.strips && (lost || !rest.succeeds) then [] else frameLogs client 0 (n + 1) body)
        (body.callFrames (lost || !rest.succeeds) (n + 1)) ::
      rest.callFrames lost (n + 1 + body.size)

end

/-- The `LOG` steps of a frame and its delegate frames whose events no failing frame undoes. -/
def emissions (n : Nat) (t : CallTree) : List (Nat × StructLog) :=
  (t.closure succeeds n).filter (fun p => p.2.emits)

/-- Below a `STATICCALL` nothing is stored. -/
def ReadOnly : CallTree → Prop
  | done => True
  | step _ rest => rest.ReadOnly
  | enter call body rest =>
    (call.op = .staticcall → ∀ log ∈ body.flatten, log.errored = false → log.op ≠ .sstore) ∧ body.ReadOnly ∧
      rest.ReadOnly

end CallTree

/-! ### Executions -/

/-- A call of the consumer. -/
structure Execution where
  consumer : Address
  tree : CallTree
  failed : Bool := false
  /-- Storage before the call. -/
  before : Address → B256 → B256
  wellFormed : tree.WellFormed 1
  readOnly : tree.ReadOnly
  bounded : tree.size < 2 ^ 63

namespace Execution

variable (x : Execution)

def trace : DefaultFrame where
  failed := x.failed
  structLogs := x.tree.flatten
  bounded := by rw [CallTree.length_flatten]; exact x.bounded

def writes : List Write := if x.failed then [] else x.tree.writes CallTree.deployed (some x.consumer) 0

/-- Storage after the call. -/
def after (a : Address) (s : B256) : B256 := (wrote x.writes a s).getD (x.before a s)

/-- What `callTracer` answers. -/
def callFrame (client : Client) : CallFrame :=
  client.frame none .call (some x.consumer) x.failed
    (if client.strips && x.failed then [] else x.tree.frameLogs client 0 0) (x.tree.callFrames client x.failed 0)

/-- What `prestateTracer` answers in diff mode: exactly the slots whose value changed. Zero may be left out. -/
structure Diffs (diff : DiffMode) : Prop where
  unchanged : ∀ a s, x.before a s = x.after a s →
    (storageOf diff.pre a).get s = none ∧ (storageOf diff.post a).get s = none
  changed : ∀ a s, x.before a s ≠ x.after a s →
    ((storageOf diff.pre a).get s).getD 0 = x.before a s ∧ ((storageOf diff.post a).get s).getD 0 = x.after a s

/-- Logs carry no global index, or all do and it grows along the logs the call emitted. -/
def Indexed (client : Client) : Prop :=
  (∀ n, client.index n = none) ∨ (∀ n, (client.index n).isSome = true) ∧
    (x.tree.emissions 0).Pairwise (fun p q => (client.index p.1).getD 0 < (client.index q.1).getD 0)

end Execution

/-! ### Replaying -/

/-- The consumer's storage, and the logs emitted in its name. -/
structure Replayed where
  storage : B256 → B256
  logs : List Event := []

namespace Replayed

def log (data : Bytes) (topics : List B256) (r : Replayed) : Replayed := { r with logs := r.logs ++ [⟨data, topics⟩] }

/-- An operation of a program that touches the consumer alone. -/
def apply : StateUpdate → Replayed → Option Replayed
  | .store s, r => some { r with storage := Function.update r.storage s.slot s.value }
  | .log0 data, r => some (r.log data [])
  | .log1 data topic1, r => some (r.log data [topic1])
  | .log2 data topic1 topic2, r => some (r.log data [topic1, topic2])
  | .log3 data topic1 topic2 topic3, r => some (r.log data [topic1, topic2, topic3])
  | .log4 data topic1 topic2 topic3 topic4, r => some (r.log data [topic1, topic2, topic3, topic4])
  | .call _, _ | .create .., _ | .create2 .., _ | .nested _, _ => none

end Replayed

/-- What a program leaves, if it needs no other contract. -/
def replay : List StateUpdate → Replayed → Option Replayed
  | [], r => some r
  | u :: us, r => (r.apply u).bind (replay us)

end GasAnalyzer
