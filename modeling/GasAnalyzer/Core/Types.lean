import Mathlib
import GasAnalyzer.Library.Abi
import GasAnalyzer.Library.Outcome

/-!
# State updates and struct logs

The data the analyzer reads (`StructLog`, one executed EVM step of a Geth trace) and the data it
produces (`StateUpdate`, one operation of a signed program). Machine words are fixed-width: 256-bit
stack words and slots, 160-bit addresses, 64-bit gas and depth counters with wrapping sums as in a
release build.
-/

namespace GasAnalyzer

abbrev Bytes := Abi.Bytes
abbrev U256 := Fin (2 ^ 256)
abbrev B256 := Fin (2 ^ 256)
abbrev Address := Fin (2 ^ 160)

instance wordModulus : NeZero (2 ^ 256) := ⟨by decide⟩

instance addressModulus : NeZero (2 ^ 160) := ⟨by decide⟩

instance addressLawful : LawfulBEq Address := inferInstance

/-- `Address::from_word`: the low 20 bytes. -/
def Address.fromWord (w : B256) : Address := Fin.ofNat _ w.val

/-! ### Saturating arithmetic -/

def satAdd (a b : UInt64) : UInt64 :=
  if a.toNat + b.toNat < 2 ^ 64 then a + b else UInt64.ofNat (2 ^ 64 - 1)

def satSub (a b : UInt64) : UInt64 := if b ≤ a then a - b else 0

def satMul (a b : UInt64) : UInt64 :=
  if a.toNat * b.toNat < 2 ^ 64 then a * b else UInt64.ofNat (2 ^ 64 - 1)

theorem toNat_satAdd (a b : UInt64) : (satAdd a b).toNat = min (2 ^ 64 - 1) (a.toNat + b.toNat) := by
  unfold satAdd
  split
  · rename_i fits
    rw [UInt64.toNat_add, Nat.mod_eq_of_lt fits]
    omega
  · rename_i large
    rw [UInt64.toNat_ofNat']
    omega

theorem toNat_satSub (a b : UInt64) : (satSub a b).toNat = a.toNat - b.toNat := by
  unfold satSub
  split
  · rename_i le
    exact UInt64.toNat_sub_of_le _ _ le
  · rename_i lt
    have := UInt64.lt_iff_toNat_lt.mp (UInt64.not_le.mp lt)
    show 0 = _
    omega

theorem toNat_satMul (a b : UInt64) : (satMul a b).toNat = min (2 ^ 64 - 1) (a.toNat * b.toNat) := by
  unfold satMul
  split
  · rename_i fits
    rw [UInt64.toNat_mul, Nat.mod_eq_of_lt fits]
    omega
  · rename_i large
    rw [UInt64.toNat_ofNat']
    omega

/-- `U256::saturating_sub(1)` -/
def U256.predSat (v : U256) : U256 := if v = 0 then 0 else v - 1

/-! ### Programs -/

/-- The opcodes the analyzer tells apart; every other name is `other`. -/
inductive Opcode where
  | sstore | tstore | selfdestruct
  | call | staticcall | delegatecall | callcode | create | create2
  | log0 | log1 | log2 | log3 | log4
  | other (name : String)
  deriving DecidableEq

namespace Opcode

/-- The name the tracer reports. -/
def name : Opcode → String
  | sstore => "SSTORE"
  | tstore => "TSTORE"
  | selfdestruct => "SELFDESTRUCT"
  | call => "CALL"
  | staticcall => "STATICCALL"
  | delegatecall => "DELEGATECALL"
  | callcode => "CALLCODE"
  | create => "CREATE"
  | create2 => "CREATE2"
  | log0 => "LOG0"
  | log1 => "LOG1"
  | log2 => "LOG2"
  | log3 => "LOG3"
  | log4 => "LOG4"
  | other name => name

def isLog : Opcode → Bool
  | log0 | log1 | log2 | log3 | log4 => true
  | _ => false

def isCreate : Opcode → Bool
  | create | create2 => true
  | _ => false

/-- `DELEGATECALL` and `CALLCODE`: the callee runs in its caller's storage context. -/
def isDelegate : Opcode → Bool
  | delegatecall | callcode => true
  | _ => false

/-- The opcodes that can open a frame. -/
def opensFrame : Opcode → Bool
  | call | staticcall | delegatecall | callcode | create | create2 => true
  | _ => false

end Opcode

structure Store where
  slot : B256
  value : B256
  deriving DecidableEq

structure Call where
  target : Address
  value : U256
  callargs : Bytes
  deriving DecidableEq

structure Nested where
  target : Address
  value : U256
  childLeaf : B256
  deriving DecidableEq

inductive StateUpdate where
  | store (s : Store)
  | call (c : Call)
  | log0 (data : Bytes)
  | log1 (data : Bytes) (topic1 : B256)
  | log2 (data : Bytes) (topic1 topic2 : B256)
  | log3 (data : Bytes) (topic1 topic2 topic3 : B256)
  | log4 (data : Bytes) (topic1 topic2 topic3 topic4 : B256)
  | create (value : U256) (initcode : Bytes)
  | create2 (salt : B256) (value : U256) (initcode : Bytes)
  /-- Hand a callee its own frame; `childLeaf` is zero until the tree is encoded. -/
  | nested (n : Nested)
  deriving DecidableEq

def StateUpdate.isNested : StateUpdate → Bool
  | nested _ => true
  | _ => false

@[simp] theorem StateUpdate.isNested_nested (n : Nested) : (nested n).isNested = true := rfl

def StateUpdate.isStore : StateUpdate → Bool
  | store _ => true
  | _ => false

/-- An operation of a program being extracted. `step` is the index of the struct log at which it
was emitted; it is history the analyzer does not keep, and no extraction step reads it. -/
structure Op where
  update : StateUpdate
  step : Nat
  deriving DecidableEq

/-! ### Traces -/

/-- One step of a Geth struct-log trace, with the fields extraction reads. -/
structure StructLog where
  op : Opcode
  gas : UInt64 := 0
  gasCost : UInt64 := 0
  depth : UInt64 := 1
  error : Option String := none
  /-- Bottom of the stack first, as the tracer lists it. -/
  stack : Option (List U256) := some []
  memory : Option (List String) := some []
  refundCounter : Option UInt64 := none

namespace StructLog

/-- The `n`-th stack word from the top. -/
def top (log : StructLog) (n : Nat) : Option U256 := (log.stack.getD []).reverse[n]?

/-- The callee of a `CALL`-family step: the second word from the top. -/
def callee (log : StructLog) : Option Address := (log.top 1).map Address.fromWord

def errored (log : StructLog) : Bool := log.error.isSome

end StructLog

structure DefaultFrame where
  failed : Bool := false
  returnValue : Bytes := []
  structLogs : List StructLog
  /-- A vector holds at most `isize::MAX` bytes. -/
  bounded : structLogs.length < 2 ^ 63 := by decide

/-! ### Failures -/

/-- Every way the modelled functions fail, in the source's words (`Failure.message`). -/
inductive Failure where
  -- Aborts: a failed `expect`, an index out of bounds, `unreachable!`.
  | stackIsEmpty
  | invalidHex
  | indexOutOfBounds
  | invalidUsize (what : String)
  | capacityOverflow
  | remainingCalls (count : Nat)
  | rootFrameMustRemain
  | onlyEmittingFramesFlush
  | nestedFrameEmits
  | skippedCall
  | skippedCreate
  | noParent
  | notAmongChildren
  | noFallback
  | noParentProgram
  | noNestedOp
  | noRootFrame
  -- Errors returned to the caller.
  | depthZero (index : Nat)
  | shortStack (index : Nat)
  | noMemory (op : Opcode)
  | delegateDecoded (op : Opcode)
  | failedCreate (depth : UInt64)
  | openedNoFrame (depth : UInt64)
  | depthJumped (closing depth : UInt64)
  | resumeNoStack (depth : UInt64)
  | resumeEmptyStack (depth : UInt64)
  | nestedNotLast (other : Option StateUpdate)
  | noStack (op : Opcode)
  | callNoUpdate
  | unclosedFrames (count : Nat)
  | neverReturned
  | noLeaves
  | leafOutside (index size : Nat)
  | noFrames
  | moreNestedOps (frame : Nat)
  | moreChildren (frame : Nat)
  | childOutside (frame child : Nat)
  | noTransitionIndex (frame : Nat)
  deriving DecidableEq

namespace Failure

/-- Whether the source aborts here instead of returning an error. -/
def panics : Failure → Bool
  | stackIsEmpty | invalidHex | indexOutOfBounds | invalidUsize _ | capacityOverflow | remainingCalls _
  | rootFrameMustRemain | onlyEmittingFramesFlush | nestedFrameEmits | skippedCall | skippedCreate
  | noParent | notAmongChildren | noFallback | noParentProgram | noNestedOp | noRootFrame => true
  | _ => false

def message : Failure → String
  | stackIsEmpty => "stack is empty"
  | invalidHex => "invalid hex"
  | indexOutOfBounds => "index out of bounds"
  | invalidUsize what => "invalid " ++ what
  | capacityOverflow => "capacity overflow"
  | remainingCalls count =>
    "Found " ++ toString count ++ " remaining CALL(s) that didn't exit properly."
  | rootFrameMustRemain => "root frame must remain"
  | onlyEmittingFramesFlush => "only emitting frames flush"
  | nestedFrameEmits => "a nested frame emits"
  | skippedCall => "CALL is never a skipped opcode"
  | skippedCreate => "CREATE/CREATE2 are never skipped opcodes"
  | noParent => "non-root frames have a parent"
  | notAmongChildren => "a kept frame is among its parent's children"
  | noFallback => "nested frames keep their CALL"
  | noParentProgram => "a kept parent has a program"
  | noNestedOp => "one NESTED op per child"
  | noRootFrame => "a frame tree always has its root frame"
  | depthZero index =>
    "struct log at " ++ toString index ++ " has depth 0; the root frame is depth 1"
  | shortStack index => "SSTORE log at " ++ toString index ++ " has a short stack"
  | noMemory op => "There is no memory for " ++ op.name ++ " in depth 1"
  | delegateDecoded op => "Calling opcode " ++ op.name ++ ", this shouldn't even happen!"
  | failedCreate depth =>
    "an emitted CREATE/CREATE2 at depth " ++ toString depth ++
      " failed in the trace; its replay would revert the settlement"
  | openedNoFrame depth =>
    "a nested candidate at depth " ++ toString depth ++ " opened no frame"
  | depthJumped closing depth =>
    "trace depth jumped from " ++ toString closing ++ " to " ++ toString depth ++
      " without resume logs — cannot attribute frame outcomes"
  | resumeNoStack depth => "resume log at depth " ++ toString depth ++ " has no stack"
  | resumeEmptyStack depth => "resume log at depth " ++ toString depth ++ " has empty stack"
  | nestedNotLast _ => "reverted nested frame's op was not the parent's last"
  | noStack op => op.name ++ " log has no stack"
  | callNoUpdate => "CALL produced no update"
  | unclosedFrames count =>
    "trace ended with " ++ toString count ++ " unclosed frame(s) — malformed trace"
  | neverReturned => "a kept frame never returned"
  | noLeaves => "a tree needs at least one leaf"
  | leafOutside index size =>
    "leaf " ++ toString index ++ " is outside a tree of " ++ toString size
  | noFrames => "a frame tree needs a root frame"
  | moreNestedOps frame => "frame " ++ toString frame ++ " has more NESTED ops than children"
  | moreChildren frame => "frame " ++ toString frame ++ " has more children than NESTED ops"
  | childOutside frame child =>
    "frame " ++ toString frame ++ " names child " ++ toString child ++ " outside pre-order"
  | noTransitionIndex frame => "frame " ++ toString frame ++ " has no transition index"

end Failure

abbrev Result := Except Failure

/-- Vec indexing. -/
def index {α : Type} (xs : List α) (i : Nat) : Result α := okOr .indexOutOfBounds xs[i]?

end GasAnalyzer
