import Mathlib
import GasAnalyzer.Native.CallTree

/-!
# The closure of a frame

The steps of a frame and of the `DELEGATECALL` and `CALLCODE` frames below it, which run in its storage
context; and what its calls and creates cost.
-/

namespace GasAnalyzer

namespace CallTree

/-- The gas of the step the tree starts with. -/
def startGas (t : CallTree) : Option UInt64 := t.head?.map StructLog.gas

/-- A call or create with the gas at the first step of the frame it opened, if any, and on resuming. -/
structure Record where
  log : StructLog
  entryGas : Option UInt64
  resumeGas : UInt64

def Record.gasUsed (r : Record) : UInt64 := satSub r.log.gas r.resumeGas

def Record.calleeGas (r : Record) : UInt64 := GasAnalyzer.calleeGas r.gasUsed r.log.gasCost r.entryGas

section

variable (keep : CallTree → Bool)

/-- The steps of a frame and of its transitive delegate frames, with their positions; the frame that `rest`
resumes from is followed if `keep rest`. -/
def closure : Nat → CallTree → List (Nat × StructLog)
  | _, done => []
  | n, step log rest => (n, log) :: rest.closure (n + 1)
  | n, enter call body rest =>
    (n, call) :: ((if call.op.isDelegate && keep rest then body.closure (n + 1) else []) ++
      rest.closure (n + 1 + body.size))

/-- The steps of the closure whose opcode is one of `which`, with their gas. -/
def records (which : Opcode → Bool) : CallTree → List Record
  | done => []
  | step log rest => (if which log.op then [⟨log, none, rest.startGas.getD 0⟩] else []) ++ rest.records which
  | enter call body rest =>
    (if which call.op then [⟨call, body.startGas, rest.startGas.getD 0⟩] else []) ++
      ((if call.op.isDelegate && keep rest then body.records which else []) ++ rest.records which)

def callRecords (t : CallTree) : List Record := t.records keep (· == .call)

def createRecords (t : CallTree) : List Record := t.records keep Opcode.isCreate

end

/-- No frame fails. -/
def NoFrameFails : CallTree → Prop
  | done => True
  | step _ rest => rest.NoFrameFails
  | enter _ body rest => body.NoFrameFails ∧ rest.succeeds = true ∧ rest.NoFrameFails

/-- No step errors. -/
def NoStepErrs (t : CallTree) : Prop := ∀ log ∈ t.flatten, log.errored = false

/-- Following every delegate frame, whatever its outcome. -/
def always (_ : CallTree) : Bool := true

theorem WellFormed.closure_memory {d : Nat} {t : CallTree} (wf : t.WellFormed d) (keep : CallTree → Bool) (n : Nat) :
    ∀ p ∈ t.closure keep n, p.2.memory.isSome = true := by
  induction t generalizing d n with
  | done => intro p member; cases member
  | step log rest ih =>
    intro p member
    rcases List.mem_cons.mp member with rfl | later
    · exact wf.1.memory
    · exact ih wf.2.2 (n + 1) p later
  | enter call body rest ihBody ihRest =>
    obtain ⟨carries, -, -, -, inner, -, tail⟩ := wf
    intro p member
    rcases List.mem_cons.mp member with rfl | later
    · exact carries.memory
    · rcases List.mem_append.mp later with inside | after
      · split at inside
        · exact ihBody inner (n + 1) p inside
        · cases inside
      · exact ihRest tail _ p after

/-- A frame of a short tree is shallow: every level takes a step. -/
theorem WellFormed.shallow {d : Nat} {t : CallTree} (wf : t.WellFormed d) :
    ∀ log ∈ t.flatten, log.depth.toNat < d + t.size := by
  induction t generalizing d with
  | done => intro log member; cases member
  | step log rest ih =>
    obtain ⟨carries, -, tail⟩ := wf
    intro log' member
    rcases List.mem_cons.mp member with rfl | later
    · rw [carries.depth, size]
      omega
    · have := ih tail log' later
      rw [size]
      omega
  | enter call body rest ihBody ihRest =>
    obtain ⟨carries, -, -, -, inner, -, tail⟩ := wf
    intro log' member
    rw [size]
    rcases List.mem_cons.mp member with rfl | later
    · rw [carries.depth]
      omega
    · rcases List.mem_append.mp later with inside | after
      · have := ihBody inner log' inside
        omega
      · have := ihRest tail log' after
        omega

end CallTree

end GasAnalyzer
