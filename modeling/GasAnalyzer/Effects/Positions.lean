import GasAnalyzer.Core.FrameTree

/-!
# Frames of a trace

A frame of a struct-log list is read off the depths: a call step followed by deeper steps up to the
step that resumes its caller. `InRoot` are the steps that run in the root frame or below it through
`DELEGATECALL` and `CALLCODE` only, in frames that all succeed. Nothing here asks the list to be a
well-formed trace.
-/

namespace GasAnalyzer

variable {logs : List StructLog}

/-- The success flag or deployed address a resumed caller finds on its stack. -/
def StructLog.flag (log : StructLog) : Option U256 := log.stack.bind List.getLast?

/-- The frame that step `j` opens and that step `k` returns from. -/
structure FrameAt (logs : List StructLog) (j k : Nat) (call resume : StructLog) : Prop where
  calls : logs[j]? = some call
  resumes : logs[k]? = some resume
  back : resume.depth = call.depth
  enters : ∃ first, logs[j + 1]? = some first ∧ first.depth.toNat = call.depth.toNat + 1
  inside : ∀ (m : Nat) (log : StructLog), j < m → m < k → logs[m]? = some log → call.depth < log.depth

inductive InRoot (logs : List StructLog) : Nat → Prop where
  | root {i : Nat} {log : StructLog} (found : logs[i]? = some log) (depth : log.depth = 1)
      (above : ∀ (j : Nat) (before : StructLog), j < i → logs[j]? = some before → before.depth ≠ 0) :
      InRoot logs i
  | delegate {i j k : Nat} {log call resume : StructLog} {flag : U256} (found : logs[i]? = some log)
      (caller : InRoot logs j) (frame : FrameAt logs j k call resume) (delegates : call.op.isDelegate = true)
      (fine : call.errored = false) (success : resume.flag = some flag) (nonzero : flag ≠ 0)
      (after : j < i) (before : i < k) (depth : log.depth.toNat = call.depth.toNat + 1) : InRoot logs i

/-- The steps that change the state or emit an event. -/
def effectful (op : Opcode) : Bool := op == .sstore || op == .call || op.isLog || op.isCreate

/-- The opcode an update stands for; a `NESTED` op stands for a `CALL`. -/
def StateUpdate.opcode : StateUpdate → Opcode
  | store _ => .sstore
  | call _ | nested _ => .call
  | log0 _ => .log0
  | log1 _ _ => .log1
  | log2 _ _ _ => .log2
  | log3 _ _ _ _ => .log3
  | log4 _ _ _ _ _ => .log4
  | create _ _ => .create
  | create2 _ _ _ => .create2

/-- The update a program holds for step `i`. -/
def Holds (updates : List StateUpdate) (steps : List Nat) (i : Nat) (op : Opcode) : Prop :=
  ∃ update, (update, i) ∈ updates.zip steps ∧ update.opcode = op

theorem holds_ops {ops : List Op} {i : Nat} {op : Opcode} :
    Holds (ops.map Op.update) (ops.map Op.step) i op ↔ ∃ o ∈ ops, o.step = i ∧ o.update.opcode = op := by
  unfold Holds
  rw [List.zip_map']
  constructor
  · rintro ⟨update, member, kind⟩
    obtain ⟨o, inside, same⟩ := List.mem_map.mp member
    obtain ⟨rfl, rfl⟩ := Prod.mk.inj same
    exact ⟨o, inside, rfl, kind⟩
  · rintro ⟨o, inside, rfl, kind⟩
    exact ⟨o.update, List.mem_map.mpr ⟨o, inside, rfl⟩, kind⟩

/-- What the decoder reads off an effectful step that carries its memory. -/
theorem decodeStructLog_effect {log : StructLog} {words : List String}
    {r : Option StateUpdate × Option Opcode} (decoded : decodeStructLog log = .ok r)
    (effect : effectful log.op = true) (memory : log.memory = some words) :
    ∃ update, r = (some update, none) ∧ update.opcode = log.op ∧ update.isNested = false := by
  unfold decodeStructLog at decoded
  obtain ⟨stack, -, decoded⟩ := Outcome.bind_ok decoded
  rw [memory] at decoded
  obtain ⟨bytes, -, decoded⟩ := Outcome.bind_ok decoded
  unfold decodeOp at decoded
  cases op : log.op with
  | staticcall | other | selfdestruct | tstore | delegatecall | callcode =>
    rw [op] at effect
    simp [effectful, Opcode.isLog, Opcode.isCreate] at effect
  | _ =>
    rw [op] at decoded
    simp only [bind, Except.bind] at decoded
    repeat' split at decoded
    all_goals first
      | (cases decoded; done)
      | exact ⟨_, (Except.ok.inj decoded).symm, rfl, rfl⟩

theorem append_ok {updates ops : List Op} {n : Nat} {log : StructLog} {skipped : Option Opcode}
    (appended : appendStateUpdateFromStructLog updates n log = .ok (ops, skipped)) :
    ∃ update, decodeStructLog log = .ok (update, skipped) ∧
      ops = updates ++ update.toList.map (Op.mk · n) := by
  unfold appendStateUpdateFromStructLog at appended
  obtain ⟨⟨update, skipped'⟩, decoded, appended⟩ := Outcome.bind_ok appended
  obtain ⟨rfl, rfl⟩ := Prod.mk.inj (Except.ok.inj appended)
  exact ⟨update, decoded, rfl⟩

theorem decodeStructLog_noMemory {log : StructLog} {r : Option StateUpdate × Option Opcode}
    (decoded : decodeStructLog log = .ok r) (memory : log.memory = none) : r = (none, none) := by
  unfold decodeStructLog at decoded
  obtain ⟨stack, -, decoded⟩ := Outcome.bind_ok decoded
  rw [memory] at decoded
  simp only at decoded
  split at decoded
  · cases decoded
  · exact (Except.ok.inj decoded).symm

end GasAnalyzer
