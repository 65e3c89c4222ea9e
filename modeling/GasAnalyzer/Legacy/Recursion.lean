import GasAnalyzer.Effects.Decoding
import GasAnalyzer.Effects.Legacy
import GasAnalyzer.Native.Closure

/-!
# The legacy extractor on a call tree

The extractor keeps one target depth and a stack of open calls instead of a stack of frames. Over a call
tree it is a recursion all the same: before every step of the root's closure the target depth is the step's
and no call is open (`Ready`), and what runs below a `CALL`, `STATICCALL` or create leaves the state alone.
-/

namespace GasAnalyzer

namespace Extracting

variable (origin : Option Address) {n d : Nat} {log next : StructLog} {s s' : Extracting}

/-- What a step does to the state before its opcode is looked at. -/
def arrive (origin : Option Address) (log : StructLog) (s : Extracting) : Result Extracting := do
  let s ← (s.noteEntry log).settleCreate log
  .ok ((s.detectReentry origin log).stepUp log)

theorem step_eq (origin : Option Address) (n : Nat) (log : StructLog) (s : Extracting) :
    s.step origin n log = s.arrive origin log >>= fun s => s.extractOp n log := by
  unfold step arrive
  cases (s.noteEntry log).settleCreate log <;> rfl

theorem detectReentry_eq (origin : Option Address) (log : StructLog) (s : Extracting) :
    ∃ r, s.detectReentry origin log = { s with reentered := r } := by
  unfold detectReentry
  split
  · exact ⟨true, rfl⟩
  · exact ⟨s.reentered, rfl⟩

/-! ### Ready states -/

/-- The state at a step of the root's closure at depth `d`. -/
structure Ready (d : Nat) (s : Extracting) : Prop where
  target : s.targetDepth.toNat = d
  calls : s.callStack = []
  tracking : s.callGasTracking = OrdMap.empty
  awaiting : s.awaitingEntry = none
  create : s.pendingCreate = none

/-- What an extraction adds. -/
@[ext] structure Tally where
  ops : List Op := []
  callGas : UInt64 := 0
  calleeGas : UInt64 := 0
  createGas : UInt64 := 0
  sstoreGas : UInt64 := 0

def Tally.add (a b : Tally) : Tally where
  ops := a.ops ++ b.ops
  callGas := a.callGas + b.callGas
  calleeGas := a.calleeGas + b.calleeGas
  createGas := a.createGas + b.createGas
  sstoreGas := a.sstoreGas + b.sstoreGas

structure Adds (tally : Tally) (s s' : Extracting) : Prop where
  ops : s'.ops = s.ops ++ tally.ops
  callGas : s'.totalCallGas = s.totalCallGas + tally.callGas
  calleeGas : s'.calleeGasTotal = s.calleeGasTotal + tally.calleeGas
  createGas : s'.createGasTotal = s.createGasTotal + tally.createGas
  sstoreGas : s'.sstoreGasTotal = s.sstoreGasTotal + tally.sstoreGas
  skipped : s'.skippedOpcodes = s.skippedOpcodes

theorem Adds.nothing (s : Extracting) : Adds {} s s := by
  constructor <;> simp

theorem Adds.trans {a b : Tally} {s'' : Extracting} (first : Adds a s s') (second : Adds b s' s'') :
    Adds (a.add b) s s'' where
  ops := by rw [second.ops, first.ops, List.append_assoc]; rfl
  callGas := by rw [second.callGas, first.callGas, UInt64.add_assoc]; rfl
  calleeGas := by rw [second.calleeGas, first.calleeGas, UInt64.add_assoc]; rfl
  createGas := by rw [second.createGas, first.createGas, UInt64.add_assoc]; rfl
  sstoreGas := by rw [second.sstoreGas, first.sstoreGas, UInt64.add_assoc]; rfl
  skipped := second.skipped.trans first.skipped

/-- A step at the depth of a ready state finds it ready. -/
theorem Ready.arrive (ready : Ready d s) (depth : log.depth.toNat = d) :
    ∃ r, s.arrive origin log = .ok { s with reentered := r } := by
  obtain ⟨r, reentry⟩ := detectReentry_eq origin log s
  refine ⟨r, ?_⟩
  have level : ¬log.depth < s.targetDepth := by
    rw [UInt64.lt_iff_toNat_lt, depth, ready.target]
    exact Nat.lt_irrefl d
  unfold Extracting.arrive noteEntry settleCreate
  simp only [ready.awaiting, ready.create, Outcome.ok_bind, reentry]
  unfold stepUp
  rw [if_neg level]

theorem Ready.reenter (ready : Ready d s) (r : Bool) : Ready d { s with reentered := r } :=
  ⟨ready.target, ready.calls, ready.tracking, ready.awaiting, ready.create⟩

theorem Adds.reenter {a : Tally} (adds : Adds a s s') (r : Bool) : Adds a s { s' with reentered := r } :=
  ⟨adds.ops, adds.callGas, adds.calleeGas, adds.createGas, adds.sstoreGas, adds.skipped⟩

/-- Resuming a frame whose closure ended one deeper. -/
theorem arrive_back (target : s.targetDepth.toNat = d + 1) (calls : s.callStack = [])
    (tracking : s.callGasTracking = OrdMap.empty) (awaiting : s.awaitingEntry = none)
    (create : s.pendingCreate = none) (depth : log.depth.toNat = d) :
    ∃ s', s.arrive origin log = .ok s' ∧ Ready d s' ∧ Adds {} s s' := by
  obtain ⟨r, reentry⟩ := detectReentry_eq origin log s
  have up : log.depth < s.targetDepth := by
    rw [UInt64.lt_iff_toNat_lt, depth, target]
    exact Nat.lt_succ_self d
  refine ⟨{ s with reentered := r, targetDepth := log.depth, callStack := [] }, ?_, ?_, ?_⟩
  · unfold Extracting.arrive noteEntry settleCreate
    simp only [awaiting, create, Outcome.ok_bind, reentry]
    unfold stepUp
    rw [if_pos (by exact up)]
    simp only [calls, exitCalls]
  · exact ⟨depth, rfl, tracking, awaiting, create⟩
  · constructor <;> simp

/-! ### Below a call -/

theorem noteEntry_awaiting (log : StructLog) (s : Extracting) : (s.noteEntry log).awaitingEntry = none := by
  unfold noteEntry
  split
  · assumption
  · dsimp only
    split
    · split <;> rfl
    · rfl

theorem noteEntry_of_none (none : s.awaitingEntry = none) : s.noteEntry log = s := by
  unfold noteEntry
  rw [none]

theorem arrive_noteEntry (origin : Option Address) (log : StructLog) (s : Extracting) :
    (s.noteEntry log).arrive origin log = s.arrive origin log := by
  unfold Extracting.arrive
  rw [noteEntry_of_none (noteEntry_awaiting log s)]

theorem step_noteEntry (origin : Option Address) (n : Nat) (log : StructLog) (s : Extracting) :
    (s.noteEntry log).step origin n log = s.step origin n log := by
  rw [step_eq, step_eq, arrive_noteEntry]

/-- A state that nothing deeper than `d` changes but for its target depth: no call is open and the target is
`d`, or the open call was made at `d`. -/
structure Inert (d : Nat) (s : Extracting) : Prop where
  awaiting : s.awaitingEntry = none
  create : ∀ c g, s.pendingCreate = some (c, g) → c.toNat = d
  calls : s.callStack = [] ∧ s.targetDepth.toNat = d ∨
    ∃ c i, s.callStack = [(c, i)] ∧ c.toNat = d ∧ d < s.targetDepth.toNat

theorem Inert.settleCreate (inert : Inert d s) (deep : d < log.depth.toNat) : s.settleCreate log = .ok s := by
  unfold Extracting.settleCreate
  split
  · rfl
  · rename_i c g pending
    rw [if_neg]
    rw [UInt64.le_iff_toNat_le, inert.create c g pending]
    omega

theorem Inert.step (inert : Inert d s) (deep : d < log.depth.toNat) (small : log.depth.toNat + 1 < 2 ^ 64) :
    ∃ t r, s.step origin n log = .ok { s with targetDepth := t, reentered := r } ∧
      Inert d { s with targetDepth := t, reentered := r } := by
  obtain ⟨r, reentry⟩ := detectReentry_eq origin log s
  rw [step_eq]
  unfold Extracting.arrive
  rw [noteEntry_of_none inert.awaiting, inert.settleCreate deep]
  simp only [Outcome.ok_bind, reentry]
  rcases inert.calls with ⟨none, target⟩ | ⟨c, i, one, made, target⟩
  · have level : ¬log.depth < s.targetDepth := by
      rw [UInt64.lt_iff_toNat_lt, target]
      omega
    have other : log.depth ≠ s.targetDepth := by
      intro same
      rw [same, target] at deep
      omega
    refine ⟨s.targetDepth, r, ?_, inert.awaiting, inert.create, Or.inl ⟨none, target⟩⟩
    have stays : stepUp log { s with reentered := r } = { s with reentered := r } := if_neg level
    rw [stays]
    exact if_neg other
  · -- The open call stays open: it was made above this step.
    have stays : ∃ t, stepUp log { s with reentered := r } = { s with targetDepth := t, reentered := r } ∧
        d < t.toNat := by
      unfold stepUp
      split
      · refine ⟨log.depth, ?_, deep⟩
        have above : ¬log.depth ≤ c := by
          rw [UInt64.le_iff_toNat_le, made]
          omega
        simp only [one, exitCalls, if_neg above]
      · exact ⟨s.targetDepth, rfl, target⟩
    obtain ⟨t, stepped, deeper⟩ := stays
    rw [stepped]
    unfold extractOp
    by_cases here : log.depth = t
    · rw [if_pos here]
      by_cases delegates : log.op.isDelegate = true
      · refine ⟨log.depth + 1, r, by rw [if_pos delegates], inert.awaiting, inert.create,
          Or.inr ⟨c, i, one, made, ?_⟩⟩
        show d < (log.depth + 1).toNat
        rw [UInt64.toNat_add]
        show d < (log.depth.toNat + 1) % 2 ^ 64
        omega
      · refine ⟨t, r, ?_, inert.awaiting, inert.create, Or.inr ⟨c, i, one, made, deeper⟩⟩
        rw [if_neg delegates, if_neg (by simp [one])]
    · exact ⟨t, r, by rw [if_neg here], inert.awaiting, inert.create, Or.inr ⟨c, i, one, made, deeper⟩⟩

theorem Inert.run (logs : List StructLog) (deep : ∀ log ∈ logs, d < log.depth.toNat)
    (small : ∀ log ∈ logs, log.depth.toNat + 1 < 2 ^ 64) : ∀ (n : Nat) (s : Extracting), Inert d s →
    ∃ t r, Extracting.run origin logs n s = .ok { s with targetDepth := t, reentered := r } ∧
      Inert d { s with targetDepth := t, reentered := r } := by
  induction logs with
  | nil =>
    intro n s inert
    exact ⟨s.targetDepth, s.reentered, rfl, inert⟩
  | cons log rest ih =>
    intro n s inert
    obtain ⟨t, r, stepped, inert'⟩ :=
      inert.step origin (n := n) (deep log List.mem_cons_self) (small log List.mem_cons_self)
    obtain ⟨t', r', ran, inert''⟩ := ih (fun l member => deep l (List.mem_cons_of_mem _ member))
      (fun l member => small l (List.mem_cons_of_mem _ member)) (n + 1) _ inert'
    refine ⟨t', r', ?_, inert''⟩
    show s.step origin n log >>= _ = _
    rw [stepped, Outcome.ok_bind, ran]

/-! ### Calls -/

/-- The state below an extracted `CALL` made at depth `d`. -/
structure InCall (d : Nat) (call : StructLog) (entry : Option UInt64) (s : Extracting) : Prop where
  target : d < s.targetDepth.toNat
  made : call.depth.toNat = d
  calls : ∃ i, s.callStack = [(call.depth, i)] ∧
    s.callGasTracking = OrdMap.empty.insert i ⟨call.gas, call.gasCost, entry⟩
  create : s.pendingCreate = none

theorem InCall.inert {call : StructLog} {entry : Option UInt64} (inCall : InCall d call entry s)
    (awaiting : s.awaitingEntry = none) : Inert d s := by
  obtain ⟨i, one, -⟩ := inCall.calls
  refine ⟨awaiting, ?_, Or.inr ⟨call.depth, i, one, inCall.made, inCall.target⟩⟩
  intro c g pending
  rw [inCall.create] at pending
  cases pending

/-- Resuming after a `CALL` accounts it. -/
theorem InCall.back {call : StructLog} {entry : Option UInt64} (inCall : InCall d call entry s)
    (awaiting : s.awaitingEntry = none) (depth : log.depth.toNat = d) :
    ∃ s', s.arrive origin log = .ok s' ∧ Ready d s' ∧
      Adds { callGas := (CallTree.Record.mk call entry log.gas).gasUsed
             calleeGas := (CallTree.Record.mk call entry log.gas).calleeGas } s s' := by
  obtain ⟨r, reentry⟩ := detectReentry_eq origin log s
  obtain ⟨i, one, tracking⟩ := inCall.calls
  have up : log.depth < s.targetDepth := by
    rw [UInt64.lt_iff_toNat_lt, depth]
    exact inCall.target
  have left : log.depth ≤ call.depth := by
    rw [UInt64.le_iff_toNat_le, depth, inCall.made]
  have tracked : s.callGasTracking.get i = some ⟨call.gas, call.gasCost, entry⟩ := by
    rw [tracking, OrdMap.get_insert, if_pos rfl]
  have cleared : s.callGasTracking.erase i = OrdMap.empty := by
    apply OrdMap.ext_get
    intro k
    rw [OrdMap.get_erase, tracking, OrdMap.get_insert]
    split <;> simp_all
  refine ⟨{ s with
    reentered := r
    targetDepth := log.depth
    callStack := []
    callGasTracking := OrdMap.empty
    totalCallGas := s.totalCallGas + satSub call.gas log.gas
    calleeGasTotal := s.calleeGasTotal + GasAnalyzer.calleeGas (satSub call.gas log.gas) call.gasCost entry },
    ?_, ⟨depth, rfl, rfl, awaiting, inCall.create⟩, ?_⟩
  · unfold Extracting.arrive
    rw [noteEntry_of_none awaiting]
    unfold Extracting.settleCreate
    simp only [inCall.create, Outcome.ok_bind, reentry]
    unfold stepUp
    rw [if_pos (by exact up)]
    simp only [one, exitCalls, if_pos left, tracked, cleared]
  · constructor <;> simp [CallTree.Record.gasUsed, CallTree.Record.calleeGas]

/-! ### Creates -/

/-- Resuming after an extracted create that deployed. -/
theorem create_back {call : StructLog} (target : s.targetDepth.toNat = d) (calls : s.callStack = [])
    (tracking : s.callGasTracking = OrdMap.empty) (awaiting : s.awaitingEntry = none)
    (create : s.pendingCreate = some (call.depth, call.gas)) (made : call.depth.toNat = d)
    (depth : log.depth.toNat = d) (deployed : log.deployedNothing = false) (entry : Option UInt64) :
    ∃ s', s.arrive origin log = .ok s' ∧ Ready d s' ∧
      Adds { createGas := (CallTree.Record.mk call entry log.gas).gasUsed } s s' := by
  obtain ⟨r, reentry⟩ := detectReentry_eq origin log
    { s with pendingCreate := none, createGasTotal := s.createGasTotal + satSub call.gas log.gas }
  have same : log.depth = call.depth := UInt64.toNat_inj.mp (depth.trans made.symm)
  have level : ¬log.depth < s.targetDepth := by
    rw [UInt64.lt_iff_toNat_lt, depth, target]
    exact Nat.lt_irrefl d
  refine ⟨{ s with
    reentered := r
    pendingCreate := none
    createGasTotal := s.createGasTotal + satSub call.gas log.gas }, ?_,
    ⟨target, calls, tracking, awaiting, rfl⟩, ?_⟩
  · unfold Extracting.arrive
    rw [noteEntry_of_none awaiting]
    unfold Extracting.settleCreate
    rw [create]
    simp only [same, UInt64.le_refl, if_true, ne_eq, not_true_eq_false, deployed, Bool.false_eq_true, or_self,
      if_false, Outcome.ok_bind]
    rw [reentry]
    exact congrArg Except.ok (if_neg level)
  · constructor <;> simp [CallTree.Record.gasUsed]

theorem create_fails {call : StructLog} (awaiting : s.awaitingEntry = none)
    (create : s.pendingCreate = some (call.depth, call.gas)) (same : log.depth = call.depth)
    (nothing : log.deployedNothing = true) : ∃ failure, s.arrive origin log = .error failure := by
  refine ⟨.failedCreate call.depth, ?_⟩
  unfold Extracting.arrive
  rw [noteEntry_of_none awaiting]
  unfold Extracting.settleCreate
  rw [create]
  simp [same, nothing]

/-! ### One step of the closure -/

/-- The op a step of the closure adds. -/
def opsOf (n : Nat) (log : StructLog) : List Op :=
  if extracts log.op then log.update?.toList.map (Op.mk · n) else []

/-- What a step of the closure adds, once its frame, if it opened one, is over. -/
def stepTally (n : Nat) (r : CallTree.Record) : Tally where
  ops := opsOf n r.log
  callGas := if r.log.op = .call then r.gasUsed else 0
  calleeGas := if r.log.op = .call then r.calleeGas else 0
  createGas := if r.log.op.isCreate then r.gasUsed else 0
  sstoreGas := if r.log.op = .sstore then r.log.gasCost else 0

/-- What extracting a step that decodes leaves. -/
structure Extracted (n : Nat) (log : StructLog) (s s' : Extracting) : Prop where
  ops : s'.ops = s.ops ++ opsOf n log
  sstoreGas : s'.sstoreGasTotal = s.sstoreGasTotal + if log.op = .sstore then log.gasCost else 0
  same : s'.totalCallGas = s.totalCallGas ∧ s'.calleeGasTotal = s.calleeGasTotal ∧
    s'.createGasTotal = s.createGasTotal ∧ s'.skippedOpcodes = s.skippedOpcodes
  target : s'.targetDepth = if log.op = .call ∨ log.op.isDelegate = true then log.depth + 1 else s.targetDepth
  calls : if log.op = .call then
      s'.callStack = [(log.depth, s'.ops.length)] ∧ s'.awaitingEntry = some (log.depth, s'.ops.length) ∧
        s'.callGasTracking = OrdMap.empty.insert s'.ops.length ⟨log.gas, log.gasCost, none⟩
    else s'.callStack = [] ∧ s'.awaitingEntry = none ∧ s'.callGasTracking = OrdMap.empty
  create : s'.pendingCreate = if log.op.isCreate then some (log.depth, log.gas) else none

theorem Ready.extracted (ready : Ready d s) (depth : log.depth.toNat = d) (memory : log.memory.isSome = true)
    (decodes : extracts log.op = true → log.Decodes) :
    ∃ s', s.extractOp n log = .ok s' ∧ Extracted n log s s' := by
  by_cases delegates : log.op.isDelegate = true
  · have silent := not_extracts_of_delegate delegates
    have here : log.depth = s.targetDepth := UInt64.toNat_inj.mp (depth.trans ready.target.symm)
    refine ⟨{ s with targetDepth := log.depth + 1 }, ?_, ?_⟩
    · unfold extractOp
      rw [if_pos here, if_pos delegates]
    · have notCall : log.op ≠ .call := by
        intro call
        rw [call] at delegates
        cases delegates
      have notStore : log.op ≠ .sstore := by
        intro store
        rw [store] at delegates
        cases delegates
      have notCreate : log.op.isCreate = false := by
        cases op : log.op <;> simp_all [Opcode.isDelegate, Opcode.isCreate]
      constructor
      · simp [opsOf, silent]
      · simp [notStore]
      · exact ⟨rfl, rfl, rfl, rfl⟩
      · simp [delegates]
      · rw [if_neg notCall]
        exact ⟨ready.calls, ready.awaiting, ready.tracking⟩
      · simp [notCreate, ready.create]
  · have plain : log.op.isDelegate = false := by simpa using delegates
    have here : log.depth = s.targetDepth := UInt64.toNat_inj.mp (depth.trans ready.target.symm)
    unfold extractOp
    rw [if_pos here, if_neg delegates]
    by_cases kind : extracts log.op = true
    · obtain ⟨r, decoded⟩ := decodes kind
      obtain ⟨words, hasMemory⟩ := Option.isSome_iff_exists.mp memory
      have effect : effectful log.op = true := by
        cases op : log.op <;> simp_all [extracts, effectful]
      obtain ⟨u, rfl, -, -⟩ := decodeStructLog_effect decoded effect hasMemory
      have appended : appendStateUpdateFromStructLog s.ops n log = .ok (s.ops ++ [⟨u, n⟩], none) := by
        unfold appendStateUpdateFromStructLog
        rw [decoded]
        rfl
      have added : opsOf n log = [⟨u, n⟩] := by
        simp [opsOf, kind, StructLog.update?, decoded]
      have longer : s.ops.length < (s.ops ++ [Op.mk u n]).length := by simp
      rw [if_pos (by rw [kind, ready.calls]; rfl), appended]
      simp only [Outcome.ok_bind, if_pos longer]
      cases op : log.op with
      | sstore =>
        refine ⟨_, rfl, ?_⟩
        constructor <;> simp [added, op, ready.calls, ready.awaiting, ready.tracking, ready.create, Opcode.isCreate,
          Opcode.isDelegate]
      | create | create2 =>
        refine ⟨_, rfl, ?_⟩
        constructor <;> simp [added, op, ready.calls, ready.awaiting, ready.tracking, Opcode.isCreate,
          Opcode.isDelegate]
      | call =>
        refine ⟨_, rfl, ?_⟩
        constructor <;> simp [added, op, ready.calls, ready.tracking, ready.create, Opcode.isCreate]
      | log0 | log1 | log2 | log3 | log4 =>
        refine ⟨_, rfl, ?_⟩
        constructor <;> simp [added, op, ready.calls, ready.awaiting, ready.tracking, ready.create, Opcode.isCreate,
          Opcode.isDelegate]
      | tstore | selfdestruct | staticcall | delegatecall | callcode | other =>
        rw [op] at kind
        cases kind
    · rw [if_neg (by simp [kind])]
      refine ⟨s, rfl, ?_⟩
      have silent : log.op ≠ .call ∧ log.op ≠ .sstore ∧ log.op.isCreate = false := by
        refine ⟨?_, ?_, ?_⟩
        · intro op
          rw [op] at kind
          exact kind rfl
        · intro op
          rw [op] at kind
          exact kind rfl
        · cases op : log.op <;> simp_all [extracts, Opcode.isCreate]
      obtain ⟨notCall, notStore, notCreate⟩ := silent
      constructor <;> simp [opsOf, kind, notCall, notStore, notCreate, plain, ready.calls, ready.awaiting,
        ready.tracking, ready.create]

/-- A step the extractor passes decodes. -/
theorem Ready.decodes (ready : Ready d s) (depth : log.depth.toNat = d) (answer : s.extractOp n log = .ok s')
    (kind : extracts log.op = true) : log.Decodes := by
  have plain : log.op.isDelegate = false := by
    by_contra delegates
    rw [not_extracts_of_delegate (by simpa using delegates)] at kind
    cases kind
  have here : log.depth = s.targetDepth := UInt64.toNat_inj.mp (depth.trans ready.target.symm)
  unfold extractOp at answer
  rw [if_pos here, if_neg (by simp [plain]), if_pos (by rw [kind, ready.calls]; rfl)] at answer
  obtain ⟨⟨ops, skipped⟩, appended, -⟩ := Outcome.bind_ok answer
  obtain ⟨update, decoded, -⟩ := append_ok appended
  exact ⟨_, decoded⟩

end Extracting

end GasAnalyzer
