import GasAnalyzer.Core.Heuristic
import GasAnalyzer.Legacy.Extraction

/-!
# The fallback counter against the extractor

The counter follows the root's frame and one level below it, with one pending call. On the flattening of a call
tree it reports the extractor's figures as long as nothing the extractor follows lies outside that: every
`CALL` of the root's frame opens a frame, a delegate frame of the root makes no `CALL`, and the delegate frames
below it do nothing that is extracted.
-/

namespace GasAnalyzer

open Extracting CallTree

namespace CallTree

/-- Nothing of the frame's closure is extracted. -/
def Silent : CallTree → Prop
  | done => True
  | step log rest => extracts log.op = false ∧ rest.Silent
  | enter call body rest =>
    extracts call.op = false ∧ (call.op.isDelegate = true → body.Silent) ∧ rest.Silent

/-- The frame's own steps make nothing that is extracted. -/
def OwnSilent : CallTree → Prop
  | done => True
  | step log rest => extracts log.op = false ∧ rest.OwnSilent
  | enter call _ rest => extracts call.op = false ∧ rest.OwnSilent

/-- The frame makes no `CALL`, and its delegate frames do nothing that is extracted. -/
def Shallow : CallTree → Prop
  | done => True
  | step log rest => log.op ≠ .call ∧ rest.Shallow
  | enter call body rest => call.op ≠ .call ∧ (call.op.isDelegate = true → body.Silent) ∧ rest.Shallow

/-- What the counter can follow. A delegate step that opens no frame is `stale`: a `STATICCALL` frame that comes
next is taken for its frame. -/
def Mirrors : Bool → CallTree → Prop
  | _, done => True
  | stale, step log rest => log.op ≠ .call ∧ rest.Mirrors (stale || log.op.isDelegate)
  | stale, enter call body rest =>
    (call.op.isDelegate = true → body.Shallow) ∧
      (call.op = .staticcall → stale = true → body.OwnSilent) ∧ rest.Mirrors false

def NoCreates (t : CallTree) : Prop := ∀ log ∈ t.flatten, log.op.isCreate = false

theorem NoCreates.step {log : StructLog} {rest : CallTree} (none : (CallTree.step log rest).NoCreates) :
    log.op.isCreate = false ∧ rest.NoCreates :=
  ⟨none log List.mem_cons_self, fun l member => none l (List.mem_cons_of_mem _ member)⟩

theorem NoCreates.enter {call : StructLog} {body rest : CallTree} (none : (CallTree.enter call body rest).NoCreates) :
    call.op.isCreate = false ∧ body.NoCreates ∧ rest.NoCreates :=
  ⟨none call List.mem_cons_self, fun l member => none l (List.mem_cons_of_mem _ (List.mem_append_left _ member)),
    fun l member => none l (List.mem_cons_of_mem _ (List.mem_append_right _ member))⟩

theorem NoCreates.deploys {t : CallTree} (none : t.NoCreates) : t.CreatesDeploy := by
  induction t with
  | done => trivial
  | step log rest ih =>
    obtain ⟨here, later⟩ := none.step
    exact ⟨fun create => absurd create (by simp [here]), ih later⟩
  | enter call body rest ihBody ihRest =>
    obtain ⟨here, inner, later⟩ := none.enter
    exact ⟨fun create => absurd create (by simp [here]), fun _ => ihBody inner, ihRest later⟩

theorem stepTally_silent {n : Nat} {r : Record} (silent : extracts r.log.op = false) : stepTally n r = {} := by
  unfold stepTally opsOf
  cases op : r.log.op <;> simp_all [extracts, Opcode.isCreate]

theorem tally_silent {t : CallTree} (silent : t.Silent) (n : Nat) : t.tally n = {} := by
  induction t generalizing n with
  | done => rfl
  | step log rest ih =>
    rw [tally, ih silent.2, stepTally_silent silent.1]
    rfl
  | enter call body rest ihBody ihRest =>
    obtain ⟨here, inner, later⟩ := silent
    rw [tally, ihRest later, stepTally_silent here]
    by_cases delegates : call.op.isDelegate = true
    · rw [if_pos delegates, ihBody (inner delegates)]
      rfl
    · rw [if_neg delegates]
      rfl

end CallTree

/-! ### Figures -/

/-- How many of the updates are the `LOG` of index `i`. -/
def logCount (updates : List StateUpdate) (i : Fin 5) : Nat :=
  updates.countP (fun u => u.opcode.logIndex = some i)

/-- `operations'` reports what `tally` adds. -/
structure Counts (tally : Tally) (operations operations' : TraceOperations) : Prop where
  callGas : operations'.externalCallGas = operations.externalCallGas + tally.callGas
  sstoreGas : operations'.sstoreGasTotal = operations.sstoreGasTotal + tally.sstoreGas
  logs : ∀ i, operations'.logCounts i =
    operations.logCounts i + UInt64.ofNat (logCount (tally.ops.map Op.update) i)
  refund : operations'.refundCounter = operations.refundCounter

namespace Counts

theorem nothing (operations : TraceOperations) : Counts {} operations operations := by
  constructor <;> simp [logCount]

theorem trans {a b : Tally} {o o' o'' : TraceOperations} (first : Counts a o o') (second : Counts b o' o'') :
    Counts (a.add b) o o'' where
  callGas := by rw [second.callGas, first.callGas, UInt64.add_assoc]; rfl
  sstoreGas := by rw [second.sstoreGas, first.sstoreGas, UInt64.add_assoc]; rfl
  logs := by
    intro i
    have both : logCount ((a.add b).ops.map Op.update) i =
        logCount (a.ops.map Op.update) i + logCount (b.ops.map Op.update) i := by
      simp [logCount, Tally.add]
    rw [second.logs, first.logs, both, UInt64.ofNat_add, UInt64.add_assoc]
  refund := second.refund.trans first.refund

/-- Counting a step that the extractor decodes. -/
theorem countOp {n : Nat} {log : StructLog} (memory : log.memory.isSome = true)
    (decodes : extracts log.op = true → log.Decodes) (operations : TraceOperations) :
    Counts { ops := opsOf n log, sstoreGas := if log.op = .sstore then log.gasCost else 0 } operations
      (Counting.countOp log operations) := by
  have logged : ∀ i, logCount ((opsOf n log).map Op.update) i = if log.op.logIndex = some i then 1 else 0 := by
    intro i
    by_cases kind : extracts log.op = true
    · obtain ⟨r, decoded⟩ := decodes kind
      obtain ⟨words, hasMemory⟩ := Option.isSome_iff_exists.mp memory
      have effect : effectful log.op = true := by
        cases op : log.op <;> simp_all [extracts, effectful]
      obtain ⟨u, rfl, same, -⟩ := decodeStructLog_effect decoded effect hasMemory
      have one : opsOf n log = [⟨u, n⟩] := by simp [opsOf, kind, StructLog.update?, decoded]
      simp [one, logCount, same, List.countP_cons]
    · have none : log.op.logIndex = none := by
        cases op : log.op <;> simp_all [extracts, Opcode.logIndex, Opcode.isLog]
      simp [opsOf, kind, logCount, none]
  unfold Counting.countOp
  cases index : log.op.logIndex with
  | none =>
    rw [index] at logged
    by_cases store : log.op = .sstore
    · constructor <;> simp [store, logged]
    · constructor <;> simp [store, logged]
  | some i =>
    rw [index] at logged
    have notStore : log.op ≠ .sstore := by
      intro store
      rw [store] at index
      cases index
    constructor
    · simp
    · simp [notStore]
    · intro j
      rw [logged]
      by_cases same : j = i
      · subst same
        simp
      · simp [Function.update_of_ne same, Ne.symm same]
    · rfl

end Counts

/-! ### The counter's steps -/

namespace Counting

variable {log : StructLog} {s : Counting}

/-- A step of the root's frame. -/
theorem step_root (depth : log.depth.toNat = 1) (outside : s.previousDepth ≠ 2) :
    s.step log = { s with
      operations := countOp log s.operations
      gasAfterCallOpcode := if log.op = .call then some log.gas else s.gasAfterCallOpcode
      currentCallType := if log.op = .call then some .call
        else if log.op.isDelegate then some .delegatecall else s.currentCallType
      previousDepth := 1 } := by
  have one : log.depth = 1 := UInt64.toNat_inj.mp depth
  have notTwo : ¬(1 : UInt64) = 2 := by decide
  unfold step crossDepth noteCall countedSeparately
  simp only [one, outside, notTwo, and_false, false_and, if_false, and_true, true_or, if_true]
  by_cases call : log.op = .call
  · simp [call, Opcode.isDelegate]
  · by_cases delegates : log.op.isDelegate = true
    · simp [call, delegates]
    · simp [call, delegates]

/-- A step of a frame the root opened. -/
theorem step_inner (depth : log.depth.toNat = 2) (inside : s.previousDepth ≠ 1) :
    s.step log = { s with
      operations := if s.callTypeAtDepth2 = some .delegatecall then countOp log s.operations else s.operations
      gasAfterCallOpcode := if log.op = .call ∧ s.callTypeAtDepth2 = some .delegatecall then some log.gas
        else s.gasAfterCallOpcode
      previousDepth := 2 } := by
  have two : log.depth = 2 := UInt64.toNat_inj.mp depth
  have notOne : ¬(2 : UInt64) = 1 := by decide
  unfold step crossDepth noteCall countedSeparately
  simp only [two, inside, notOne, and_false, false_and, if_false, true_and, false_or]
  by_cases tracked : log.op = .call ∧ s.callTypeAtDepth2 = some .delegatecall
  · simp [tracked]
  · simp only [if_neg tracked]

/-- A deeper step is not looked at. -/
theorem step_deep (depth : 2 < log.depth.toNat) : s.step log = { s with previousDepth := log.depth } := by
  have notOne : ¬log.depth = 1 := by
    intro one
    rw [one] at depth
    exact absurd depth (by decide)
  have notTwo : ¬log.depth = 2 := by
    intro two
    rw [two] at depth
    exact absurd depth (by decide)
  unfold step crossDepth noteCall countedSeparately
  simp [notOne, notTwo]

/-- The state with which the first step of a frame is counted. -/
def entered (s : Counting) : Counting :=
  { s with
    callTypeAtDepth2 := s.currentCallType.or s.callTypeAtDepth2
    inExternalCall := true
    previousDepth := 2 }

/-- The state with which the step that resumes the root is counted. -/
def left (gas : UInt64) (s : Counting) : Counting where
  operations := s.accountCall gas
  previousDepth := 1

/-- The previous depth is only read when the depth is crossed. -/
theorem step_of_cross {s' : Counting} {d : UInt64}
    (cross : s.crossDepth log = { s'.crossDepth log with previousDepth := d }) : s.step log = s'.step log := by
  have noted : ∀ v : Counting,
      noteCall log { v with previousDepth := d } = { noteCall log v with previousDepth := d } := by
    intro v
    unfold noteCall
    dsimp only
    split_ifs <;> simp_all
  unfold step
  rw [cross, noted]
  rfl

theorem step_entered (depth : log.depth.toNat = 2) (root : s.previousDepth = 1) :
    s.step log = s.entered.step log := by
  have two : log.depth = 2 := UInt64.toNat_inj.mp depth
  have cross : s.crossDepth log = { s.entered.crossDepth log with previousDepth := 1 } := by
    unfold crossDepth entered
    simp [two, root]
  exact step_of_cross cross

theorem step_left (depth : log.depth.toNat = 1) (inside : s.previousDepth = 2)
    (entered : s.inExternalCall = true) : s.step log = (s.left log.gas).step log := by
  have one : log.depth = 1 := UInt64.toNat_inj.mp depth
  have cross : s.crossDepth log = { (s.left log.gas).crossDepth log with previousDepth := 2 } := by
    unfold crossDepth left
    simp [one, inside, entered]
  exact step_of_cross cross

theorem run_cons (logs : List StructLog) : run (log :: logs) s = run logs (s.step log) := rfl

theorem run_append (before after : List StructLog) : run (before ++ after) s = run after (run before s) := by
  unfold run
  rw [List.foldl_append]

theorem run_deep (logs : List StructLog) (deep : ∀ l ∈ logs, 2 < l.depth.toNat) (s : Counting)
    (inside : s.previousDepth ≠ 1) :
    ∃ depth, depth ≠ 1 ∧ run logs s = { s with previousDepth := depth } := by
  induction logs generalizing s with
  | nil => exact ⟨s.previousDepth, inside, rfl⟩
  | cons l rest ih =>
    have depth := deep l List.mem_cons_self
    have notOne : l.depth ≠ 1 := by
      intro one
      rw [one] at depth
      exact absurd depth (by decide)
    obtain ⟨last, fine, ran⟩ := ih (fun l' member => deep l' (List.mem_cons_of_mem _ member))
      { s with previousDepth := l.depth } notOne
    exact ⟨last, fine, by rw [run_cons, step_deep depth, ran]⟩

/-! ### Frames below the root -/

theorem step_unheard (depth : log.depth.toNat = 2) (inside : s.previousDepth ≠ 1)
    (silent : s.callTypeAtDepth2 = some .delegatecall → extracts log.op = false) :
    s.step log = { s with previousDepth := 2 } := by
  rw [step_inner depth inside]
  by_cases delegate : s.callTypeAtDepth2 = some .delegatecall
  · have quiet := silent delegate
    have notCall : log.op ≠ .call := by
      intro op
      rw [op] at quiet
      cases quiet
    have same : countOp log s.operations = s.operations := by
      unfold countOp
      cases op : log.op <;> simp_all [extracts, Opcode.logIndex, Opcode.isLog]
    simp [delegate, notCall, same]
  · simp [delegate]

/-- A frame that is not taken for a delegate's leaves nothing, and neither does one that extracts nothing. -/
theorem run_unheard (t : CallTree) : ∀ s : Counting, t.WellFormed 2 → s.previousDepth ≠ 1 →
    (t.head? = none → s.previousDepth = 2) → (s.callTypeAtDepth2 = some .delegatecall → t.OwnSilent) →
    run t.flatten s = { s with previousDepth := 2 } := by
  induction t with
  | done =>
    intro s _ _ ended _
    obtain ⟨operations, gasAfter, depth, inCall, callType, current⟩ := s
    obtain rfl : depth = 2 := ended rfl
    rfl
  | step log rest ih =>
    intro s wf inside _ silent
    show run (log :: rest.flatten) s = _
    rw [run_cons, step_unheard wf.1.depth inside (fun delegate => (silent delegate).1)]
    exact ih _ wf.2.2 (show (2 : UInt64) ≠ 1 by decide) (fun _ => rfl) (fun delegate => (silent delegate).2)
  | enter call body rest _ ih =>
    intro s wf inside _ silent
    obtain ⟨carries, -, -, -, inner, resumes, tail⟩ := wf
    show run (call :: (body.flatten ++ rest.flatten)) s = _
    rw [run_cons, step_unheard carries.depth inside (fun delegate => (silent delegate).1), run_append]
    obtain ⟨last, fine, ran⟩ := run_deep body.flatten inner.deep { s with previousDepth := 2 }
      (show (2 : UInt64) ≠ 1 by decide)
    rw [ran]
    apply ih { s with previousDepth := last } tail fine
    · intro none
      obtain ⟨next, -, head, -⟩ := head?_of_outcome resumes
      rw [head] at none
      cases none
    · intro delegate
      exact (silent delegate).2

theorem stepTally_plain {n : Nat} {r : Record} (notCall : r.log.op ≠ .call) (notCreate : r.log.op.isCreate = false) :
    stepTally n r = { ops := opsOf n r.log, sstoreGas := if r.log.op = .sstore then r.log.gasCost else 0 } := by
  unfold stepTally
  simp [notCall, notCreate]

/-- A delegate frame that makes no `CALL` is counted as it is extracted. -/
theorem run_delegate (t : CallTree) : ∀ (n : Nat) (s : Counting), t.WellFormed 2 → t.NoCreates → t.Shallow →
    t.Decodable n → s.previousDepth ≠ 1 → (t.head? = none → s.previousDepth = 2) →
    s.callTypeAtDepth2 = some .delegatecall →
    ∃ operations, run t.flatten s = { s with operations, previousDepth := 2 } ∧
      Counts (t.tally n) s.operations operations := by
  induction t with
  | done =>
    intro n s _ _ _ _ _ ended _
    obtain ⟨operations, gasAfter, depth, inCall, callType, current⟩ := s
    obtain rfl : depth = 2 := ended rfl
    exact ⟨operations, rfl, Counts.nothing operations⟩
  | step log rest ih =>
    intro n s wf noCreates shallow decodable inside _ delegate
    obtain ⟨notCreate, later⟩ := noCreates.step
    obtain ⟨decodes, more⟩ := decodable_step.mp decodable
    have counted := Counts.countOp (n := n) wf.1.memory decodes s.operations
    rw [← stepTally_plain (r := ⟨log, none, rest.startGas.getD 0⟩) shallow.1 notCreate] at counted
    obtain ⟨operations, ran, counts⟩ := ih (n + 1)
      { s with operations := countOp log s.operations, previousDepth := 2 } wf.2.2 later shallow.2 more
      (show (2 : UInt64) ≠ 1 by decide) (fun _ => rfl) delegate
    have first : s.step log = { s with operations := countOp log s.operations, previousDepth := 2 } := by
      rw [step_inner wf.1.depth inside]
      simp [delegate, shallow.1]
    exact ⟨operations, by rw [← ran, ← first]; rfl, counted.trans counts⟩
  | enter call body rest _ ih =>
    intro n s wf noCreates shallow decodable inside _ delegate
    obtain ⟨carries, -, -, -, inner, resumes, tail⟩ := wf
    obtain ⟨notCreate, -, later⟩ := noCreates.enter
    obtain ⟨decodes, -, more⟩ := decodable_enter.mp decodable
    obtain ⟨notCall, quiet, after⟩ := shallow
    have counted := Counts.countOp (n := n) carries.memory decodes s.operations
    rw [← stepTally_plain (r := ⟨call, body.startGas, rest.startGas.getD 0⟩) notCall notCreate] at counted
    have first : s.step call = { s with operations := countOp call s.operations, previousDepth := 2 } := by
      rw [step_inner carries.depth inside]
      simp [delegate, notCall]
    obtain ⟨last, fine, ran⟩ := run_deep body.flatten inner.deep
      { s with operations := countOp call s.operations, previousDepth := 2 } (show (2 : UInt64) ≠ 1 by decide)
    obtain ⟨operations, ranRest, counts⟩ := ih (n + 1 + body.size)
      { s with operations := countOp call s.operations, previousDepth := last } tail later after more fine
      (by
        intro none
        obtain ⟨next, -, head, -⟩ := head?_of_outcome resumes
        rw [head] at none
        cases none) delegate
    have below : (if call.op.isDelegate then body.tally (n + 1) else {}) = {} := by
      by_cases delegates : call.op.isDelegate = true
      · rw [if_pos delegates, tally_silent (quiet delegates)]
      · rw [if_neg delegates]
    refine ⟨operations, ?_, ?_⟩
    · show run (call :: (body.flatten ++ rest.flatten)) s = _
      rw [run_cons, first, run_append, ran, ranRest]
    · rw [tally, below, Tally.nothing_add]
      exact counted.trans counts

/-! ### The root's frame -/

/-- Between two frames: no call is pending. -/
structure Idle (stale : Bool) (s : Counting) : Prop where
  depth : s.previousDepth ≠ 2
  outside : s.inExternalCall = false
  gas : s.gasAfterCallOpcode = none
  below : s.callTypeAtDepth2 = none
  current : s.currentCallType = none ∨ (stale = true ∧ s.currentCallType = some .delegatecall)

theorem idle_left (gas : UInt64) (s : Counting) : Idle false (s.left gas) :=
  ⟨show (1 : UInt64) ≠ 2 by decide, rfl, rfl, rfl, Or.inl rfl⟩

theorem run_entered {t : CallTree} (wf : t.WellFormed 2) (inhabited : t.head?.isSome = true)
    (root : s.previousDepth = 1) : run t.flatten s = run t.flatten s.entered := by
  obtain ⟨first, head⟩ := Option.isSome_iff_exists.mp inhabited
  obtain ⟨more, flat⟩ := List.head?_eq_some_iff.mp ((head?_flatten t).trans head)
  rw [flat, run_cons, run_cons, step_entered (wf.head head).depth root]

theorem run_left {t : CallTree} {next : StructLog} (wf : t.WellFormed 1) (head : t.head? = some next)
    (inside : s.previousDepth = 2) (entered : s.inExternalCall = true) :
    run t.flatten s = run t.flatten (s.left next.gas) := by
  obtain ⟨more, flat⟩ := List.head?_eq_some_iff.mp ((head?_flatten t).trans head)
  rw [flat, run_cons, run_cons, step_left (wf.head head).depth inside entered]

/-- A frame the root opens, up to the step that resumes the root. -/
theorem Idle.enter {stale : Bool} {n : Nat} {call : StructLog} {body rest : CallTree} (idle : Idle stale s)
    (wf : (CallTree.enter call body rest).WellFormed 1) (noCreates : (CallTree.enter call body rest).NoCreates)
    (mirrors : (CallTree.enter call body rest).Mirrors stale)
    (decodable : (CallTree.enter call body rest).Decodable n) :
    ∃ v, run (CallTree.enter call body rest).flatten s = run rest.flatten v ∧ Idle false v ∧
      Counts ((stepTally n ⟨call, body.startGas, rest.startGas.getD 0⟩).add
        (if call.op.isDelegate then body.tally (n + 1) else {})) s.operations v.operations := by
  obtain ⟨carries, -, opens, inhabited, inner, resumes, tail⟩ := wf
  obtain ⟨notCreate, noneInside, -⟩ := noCreates.enter
  obtain ⟨decodes, decodableBody, -⟩ := decodable_enter.mp decodable
  obtain ⟨shallow, silent, -⟩ := mirrors
  obtain ⟨next, -, head, -⟩ := head?_of_outcome resumes
  have gas : rest.startGas.getD 0 = next.gas := by simp [startGas, head]
  have counted := Counts.countOp (n := n) carries.memory decodes s.operations
  have first := step_root carries.depth idle.depth
  have entered := run_entered (s := s.step call) inner inhabited (by rw [first])
  have whole : run (CallTree.enter call body rest).flatten s =
      run rest.flatten (run body.flatten (s.step call).entered) := by
    show run (call :: (body.flatten ++ rest.flatten)) s = _
    rw [run_cons, run_append, entered]
  have back : ∀ {v : Counting}, run body.flatten (s.step call).entered = v → v.previousDepth = 2 →
      v.inExternalCall = true →
      run (CallTree.enter call body rest).flatten s = run rest.flatten (v.left next.gas) := by
    intro v ran inside within
    rw [whole, ran, run_left tail head inside within]
  have started : body.head? = none → (s.step call).entered.previousDepth = 2 := fun _ => rfl
  have inside : (s.step call).entered.previousDepth ≠ 1 := show (2 : UInt64) ≠ 1 by decide
  by_cases calls : call.op = .call
  · -- The gas between the call and the step that resumes.
    have kind : (s.step call).entered.callTypeAtDepth2 = some .call := by
      rw [first]
      simp [Counting.entered, calls]
    have ran := run_unheard body (s.step call).entered inner inside started
      (fun delegate => by rw [kind] at delegate; cases delegate)
    refine ⟨_, back ran rfl rfl, idle_left _ _, ?_⟩
    have accounted : accountCall next.gas { (s.step call).entered with previousDepth := 2 } =
        { Counting.countOp call s.operations with
          externalCallGas := (Counting.countOp call s.operations).externalCallGas + satSub call.gas next.gas } := by
      unfold accountCall
      rw [first]
      simp [Counting.entered, calls]
    show Counts _ _ (accountCall next.gas { (s.step call).entered with previousDepth := 2 })
    rw [accounted, gas, if_neg (by simp [calls, Opcode.isDelegate]), Tally.add_nothing]
    constructor
    · show (Counting.countOp call s.operations).externalCallGas + _ = _
      rw [counted.callGas]
      simp [stepTally, calls, Record.gasUsed]
    · exact counted.sstoreGas
    · exact counted.logs
    · exact counted.refund
  · rw [← stepTally_plain (r := ⟨call, body.startGas, rest.startGas.getD 0⟩) calls notCreate] at counted
    have noGas : (s.step call).entered.gasAfterCallOpcode = none := by
      rw [first]
      simp [Counting.entered, calls, idle.gas]
    have unaccounted : ∀ (v : Counting), v.gasAfterCallOpcode = none → (v.left next.gas).operations = v.operations := by
      intro v none
      show accountCall next.gas v = _
      unfold accountCall
      rw [none]
    by_cases delegates : call.op.isDelegate = true
    · have kind : (s.step call).entered.callTypeAtDepth2 = some .delegatecall := by
        rw [first]
        simp [Counting.entered, calls, delegates]
      obtain ⟨operations, ran, counts⟩ := run_delegate body (n + 1) (s.step call).entered inner noneInside
        (shallow delegates) (decodableBody delegates) inside started kind
      obtain ⟨v, ranV, sameGas, sameOps, depth, within⟩ : ∃ v, run body.flatten (s.step call).entered = v ∧
          v.gasAfterCallOpcode = none ∧ v.operations = operations ∧ v.previousDepth = 2 ∧
          v.inExternalCall = true := ⟨_, ran, noGas, rfl, rfl, rfl⟩
      refine ⟨_, back ranV depth within, idle_left _ _, ?_⟩
      rw [unaccounted v sameGas, sameOps, if_pos delegates]
      have same : (s.step call).entered.operations = Counting.countOp call s.operations := by
        rw [first]
        rfl
      rw [same] at counts
      exact counted.trans counts
    · have static : call.op = .staticcall := by
        cases op : call.op <;> simp_all [Opcode.opensFrame, Opcode.isCreate, Opcode.isDelegate]
      have ran := run_unheard body (s.step call).entered inner inside started (by
        intro delegate
        rw [first] at delegate
        rcases idle.current with none | ⟨isStale, -⟩
        · simp [Counting.entered, static, Opcode.isDelegate, none, idle.below] at delegate
        · exact silent static isStale)
      have same : (s.step call).entered.operations = Counting.countOp call s.operations := by
        rw [first]
        rfl
      obtain ⟨v, ranV, sameGas, sameOps, depth, within⟩ : ∃ v, run body.flatten (s.step call).entered = v ∧
          v.gasAfterCallOpcode = none ∧ v.operations = (s.step call).entered.operations ∧ v.previousDepth = 2 ∧
          v.inExternalCall = true := ⟨_, ran, noGas, rfl, rfl, rfl⟩
      refine ⟨_, back ranV depth within, idle_left _ _, ?_⟩
      rw [unaccounted v sameGas, sameOps, same, if_neg delegates, Tally.add_nothing]
      exact counted

theorem run_root (t : CallTree) : ∀ (n : Nat) (stale : Bool) (s : Counting), t.WellFormed 1 → t.NoCreates →
    t.Mirrors stale → t.Decodable n → Idle stale s →
    (run t.flatten s).inExternalCall = false ∧ Counts (t.tally n) s.operations (run t.flatten s).operations := by
  induction t with
  | done =>
    intro n stale s _ _ _ _ idle
    exact ⟨idle.outside, Counts.nothing s.operations⟩
  | step log rest ih =>
    intro n stale s wf noCreates mirrors decodable idle
    obtain ⟨notCreate, later⟩ := noCreates.step
    obtain ⟨decodes, more⟩ := decodable_step.mp decodable
    obtain ⟨notCall, following⟩ := mirrors
    have counted := Counts.countOp (n := n) wf.1.memory decodes s.operations
    rw [← stepTally_plain (r := ⟨log, none, rest.startGas.getD 0⟩) notCall notCreate] at counted
    have first := step_root wf.1.depth idle.depth
    have idle' : Idle (stale || log.op.isDelegate) (s.step log) := by
      rw [first]
      refine ⟨show (1 : UInt64) ≠ 2 by decide, idle.outside, by simp [notCall, idle.gas], idle.below, ?_⟩
      by_cases delegates : log.op.isDelegate = true
      · right
        simp [delegates, notCall]
      · rcases idle.current with none | ⟨isStale, current⟩
        · left
          simp [delegates, notCall, none]
        · right
          simp [delegates, notCall, isStale, current]
    obtain ⟨outside, counts⟩ := ih (n + 1) _ _ wf.2.2 later following more idle'
    have same : (s.step log).operations = Counting.countOp log s.operations := by rw [first]
    rw [same] at counts
    exact ⟨outside, counted.trans counts⟩
  | enter call body rest _ ih =>
    intro n stale s wf noCreates mirrors decodable idle
    obtain ⟨v, ran, idle', counted⟩ := idle.enter wf noCreates mirrors decodable
    obtain ⟨-, -, later⟩ := noCreates.enter
    obtain ⟨-, -, more⟩ := decodable_enter.mp decodable
    obtain ⟨outside, counts⟩ := ih _ false v wf.2.2.2.2.2.2 later mirrors.2.2 more idle'
    rw [ran]
    refine ⟨outside, ?_⟩
    have all := counted.trans counts
    rw [Tally.add_assoc] at all
    exact all

end Counting

/-- The counter reports the extractor's figures. -/
structure SameFigures (operations : TraceOperations) (extract : TraceExtract) : Prop where
  callGas : operations.externalCallGas = extract.callGasTotal
  sstoreGas : operations.sstoreGasTotal = extract.sstoreGasTotal
  refund : operations.refundCounter = extract.refundCounter
  logs : ∀ i, (operations.logCounts i).toNat = logCount extract.stateUpdates i

theorem CallTree.length_closure_le (t : CallTree) (n : Nat) : (t.closure always n).length ≤ t.size := by
  induction t generalizing n with
  | done => exact Nat.le_refl 0
  | step log rest ih =>
    rw [closure, size, List.length_cons]
    exact Nat.succ_le_succ (ih (n + 1))
  | enter call body rest ihBody ihRest =>
    rw [closure, size, List.length_cons, List.length_append]
    have inner : (if call.op.isDelegate && always rest then body.closure always (n + 1) else []).length ≤ body.size := by
      split
      · exact ihBody (n + 1)
      · exact Nat.zero_le _
    have later := ihRest (n + 1 + body.size)
    omega

/-- On a trace that the counter can follow it reports what the closure adds. -/
theorem extractOperationCounts_counts {trace : DefaultFrame} {t : CallTree} (flat : FlatTrace trace t)
    (noCreates : t.NoCreates) (mirrors : t.Mirrors false) (decodable : t.Decodable 0) :
    Counts (t.tally 0) { refundCounter := (trace.structLogs.getLast?.bind StructLog.refundCounter).getD 0 }
      (extractOperationCountsFromTrace trace) := by
  unfold extractOperationCountsFromTrace
  have idle : ∀ operations, Counting.Idle false { operations } := by
    intro operations
    exact ⟨show (0 : UInt64) ≠ 2 by decide, rfl, rfl, rfl, Or.inl rfl⟩
  obtain ⟨outside, counts⟩ := Counting.run_root t 0 false
    { operations := { refundCounter := (trace.structLogs.getLast?.bind StructLog.refundCounter).getD 0 } }
    flat.wellFormed noCreates mirrors decodable (idle _)
  rw [← flat.flat] at outside counts
  dsimp only
  split
  · rw [outside]
    exact counts
  · exact counts

/-- Where the counter can follow the trace, it mirrors the extractor exactly when the closure is legible. -/
theorem extractOperationCounts_mirrors_iff (trace : DefaultFrame) (t : CallTree) (flat : FlatTrace trace t)
    (noCreates : t.NoCreates) (mirrors : t.Mirrors false) (origin : Option Address) :
    (∃ extract, computeStateUpdates trace origin = .ok extract ∧
      SameFigures (extractOperationCountsFromTrace trace) extract) ↔ t.Legible := by
  rw [← legible_iff flat.wellFormed]
  have decides := computeStateUpdates_decides flat origin
  constructor
  · rintro ⟨extract, answer, -⟩
    exact (decides.iff.mp ⟨extract, answer⟩).1
  · intro decodable
    obtain ⟨extract, answer, updates, -, refund, closure⟩ := decides.1 ⟨decodable, noCreates.deploys⟩
    have counts := extractOperationCounts_counts flat noCreates mirrors decodable
    have few : ∀ i, logCount extract.stateUpdates i < 2 ^ 64 := by
      intro i
      have length : extract.stateUpdates.length = t.effects.length := by
        rw [← List.length_map (f := some), closure.updates, List.length_map]
      have counted : logCount extract.stateUpdates i ≤ extract.stateUpdates.length := List.countP_le_length
      have kept : t.effects.length ≤ (t.closure always 0).length := List.length_filter_le _ _
      have steps := length_closure_le t 0
      have bounded := trace.bounded
      rw [flat.flat, length_flatten] at bounded
      omega
    refine ⟨extract, answer, ⟨?_, ?_, ?_, ?_⟩⟩
    · rw [counts.callGas, closure.callGas, tally_callGas]
      exact UInt64.zero_add _
    · rw [counts.sstoreGas, closure.sstoreGas, tally_sstoreGas]
      exact UInt64.zero_add _
    · rw [counts.refund, refund]
    · intro i
      rw [counts.logs, ← updates, UInt64.zero_add]
      exact UInt64.toNat_ofNat_of_lt' (few i)

theorem extractOperationCounts_delegatedLog :
    ∃ extract, computeStateUpdates { structLogs := delegatedLog.flatten } none = .ok extract ∧
      SameFigures (extractOperationCountsFromTrace { structLogs := delegatedLog.flatten }) extract := by
  apply (extractOperationCounts_mirrors_iff _ delegatedLog delegatedLog_flat ?_ ?_ none).mpr delegatedLog_legible
  · intro log member
    simp only [delegatedLog, flatten, List.cons_append, List.nil_append, List.mem_cons, List.not_mem_nil,
      or_false] at member
    rcases member with rfl | rfl | rfl <;> rfl
  · refine ⟨fun _ => ⟨?_, trivial⟩, ?_, ?_, trivial⟩
    · intro calls
      cases calls
    · intro static
      cases static
    · intro calls
      cases calls

/-- A root that pays an account without code. -/
def codelessCall : CallTree :=
  .step { op := .call, gas := 100, stack := some [0, 0, 0, 0, 5, 7, 0] }
    (.step { op := .other "STOP", gas := 60, stack := some [1] } .done)

theorem codelessCall_flat : FlatTrace { structLogs := codelessCall.flatten } codelessCall where
  flat := rfl
  wellFormed := by
    refine ⟨⟨rfl, rfl, rfl⟩, fun _ _ => rfl, ⟨rfl, rfl, rfl⟩, ?_, trivial⟩
    intro _ opens
    cases opens
  clean := by
    intro log member
    simp only [codelessCall, flatten, List.mem_cons, List.not_mem_nil, or_false] at member
    rcases member with rfl | rfl <;> rfl

/-- The call opens no frame, so the depth is never crossed and the counter drops its gas. -/
theorem extractOperationCounts_codelessCall : ¬∀ (trace : DefaultFrame) (t : CallTree) (origin : Option Address),
    FlatTrace trace t → t.NoCreates → ∃ extract, computeStateUpdates trace origin = .ok extract ∧
      SameFigures (extractOperationCountsFromTrace trace) extract := by
  intro always
  obtain ⟨extract, answer, figures⟩ := always _ codelessCall none codelessCall_flat (by
    intro log member
    simp only [codelessCall, flatten, List.mem_cons, List.not_mem_nil, or_false] at member
    rcases member with rfl | rfl <;> rfl)
  have spent : extract.callGasTotal = 40 := by
    cases answer
    rfl
  have reported := figures.callGas
  rw [spent] at reported
  cases reported

end GasAnalyzer
