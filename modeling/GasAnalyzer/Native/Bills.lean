import Mathlib
import GasAnalyzer.Native.Closure
import GasAnalyzer.Native.Outcomes

/-!
# What a program's ops spend

Replaying a `CALL`, a `CREATE` or a `CREATE2` spends the gas its step took in the trace, up to the step its caller
resumes at. The walk charges that gas to the frame that emitted the op, moves it with the op when the frame is absorbed
by its caller and loses it with the op when the frame fails: the figures of a finished program are those of its ops.
-/

namespace GasAnalyzer

/-! ### Gas by position -/

/-- The gas step `i` takes until its caller resumes. -/
def nativeGasAt (logs : List StructLog) (i : Nat) : UInt64 :=
  match logs[i]?, resumeOf logs i with
  | some log, some next => satSub log.gas next.gas
  | _, _ => 0

/-- The gas that the frame of step `i` starts with, if the step opens one. -/
def entryGasAt (logs : List StructLog) (i : Nat) : Option UInt64 :=
  match logs[i]?, logs[i + 1]? with
  | some log, some next => if next.depth = log.depth + 1 then some next.gas else none
  | _, _ => none

/-- What the callee of step `i` spends of it. -/
def calleeGasAt (logs : List StructLog) (i : Nat) : UInt64 :=
  match logs[i]? with
  | some log => calleeGas (nativeGasAt logs i) log.gasCost (entryGasAt logs i)
  | none => 0

section

variable {logs tail : List StructLog} {d n : Nat} {log next : StructLog} {body rest : CallTree}

theorem resumed_step (here : logs.drop n = (CallTree.step log rest).flatten ++ tail)
    (wf : (CallTree.step log rest).WellFormed d) (fine : log.errored = false) (opens : log.op.opensFrame = true)
    (head : rest.head? = some next) :
    nativeGasAt logs n = satSub log.gas next.gas ∧ calleeGasAt logs n = 0 := by
  have found := CallTree.at_head here rfl
  have follows := CallTree.at_head (CallTree.drop_step here) head
  have native : nativeGasAt logs n = satSub log.gas next.gas := by
    unfold nativeGasAt
    rw [found, resumeOf_step here wf (wf.2.1 fine opens), head]
  have level : next.depth ≠ log.depth + 1 := by
    have same : next.depth = log.depth := by
      apply UInt64.toNat_inj.mp
      rw [(wf.2.2.head head).depth, wf.1.depth]
    rw [same]
    simp
  refine ⟨native, ?_⟩
  unfold calleeGasAt entryGasAt
  rw [found, follows]
  simp [level, calleeGas]

theorem resumed_enter {call first : StructLog} (here : logs.drop n = (CallTree.enter call body rest).flatten ++ tail)
    (wf : (CallTree.enter call body rest).WellFormed d) (bodyHead : body.head? = some first)
    (head : rest.head? = some next) :
    nativeGasAt logs n = satSub call.gas next.gas ∧
      calleeGasAt logs n = calleeGas (satSub call.gas next.gas) call.gasCost (some first.gas) := by
  have found := CallTree.at_head here rfl
  have follows := CallTree.at_head (CallTree.drop_body here) bodyHead
  have native : nativeGasAt logs n = satSub call.gas next.gas := by
    unfold nativeGasAt
    rw [found, resumeOf_enter here wf, head]
  have deeper : first.depth = call.depth + 1 := by
    apply UInt64.toNat_inj.mp
    have bound := first.depth.toNat_lt
    have inner := (wf.2.2.2.2.1.head bodyHead).depth
    rw [inner] at bound
    rw [UInt64.toNat_add, inner, wf.1.depth]
    show d + 1 = (d + 1) % 2 ^ 64
    omega
  refine ⟨native, ?_⟩
  unfold calleeGasAt entryGasAt
  rw [found, follows, native]
  simp [deeper]

end

/-! ### Bills -/

/-- Gas of `CALL`s, what their callees spend of it, and gas of creates. -/
abbrev Bill := UInt64 × UInt64 × UInt64

/-- What replaying an op spends. -/
def Op.bill (logs : List StructLog) (op : Op) : Bill :=
  match op.update with
  | .call _ => (nativeGasAt logs op.step, calleeGasAt logs op.step, 0)
  | .create _ _ | .create2 _ _ _ => (0, 0, nativeGasAt logs op.step)
  | _ => 0

def billOf (logs : List StructLog) (ops : List Op) : Bill := (ops.map (Op.bill logs)).sum

/-- Whether the op stands for a call or a create of the trace. -/
def Op.spends (op : Op) : Bool :=
  match op.update with
  | .call _ | .create _ _ | .create2 _ _ _ | .nested _ => true
  | _ => false

/-- The steps of those ops. -/
def spendsOf (ops : List Op) : List Nat := (ops.filter Op.spends).map Op.step

variable (logs : List StructLog)

@[simp] theorem billOf_nil : billOf logs [] = 0 := rfl

@[simp] theorem billOf_append (xs ys : List Op) : billOf logs (xs ++ ys) = billOf logs xs + billOf logs ys := by
  simp [billOf]

@[simp] theorem billOf_singleton (op : Op) : billOf logs [op] = op.bill logs := by
  simp [billOf]

@[simp] theorem spendsOf_nil : spendsOf [] = [] := rfl

@[simp] theorem spendsOf_append (xs ys : List Op) : spendsOf (xs ++ ys) = spendsOf xs ++ spendsOf ys := by
  simp [spendsOf]

theorem Op.bill_of_idle {op : Op} (idle : op.spends = false) : op.bill logs = 0 := by
  obtain ⟨update, step⟩ := op
  cases update with
  | call | create | create2 | nested => cases idle
  | _ => rfl

theorem idle_slice (step : Nat) (target : Address) (w : Walk) :
    billOf logs (w.slice step target) = 0 ∧ spendsOf (w.slice step target) = [] := by
  have idle : ∀ op ∈ w.slice step target, op.spends = false := by
    intro op member
    obtain ⟨e, -, rfl⟩ := List.mem_map.mp member
    rfl
  constructor
  · refine List.sum_eq_zero ?_
    intro bill member
    obtain ⟨op, inside, rfl⟩ := List.mem_map.mp member
    exact Op.bill_of_idle logs (idle op inside)
  · unfold spendsOf
    rw [List.map_eq_nil_iff, List.filter_eq_nil_iff]
    intro op member
    simp [idle op member]

/-! ### Frames -/

/-- The figures a frame has gathered. -/
def WalkFrame.bill (f : WalkFrame) : Bill := (f.callGas, f.calleeGas, f.createGas)

/-- What a call or create owes once its caller resumes with `resume` gas left. -/
def owed (emittedCallGas : Option UInt64) (create : Bool) (gasCost : UInt64) (entry : Option UInt64)
    (resume : UInt64) : Bill :=
  match emittedCallGas with
  | none => 0
  | some gas =>
    if create then (0, 0, satSub gas resume)
    else (satSub gas resume, calleeGas (satSub gas resume) gasCost entry, 0)

/-- What a frame was opened with that its bill depends on. -/
structure Terms (f f' : WalkFrame) : Prop where
  entryGas : f'.entryGas = f.entryGas
  callGasCost : f'.callGasCost = f.callGasCost
  emittedCallGas : f'.emittedCallGas = f.emittedCallGas
  emittedCreate : f'.emittedCreate = f.emittedCreate

theorem Terms.refl (f : WalkFrame) : Terms f f := ⟨rfl, rfl, rfl, rfl⟩

theorem Terms.trans {f f' f'' : WalkFrame} (first : Terms f f') (second : Terms f' f'') : Terms f f'' :=
  ⟨second.entryGas.trans first.entryGas, second.callGasCost.trans first.callGasCost,
    second.emittedCallGas.trans first.emittedCallGas, second.emittedCreate.trans first.emittedCreate⟩

theorem Kept.terms {f f' : WalkFrame} (kept : Kept f f') : Terms f f' := by
  rw [kept.same]
  exact ⟨rfl, rfl, rfl, rfl⟩

theorem Returned.terms {flag : U256} {f g g' : WalkFrame} (returned : Returned flag f g g') : Terms g g' := by
  cases returned with
  | absorbed kept | discarded kept | merged kept | retracted kept =>
    obtain ⟨entryGas, callGasCost, emittedCallGas, emittedCreate⟩ := kept.terms
    exact ⟨entryGas, callGasCost, emittedCallGas, emittedCreate⟩

theorem bill_forget (programs : List ProgramState) (journal : Journal) (f : WalkFrame) :
    (forgetSlots programs journal f).bill = f.bill := by
  rw [forgetSlots_eq]
  rfl

theorem bill_absorb (f g : WalkFrame) : (f.absorb g).bill = g.bill + f.bill := rfl

theorem bill_charge (create : Bool) (gas callee : UInt64) (f : WalkFrame) :
    (f.charge create gas callee).bill = f.bill + if create then (0, 0, gas) else (gas, callee, 0) := by
  cases create <;> simp [WalkFrame.charge, WalkFrame.bill]

theorem bill_chargeCall (create : Bool) (gas callee : UInt64) (w : Walk) :
    (chargeCall create gas callee w).top.bill = w.top.bill + if create then (0, 0, gas) else (gas, callee, 0) := by
  unfold chargeCall
  rw [(chargeProgram_frames gas _).1]
  exact bill_charge create gas callee w.top

theorem bill_chargeReturn (log : StructLog) (frame : WalkFrame) (w : Walk) :
    (chargeReturn log frame w).top.bill = w.top.bill +
      owed frame.emittedCallGas frame.emittedCreate frame.callGasCost (some frame.entryGas) log.gas := by
  unfold chargeReturn
  cases frame.emittedCallGas with
  | none => exact (add_zero w.top.bill).symm
  | some gas => exact bill_chargeCall _ _ _ w

/-! ### Returning -/

variable {H : Hashes} {elig : Eligibility} {candidates : OrdMap Nat Candidate} {n : Nat} {log next : StructLog}
variable {w w' : Walk}

theorem bill_closeFrame (success : Bool) (frame : WalkFrame) (w : Walk) :
    (closeFrame success frame w).top.bill = w.top.bill + (if success then frame.bill else 0) ∧
      (closeFrame success frame w).below.map WalkFrame.bill = w.below.map WalkFrame.bill := by
  unfold closeFrame
  cases success with
  | false => exact ⟨(add_zero _).symm, rfl⟩
  | true =>
    simp only [if_true]
    split
    · exact ⟨bill_absorb frame w.top, rfl⟩
    · refine ⟨?_, ?_⟩
      · show (frame.absorb (forgetSlots w.programs frame.journal w.top)).bill = _
        rw [bill_absorb, bill_forget]
      · show (w.below.map (forgetSlots w.programs frame.journal)).map WalkFrame.bill = _
        rw [List.map_map]
        exact List.map_congr_left fun f _ => bill_forget w.programs frame.journal f

theorem bill_closeNested {start : UInt64} {success : Bool} {frame : WalkFrame}
    (closed : closeNested start success log frame w = .ok w') :
    w'.top.bill = w.top.bill ∧ w'.below.map WalkFrame.bill = w.below.map WalkFrame.bill := by
  unfold closeNested at closed
  obtain ⟨id, -, closed⟩ := Outcome.bind_ok closed
  split at closed
  · obtain rfl := Except.ok.inj closed
    obtain ⟨top, below, -⟩ := chargeProgram_frames (satSub start log.gas)
      (modifyProgram id (ProgramState.finish (satSub start log.gas) frame) w)
    generalize chargeProgram (satSub start log.gas)
      (modifyProgram id (ProgramState.finish (satSub start log.gas) frame) w) = v at top below ⊢
    refine ⟨?_, ?_⟩
    · show (forgetSlots v.programs frame.journal v.top).bill = _
      rw [bill_forget, top]
      rfl
    · show (v.below.map (forgetSlots v.programs frame.journal)).map WalkFrame.bill = _
      rw [List.map_map, below]
      exact List.map_congr_left fun f _ => bill_forget v.programs frame.journal f
  · split at closed
    · obtain rfl := Except.ok.inj closed
      exact ⟨rfl, rfl⟩
    · cases closed

/-- A frame that returns is charged to its caller, and hands on what it gathered unless it failed or has a program of
its own. -/
theorem bill_popFrame {step : Nat} {g : WalkFrame} {rest : List WalkFrame} {flag : U256} (below : w.below = g :: rest)
    (flagged : log.flag = some flag) (popped : popFrame step log w = .ok w') :
    w'.top.bill = g.bill +
        owed w.top.emittedCallGas w.top.emittedCreate w.top.callGasCost (some w.top.entryGas) log.gas +
        (if flag ≠ 0 ∧ w.top.nestedStartGas = none then w.top.bill else 0) ∧
      w'.below.map WalkFrame.bill = rest.map WalkFrame.bill := by
  unfold popFrame at popped
  split at popped
  · cases popped
  · obtain ⟨stack, hasStack, popped⟩ := Outcome.bind_ok popped
    obtain ⟨flag', hasFlag, popped⟩ := Outcome.bind_ok popped
    obtain ⟨v, sliced, popped⟩ := Outcome.bind_ok popped
    rw [Outcome.okOr_ok] at hasStack hasFlag
    obtain rfl : flag' = flag := by
      simpa [StructLog.flag, hasStack, hasFlag] using flagged
    -- The last slice of a frame of its own is no call.
    have slice : v.below = w.below ∧ v.top.bill = w.top.bill ∧ Terms w.top v.top ∧
        v.top.nestedStartGas = w.top.nestedStartGas := by
      unfold lastSlice at sliced
      split at sliced
      · obtain ⟨id, p, -, -, rfl⟩ := flushSlice_ok sliced
        exact ⟨rfl, rfl, ⟨rfl, rfl, rfl, rfl⟩, rfl⟩
      · obtain rfl := Except.ok.inj sliced
        exact ⟨rfl, rfl, Terms.refl _, rfl⟩
    obtain ⟨same, bill, terms, nested⟩ := slice
    rw [same, below] at popped
    dsimp only at popped
    unfold returnFrame at popped
    split at popped
    · cases popped
    · rw [← terms.emittedCallGas, ← terms.emittedCreate, ← terms.callGasCost, ← terms.entryGas, ← nested, ← bill]
      have kept : ∀ u : Walk, u.top = g → u.below = rest →
          (chargeReturn log v.top u).top.bill = g.bill +
            owed v.top.emittedCallGas v.top.emittedCreate v.top.callGasCost (some v.top.entryGas) log.gas ∧
          (chargeReturn log v.top u).below = rest := by
        intro u top others
        refine ⟨?_, (chargeReturn_frames log v.top u).2.1.trans others⟩
        rw [bill_chargeReturn, top]
      have charged := kept (if decide (flag' ≠ 0) then v.leave g rest else
        dropOpened v.top.firstProgram (v.leave g rest)) (by split <;> rfl) (by split <;> rfl)
      generalize chargeReturn log v.top _ = u at charged popped
      split at popped
      · rename_i start isNested
        obtain ⟨top, others⟩ := bill_closeNested popped
        rw [top, others, charged.1, charged.2, isNested, if_neg (by simp), add_zero]
        exact ⟨rfl, rfl⟩
      · rename_i plain
        obtain rfl := Except.ok.inj popped
        obtain ⟨top, others⟩ := bill_closeFrame (decide (flag' ≠ 0)) v.top u
        rw [top, others, charged.1, charged.2]
        refine ⟨?_, rfl⟩
        congr 1
        simp [plain]

/-! ### Executing -/

/-- An un-errored call or create. -/
def StructLog.spends (log : StructLog) : Bool := !log.errored && (log.op == .call || log.op.isCreate)

theorem StructLog.opens_of_spends {log : StructLog} (spends : log.spends = true) :
    log.errored = false ∧ log.op.opensFrame = true ∧ log.op.isDelegate = false := by
  obtain ⟨fine, kind⟩ := Bool.and_eq_true_iff.mp spends
  refine ⟨by simpa using fine, ?_⟩
  revert kind
  cases log.op <;> simp [Opcode.isCreate, Opcode.opensFrame, Opcode.isDelegate]

/-- The un-errored calls and creates of a frame and of its delegate frames that succeed. -/
def CallTree.spendSteps (n : Nat) (t : CallTree) : List Nat :=
  ((t.closure CallTree.succeeds n).filter (fun x => x.2.spends)).map Prod.fst

/-- What executing a step adds to its frame, and what the call it makes will owe. -/
structure Spent (n : Nat) (log : StructLog) (w w' : Walk) (ops : List Op) : Prop where
  out : w'.top.out = w.top.out ++ ops
  native : w.top.program = none → ops = []
  spends : (spendsOf ops).Sublist (if log.spends then [n] else [])
  bill : w'.top.bill = w.top.bill
  terms : Terms w.top w'.top
  idle : w'.pending = none → billOf logs ops = 0
  waits : ∀ p, w'.pending = some p → ∀ resume entry, nativeGasAt logs n = satSub log.gas resume →
    calleeGasAt logs n = calleeGas (satSub log.gas resume) log.gasCost entry →
    billOf logs ops = owed p.emittedCallGas p.emittedCreate p.callGasCost entry resume

variable {logs}

theorem Spent.nothing {v : Walk} (top : v.top.out = w.top.out) (bill : v.top.bill = w.top.bill) (terms : Terms w.top v.top)
    (quiet : ∀ p, v.pending = some p → p.emittedCallGas = none) : Spent logs n log w v [] where
  out := by rw [top, List.append_nil]
  native _ := rfl
  spends := List.nil_sublist _
  bill := bill
  terms := terms
  idle _ := rfl
  waits p waits resume entry _ _ := by rw [quiet p waits]; rfl

theorem Executed.spent (executed : Executed H elig candidates n log w w') (free : w.pending = none)
    (carries : log.memory.isSome = true) : ∃ ops, Spent logs n log w w' ops := by
  obtain ⟨words, memory⟩ := Option.isSome_iff_exists.mp carries
  cases executed with
  | quiet | unowned => exact ⟨[], .nothing rfl rfl (.refl _) (by simp [free])⟩
  | stored =>
    refine ⟨[], .nothing ?_ ?_ ?_ ?_⟩
    · rw [Walk.stored_top]
      rfl
    · rw [Walk.stored_top]
      rfl
    · rw [Walk.stored_top]
      exact ⟨rfl, rfl, rfl, rfl⟩
    · simp [free]
  | delegated | observed | called | creates =>
    refine ⟨[], .nothing rfl rfl (.refl _) ?_⟩
    intro p waits
    obtain rfl := Option.some.inj waits
    rfl
  | @logged id update skipped kind fine emits decoded =>
    obtain ⟨u, same, opcode, -⟩ := decodeStructLog_effect decoded (by simp [effectful, kind]) memory
    injection same with same _
    subst same
    have idle : Op.spends ⟨u, n⟩ = false := by
      cases u with
      | call | create | create2 | nested =>
        rw [← opcode] at kind
        cases kind
      | _ => rfl
    refine ⟨[⟨u, n⟩], rfl, fun native => ?_, by simp [spendsOf, idle], rfl, ⟨rfl, rfl, rfl, rfl⟩, fun _ => ?_, ?_⟩
    · rw [emits] at native
      cases native
    · rw [billOf_singleton, Op.bill_of_idle logs idle]
    · intro p waits
      change w.pending = some p at waits
      rw [free] at waits
      cases waits
  | @emitted id p c kind fine emits found decoded callee stays =>
    obtain ⟨noBill, noSpend⟩ := idle_slice logs n p.target w
    refine ⟨w.slice n p.target ++ [⟨.call c, n⟩], ?_, fun native => ?_, ?_, rfl, ⟨rfl, rfl, rfl, rfl⟩, fun idle => ?_, ?_⟩
    · simp [WalkFrame.emit, Walk.sliced_out]
    · rw [emits] at native
      cases native
    · rw [spendsOf_append, noSpend, StructLog.spends, fine, kind]
      exact List.Sublist.refl _
    · cases idle
    · intro q waits resume entry native callee
      obtain rfl := Option.some.inj waits
      rw [billOf_append, noBill, billOf_singleton, zero_add]
      show (nativeGasAt logs n, calleeGasAt logs n, 0) = _
      rw [native, callee]
      rfl
  | @opened id p c index kind fine emits found decoded callee handed =>
    obtain ⟨noBill, noSpend⟩ := idle_slice logs n p.target w
    refine ⟨w.slice n p.target ++ [⟨.nested ⟨c.target, c.value, 0⟩, n⟩], ?_, fun native => ?_, ?_, rfl,
      ⟨rfl, rfl, rfl, rfl⟩, fun idle => ?_, ?_⟩
    · simp [openNested, WalkFrame.emit, Walk.sliced_out]
    · rw [emits] at native
      cases native
    · rw [spendsOf_append, noSpend, StructLog.spends, fine, kind]
      exact List.Sublist.refl _
    · cases idle
    · intro q waits resume entry _ _
      obtain rfl := Option.some.inj waits
      rw [billOf_append, noBill, billOf_singleton, zero_add]
      rfl
  | @deployed id p update kind fine emits found decoded =>
    obtain ⟨noBill, noSpend⟩ := idle_slice logs n p.target w
    obtain ⟨u, same, opcode, -⟩ := decodeStructLog_effect decoded (by simp [effectful, kind]) memory
    injection same with same _
    subst same
    have creates : Op.spends ⟨u, n⟩ = true ∧ Op.bill logs ⟨u, n⟩ = (0, 0, nativeGasAt logs n) := by
      cases u with
      | create | create2 => exact ⟨rfl, rfl⟩
      | _ =>
        rw [← opcode] at kind
        cases kind
    refine ⟨w.slice n p.target ++ [⟨u, n⟩], ?_, fun native => ?_, ?_, rfl, ⟨rfl, rfl, rfl, rfl⟩, fun idle => ?_, ?_⟩
    · simp [Walk.sliced_out]
    · rw [emits] at native
      cases native
    · rw [spendsOf_append, noSpend, StructLog.spends, fine, kind]
      simp [spendsOf, creates.1]
    · cases idle
    · intro q waits resume entry native _
      obtain rfl := Option.some.inj waits
      rw [billOf_append, noBill, billOf_singleton, zero_add, creates.2, native]
      rfl

/-- A call that opens no frame pays when the next step arrives. -/
theorem bill_enterPending {p : PendingFrame} (waits : w.pending = some p) (elsewhere : next.depth ≠ p.parentDepth + 1)
    (entered : enterPending next w = .ok w') :
    w'.top.bill = w.top.bill + owed p.emittedCallGas p.emittedCreate p.callGasCost none next.gas ∧
      Terms w.top w'.top ∧ w'.top.out = w.top.out ∧ w'.below = w.below := by
  cases enterPending_entered entered with
  | idle free =>
    rw [waits] at free
    cases free
  | pushed waits' deeper =>
    obtain rfl := Option.some.inj (waits.symm.trans waits')
    exact absurd deeper elsewhere
  | inline waits' _ plain _ kept below _ =>
    refine ⟨?_, kept.terms, kept.out, below⟩
    unfold enterPending at entered
    rw [waits] at entered
    simp only [if_neg elsewhere] at entered
    split at entered
    · cases entered
    · split at entered
      · cases entered
      · split at entered
        · rename_i free
          obtain rfl := Except.ok.inj entered
          rw [free]
          exact (add_zero w.top.bill).symm
        · rename_i gas charged
          obtain rfl := Except.ok.inj entered
          rw [charged]
          exact bill_chargeCall _ _ _ _

/-! ### Walking -/

theorem CallTree.spendSteps_step (n : Nat) (log : StructLog) (rest : CallTree) :
    (step log rest).spendSteps n = (if log.spends then [n] else []) ++ rest.spendSteps (n + 1) := by
  unfold spendSteps
  rw [closure, List.filter_cons]
  split <;> rfl

theorem CallTree.spendSteps_enter (n : Nat) (call : StructLog) (body rest : CallTree) :
    (enter call body rest).spendSteps n = ((if call.spends then [n] else []) ++
      if call.op.isDelegate && rest.succeeds then body.spendSteps (n + 1) else []) ++
        rest.spendSteps (n + 1 + body.size) := by
  unfold spendSteps
  rw [closure, List.filter_cons, List.filter_append]
  cases call.spends <;> cases call.op.isDelegate && rest.succeeds <;> simp

variable (logs) in
/-- What a part of the walk adds to its frame, `steps` being those it may emit calls and creates at. -/
structure Billed (steps : List Nat) (w w' : Walk) (ops : List Op) : Prop where
  out : w'.top.out = w.top.out ++ ops
  native : w.top.program = none → ops = []
  spends : (spendsOf ops).Sublist steps
  bill : w'.top.bill = w.top.bill + billOf logs ops
  terms : Terms w.top w'.top
  below : w'.below.map WalkFrame.bill = w.below.map WalkFrame.bill

theorem Billed.trans {steps steps' : List Nat} {w'' : Walk} {ops ops' : List Op} (first : Billed logs steps w w' ops)
    (second : Billed logs steps' w' w'' ops') (program : w'.top.program = w.top.program) :
    Billed logs (steps ++ steps') w w'' (ops ++ ops') where
  out := by rw [second.out, first.out, List.append_assoc]
  native is := by rw [first.native is, second.native (program.trans is)]; rfl
  spends := by rw [spendsOf_append]; exact first.spends.append second.spends
  bill := by rw [second.bill, first.bill, billOf_append, add_assoc]
  terms := first.terms.trans second.terms
  below := second.below.trans first.below

theorem billed_inline {d : Nat} {rest : CallTree} {tail : List StructLog} {w₁ : Walk}
    (executed : exec H elig candidates n log w = .ok w₁) (free : w.pending = none)
    (wf : (CallTree.step log rest).WellFormed d) (here : logs.drop n = (CallTree.step log rest).flatten ++ tail)
    (head : rest.head? = some next) (level : next.depth = log.depth) (entered : enterPending next w₁ = .ok w') :
    ∃ ops, Billed logs (if log.spends then [n] else []) w w' ops := by
  have step := exec_executed executed
  obtain ⟨ops, spent⟩ : ∃ ops, Spent logs n log w w₁ ops := step.spent free wf.1.memory
  refine ⟨ops, ?_⟩
  cases waits : w₁.pending with
  | none =>
    have same : w' = w₁ := by
      unfold enterPending at entered
      rw [waits] at entered
      exact (Except.ok.inj entered).symm
    rw [same]
    refine ⟨spent.out, spent.native, spent.spends, ?_, spent.terms, by rw [step.place.1]⟩
    rw [spent.bill, spent.idle waits, add_zero]
  | some p =>
    have elsewhere : next.depth ≠ p.parentDepth + 1 := by
      rw [step.waits free waits, level]
      simp
    obtain ⟨fine, opens⟩ := (step.pending free).mp (by rw [waits]; rfl)
    obtain ⟨native, callee⟩ := resumed_step here wf fine opens head
    obtain ⟨bill, terms, out, below⟩ := bill_enterPending waits elsewhere entered
    refine ⟨out.trans spent.out, spent.native, spent.spends, ?_, spent.terms.trans terms, by rw [below, step.place.1]⟩
    rw [bill, spent.bill, spent.waits p waits next.gas none native callee]

theorem billed_enter {d step : Nat} {call first : StructLog} {body rest : CallTree} {tail : List StructLog}
    {p : PendingFrame} {w₁ w₂ w₃ : Walk} {steps : List Nat} {ops : List Op}
    (executed : Executed H elig candidates n call w w₁) (free : w.pending = none)
    (wf : (CallTree.enter call body rest).WellFormed d)
    (here : logs.drop n = (CallTree.enter call body rest).flatten ++ tail) (waits : w₁.pending = some p)
    (bodyHead : body.head? = some first) (ran : Frames (pushFrame p first { w₁ with pending := none }) w₂)
    (inner : Billed logs steps (pushFrame p first { w₁ with pending := none }) w₂ ops)
    (resumes : rest.head? = some next) (popped : popFrame step next w₂ = .ok w₃) :
    ∃ ops, Billed logs ((if call.spends then [n] else []) ++
      if call.op.isDelegate && rest.succeeds then steps else []) w w₃ ops := by
  obtain ⟨head, spent⟩ : ∃ ops, Spent logs n call w w₁ ops := executed.spent free wf.1.memory
  obtain ⟨g, others, flag, flagged, caller, -, pop⟩ := popped_of_frames ran popped
  have success := CallTree.succeeds_of_flag resumes flagged
  obtain ⟨billG, billOthers⟩ : g.bill = w₁.top.bill ∧ others.map WalkFrame.bill = w₁.below.map WalkFrame.bill := by
    have below := inner.below
    rw [pop.below] at below
    exact List.cons.inj below
  obtain ⟨bill, below⟩ := bill_popFrame pop.below flagged popped
  obtain ⟨native, callee⟩ := resumed_enter here wf bodyHead resumes
  have owes : owed w₂.top.emittedCallGas w₂.top.emittedCreate w₂.top.callGasCost (some w₂.top.entryGas) next.gas =
      billOf logs head := by
    rw [spent.waits p waits next.gas (some first.gas) native callee, inner.terms.emittedCallGas,
      inner.terms.emittedCreate, inner.terms.callGasCost, inner.terms.entryGas]
    rfl
  have nested : w₂.top.nestedStartGas = p.nestedStartGas := ran.top.nestedStartGas
  have outG : g.out = w.top.out ++ head := by rw [caller.out, spent.out]
  have terms : Terms w.top w₃.top := (spent.terms.trans caller.terms).trans pop.returned.terms
  have stays : w₃.below.map WalkFrame.bill = w.below.map WalkFrame.bill := by
    rw [below, billOthers, executed.place.1]
  have innerBill : w₂.top.bill = billOf logs ops := by
    rw [inner.bill]
    exact zero_add _
  have innerOut : w₂.top.out = ops := inner.out
  rw [billG, spent.bill, owes, innerBill] at bill
  have only : ∀ {xs ys : List Nat}, (spendsOf head).Sublist xs → (spendsOf head).Sublist (xs ++ ys) :=
    fun sub => sub.trans (List.sublist_append_left _ _)
  have returned := pop.returned
  generalize isTop : w₃.top = g'' at returned
  cases returned with
  | absorbed kept succ plain =>
    rw [if_pos ⟨succ, plain⟩, add_assoc, ← billOf_append] at bill
    refine ⟨head ++ ops, ?_, ?_, ?_, bill, terms, stays⟩
    · rw [isTop]
      show _ ++ w₂.top.out = _
      rw [kept.out, outG, innerOut, List.append_assoc]
    · intro is
      rw [spent.native is]
      apply inner.native
      show p.program = none
      cases executed.role free waits with
      | delegate _ _ same => exact same.trans is
      | native _ _ none _ => exact none
      | own _ _ emits _ => exact absurd is emits
    · rw [spendsOf_append]
      refine spent.spends.append ?_
      cases executed.role free waits with
      | delegate kind _ _ =>
        rw [kind, success, decide_eq_true succ]
        exact inner.spends
      | native _ _ none _ =>
        rw [inner.native none]
        exact List.nil_sublist _
      | own _ isNested _ _ =>
        rw [← nested, plain] at isNested
        cases isNested
  | discarded kept failure plain =>
    rw [if_neg (fun both => both.1 failure), add_zero] at bill
    exact ⟨head, by rw [isTop, kept.out, outG], spent.native, only spent.spends, bill, terms, stays⟩
  | merged kept succ isNested =>
    have own : ¬(flag ≠ 0 ∧ w₂.top.nestedStartGas = none) := by
      rintro ⟨-, plain⟩
      rw [plain] at isNested
      cases isNested
    rw [if_neg own, add_zero] at bill
    refine ⟨head, ?_, spent.native, only spent.spends, bill, terms, stays⟩
    rw [isTop]
    exact kept.out.trans outG
  | @retracted g₁ kept' x st kept failure isNested last =>
    rw [if_neg (fun both => both.1 failure), add_zero] at bill
    rw [outG] at last
    -- The op retracted is the one this call emitted, not an earlier one of the frame.
    have emitted : head ≠ [] := by
      intro empty
      cases executed.role free waits with
      | delegate _ plain _ | native _ plain _ _ =>
        rw [nested, plain] at isNested
        cases isNested
      | own kind _ emits handed =>
        obtain ⟨ops', out, -, -, nests⟩ := executed.emission
        have same : ops' = head := List.append_cancel_left (out.symm.trans spent.out)
        have one := nests emits
        rw [same, empty, StructLog.isCall, kind, wf.2.1] at one
        rw [show handedTo elig candidates n call = true from handed] at one
        cases one
    obtain ⟨head', op, rfl⟩ := (List.eq_nil_or_concat head).resolve_left emitted
    rw [List.concat_eq_append, ← List.append_assoc] at last
    obtain ⟨same, isLast⟩ := List.append_inj' last rfl
    obtain rfl := List.singleton_inj.mp isLast
    have spends := spent.spends
    rw [List.concat_eq_append] at bill spends
    rw [billOf_append, billOf_singleton] at bill
    rw [spendsOf_append] at spends
    refine ⟨head', ?_, ?_, ?_, ?_, terms, stays⟩
    · rw [isTop]
      exact same.symm
    · intro is
      have none := spent.native is
      rw [List.concat_eq_append] at none
      simp at none
    · exact ((List.sublist_append_left _ _).trans spends).trans (List.sublist_append_left _ _)
    · rw [bill]
      show _ + (billOf logs head' + 0) = _
      rw [add_zero]

theorem Walked.billed {d : Nat} {t : CallTree} {tail : List StructLog} (walked : Walked H elig candidates n t w w')
    (wf : t.WellFormed d) (here : logs.drop n = t.flatten ++ tail) (free : w.pending = none) :
    ∃ ops, Billed logs (t.spendSteps n) w w' ops := by
  induction walked generalizing d tail with
  | done => exact ⟨[], by simp, fun _ => rfl, List.nil_sublist _, (add_zero _).symm, Terms.refl _, rfl⟩
  | @last n log w w' executed free' =>
    have step := exec_executed executed
    obtain ⟨ops, spent⟩ : ∃ ops, Spent logs n log w w' ops := step.spent free wf.1.memory
    refine ⟨ops, spent.out, spent.native, ?_, ?_, spent.terms, by rw [step.place.1]⟩
    · rw [CallTree.spendSteps_step]
      exact spent.spends.trans (List.sublist_append_left _ _)
    · rw [spent.bill, spent.idle free', add_zero]
  | @step n log next rest w w₁ w₂ w' executed head level entered tail' ih =>
    have inline := frames_inline free executed level entered
    have later := CallTree.drop_step here
    obtain ⟨ops, first⟩ := billed_inline executed free wf here head level entered
    obtain ⟨ops', second⟩ := ih wf.2.2 later inline.free
    rw [CallTree.spendSteps_step]
    exact ⟨_, first.trans second inline.top.program⟩
  | @enter n call first next body rest p w w₁ w₂ w₃ w' executed waits head inner resumes popped tail'
      ihInner ihTail =>
    have step := exec_executed executed
    have ran := inner.frames rfl
    have later := CallTree.drop_body here
    have after := CallTree.drop_rest here
    obtain ⟨ops, during⟩ := ihInner wf.2.2.2.2.1 later rfl
    obtain ⟨ops', entering⟩ := billed_enter step free wf here waits head ran during resumes popped
    obtain ⟨g, others, flag, -, -, -, pop⟩ := popFrame_popped popped
    obtain ⟨ops'', leaving⟩ := ihTail wf.2.2.2.2.2.2 after (pop.pending.trans ran.free)
    have program : w₃.top.program = w.top.program :=
      (program_of_frames ran popped).trans step.place.2.program
    rw [CallTree.spendSteps_enter]
    exact ⟨_, entering.trans leaving program⟩

/-! ### Finished programs -/

/-- The figures of the ops a program emitted itself. -/
def ProgramState.directBill (p : ProgramState) : Bill := (p.directCallGas, p.directCalleeGas, p.directCreateGas)

/-- The figures of the program's own call. -/
def ProgramState.nativeBill (p : ProgramState) : Bill := (p.nativeGas, p.nativeCalleeGas, 0)

variable (logs) in
/-- A finished program is charged for its ops, and its call for the gas it took. -/
structure Accounted (p : ProgramState) : Prop where
  unpruned : p.pruned = false
  direct : ∀ ops, p.updates = some ops → p.directBill = billOf logs ops
  native : ∀ ops, p.updates = some ops → ∀ c, p.nativeBill = Op.bill logs ⟨.call c, p.step⟩

theorem Accounted.fresh {p : ProgramState} (unpruned : p.pruned = false) (none : p.updates = none) :
    Accounted logs p := by
  refine ⟨unpruned, ?_, ?_⟩
  · intro ops updates
    rw [none] at updates
    cases updates
  · intro ops updates
    rw [none] at updates
    cases updates

theorem Executed.accounted (executed : Executed H elig candidates n log w w')
    (accounted : ∀ p ∈ w.texts, Accounted logs p) : ∀ p ∈ w'.texts, Accounted logs p := by
  intro p member
  rcases executed.texts with same | ⟨id, parent, c, index, -, -, -, -, -, -, texts⟩
  · rw [same] at member
    exact accounted p member
  · rw [texts] at member
    rcases List.mem_append.mp member with old | new
    · exact accounted p old
    · rw [List.mem_singleton.mp new]
      exact .fresh rfl rfl

/-- The program of a frame of its own that returns is charged for what the frame emitted. -/
theorem Accounted.finish {d : Nat} {call first : StructLog} {body rest : CallTree} {tail : List StructLog}
    {frame : WalkFrame} {q : ProgramState} (fresh : Accounted logs q) (step : q.step = n)
    (wf : (CallTree.enter call body rest).WellFormed d)
    (here : logs.drop n = (CallTree.enter call body rest).flatten ++ tail) (bodyHead : body.head? = some first)
    (head : rest.head? = some next) (cost : frame.callGasCost = call.gasCost) (entry : frame.entryGas = first.gas)
    (bill : frame.bill = billOf logs frame.out) : Accounted logs (q.finish (satSub call.gas next.gas) frame) := by
  obtain ⟨native, callee⟩ := resumed_enter here wf bodyHead head
  refine ⟨fresh.unpruned, ?_, ?_⟩
  · intro ops updates
    obtain rfl := Option.some.inj updates
    exact bill
  · intro ops _ c
    show (satSub call.gas next.gas, calleeGas (satSub call.gas next.gas) frame.callGasCost (some frame.entryGas), 0) =
      (nativeGasAt logs q.step, calleeGasAt logs q.step, 0)
    rw [cost, entry, step, native, callee]

theorem Walked.accounted {d : Nat} {t : CallTree} {tail : List StructLog} (walked : Walked H elig candidates n t w w')
    (wf : t.WellFormed d) (here : logs.drop n = t.flatten ++ tail) (free : w.pending = none)
    (accounted : ∀ p ∈ w.texts, Accounted logs p) : ∀ p ∈ w'.texts, Accounted logs p := by
  induction walked generalizing d tail with
  | done => exact accounted
  | last executed _ => exact (exec_executed executed).accounted accounted
  | @step n log next rest w w₁ w₂ w' executed head level entered tail' ih =>
    have later := CallTree.drop_step here
    refine ih wf.2.2 later (frames_inline free executed level entered).free ?_
    rw [texts_enterPending entered]
    exact (exec_executed executed).accounted accounted
  | @enter n call first next body rest p w w₁ w₂ w₃ w' executed waits head inner resumes popped tail'
      ihInner ihTail =>
    have step := exec_executed executed
    have ran := inner.frames rfl
    have later := CallTree.drop_body here
    have after := CallTree.drop_rest here
    have innerWf := wf.2.2.2.2.1
    have during : ∀ q ∈ w₂.texts, Accounted logs q := ihInner innerWf later rfl (step.accounted accounted)
    obtain ⟨g, others, flag', -, -, -, pop⟩ := popFrame_popped popped
    refine ihTail wf.2.2.2.2.2.2 after (pop.pending.trans ran.free) ?_
    obtain ⟨flag, -, returns⟩ := texts_popFrame popped
    split at returns
    · rename_i success
      obtain ⟨id, q, start, program, found, starts, closes⟩ := returns
      rw [closes]
      intro x member
      obtain ⟨i, foundX⟩ := List.mem_iff_getElem?.mp member
      obtain ⟨q₀, here₀, same⟩ := found_modify foundX
      have fresh := during q₀ (List.mem_of_getElem? here₀)
      split at same
      · rename_i isId
        subst isId
        -- Only the frame this call opened has its own program, and that program stands for this call.
        rcases step.texts with still | ⟨id', p', c, index, -, -, -, -, -, rfl, texts⟩
        · have plain := step.plain free still waits
          rw [ran.top.nestedStartGas.trans plain] at starts
          cases starts
        · obtain ⟨ops, billed⟩ : ∃ ops, Billed logs (body.spendSteps (n + 1)) _ w₂ ops := inner.billed innerWf later rfl
          have isProgram := ran.top.program.symm.trans program
          have isStart := ran.top.nestedStartGas.symm.trans starts
          obtain rfl := Option.some.inj waits
          obtain rfl : w.programs.length = id := Option.some.inj isProgram
          obtain rfl : call.gas = start := Option.some.inj isStart
          have own := (inner.opened rfl).old w.programs.length (by
            show _ < (openNested H n id' index c call { w with top := w.sliced n p'.target }).texts.length
            rw [texts, List.length_append, length_texts]
            exact Nat.lt_succ_self _)
          change w₂.texts[w.programs.length]? =
            (openNested H n id' index c call { w with top := w.sliced n p'.target }).texts[w.programs.length]? at own
          rw [texts, here₀, ← length_texts, List.getElem?_concat_length] at own
          rw [← same]
          refine fresh.finish ?_ wf here head resumes ?_ ?_ ?_
          · rw [Option.some.inj own]
            rfl
          · exact billed.terms.callGasCost
          · exact billed.terms.entryGas
          · have out : w₂.top.out = ops := billed.out
            have bill : w₂.top.bill = billOf logs ops := billed.bill.trans (zero_add _)
            show w₂.top.bill = _
            rw [Walk.sliced_out, billOf_append, (idle_slice logs _ _ w₂).1, add_zero, out, bill]
      · rw [← same]
        exact fresh
    · rw [returns]
      exact during

end GasAnalyzer
